import VoidGate.ExitStatus
import VoidGate.NeverBlackhole
import VoidGate.SteadyVerdicts

/-!
# Reads that race with writes

The program looks into the maps several times for one frame, and the daemon may write to
them between two of these reads. Unless it reloads, it does so in an order that hides this:
a prefix is in a drop map only while the gate is armed, and no drop map ever holds a
protected address. So a frame with one end at home gets the verdict that it would get at a
single moment while it was under way.
-/

namespace VoidGate

open Runs

/-- The reads of `voidgate_xdp` from the maps of the daemon. The fields of the array entry are read
through the pointer from `get_cfg`, when they are needed. -/
inductive XdpRead where
  | armed
  | allowSrc
  | allowDst
  | portDst
  | localDst
  | portSrc
  | localSrc
  | dhcpDst
  | dropSrc
  | dropDst

def XdpRead.rank : XdpRead → ℕ
  | .armed => 0
  | .allowSrc => 1
  | .allowDst => 2
  | .portDst => 3
  | .localDst => 4
  | .portSrc => 5
  | .localSrc => 6
  | .dhcpDst => 7
  | .dropSrc => 8
  | .dropDst => 9

section Program
variable (k : XdpRead → Kernel)

/-- `v4_tcp_allowed` and `v6_tcp_allowed`. -/
def racingTcpAllowed (p : Locals) : Bool :=
  (portAllowed (k .portDst).cfg p.ports.dport && inLpm (k .localDst) .localNets p.daddr) ||
    (portAllowed (k .portSrc).cfg p.ports.sport && inLpm (k .localSrc) .localNets p.saddr)

def racingExempted (p : Locals) : Bool :=
  match p.saddr.family with
  | .inet =>
    inLpm (k .allowSrc) .allow p.saddr || inLpm (k .allowDst) .allow p.daddr ||
      (p.proto == vgIpprotoTcp && racingTcpAllowed k p) ||
      (p.proto == vgIpprotoUdp && v4DhcpAllowed (k .dhcpDst) p.daddr p.ports.sport p.ports.dport)
  | .inet6 =>
    v6IsLinklocal p.saddr || v6IsLinklocal p.daddr || v6IsMcastLink p.saddr ||
      v6IsMcastLink p.daddr ||
      (p.hopLimit == vgNdiscHopLimit &&
        (vgNdiscRs ≤ p.ports.icmp6Type && p.ports.icmp6Type ≤ vgNdiscRedirect)) ||
      inLpm (k .allowSrc) .allow p.saddr || inLpm (k .allowDst) .allow p.daddr ||
      (p.proto == vgIpprotoTcp && racingTcpAllowed k p) ||
      (p.proto == vgIpprotoUdp && v6DhcpAllowed (k .dhcpDst) p.daddr p.ports.sport p.ports.dport)

/-- The verdict of `voidgate_xdp` when every read meets its own content of the maps. -/
def racingXdp (frame : List UInt8) : Verdict :=
  if (k .armed).cfg.armed = 0 then .pass
  else match xdpLocals frame with
    | none => .pass
    | some p =>
      if racingExempted k p then .pass
      else if inLpm (k .dropSrc) .drop p.saddr || inLpm (k .dropDst) .drop p.daddr then .drop
      else .pass

theorem racingXdp_drop_iff (frame : List UInt8) : racingXdp k frame = .drop ↔
    (k .armed).cfg.armed ≠ 0 ∧ ∃ p, xdpLocals frame = some p ∧ racingExempted k p = false ∧
      (inLpm (k .dropSrc) .drop p.saddr = true ∨ inLpm (k .dropDst) .drop p.daddr = true) := by
  rw [racingXdp]
  by_cases harmed : (k .armed).cfg.armed = 0
  · simp [harmed]
  cases xdpLocals frame with
  | none => simp
  | some p =>
    cases hexempt : racingExempted k p <;> cases hsrc : inLpm (k .dropSrc) .drop p.saddr <;>
      simp [harmed, hexempt, hsrc]

end Program

private theorem racingExempted_const (k : Kernel) (p : Locals) :
    racingExempted (fun _ => k) p = exempted k p := by
  rw [racingExempted, exempted]
  cases p.saddr.family <;> rfl

theorem racingXdp_const (s : XdpState) (frame : List UInt8) (room : HashRoom) :
    racingXdp (fun _ => s.kernel) frame = (voidgateXdp s frame room).2 := by
  refine Verdict.eq_of_drop_iff ?_
  simp only [racingXdp_drop_iff, voidgateXdp_drop_iff, racingExempted_const]

/-- A frame under way while the maps go through the contents `ks`. -/
structure Passage (ks : List Kernel) where
  moment : XdpRead → Fin ks.length
  mono : ∀ {r r' : XdpRead}, r.rank ≤ r'.rank → moment r ≤ moment r'

namespace Passage
variable {ks : List Kernel} (t : Passage ks)

def view (r : XdpRead) : Kernel := ks.get (t.moment r)

/-- Between the first read and the last. -/
def During (j : Fin ks.length) : Prop := t.moment .armed ≤ j ∧ j ≤ t.moment .dropDst

theorem during (r : XdpRead) : t.During (t.moment r) :=
  ⟨t.mono (Nat.zero_le _), t.mono (by cases r <;> decide)⟩

end Passage

/-- A content of the maps under the configuration `n`, whose allow and local maps are those of
`k₀`. -/
structure Settled (n : VgConfig) (k₀ k : Kernel) : Prop where
  entry : ∃ armed, k.cfg = cfgEntry armed n
  lpm : ∀ fd, (∀ f, fd ≠ .drop f) → k.lpm fd = k₀.lpm fd
  armed : ∀ x, inLpm k .drop x = true → k.cfg.armed ≠ 0
  clear : ∀ x, inLpm k .drop x = true → ∀ q ∈ n.protectedNets, ¬ q.Has x

namespace Settled
variable {n : VgConfig} {k₀ k k' : Kernel}

theorem portAllowed_eq (h : Settled n k₀ k) (port : UInt16) :
    portAllowed k.cfg port = portAllowed (cfgEntry 0 n) port := by
  obtain ⟨a, ha⟩ := h.entry
  rw [ha]
  rfl

theorem inLpm_allow (h : Settled n k₀ k) (x : IpAddr) : inLpm k .allow x = inLpm k₀ .allow x := by
  rw [inLpm, inLpm, h.lpm _ fun f => by simp]

theorem inLpm_localNets (h : Settled n k₀ k) (x : IpAddr) :
    inLpm k .localNets x = inLpm k₀ .localNets x := by
  rw [inLpm, inLpm, h.lpm _ fun f => by simp]

private theorem racingExempted_eq {ks : XdpRead → Kernel} (hks : ∀ r, Settled n k₀ (ks r))
    (h : Settled n k₀ k) (p : Locals) : racingExempted ks p = exempted k p := by
  rw [racingExempted, exempted]
  cases p.saddr.family with
  | inet =>
    simp only [racingTcpAllowed, v4Exempt, tcpAllowed, v4DhcpAllowed, (hks _).portAllowed_eq,
      (hks _).inLpm_allow, (hks _).inLpm_localNets, h.portAllowed_eq, h.inLpm_allow, h.inLpm_localNets]
  | inet6 =>
    simp only [racingTcpAllowed, v6Exempt, tcpAllowed, v6DhcpAllowed, (hks _).portAllowed_eq,
      (hks _).inLpm_allow, (hks _).inLpm_localNets, h.portAllowed_eq, h.inLpm_allow, h.inLpm_localNets]

theorem hits (h : Settled n k₀ k) {frame : List UInt8} {p : Locals} (hp : xdpLocals frame = some p)
    (hexempt : exempted k p = false)
    (hmatch : inLpm k .drop p.saddr = true ∨ inLpm k .drop p.daddr = true) : k.Hits frame :=
  ⟨hmatch.elim (h.armed _) (h.armed _), p, hp, hexempt, hmatch⟩

theorem commit (h : Settled n k₀ k) {armed : ℕ}
    (harmed : armed ≠ 0 ∨ ∀ x, inLpm k .drop x = false) :
    Settled n k₀ { k with cfg := cfgEntry armed n } where
  entry := ⟨armed, rfl⟩
  lpm := h.lpm
  armed x hx := harmed.elim id fun hno => absurd hx (Bool.eq_false_iff.mp (hno x))
  clear := h.clear

private theorem of_drop (h : Settled n k₀ k) (hcfg : k'.cfg = k.cfg)
    (hlpm : ∀ fd, (∀ f, fd ≠ .drop f) → k'.lpm fd = k.lpm fd)
    (hdrop : ∀ x, inLpm k' .drop x = true → inLpm k .drop x = true) : Settled n k₀ k' where
  entry := hcfg ▸ h.entry
  lpm fd hfd := (hlpm fd hfd).trans (h.lpm fd hfd)
  armed x hx := hcfg ▸ h.armed x (hdrop x hx)
  clear x hx := h.clear x (hdrop x hx)

end Settled

section Moments
variable {n : VgConfig} {k₀ : Kernel} {ks : List Kernel} (h : ∀ k ∈ ks, Settled n k₀ k)
  (t : Passage ks) {frame : List UInt8}
include h

theorem Passage.settled (j : Fin ks.length) : Settled n k₀ (ks.get j) := h _ (ks.get_mem j)

theorem Passage.racingExempted_view (p : Locals) (j : Fin ks.length) :
    racingExempted t.view p = exempted (ks.get j) p :=
  Settled.racingExempted_eq (fun _ => Passage.settled h _) (Passage.settled h j) p

private theorem Passage.hits_of_drop (hdrop : racingXdp t.view frame = .drop) :
    ∃ j, t.During j ∧ (ks.get j).Hits frame := by
  obtain ⟨-, p, hp, hexempt, hmatch⟩ := (racingXdp_drop_iff _ _).mp hdrop
  rcases hmatch with hsrc | hdst
  · refine ⟨t.moment .dropSrc, t.during _, (Passage.settled h _).hits hp ?_ (.inl hsrc)⟩
    rw [← t.racingExempted_view h, hexempt]
  · refine ⟨t.moment .dropDst, t.during _, (Passage.settled h _).hits hp ?_ (.inr hdst)⟩
    rw [← t.racingExempted_view h, hexempt]

/-- A pass is right at the moment of the first read, or else when the end that is not protected was
looked up. -/
private theorem Passage.exists_not_hits (hpass : racingXdp t.view frame ≠ .drop)
    (hends : ∀ p, xdpLocals frame = some p → ∃ q ∈ n.protectedNets, q.Has p.saddr ∨ q.Has p.daddr) :
    ∃ j, t.During j ∧ ¬ (ks.get j).Hits frame := by
  by_contra hall
  push Not at hall
  obtain ⟨harmed, p, hp, hexempt, -⟩ := hall _ (t.during .armed)
  rw [← t.racingExempted_view h] at hexempt
  refine hpass ((racingXdp_drop_iff _ _).mpr ⟨harmed, p, hp, hexempt, ?_⟩)
  obtain ⟨q, hq, hsrc | hdst⟩ := hends p hp
  · obtain ⟨-, p', hp', -, hmatch⟩ := hall _ (t.during .dropDst)
    obtain rfl := Option.some.inj (hp'.symm.trans hp)
    exact .inr (hmatch.resolve_left fun hx => (Passage.settled h _).clear _ hx q hq hsrc)
  · obtain ⟨-, p', hp', -, hmatch⟩ := hall _ (t.during .dropSrc)
    obtain rfl := Option.some.inj (hp'.symm.trans hp)
    exact .inl (hmatch.resolve_right fun hx => (Passage.settled h _).clear _ hx q hq hdst)

end Moments

section Daemon
variable {env : Env} {n : VgConfig} {k₀ : Kernel} {c c' : VgCtrl} {a : Act}

theorem not_has_of_unprotected {p : VgCidr} (hp : vgCidrIsProtected n p = false) {x : IpAddr}
    (hx : p.Has x) : ∀ q ∈ n.protectedNets, ¬ q.Has x := by
  intro q hq hqx
  rw [(vgCidrIsProtected_iff n p).mpr ⟨q, hq, x, hx, hqx⟩] at hp
  cases hp

theorem Settled.dropUpdated {k : Kernel} (h : Settled n k₀ k) (harmed : k.cfg.armed ≠ 0) {p : VgCidr}
    (hp : vgCidrIsProtected n p = false) (reason : Reason) (now : ℤ) :
    Settled n k₀ (dropUpdated env k p reason now) where
  entry := h.entry
  lpm fd hfd := (Kernel.setLpm_ne _ _ (hfd _)).trans (h.lpm fd hfd)
  armed _ _ := harmed
  clear x hx := by
    rcases (inLpm_dropUpdated env k p reason now x).mp hx with hpx | hold
    · exact not_has_of_unprotected hp hpx
    · exact h.clear x hold

theorem Settled.erase (k : Kernel) (f : Family) (p : VgCidr) (h : Settled n k₀ k) :
    Settled n k₀ (k.setLpm (.drop f) ((k.lpm (.drop f)).erase p)) :=
  h.of_drop rfl (fun _ hfd => Kernel.setLpm_ne _ _ (hfd _)) fun _ => inLpm_of_erase

/-- The state of the daemon while it runs with the configuration `n`. -/
structure BetweenReloads (n : VgConfig) (k₀ : Kernel) (c : VgCtrl) : Prop where
  cfg : c.cfg = n
  drops_ok : c.drops.Ok
  gate : GateAgrees c
  settled : Settled n k₀ c.maps.kernel

abbrev Settles (n : VgConfig) (k₀ k k' : Kernel) : Prop := Settled n k₀ k → Settled n k₀ k'

theorem Steers.settled {m m' : VgMaps} (h : Steers (Settles n k₀) m m') (hm : Settled n k₀ m.kernel) :
    (∃ added, m'.contents = added ++ m.contents ∧ ∀ k ∈ added, Settled n k₀ k) ∧
      Settled n k₀ m'.kernel := by
  induction h with
  | refl => exact ⟨⟨[], rfl, by simp⟩, hm⟩
  | @next m' k _ hk ih =>
    obtain ⟨⟨added, hcontents, hadded⟩, hm'⟩ := ih
    refine ⟨⟨k :: added, by simp [hcontents], ?_⟩, hk hm'⟩
    exact List.forall_mem_cons.mpr ⟨hk hm', hadded⟩

theorem Micro.settles (hfault : ∀ j, env.fault j = false) (hm : Micro env a c c')
    (ha : a.IsDrop ∨ a.IsLift) (h : BetweenReloads n k₀ c) :
    Steers (Settles n k₀) c.maps c'.maps := by
  have hcommit (m : VgMaps) (armed : ℕ) (harmed : armed ≠ 0 ∨ ∀ x, inLpm m.kernel .drop x = false) :
      Steers (Settles n k₀) m (vgCfgCommit env m armed c.cfg).1 := by
    rw [vgCfgCommit_eq, hfault, h.cfg]
    exact Steers.refl.next fun hk => hk.commit harmed
  cases hm with
  | books hb => exact hb.maps ▸ .refl
  | arm hs =>
    rw [vgCtrlArm_idle env hs]
    exact hcommit _ 1 (.inl one_ne_zero)
  | drop hs hp =>
    have harmed : c.maps.kernel.cfg.armed ≠ 0 := by simp [h.gate.armed.mpr hs]
    exact steers_dropListed (fun _ => id) h.drops_ok _ fun hk =>
      hk.dropUpdated harmed (h.cfg ▸ hp) _ _
  | lift hi => exact steers_dropRemove (fun _ => id) Settled.erase env c _
  | stray hf => exact steers_lpmDelete (fun _ => id) Settled.erase env _ _ _
  | disarm =>
    rw [vgCtrlDisarm_eq]
    refine (steers_vgDropFlush (fun _ => id) Settled.erase env c.maps).trans
      (hcommit _ 0 (.inr fun x => Bool.eq_false_iff.mpr fun hx => ?_))
    obtain ⟨q, hq, -⟩ := (inLpm_iff _ _ _).mp hx
    rw [(vgDropFlush_empty_iff _ _).mpr fun _ _ => hfault _] at hq
    cases hq
  | _ => exact (ha.elim id id).elim

private theorem BetweenReloads.micro (hfault : ∀ j, env.fault j = false) (h : BetweenReloads n k₀ c)
    (hm : Micro env a c c') (ha : a.IsDrop ∨ a.IsLift) : BetweenReloads n k₀ c' where
  cfg := by
    rw [hm.cfg_eq, h.cfg]
    rintro m rfl
    exact (ha.elim id id).elim
  drops_ok := hm.drops_ok h.drops_ok
  gate := hm.gateAgrees h.drops_ok h.gate
  settled := ((hm.settles hfault ha h).settled h.settled).2

private theorem isDrop_or_isLift {c₀ : VgCtrl} {cmd : Cmd} (hcmd : ∀ file nic, cmd ≠ .reload file nic)
    (h : CmdAct env c₀ cmd c a) : a.IsDrop ∨ a.IsLift := by
  cases cmd with
  | drop p => exact .inl (isDrop_of_dropAct c a h)
  | dropTtl p ttl => exact .inl (isDrop_of_dropAct c a h)
  | undrop p => exact .inr (isLift_of_undropAct c a h)
  | arm => exact .inl (by rw [show a = .arm from h]; trivial)
  | disarm => exact .inr (by rw [show a = .disarm from h]; trivial)
  | reload file nic => exact absurd rfl (hcmd file nic)
  | tick t =>
    cases a with
    | books => exact .inl trivial
    | arm => exact .inl trivial
    | drop => exact .inl trivial
    | lift => exact .inr trivial
    | disarm => exact .inr trivial
    | _ => exact h.elim

theorem BetweenReloads.step (hfault : ∀ j, env.fault j = false) (h : BetweenReloads n k₀ c) {cmd : Cmd}
    (hcmd : ∀ file nic, cmd ≠ .reload file nic) : BetweenReloads n k₀ (step env c cmd) ∧
      Steers (Settles n k₀) c.maps (step env c cmd).maps := by
  refine (step_trace h.drops_ok cmd).invariant
    (I := fun x => BetweenReloads n k₀ x ∧ Steers (Settles n k₀) c.maps x.maps) ⟨h, .refl⟩ ?_
  rintro x x' a ⟨hx, hsteers⟩ ha hm
  have hkind := isDrop_or_isLift hcmd ha
  exact ⟨hx.micro hfault hm hkind, hsteers.trans (hm.settles hfault hkind hx)⟩

def EntryAgrees (c : VgCtrl) : Prop := ∃ armed, c.maps.kernel.cfg = cfgEntry armed c.cfg

theorem Micro.entryAgrees (hfault : ∀ j, env.fault j = false) (hm : Micro env a c c')
    (ha : ∀ m, a ≠ .setCfg m) (hok : c.drops.Ok) (h : EntryAgrees c) : EntryAgrees c' := by
  have hcommit (m : VgMaps) (armed : ℕ) :
      (vgCfgCommit env m armed c.cfg).1.kernel.cfg = cfgEntry armed c.cfg := by
    rw [vgCfgCommit_eq, hfault]
    rfl
  rw [EntryAgrees, hm.cfg_eq ha]
  cases hm with
  | books hb => exact hb.maps ▸ h
  | arm hs =>
    rw [vgCtrlArm_idle env hs]
    exact ⟨1, hcommit _ 1⟩
  | drop hs hp => exact (dropListed_outcome hok _ _ _ _).2.kernel_cfg ▸ h
  | lift hi => exact dropRemove_kernel_cfg env c _ ▸ h
  | stray hf => exact vgDropDel_kernel_cfg env c.maps _ ▸ h
  | disarm =>
    rw [vgCtrlDisarm_eq]
    exact ⟨0, hcommit _ 0⟩
  | setCfg => exact absurd rfl (ha _)
  | commit => exact ⟨_, hcommit _ _⟩
  | populate => exact (vgPopulate_frame env c.maps c.cfg).1 ▸ h

theorem Reachable.entryAgrees (hfault : ∀ j, env.fault j = false) (h : Reachable env c) :
    EntryAgrees c := by
  refine h.invariant (fun hstart => ?_) fun x cmd hs hi => ?_
  · obtain ⟨-, -, -, -, -, hmaps⟩ := startUp_some hstart
    exact ⟨0, by rw [hmaps]; rfl⟩
  by_cases hr : ∃ file nic, cmd = .reload file nic
  · obtain ⟨file, nic, rfl⟩ := hr
    simp only [VoidGate.step, vgCtrlReload]
    cases reloadConfig env x file nic with
    | none => exact hi
    | some m =>
      exact ⟨_, reloadApply_done (by simp [reloadApply, vgCfgCommit_eq, hfault])⟩
  · refine step_invariant hs.drops_ok hi (fun y y' a hy he ha _ hm => hm.entryAgrees hfault ha hy he) ?_
    intro file nic m he _
    exact absurd ⟨file, nic, he⟩ hr

private theorem Reachable.betweenReloads (hfault : ∀ j, env.fault j = false) (h : Reachable env c) :
    BetweenReloads c.cfg c.maps.kernel c := by
  obtain ⟨hmirror, hclear⟩ := h.guarded hfault
  have hlisted (x : IpAddr) (hx : inLpm c.maps.kernel .drop x = true) :
      ∃ p ∈ c.drops.prefixes, p.Has x := hmirror.listed_of_matches ((inLpm_iff _ _ _).mp hx)
  refine ⟨rfl, h.sound.drops_ok, h.inForce.gate, h.entryAgrees hfault, fun _ _ => rfl, fun x hx => ?_,
    fun x hx => ?_⟩
  · obtain ⟨p, hp, -⟩ := hlisted x hx
    simp [h.inForce.armed hp]
  · obtain ⟨p, hp, hpx⟩ := hlisted x hx
    exact not_has_of_unprotected (hclear p hp) hpx

end Daemon

/-- The contents of the maps from `m` on, in the order in which they were written. -/
def contentsDuring (m m' : VgMaps) : List Kernel := m.kernel :: (recordedSince m m').reverse

private theorem settled_contentsDuring {n : VgConfig} {k₀ : Kernel} {m m' : VgMaps}
    (h : Steers (Settles n k₀) m m') (hm : Settled n k₀ m.kernel) :
    ∀ k ∈ contentsDuring m m', Settled n k₀ k := by
  obtain ⟨⟨added, hcontents, hadded⟩, -⟩ := h.settled hm
  rw [contentsDuring, recordedSince_eq hcontents]
  exact List.forall_mem_cons.mpr ⟨hm, fun k hk => hadded k (List.mem_reverse.mp hk)⟩

/-- The program may be interrupted between any two of its reads, by any number of writes of any
commands and ticks but no reload, as long as no write fails. If it drops the frame, then there was a
moment while the frame was under way at which it would have dropped it without interruption; and if
one end of the frame is protected, then every verdict is that of such a moment. -/
theorem racing_verdict_of_one_moment {env : Env} {c c' : VgCtrl} (hfault : ∀ j, env.fault j = false)
    (h : Reachable env c)
    (hrun : Reaches (step env) (fun _ cmd => ∀ file nic, cmd ≠ .reload file nic) c c')
    (t : Passage (contentsDuring c.maps c'.maps)) (s : XdpState) (frame : List UInt8)
    (room : HashRoom) :
    (racingXdp t.view frame = .drop → ∃ j, t.During j ∧
      (voidgateXdp { s with kernel := (contentsDuring c.maps c'.maps).get j } frame room).2 = .drop) ∧
    ((∀ p, xdpLocals frame = some p →
        ∃ q ∈ c.cfg.protectedNets, q.Has p.saddr ∨ q.Has p.daddr) →
      ∃ j, t.During j ∧ racingXdp t.view frame =
        (voidgateXdp { s with kernel := (contentsDuring c.maps c'.maps).get j } frame room).2) := by
  have hstart := h.betweenReloads hfault
  obtain ⟨-, hsteers⟩ := hrun.invariant
    (I := fun x => BetweenReloads c.cfg c.maps.kernel x ∧ Steers (Settles c.cfg c.maps.kernel) c.maps x.maps)
    ⟨hstart, .refl⟩ fun x cmd hx hcmd =>
      ⟨(hx.1.step hfault hcmd).1, hx.2.trans (hx.1.step hfault hcmd).2⟩
  have hall := settled_contentsDuring hsteers hstart.settled
  have hdrop (hv : racingXdp t.view frame = .drop) : ∃ j, t.During j ∧
      (voidgateXdp { s with kernel := (contentsDuring c.maps c'.maps).get j } frame room).2 = .drop := by
    obtain ⟨j, hj, hhits⟩ := t.hits_of_drop hall hv
    exact ⟨j, hj, (voidgateXdp_hits _ _ _).mpr hhits⟩
  refine ⟨hdrop, fun hends => ?_⟩
  by_cases hv : racingXdp t.view frame = .drop
  · obtain ⟨j, hj, hj'⟩ := hdrop hv
    exact ⟨j, hj, hv.trans hj'.symm⟩
  · obtain ⟨j, hj, hhits⟩ := t.exists_not_hits hall hv hends
    refine ⟨j, hj, Verdict.eq_of_drop_iff ⟨fun he => absurd he hv, fun he => ?_⟩⟩
    exact absurd ((voidgateXdp_hits _ _ _).mp he) hhits

/-- The small host drops 203.0.113.9: one write arms the gate, and one lists the prefix. -/
def raceContents : List Kernel :=
  contentsDuring steadyStart.maps (step steadyEnv steadyStart (.drop (sampleHost [203, 0, 113, 9]))).maps

/-- A frame that finds the gate armed and looks up its addresses after the second write. -/
def racePassage : Passage raceContents where
  moment r := ⟨if r.rank = 0 then 1 else 2, by
    rw [show raceContents.length = 3 by decide +kernel]
    split <;> decide⟩
  mono {r r'} hr := by
    rw [Fin.mk_le_mk]
    split_ifs <;> omega

theorem racing_verdict_of_one_moment_first :
    racingXdp racePassage.view sampleFrame = .drop ∧ ∃ j, racePassage.During j ∧
      (voidgateXdp { steadyStart.dataPlane with kernel := raceContents.get j } sampleFrame
        freeRoom).2 = .drop := by
  have hdrop : racingXdp racePassage.view sampleFrame = .drop := by decide +kernel
  have hrun : Reaches (step steadyEnv) (fun _ cmd => ∀ file nic, cmd ≠ .reload file nic) steadyStart
      (step steadyEnv steadyStart (.drop (sampleHost [203, 0, 113, 9]))) :=
    Reaches.start.next _ fun _ _ he => by cases he
  have htarget : (xdpLocals sampleFrame).map (·.daddr) = some sampleTarget := by decide +kernel
  have hlocal : sampleTarget.host ∈ steadyStart.cfg.protectedNets := by decide +kernel
  have hhas : sampleTarget.host.Has sampleTarget :=
    (VgCidr.has_iff_bitsEqual rfl).mpr (by decide +kernel)
  obtain ⟨j, hj, hv⟩ := (racing_verdict_of_one_moment (fun _ => rfl)
    ⟨_, _, _, _, _, steadyStart_eq, .start⟩ hrun racePassage steadyStart.dataPlane sampleFrame
    freeRoom).2 fun p hp => by
      rw [hp] at htarget
      exact ⟨_, hlocal, .inr (Option.some.inj htarget ▸ hhas)⟩
  exact ⟨hdrop, j, hj, hv.symm.trans hdrop⟩

end VoidGate
