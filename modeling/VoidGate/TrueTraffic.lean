import VoidGate.GatewayCounters
import VoidGate.RateSamples

/-!
# What the policy acts upon

The decisions of the control plane in terms of the frames that came in. A host is put on
the list by the policy only if it has sent, since the previous reading of its counters,
as much as the threshold asks for in the time of the tick: however frames, visits and
commands interleave, whatever is evicted, and whichever map calls fail.
-/

namespace VoidGate

open Runs PerCpu

section Callbacks
variable {env : Env} {possible : ℤ} {g : Gateway} {e : GateEvent}

/-- The callback that an event makes: a visit in the middle of a walk, to a remote with counters. -/
def Gateway.callback (possible : ℤ) (g : Gateway) : GateEvent → Option Remote
  | .visit x => g.walk.bind fun _ => g.readRemote possible x
  | _ => none

theorem Gateway.callback_some (env : Env) {r : Remote} (h : g.callback possible e = some r) :
    e = .visit r.host ∧ ∃ dt, g.walk = some dt ∧ g.readRemote possible r.host = some r ∧
      g.step env possible e = { g with ctrl := policyOneRemote env dt g.ctrl r } := by
  cases e with
  | visit x =>
    obtain ⟨dt, hwalk, hread⟩ := Option.bind_eq_some_iff.mp h
    have hx : x = r.host := by
      obtain ⟨v, -, rfl⟩ := Option.map_eq_some_iff.mp hread
      rfl
    subst hx
    exact ⟨rfl, dt, hwalk, hread, by rw [Gateway.step, hwalk, hread]⟩
  | _ => cases h

theorem Gateway.step_visit_of_none {x : IpAddr} (h : g.callback possible (.visit x) = none) :
    g.step env possible (.visit x) = g := by
  rw [Gateway.step]
  split
  · rename_i dt r hwalk hread
    rw [callback, hwalk, Option.bind_some, hread] at h
    cases h
  · rfl

theorem Gateway.readRemote_reading {x : IpAddr} {r : Remote} (h : g.readRemote possible x = some r) :
    ∃ v, reading possible g.remote x = some v ∧ r = ⟨x, v.inPkts.toNat, v.inBytes.toNat⟩ := by
  obtain ⟨v, hv, rfl⟩ := Option.map_eq_some_iff.mp h
  exact ⟨v, hv, rfl⟩

/-- In the middle of a walk the gate is armed, its snapshots are sound, and time has passed since
the last tick. -/
structure Gateway.Walking (g : Gateway) (dt : ℚ) : Prop where
  state : g.ctrl.state = .active
  snaps_ok : g.ctrl.snaps.Ok
  drops_ok : g.ctrl.drops.Ok
  dt_pos : 0 < dt

theorem Gateway.Tracks.walking {dt : ℚ} (h : g.Tracks env) (hw : g.walk = some dt) :
    g.Walking dt := by
  obtain ⟨c, t, hreach, hwalks, rfl, hctrl⟩ := h.of_some hw
  have hready := visitIn_ready env hwalks hreach.aged.ok t.remotes.length
  have hdrops := visitIn_drops_ok env hreach.sound.drops_ok t t.remotes.length
  rw [← hctrl] at hready hdrops
  exact ⟨hready.state, hready.snaps_ok, hdrops, hwalks.2.2.2⟩

end Callbacks

section Events
variable {env : Env} {possible : ℤ} {g : Gateway} {e : GateEvent}

private theorem step_snaps_active {c : VgCtrl} (hs : c.state = .active) {cmd : Cmd}
    (hcmd : ∀ t, cmd ≠ .tick t) : (step env c cmd).snaps = c.snaps := by
  cases cmd with
  | drop p => exact (dropAdd_dropsOnly env hs p.1 .manual 0).samePeriod.snaps
  | dropTtl p ttl =>
    have hs' : VgCtrl.state { c with clock := c.clock + 1 } = .active := hs
    exact (dropAdd_dropsOnly env hs' p.1 .timed _).samePeriod.snaps
  | undrop p => exact (vgCtrlUndrop_dropsOnly env c p.1).samePeriod.snaps
  | arm => rw [step, vgCtrlArm, if_pos hs]
  | disarm => rw [step, vgCtrlDisarm_eq]
  | reload file nic => exact vgCtrlReload_snaps env c file nic
  | tick t => exact absurd rfl (hcmd t)

/-- The ways in which an event may change the snapshots and the walk. Only an idle gate forgets its
snapshots, and only the end of a walk prunes them. -/
inductive SnapStep (possible : ℤ) (g g' : Gateway) (e : GateEvent) : Prop where
  | same (call : g.callback possible e = none) (snaps : g'.ctrl.snaps = g.ctrl.snaps)
      (walk : g'.walk = g.walk)
  | forgets (call : g.callback possible e = none) (idle : g.ctrl.state = .idle)
      (snaps : g'.ctrl.snaps = g.ctrl.snaps.snapResetPool) (walk : g'.walk = g.walk)
  | begins (call : g.callback possible e = none) (snaps : g'.ctrl.snaps = nextGen g.ctrl.snaps)
      (before : g.walk = none) (after : g'.walk ≠ none)
  | visits (r : Remote) (call : g.callback possible e = some r)
      (snaps : g'.ctrl.snaps = g.ctrl.snaps.visitOne g.ctrl.lastTick r) (walk : g'.walk = g.walk)
  | ends (call : g.callback possible e = none)
      (snaps : g'.ctrl.snaps = g.ctrl.snaps ∨ g'.ctrl.snaps = g.ctrl.snaps.snapPrune)
      (before : g.walk ≠ none) (after : g'.walk = none)

theorem Gateway.Tracks.snaps_ok (h : g.Tracks env) : g.ctrl.snaps.Ok := by
  cases hw : g.walk with
  | none => exact (h.of_none hw).aged.ok
  | some dt => exact (h.walking hw).snaps_ok

theorem Gateway.Tracks.drops_ok (h : g.Tracks env) : g.ctrl.drops.Ok := by
  cases hw : g.walk with
  | none => exact (h.of_none hw).sound.drops_ok
  | some dt => exact (h.walking hw).drops_ok

theorem SnapStep.of_rests {g' : Gateway} (hcall : g.callback possible e = none)
    (hidle : g.ctrl.state = .active → g'.ctrl.snaps = g.ctrl.snaps)
    (hsnaps : g'.ctrl.snaps = g.ctrl.snaps ∨ g'.ctrl.snaps = g.ctrl.snaps.snapResetPool)
    (hwalk : g'.walk = g.walk) : SnapStep possible g g' e := by
  cases hs : g.ctrl.state with
  | active => exact .same hcall (hidle hs) hwalk
  | idle =>
    rcases hsnaps with hsnaps | hsnaps
    · exact .same hcall hsnaps hwalk
    · exact .forgets hcall hs hsnaps hwalk

theorem Gateway.Tracks.snapStep (h : g.Tracks env) (hok : g.Permits possible e) :
    SnapStep possible g (g.step env possible e) e := by
  cases e with
  | frame i bytes room => exact .same rfl rfl rfl
  | command cmd =>
    exact .of_rests rfl (fun hs => step_snaps_active hs hok.2)
      (step_snaps env fun t hcmd => absurd hcmd (hok.2 t)) rfl
  | tick mono readable =>
    have hsame := (measured_samePeriod g.ctrl (g.tickIn possible mono readable)).snaps
    simp only [Gateway.step]
    split_ifs with hw
    · refine .begins rfl ?_ hok (by simp)
      exact congrArg nextGen hsame
    · refine .of_rests rfl (fun hs => ?_) ?_ rfl
      · rcases vgCtrlTick_rests env hw with he | ⟨hidle, -⟩
        · exact he ▸ hsame
        · exact absurd (hs.symm.trans hidle) (by decide)
      · have hrests : ∀ t, Cmd.tick (g.tickIn possible mono readable) = .tick t →
            ¬ Walks g.ctrl t := by
          intro t ht
          cases ht
          exact hw
        exact step_snaps env hrests
  | visit x =>
    cases hcall : g.callback possible (.visit x) with
    | none =>
      rw [step_visit_of_none hcall]
      exact .same hcall rfl rfl
    | some r =>
      obtain ⟨-, dt, hwalk, -, hstep⟩ := callback_some env hcall
      rw [hstep]
      exact .visits r hcall (policyOneRemote_visitOne env dt (h.walking hwalk).state r) rfl
  | finish complete =>
    simp only [Gateway.step]
    split
    · exact .same rfl rfl rfl
    · rename_i dt hwalk
      refine .ends rfl ?_ (by simp [hwalk]) rfl
      simp only [quietTest_snaps, (expireDrops_dropsOnly env _).samePeriod.snaps,
        apply_ite VgCtrl.snaps]
      split_ifs
      · exact .inr rfl
      · exact .inl rfl

end Events

section Snapshots
variable {env : Env} {possible : ℤ} {s : ℕ → Gateway} {es : ℕ → GateEvent}

/-- Event `k` is the last callback for `x` before `n`, and it read these counters. -/
structure LastRead (possible : ℤ) (s : ℕ → Gateway) (es : ℕ → GateEvent) (x : IpAddr) (k n : ℕ)
    (pkts bytes : ℕ) : Prop where
  before : k < n
  read : (s k).callback possible (es k) = some ⟨x, pkts, bytes⟩
  last : ∀ l, k < l → l < n → ∀ r, (s l).callback possible (es l) = some r → r.host ≠ x

theorem LastRead.succ {x : IpAddr} {k n pkts bytes : ℕ} (h : LastRead possible s es x k n pkts bytes)
    (hn : ∀ r, (s n).callback possible (es n) = some r → r.host ≠ x) :
    LastRead possible s es x k (n + 1) pkts bytes where
  before := h.before.trans n.lt_succ_self
  read := h.read
  last l hkl hl := by
    rcases Nat.lt_succ_iff_lt_or_eq.mp hl with hl | rfl
    · exact h.last l hkl hl
    · exact hn

def Noticed (possible : ℤ) (s : ℕ → Gateway) (es : ℕ → GateEvent) (n : ℕ) : Prop :=
  ∀ x ρ, (s n).ctrl.snaps.last x = some ρ → ∃ k, LastRead possible s es x k n ρ.pkts ρ.bytes

theorem Noticed.of_subset {n : ℕ} (h : Noticed possible s es n)
    (hnone : (s n).callback possible (es n) = none)
    (hsub : ∀ x ρ, (s (n + 1)).ctrl.snaps.last x = some ρ → (s n).ctrl.snaps.last x = some ρ) :
    Noticed possible s es (n + 1) := by
  intro x ρ hl
  obtain ⟨k, hk⟩ := h x ρ (hsub x ρ hl)
  exact ⟨k, hk.succ fun r hr => by rw [hnone] at hr; cases hr⟩

theorem Noticed.succ {n : ℕ} (h : Noticed possible s es n) (hrun : Gateway.Run env possible s es)
    (ht : (s n).Tracks env) : Noticed possible s es (n + 1) := by
  have hok := ht.snaps_ok
  cases hrun.next n ▸ ht.snapStep (hrun.permits n) with
  | same hnone hsnaps _ => exact h.of_subset hnone fun x ρ hl => hsnaps ▸ hl
  | forgets hnone _ hsnaps _ =>
    refine h.of_subset hnone fun x ρ hl => ?_
    rw [hsnaps, SnapTable.last_snapResetPool] at hl
    cases hl
  | begins hnone hsnaps _ _ =>
    exact h.of_subset hnone fun x ρ hl => SnapTable.last_of_nextGen (hsnaps ▸ hl)
  | ends hnone hsnaps _ _ =>
    refine h.of_subset hnone fun x ρ hl => ?_
    rcases hsnaps with hsnaps | hsnaps
    · rwa [hsnaps] at hl
    · exact hok.last_of_snapPrune (hsnaps ▸ hl)
  | visits r hcall hsnaps _ =>
    intro x ρ hl
    have hl' : ((s n).ctrl.snaps.visitOne (s n).ctrl.lastTick r).last x = some ρ := hsnaps ▸ hl
    rcases (hok.visitOne_cases (s n).ctrl.lastTick r).2.2 with ⟨-, hnone, hid⟩ | ⟨-, e, he, -, hentry⟩
    · rw [hid] at hl'
      obtain ⟨k, hk⟩ := h x ρ hl'
      refine ⟨k, hk.succ fun r' hr' hx => ?_⟩
      rw [hcall] at hr'
      cases hr'
      rw [← hx, SnapTable.last_eq, hnone] at hl'
      cases hl'
    · rw [SnapTable.last_eq, hentry] at hl'
      by_cases hx : x = r.host
      · subst hx
        rw [Function.update_self, Option.map_some, he] at hl'
        cases hl'
        exact ⟨n, n.lt_succ_self, hcall, fun l hnl hl => by omega⟩
      · rw [Function.update_of_ne hx, ← SnapTable.last_eq] at hl'
        obtain ⟨k, hk⟩ := h x ρ hl'
        refine ⟨k, hk.succ fun r' hr' => ?_⟩
        rw [hcall] at hr'
        cases hr'
        exact Ne.symm hx

theorem Gateway.Run.tracks (h : Gateway.Run env possible s es) (h₀ : (s 0).Started env) (n : ℕ) :
    (s n).Tracks env := Gateway.tracks h₀ (h.reaches n)

private theorem Gateway.Run.noticed (h : Gateway.Run env possible s es) (h₀ : (s 0).Started env) (n : ℕ) :
    Noticed possible s es n := by
  induction n with
  | zero =>
    obtain ⟨-, cfgPath, ifaceOv, file, nic, hstart⟩ := h₀
    obtain ⟨cap, hsnaps⟩ := (startUp_initial hstart).1.snaps
    intro x ρ hl
    rw [hsnaps, (SnapTable.inv_init cap).last_eq_none (fun _ hi => (List.not_mem_nil hi).elim)] at hl
    cases hl
  | succ n ih => exact ih.succ h (h.tracks h₀ n)

end Snapshots

/-- The prefix is listed, for the policy's own reason. -/
def PolicyListed (c : VgCtrl) (p : VgCidr) : Prop :=
  ∃ d ∈ c.drops.records, d.cidr = p ∧ d.reason = .policy

section Listed
variable {env : Env} {c c' : VgCtrl} {p : VgCidr}

private theorem redropped_policy {cfg : VgConfig} {r : VgDropRec} {reason : Reason} {expires now : ℤ}
    (h : (redropped cfg r reason expires now).reason = .policy) : r.reason = .policy := by
  cases reason <;> simp_all [redropped, rebase]

theorem Micro.policyListed {a : Act} (hm : Micro env a c c') (hok : c.drops.Ok)
    (h : PolicyListed c' p) : PolicyListed c p ∨ a = .drop p .policy := by
  obtain ⟨d, hd, rfl, hp⟩ := h
  cases hm with
  | books hb => exact .inl ⟨d, hb.drops ▸ hd, rfl, hp⟩
  | arm hs =>
    rw [vgCtrlArm_idle env hs] at hd
    exact .inl ⟨d, hd, rfl, hp⟩
  | @drop _ q reason expires now hs hprot =>
    cases (dropListed_outcome hok q reason expires now).2 with
    | kept hr _ => exact .inl ⟨d, hr ▸ hd, rfl, hp⟩
    | listed _ hr _ =>
      rw [hr] at hd
      rcases List.mem_append.mp hd with hd | hd
      · exact .inl ⟨d, hd, rfl, hp⟩
      · obtain rfl := List.mem_singleton.mp hd
        exact .inr (congrArg (Act.drop q) hp)
    | rewritten r r' hmem _ hcidr _ hr hk =>
      rw [hr] at hd
      obtain ⟨y, hy, rfl⟩ := List.mem_map.mp hd
      split_ifs at hp ⊢
      · refine .inl ⟨r, hmem, hcidr.symm, ?_⟩
        rcases hk with ⟨-, rfl⟩ | ⟨-, rfl⟩
        · rwa [rebase_reason] at hp
        · exact redropped_policy hp
      · exact .inl ⟨y, hy, rfl, hp⟩
  | @lift _ i hi =>
    rcases dropRemove_cases env c i with ⟨-, he⟩ | ⟨-, he⟩
    · rw [he] at hd
      exact .inl ⟨d, hd, rfl, hp⟩
    · rw [he, (hok.lift hi).2] at hd
      exact .inl ⟨d, (List.mem_filter.mp hd).1, rfl, hp⟩
  | disarm =>
    rw [vgCtrlDisarm_eq] at hd
    dsimp only at hd
    rw [hok.reset.2] at hd
    cases hd
  | _ => exact .inl ⟨d, hd, rfl, hp⟩

theorem step_policyListed {cmd : Cmd} (hcmd : ∀ t, cmd ≠ .tick t) (hok : c.drops.Ok)
    (h : PolicyListed (step env c cmd) p) : PolicyListed c p := by
  refine ((step_trace hok cmd).invariant
    (I := fun x => x.drops.Ok ∧ (PolicyListed x p → PolicyListed c p)) ⟨hok, id⟩ ?_).2 h
  intro x x' a hx ha hm
  refine ⟨hm.drops_ok hx.1, fun hp => ?_⟩
  rcases hm.policyListed hx.1 hp with hold | rfl
  · exact hx.2 hold
  · cases cmd with
    | drop q => exact absurd ha.2 (by decide)
    | dropTtl q ttl => exact absurd ha.2 (by decide)
    | reload file nic => simp [CmdAct, ReloadAct] at ha
    | tick t => exact absurd rfl (hcmd t)
    | _ => cases ha

private theorem policyOneRemote_policyListed {dt : ℚ} {r : Remote} (hok : c.drops.Ok)
    (h : PolicyListed (policyOneRemote env dt c r) p) : PolicyListed c p ∨ p = r.host.host := by
  refine ((policyOneRemote_trace env dt c r).invariant
    (I := fun x => x.drops.Ok ∧ (PolicyListed x p → PolicyListed c p ∨ p = r.host.host))
    ⟨hok, .inl⟩ ?_).2 h
  intro x x' a hx ha hm
  refine ⟨hm.drops_ok hx.1, fun hp => ?_⟩
  rcases hm.policyListed hx.1 hp with hold | rfl
  · exact hx.2 hold
  · rcases ha with ⟨rfl, -⟩ | ⟨-, hreason⟩
    · exact .inr rfl
    · cases hreason

end Listed

section Earned
variable {env : Env} {possible : ℤ} {s : ℕ → Gateway} {es : ℕ → GateEvent}

/-- The begin of a tick leaves the list and the configuration. -/
theorem Gateway.step_tick_drops (g : Gateway) (env : Env) (possible : ℤ) (mono : Timespec)
    (readable : Bool) :
    (g.step env possible (.tick mono readable)).ctrl.drops = g.ctrl.drops ∧
      (g.step env possible (.tick mono readable)).ctrl.cfg = g.ctrl.cfg := by
  have hdrops := measured_drops g.ctrl (g.tickIn possible mono readable)
  have hcfg := measured_cfg g.ctrl (g.tickIn possible mono readable)
  simp only [Gateway.step]
  split_ifs with hw
  · exact ⟨hdrops, hcfg⟩
  · rcases vgCtrlTick_rests env hw with he | ⟨-, -, -, -, he⟩
    · rw [he]
      exact ⟨hdrops, hcfg⟩
    · rw [he, ← hdrops, ← hcfg]
      simp only [vgCtrlArm]
      split_ifs <;> exact ⟨rfl, rfl⟩

theorem Gateway.step_finish_subset {g : Gateway} (hok : g.ctrl.drops.Ok) {complete : ℤ}
    {d : VgDropRec} (hd : d ∈ (g.step env possible (.finish complete)).ctrl.drops.records) :
    d ∈ g.ctrl.drops.records := by
  simp only [Gateway.step] at hd
  split at hd
  · exact hd
  · have hsame : (if complete = 1 then { g.ctrl with snaps := g.ctrl.snaps.snapPrune }
        else g.ctrl).drops = g.ctrl.drops := by
      split_ifs <;> rfl
    rw [← hsame] at hok ⊢
    have hexpired := quietTest_subset ((expireDrops_trace hok le_rfl).drops_ok hok) hd
    exact expireDrops_subset hok hexpired

theorem Gateway.step_policyListed {g : Gateway} {e : GateEvent} {p : VgCidr} (ht : g.Tracks env)
    (hok : g.Permits possible e) (hnone : g.callback possible e = none)
    (h : PolicyListed (g.step env possible e).ctrl p) : PolicyListed g.ctrl p := by
  cases e with
  | frame i bytes room => exact h
  | command cmd =>
    exact VoidGate.step_policyListed hok.2 (ht.of_none hok.1).sound.drops_ok h
  | tick mono readable =>
    obtain ⟨d, hd, hp⟩ := h
    exact ⟨d, (g.step_tick_drops env possible mono readable).1 ▸ hd, hp⟩
  | visit x => rwa [step_visit_of_none hnone] at h
  | finish complete =>
    obtain ⟨d, hd, hp⟩ := h
    exact ⟨d, Gateway.step_finish_subset ht.drops_ok hd, hp⟩

/-- Event `n` visits the remote `x`, and since the previous callback for it `x` has sent as much as a
threshold asks for in the time of the tick. -/
def Overran (possible : ℤ) (s : ℕ → Gateway) (es : ℕ → GateEvent) (x : IpAddr) (n : ℕ) : Prop :=
  es n = .visit x ∧ ∃ dt k pkts bytes, (s n).walk = some dt ∧ 0 < dt ∧
    LastRead possible s es x k n pkts bytes ∧
      ((s n).ctrl.cfg.thresholdPps * dt ≤ traffic .pkts Locals.saddr s es x k n ∨
        (s n).ctrl.cfg.thresholdMbps * 1000000 * dt ≤
          8 * traffic .bytes Locals.saddr s es x k n)

theorem Gateway.Run.overran (h : Gateway.Run env possible s es) (h₀ : (s 0).Started env) {n : ℕ}
    {r : Remote} (hcall : (s n).callback possible (es n) = some r) {dt : ℚ}
    (hwalk : (s n).walk = some dt) (hover : overThreshold (s n).ctrl dt r = true) :
    Overran possible s es r.host n := by
  obtain ⟨he, -, -, hread, -⟩ := Gateway.callback_some env hcall
  have hdt := ((h.tracks h₀ n).walking hwalk).dt_pos
  rw [overThreshold] at hover
  cases hlast : (s n).ctrl.snaps.last r.host with
  | none =>
    rw [hlast] at hover
    cases hover
  | some ρ =>
    rw [hlast] at hover
    obtain ⟨k, hk⟩ := h.noticed h₀ n r.host ρ hlast
    obtain ⟨-, -, -, hread₀, -⟩ := Gateway.callback_some env hk.read
    obtain ⟨v, hv, hr₀⟩ := Gateway.readRemote_reading hread₀
    obtain ⟨v', hv', hr⟩ := Gateway.readRemote_reading hread
    have hle (u : Quantity) := h.increase_le hk.before.le u hv hv'
    refine ⟨he, dt, k, ρ.pkts, ρ.bytes, hwalk, hdt, hk, ?_⟩
    have hpkts : increase ρ.pkts r.inPkts ≤ traffic .pkts Locals.saddr s es r.host k n := by
      rw [hr, show ρ.pkts = v.inPkts.toNat from congrArg Remote.inPkts hr₀]
      exact hle .pkts
    have hbytes : increase ρ.bytes r.inBytes ≤ traffic .bytes Locals.saddr s es r.host k n := by
      rw [hr, show ρ.bytes = v.inBytes.toNat from congrArg Remote.inBytes hr₀]
      exact hle .bytes
    obtain ⟨-, hloud⟩ := Bool.and_eq_true_iff.mp hover
    rw [Bool.not_eq_true', quiet, decide_eq_false_iff_not, not_and_or, not_lt, not_lt] at hloud
    simp only [judge] at hloud
    rcases hloud with hpps | hbps
    · left
      rw [le_div_iff₀ hdt] at hpps
      exact hpps.trans (by exact_mod_cast hpkts)
    · right
      rw [le_div_iff₀ hdt] at hbps
      refine hbps.trans ?_
      rw [mul_comm]
      exact_mod_cast Nat.mul_le_mul_left 8 hbytes

/-- Whatever the policy puts on the list was seen over a threshold: a host that has sent, since the
previous callback for it, as much as the threshold asks for in the time of the tick. Rates and times
are exact rationals. -/
theorem policy_drop_earned (h : Gateway.Run env possible s es) (h₀ : (s 0).Started env) {n : ℕ}
    {p : VgCidr} (hnew : ¬ PolicyListed (s n).ctrl p) (hlisted : PolicyListed (s (n + 1)).ctrl p) :
    ∃ x, p = x.host ∧ Overran possible s es x n := by
  have ht := h.tracks h₀ n
  cases hcall : (s n).callback possible (es n) with
  | none =>
    rw [h.next n] at hlisted
    exact absurd (Gateway.step_policyListed ht (h.permits n) hcall hlisted) hnew
  | some r =>
    obtain ⟨-, dt, hwalk, -, hstep⟩ := Gateway.callback_some env hcall
    have hw := ht.walking hwalk
    rw [h.next n, hstep] at hlisted
    have hp : p = r.host.host :=
      (policyOneRemote_policyListed hw.drops_ok hlisted).resolve_left hnew
    obtain ⟨snaps, judged, -, hvisit⟩ := policyOneRemote_eq env dt hw.snaps_ok r
    refine ⟨r.host, hp, h.overran h₀ hcall hwalk ?_⟩
    by_contra hno
    rw [hvisit, if_neg hno] at hlisted
    exact hnew hlisted

/-- The second frame of the small gateway, a millisecond after the first, is one too many. -/
theorem policy_drop_earned_sample :
    ∃ x, sampleSource.host = x.host ∧ Overran 2 gateRun gateEvents x 8 := by
  have hstart : (gateRun 0).Started steadyEnv := ⟨rfl, _, _, _, _, steadyStart_eq⟩
  have hfacts : (gateRun 8).ctrl.drops.records = [] ∧
      ∃ d ∈ (gateRun 9).ctrl.drops.records, d.cidr = sampleSource.host ∧ d.reason = .policy := by
    decide +kernel
  obtain ⟨hbefore, hafter⟩ := hfacts
  refine policy_drop_earned gateRun_run hstart ?_ hafter
  rintro ⟨d, hd, -⟩
  rw [hbefore] at hd
  cases hd

end Earned

end VoidGate
