import VoidGate.KernelPorts
import VoidGate.ReloadPhases
import VoidGate.NeverBlackhole

/-!
# Exemptions while a reload is under way

The XDP program runs between any two map writes of a reload. The prune and the
commit keep every exemption that holds before and after, but the allow maps and
then the local maps are flushed before they are filled again, and at the bottom of
each flush the frames that relied on that map are judged by the drop map alone.
-/

namespace VoidGate

open BitPrefixes Runs

variable {env : Env} {c : VgCtrl}

/-- More ports, allowed networks and local networks exempt more. -/
theorem Exempt.mono {k k' : Kernel} {p : Packet} (h : Exempt k p)
    (hports : ∀ port, k.cfg.AllowsPort port → k'.cfg.AllowsPort port)
    (hallow : ∀ x, k.Matches .allow x → k'.Matches .allow x)
    (hlocal : ∀ x, k.Matches .localNets x → k'.Matches .localNets x) : Exempt k' p := by
  cases h with
  | linkScope x hx h => exact .linkScope x hx h
  | neighbourDiscovery t hf h ht hhop => exact .neighbourDiscovery t hf h ht hhop
  | allowed x hx h => exact .allowed x hx (hallow x h)
  | toService s d h hport hl => exact .toService s d h (hports d hport) (hlocal _ hl)
  | fromService s d h hport hl => exact .fromService s d h (hports s hport) (hlocal _ hl)
  | dhcpv4 s d hf h hp hd => exact .dhcpv4 s d hf h hp (hd.imp_right (hlocal _))
  | dhcpv6 s d hf h hp hd => exact .dhcpv6 s d hf h hp (hlocal _ hd)

theorem not_matches_fresh (fd : Family → MapFd) (x : IpAddr) : ¬ Kernel.fresh.Matches fd x := by
  rintro ⟨q, hq, -⟩
  cases hq

private theorem not_allowsPort_fresh (port : UInt16) : ¬ Kernel.fresh.cfg.AllowsPort port := by
  rintro ⟨i, hi, -⟩
  exact Nat.not_lt_zero _ hi

theorem Exempt.of_fresh {p : Packet} (h : Exempt Kernel.fresh p) (k : Kernel) : Exempt k p :=
  h.mono (fun port hp => absurd hp (not_allowsPort_fresh port))
    (fun x hx => absurd hx (not_matches_fresh _ x)) fun x hx => absurd hx (not_matches_fresh _ x)

private theorem exempt_iff_of_no_local {k : Kernel} {p : Packet} (hlocal : ∀ x, ¬ k.Matches .localNets x) :
    Exempt k p ↔ Exempt Kernel.fresh p ∨ k.Matches .allow p.src ∨ k.Matches .allow p.dst := by
  constructor
  · intro h
    cases h with
    | linkScope x hx h => exact .inl (.linkScope x hx h)
    | neighbourDiscovery t hf h ht hhop => exact .inl (.neighbourDiscovery t hf h ht hhop)
    | allowed x hx h =>
      rcases hx with rfl | rfl
      · exact .inr (.inl h)
      · exact .inr (.inr h)
    | toService s d h hport hl => exact absurd hl (hlocal _)
    | fromService s d h hport hl => exact absurd hl (hlocal _)
    | dhcpv4 s d hf h hp hd => exact .inl (.dhcpv4 s d hf h hp (hd.imp_right fun hl => absurd hl (hlocal _)))
    | dhcpv6 s d hf h hp hd => exact absurd hd (hlocal _)
  · rintro (h | h | h)
    · exact h.of_fresh k
    · exact .allowed _ (.inl rfl) h
    · exact .allowed _ (.inr rfl) h

/-- A drop of the kernel that a reload to `n` does not lift contains the address. -/
def StillDropped (c : VgCtrl) (n : VgConfig) (x : IpAddr) : Prop :=
  ∃ e ∈ (c.maps.kernel.lpm (.drop x.family)).entries,
    (∀ p ∈ (c.swapped n).exposed, p.family = x.family → sameKey p e.1 = false) ∧
      Agree e.1.prefixlen (bit e.1.addr) (bit x.octets)

/-- The new ports and the old local networks, without any allowed network. -/
def betweenAllows (c : VgCtrl) (n : VgConfig) : Kernel where
  cfg := cfgEntry 1 n
  lpm fd := match fd with
    | .localNets f => c.maps.kernel.lpm (.localNets f)
    | _ => .empty

theorem stillDropped_iff {n : VgConfig} (hok : ∀ j, c.maps.writes ≤ j → env.fault j = false)
    (x : IpAddr) : (committed env c n).kernel.Matches .drop x ↔ StillDropped c n x := by
  rw [← inLpm_iff, inLpm, Lpm.lookup_iff, StillDropped]
  refine exists_congr fun e => ?_
  rw [committed, VgMaps.wrote_kernel, mem_dropDels_of_ok hok, and_assoc]

section Gap
variable {n : VgConfig} {pkt : Packet} {pruned filled k : Kernel}

/-- An exemption that holds before the reload, at the bottom of the first flush and at the bottom
of the second one holds throughout. -/
theorem Phase.exempt (h : Phase c n pruned filled k) (hold : Exempt c.maps.kernel pkt)
    (hfirst : Exempt (betweenAllows c n) pkt)
    (hsecond : Exempt Kernel.fresh pkt ∨ filled.Matches .allow pkt.src ∨
      filled.Matches .allow pkt.dst) : Exempt k pkt := by
  cases h with
  | prune hc ha hl =>
    exact hold.mono (fun port hp => hc ▸ hp) (fun x => (matches_congr ha x).mpr)
      fun x => (matches_congr hl x).mpr
  | allow hc hd hl =>
    refine hfirst.mono (fun port hp => hc ▸ hp) ?_ fun x => (matches_congr hl x).mpr
    rintro x ⟨q, hq, -⟩
    cases hq
  | localNets hc hd ha =>
    rcases hsecond with hs | hs | hs
    · exact hs.of_fresh k
    · exact .allowed _ (.inl rfl) ((matches_congr ha _).mpr hs)
    · exact .allowed _ (.inr rfl) ((matches_congr ha _).mpr hs)

/-- After the prune only an armed gate with a remaining drop can drop the packet. -/
theorem Phase.dropped (h : Phase c n pruned filled k) (hold : Exempt c.maps.kernel pkt)
    (harmed : k.cfg.armed ≠ 0) (hdrop : k.Matches .drop pkt.src ∨ k.Matches .drop pkt.dst)
    (hex : ¬ Exempt k pkt) :
    c.state = .active ∧ (pruned.Matches .drop pkt.src ∨ pruned.Matches .drop pkt.dst) := by
  have hactive (hc : k.cfg = cfgEntry (armedFlag c) n) : c.state = .active := by
    cases hs : c.state with
    | active => rfl
    | idle => simp [hc, cfgEntry, armedFlag, hs] at harmed
  cases h with
  | prune hc ha hl =>
    refine absurd (hold.mono ?_ (fun x => (matches_congr ha x).mpr)
      fun x => (matches_congr hl x).mpr) hex
    exact fun port hp => hc ▸ hp
  | allow hc hd hl =>
    rw [matches_congr hd, matches_congr hd] at hdrop
    exact ⟨hactive hc, hdrop⟩
  | localNets hc hd ha =>
    rw [matches_congr hd, matches_congr hd] at hdrop
    exact ⟨hactive hc, hdrop⟩

theorem committed_ok (hok : ∀ j, c.maps.writes ≤ j → env.fault j = false) :
    ∀ j, (committed env c n).writes ≤ j → env.fault j = false := fun j hj => hok j (by
  rw [committed, VgMaps.wrote_writes, dropDels_writes] at hj
  omega)

theorem allowFilled_matches (hok : ∀ j, c.maps.writes ≤ j → env.fault j = false) (x : IpAddr) :
    (allowFilled env c n).kernel.Matches .allow x ↔ ∃ q ∈ n.allowCidr, q.Has x := by
  have hflush : ∀ j, (flushBoth env .allow (committed env c n)).writes ≤ j → env.fault j = false :=
    fun j hj => committed_ok hok j ((writes_flushBoth env .allow (committed env c n)).writes_le.trans hj)
  rw [allowFilled, populate_matches allow_injective hflush]
  exact or_iff_left (not_matches_flushBoth allow_injective (committed_ok hok) x)

/-- At the bottom of the first flush the new array entry is in place and the drops are those the
prune left. -/
theorem bottom_allow_frame (env : Env) (c : VgCtrl) (n : VgConfig) :
    (flushBoth env .allow (committed env c n)).kernel.cfg = cfgEntry (armedFlag c) n ∧
      ∀ f, (flushBoth env .allow (committed env c n)).kernel.lpm (.drop f) =
        (committed env c n).kernel.lpm (.drop f) := by
  obtain ⟨hcfg, hlpm⟩ := (writes_flushBoth env .allow (committed env c n)).frame
  exact ⟨hcfg, fun f => hlpm _ (by simp)⟩

private theorem bottom_local_frame (env : Env) (c : VgCtrl) (n : VgConfig) :
    (flushBoth env .localNets (allowFilled env c n)).kernel.cfg = cfgEntry (armedFlag c) n ∧
      ∀ f, (flushBoth env .localNets (allowFilled env c n)).kernel.lpm (.drop f) =
        (committed env c n).kernel.lpm (.drop f) := by
  obtain ⟨hcfg₁, hdrop₁⟩ := bottom_allow_frame env c n
  obtain ⟨hcfg₂, hlpm₂⟩ := (writes_populate env .allow (flushBoth env .allow (committed env c n))
    n.allowCidr).frame
  obtain ⟨hcfg₃, hlpm₃⟩ := (writes_flushBoth env .localNets (allowFilled env c n)).frame
  refine ⟨hcfg₃.trans (hcfg₂.trans hcfg₁), fun f => ?_⟩
  exact (hlpm₃ _ (by simp)).trans ((hlpm₂ _ (by simp)).trans (hdrop₁ f))

private theorem exempt_bottom_allow (hok : ∀ j, c.maps.writes ≤ j → env.fault j = false) (pkt : Packet) :
    Exempt (flushBoth env .allow (committed env c n)).kernel pkt ↔ Exempt (betweenAllows c n) pkt := by
  obtain ⟨hcfg, hlpm⟩ := (writes_flushBoth env .allow (committed env c n)).frame
  obtain ⟨-, hprune⟩ := (writes_dropDels env c.maps (c.swapped n).exposed).frame
  have hlocal : ∀ f, (flushBoth env .allow (committed env c n)).kernel.lpm (.localNets f) =
      (betweenAllows c n).lpm (.localNets f) := fun f =>
    (hlpm _ (by simp)).trans (hprune _ (by simp))
  have hnone := @not_matches_flushBoth env _ allow_injective (committed env c n) (committed_ok hok)
  constructor
  · intro he
    exact he.mono (fun port hp => by rw [hcfg] at hp; exact hp) (fun x hx => absurd hx (hnone x))
      fun x => (matches_congr hlocal x).mp
  · intro he
    refine he.mono (fun port hp => by rw [hcfg]; exact hp) ?_ fun x => (matches_congr hlocal x).mpr
    rintro x ⟨q, hq, -⟩
    cases hq

private theorem exempt_bottom_local (hok : ∀ j, c.maps.writes ≤ j → env.fault j = false) (pkt : Packet) :
    Exempt (flushBoth env .localNets (allowFilled env c n)).kernel pkt ↔
      Exempt Kernel.fresh pkt ∨ ∃ q ∈ n.allowCidr, q.Has pkt.src ∨ q.Has pkt.dst := by
  have hfilled : ∀ j, (allowFilled env c n).writes ≤ j → env.fault j = false := fun j hj =>
    committed_ok hok j (((writes_flushBoth env .allow (committed env c n)).trans
      (writes_populate env .allow _ n.allowCidr)).writes_le.trans hj)
  obtain ⟨-, hallow⟩ := (writes_flushBoth env .localNets (allowFilled env c n)).frame
  have hmatch (x : IpAddr) : (flushBoth env .localNets (allowFilled env c n)).kernel.Matches .allow x ↔
      ∃ q ∈ n.allowCidr, q.Has x := by
    rw [matches_congr fun f => hallow (.allow f) (by simp), allowFilled_matches hok]
  rw [exempt_iff_of_no_local (not_matches_flushBoth localNets_injective hfilled), hmatch, hmatch]
  simp only [and_or_left, exists_or]

theorem Phase.writable (h : Phase c n pruned filled k) (hc : SafePorts c) (hn : n.PortsOk) :
    k.cfg.Writable := by
  cases h with
  | prune hcfg => exact hcfg ▸ hc.kernel
  | allow hcfg => exact hcfg ▸ cfgEntry_writable _ hn
  | localNets hcfg => exact hcfg ▸ cfgEntry_writable _ hn

theorem drops_of_not_exempt (hok : ∀ j, c.maps.writes ≤ j → env.fault j = false)
    (hactive : c.state = .active) (hstill : StillDropped c n pkt.src ∨ StillDropped c n pkt.dst)
    (hframe : k.cfg = cfgEntry (armedFlag c) n ∧
      ∀ f, k.lpm (.drop f) = (committed env c n).kernel.lpm (.drop f))
    {frame : List UInt8} (hpkt : Reference.packet frame = some pkt) (hex : ¬ Exempt k pkt) :
    k.Drops frame := by
  refine ⟨?_, pkt, hpkt, ?_, hex⟩
  · simp [hframe.1, cfgEntry, armedFlag, hactive]
  · rwa [matches_congr hframe.2, matches_congr hframe.2, stillDropped_iff hok, stillDropped_iff hok]

end Gap

/-- A frame that is exempt before a reload keeps passing at every moment of the reload, all of its
writes succeeding, exactly when the gate is idle, or no drop that outlives the prune contains one
of its addresses, or it is exempt both by the new ports with the old local networks and, unless
it is exempt without any map, by the new allowed networks. -/
theorem reload_keeps_exemptions_iff (h : Reachable env c) {file : ConfigFile}
    {nic : Option (List IfAddr)} {n : VgConfig} (hn : reloadConfig env c file nic = some n)
    (hok : ∀ j, c.maps.writes ≤ j → env.fault j = false) {frame : List UInt8} {pkt : Packet}
    (hpkt : Reference.packet frame = some pkt) (hold : Exempt c.maps.kernel pkt) :
    (∀ k ∈ recordedSince c.maps (vgCtrlReload env c file nic).1.maps, ∀ s room, s.kernel = k →
        (voidgateXdp s frame room).2 = .pass) ↔
      c.state = .idle ∨ (¬ StillDropped c n pkt.src ∧ ¬ StillDropped c n pkt.dst) ∨
        (Exempt (betweenAllows c n) pkt ∧
          (Exempt Kernel.fresh pkt ∨ ∃ q ∈ n.allowCidr, q.Has pkt.src ∨ q.Has pkt.dst)) := by
  obtain ⟨added, hadd, hphase, hbottom₁, hbottom₂⟩ := @reload_phases env c h.sound.drops_ok n hok
  have hrec : recordedSince c.maps (vgCtrlReload env c file nic).1.maps = added := by
    rw [vgCtrlReload, hn]
    exact recordedSince_eq hadd
  obtain ⟨f, hf⟩ := reloadConfig_loaded hn
  have hverdict : ∀ k ∈ added, ∀ s room, s.kernel = k →
      ((voidgateXdp s frame room).2 = .drop ↔ k.Drops frame) := by
    rintro k hk s room rfl
    exact voidgateXdp_drops s frame room ((hphase _ hk).writable h.safePorts hf.portsOk)
  rw [hrec]
  constructor
  · intro hpass
    by_contra hcond
    simp only [not_or, not_and_or, not_not] at hcond
    obtain ⟨hidle, hstill, hgap⟩ := hcond
    have hactive : c.state = .active := by cases hs : c.state <;> simp_all
    -- at the bottom of one of the flushes the packet is not exempt, and it is dropped there
    have hfail (k : Kernel) (hk : k ∈ added) (hdrops : k.Drops frame) : False := by
      have hdrop := (hverdict k hk ⟨k, none, fun _ => none, fun _ => none⟩
        ⟨true, true, fun _ => false⟩ rfl).mpr hdrops
      rw [hpass k hk _ _ rfl] at hdrop
      cases hdrop
    rcases hgap with hgap | hgap
    · refine hfail _ hbottom₁ (drops_of_not_exempt hok hactive hstill (bottom_allow_frame env c n)
        hpkt fun he => hgap ?_)
      exact (exempt_bottom_allow hok pkt).mp he
    · refine hfail _ hbottom₂ (drops_of_not_exempt hok hactive hstill (bottom_local_frame env c n)
        hpkt fun he => not_or.mpr hgap ?_)
      exact (exempt_bottom_local hok pkt).mp he
  · intro hcond k hk s room hs
    cases hv : (voidgateXdp s frame room).2 with
    | pass => rfl
    | drop =>
      obtain ⟨harmed, pkt', hpkt', hdrop, hex⟩ := (hverdict k hk s room hs).mp hv
      obtain rfl : pkt = pkt' := by simpa [hpkt] using hpkt'
      obtain ⟨hactive, hdrop'⟩ := (hphase k hk).dropped hold harmed hdrop hex
      rw [stillDropped_iff hok, stillDropped_iff hok] at hdrop'
      rcases hcond with hidle | ⟨hsrc, hdst⟩ | ⟨hfirst, hsecond⟩
      · rw [hactive] at hidle
        cases hidle
      · exact absurd hdrop' (not_or.mpr ⟨hsrc, hdst⟩)
      · refine absurd ((hphase k hk).exempt hold hfirst (hsecond.imp_right ?_)) hex
        rintro ⟨q, hq, hx | hx⟩
        · exact .inl ((allowFilled_matches hok _).mpr ⟨q, hq, hx⟩)
        · exact .inr ((allowFilled_matches hok _).mpr ⟨q, hq, hx⟩)

/-- A TCP segment from 203.0.113.`host` to port 22 of 10.0.0.5. -/
def sshFrame (host : UInt8) : List UInt8 :=
  List.replicate 12 2 ++ [8, 0, 0x45, 0, 0, 40, 0, 0, 0, 0, 64, 6, 0, 0, 203, 0, 113, host,
    10, 0, 0, 5, 200, 0, 0, 22, 0, 0, 0, 0, 0, 0, 0, 0, 0x50, 2, 0, 0, 0, 0, 0, 0]

def sshPacket (host : UInt8) : Packet where
  src := addrAt .inet [203, 0, 113, host] 0
  dst := addrAt .inet [10, 0, 0, 5] 0
  hopLimit := 64
  l4 := some (.tcp 51200 22)

/-- The small host reloads an empty config file. -/
def steadyReloaded : VgCtrl := (vgCtrlReload steadyEnv steadyDropped (.opened [] false) sampleNic).1

theorem exempt_ssh {k : Kernel} (host : UInt8) (hport : portAllowed k.cfg 22 = true)
    (hlocal : inLpm k .localNets (addrAt .inet [10, 0, 0, 5] 0) = true) :
    Exempt k (sshPacket host) :=
  .toService 51200 22 rfl ((portAllowed_iff _ _).mp hport) ((inLpm_iff _ _ _).mp hlocal)

theorem steadyDropped_serves : portAllowed steadyDropped.maps.kernel.cfg 22 = true ∧
    inLpm steadyDropped.maps.kernel .localNets (addrAt .inet [10, 0, 0, 5] 0) = true := by
  decide +kernel

/-- With 203.0.113.9 dropped, another host keeps its connection through a reload. -/
theorem reload_keeps_exemptions_sample : Reachable steadyEnv steadyDropped ∧
    Exempt steadyDropped.maps.kernel (sshPacket 10) ∧
    ∀ k ∈ recordedSince steadyDropped.maps steadyReloaded.maps, ∀ s room, s.kernel = k →
      (voidgateXdp s (sshFrame 10) room).2 = .pass := by
  have hold : Exempt steadyDropped.maps.kernel (sshPacket 10) :=
    exempt_ssh 10 steadyDropped_serves.1 steadyDropped_serves.2
  have hn : reloadConfig steadyEnv steadyDropped (.opened [] false) sampleNic =
      some steadyDropped.cfg := by decide +kernel
  have hclear (x : IpAddr) (hx : inLpm (committed steadyEnv steadyDropped
      steadyDropped.cfg).kernel .drop x = false) : ¬ StillDropped steadyDropped steadyDropped.cfg x := by
    intro h
    have hmatch := (inLpm_iff _ _ _).mpr ((@stillDropped_iff steadyEnv _ _ (fun _ _ => rfl) x).mpr h)
    rw [hx] at hmatch
    cases hmatch
  have hcommitted : inLpm (committed steadyEnv steadyDropped steadyDropped.cfg).kernel .drop
        (sshPacket 10).src = false ∧
      inLpm (committed steadyEnv steadyDropped steadyDropped.cfg).kernel .drop
        (sshPacket 10).dst = false := by
    decide +kernel
  refine ⟨steadyDropped_reachable, hold, ?_⟩
  exact (reload_keeps_exemptions_iff steadyDropped_reachable hn (fun _ _ => rfl)
    (by decide +kernel) hold).mpr (.inr (.inl ⟨hclear _ hcommitted.1, hclear _ hcommitted.2⟩))

/-- The connection of 203.0.113.9 itself is exempt before and after the reload of an unchanged
configuration, and dropped on the way. -/
theorem reload_drops_exempt_frame : Reachable steadyEnv steadyDropped ∧
    Reference.packet (sshFrame 9) = some (sshPacket 9) ∧
    Exempt steadyDropped.maps.kernel (sshPacket 9) ∧ Exempt steadyReloaded.maps.kernel (sshPacket 9) ∧
    steadyReloaded.cfg = steadyDropped.cfg ∧
    ∃ k ∈ recordedSince steadyDropped.maps steadyReloaded.maps,
      (voidgateXdp ⟨k, none, fun _ => none, fun _ => none⟩ (sshFrame 9)
        ⟨true, true, fun _ => false⟩).2 = .drop := by
  have hafter : portAllowed steadyReloaded.maps.kernel.cfg 22 = true ∧
      inLpm steadyReloaded.maps.kernel .localNets (addrAt .inet [10, 0, 0, 5] 0) = true ∧
      steadyReloaded.cfg = steadyDropped.cfg := by
    decide +kernel
  refine ⟨steadyDropped_reachable, by decide +kernel,
    exempt_ssh 9 steadyDropped_serves.1 steadyDropped_serves.2, exempt_ssh 9 hafter.1 hafter.2.1,
    hafter.2.2, ?_⟩
  decide +kernel

end VoidGate
