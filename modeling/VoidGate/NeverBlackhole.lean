import VoidGate.ReloadPrune
import VoidGate.XdpVerdict

/-!
# The host is never blackholed

As long as the kernel accepts every write, no listed drop shares an address with a
local or an allowed network of the running configuration, whatever commands,
reloads and ticks came before. Since the drop maps hold exactly the listed
prefixes, the XDP program drops no frame between protected addresses.
-/

namespace VoidGate

open BitPrefixes Runs

variable {env : Env} {c c' : VgCtrl}

def Unprotected (c : VgCtrl) : Prop :=
  ∀ p ∈ c.drops.prefixes, vgCidrIsProtected c.cfg p = false

private theorem Micro.unprotected {a : Act} (hm : Micro env a c c') (ha : ∀ n, a ≠ .setCfg n)
    (hok : c.drops.Ok) (h : Unprotected c) : Unprotected c' := by
  intro p hp
  rw [hm.cfg_eq ha]
  rcases hm.mem_prefixes hok hp with hp | ⟨-, hp⟩
  · exact h p hp
  · exact hp

private theorem reloadApply_unprotected (hfault : ∀ n, env.fault n = false) (h : c.drops.Ok) :
    Unprotected (reloadApply env c).1 := by
  obtain ⟨d, heq, -, hrec⟩ := @vgCtrlPruneProtected_eq env c h
  rw [survivors_of_ok env _ _ _ fun j _ => hfault j] at hrec
  have hpruned : Unprotected (vgCtrlPruneProtected env c) := by
    intro p hp
    rw [heq] at hp ⊢
    rw [DropTable.prefixes, hrec] at hp
    obtain ⟨r, hr, rfl⟩ := List.mem_map.mp hp
    simpa using (List.mem_filter.mp hr).2
  simp only [reloadApply]
  split_ifs
  · exact hpruned
  · exact hpruned

private theorem step_unprotected (hfault : ∀ n, env.fault n = false) (hok : c.drops.Ok)
    (h : Unprotected c) (cmd : Cmd) : Unprotected (step env c cmd) := by
  by_cases hr : ∃ file nic, cmd = .reload file nic
  · obtain ⟨file, nic, rfl⟩ := hr
    simp only [step, vgCtrlReload]
    cases reloadConfig env c file nic with
    | none => exact h
    | some n => exact reloadApply_unprotected hfault hok
  · refine step_invariant hok h (fun x x' a hx hi ha _ hm => hm.unprotected ha hx hi) ?_
    intro file nic n he _
    exact absurd ⟨file, nic, he⟩ hr

/-- Without failed writes the drop maps always mirror the list, and the list stays clear of the
protected networks. -/
theorem Reachable.guarded (hfault : ∀ n, env.fault n = false) (h : Reachable env c) :
    Mirrored c ∧ Unprotected c := by
  refine h.invariant (I := fun c => Mirrored c ∧ Unprotected c)
    (fun hstart => ⟨mirrored_of_startUp hstart, ?_⟩) fun c cmd hs hi => ?_
  · simp [Unprotected, DropTable.prefixes, (startUp_initial hstart).1.records]
  · exact ⟨step_mirrored hi.1 cmd fun _ j _ => hfault _,
      step_unprotected hfault hs.drops_ok hi.2 cmd⟩

theorem Mirrored.listed_of_matches (h : Mirrored c) {x : IpAddr}
    (hx : c.maps.kernel.Matches .drop x) : ∃ p ∈ c.drops.prefixes, p.Has x := by
  obtain ⟨p, hp, ha⟩ := hx
  obtain ⟨hf, hmem⟩ := (h.tracked _ p).mp hp
  exact ⟨p, hmem, hf, ha⟩

/-- In every state of every run without failed writes: a frame between protected addresses
passes, and a dropped frame has an address in a listed prefix that shares no address with a
local or an allowed network. -/
theorem vm_never_blackholed (hfault : ∀ n, env.fault n = false) (h : Reachable env c)
    (s : XdpState) (hs : s.kernel = c.maps.kernel) (frame : List UInt8) (room : HashRoom) :
    (∀ pkt, Reference.packet frame = some pkt → (∃ q ∈ c.cfg.protectedNets, q.Has pkt.src) →
        (∃ q ∈ c.cfg.protectedNets, q.Has pkt.dst) → (voidgateXdp s frame room).2 = .pass) ∧
      ((voidgateXdp s frame room).2 = .drop → ∃ pkt, Reference.packet frame = some pkt ∧
        ∃ p ∈ c.drops.prefixes, (p.Has pkt.src ∨ p.Has pkt.dst) ∧
          ∀ q ∈ c.cfg.protectedNets, ¬ ∃ x, p.Has x ∧ q.Has x) := by
  obtain ⟨hm, hu⟩ := h.guarded hfault
  have hdropped : (voidgateXdp s frame room).2 = .drop → ∃ pkt,
      Reference.packet frame = some pkt ∧ ∃ p ∈ c.drops.prefixes,
        (p.Has pkt.src ∨ p.Has pkt.dst) ∧ ∀ q ∈ c.cfg.protectedNets, ¬ ∃ x, p.Has x ∧ q.Has x := by
    intro hd
    obtain ⟨-, pkt, hpkt, hmatch⟩ := packet_of_drop hd
    rw [hs] at hmatch
    have hclear : ∀ p ∈ c.drops.prefixes, ∀ q ∈ c.cfg.protectedNets, ¬ ∃ x, p.Has x ∧ q.Has x := by
      intro p hp q hq hx
      have hprot := (vgCidrIsProtected_iff c.cfg p).mpr ⟨q, hq, hx⟩
      rw [hu p hp] at hprot
      cases hprot
    rcases hmatch with hx | hx
    · obtain ⟨p, hp, hhas⟩ := hm.listed_of_matches hx
      exact ⟨pkt, hpkt, p, hp, .inl hhas, hclear p hp⟩
    · obtain ⟨p, hp, hhas⟩ := hm.listed_of_matches hx
      exact ⟨pkt, hpkt, p, hp, .inr hhas, hclear p hp⟩
  refine ⟨fun pkt hpkt ⟨q, hq, hsrc⟩ ⟨q', hq', hdst⟩ => ?_, hdropped⟩
  cases hv : (voidgateXdp s frame room).2 with
  | pass => rfl
  | drop =>
    obtain ⟨pkt', hpkt', p, -, hhas, hclear⟩ := hdropped hv
    obtain rfl : pkt = pkt' := by simpa [hpkt] using hpkt'
    rcases hhas with hhas | hhas
    · exact absurd ⟨_, hhas, hsrc⟩ (hclear q hq)
    · exact absurd ⟨_, hhas, hdst⟩ (hclear q' hq')

/-- What the XDP program sees of a state, with empty counter maps. -/
def VgCtrl.dataPlane (c : VgCtrl) : XdpState := ⟨c.maps.kernel, none, fun _ => none, fun _ => none⟩

/-- The small host after it dropped 203.0.113.9. -/
def steadyDropped : VgCtrl := step steadyEnv steadyStart (.drop (sampleHost [203, 0, 113, 9]))

theorem steadyDropped_reachable : Reachable steadyEnv steadyDropped :=
  ⟨_, _, _, _, _, steadyStart_eq, Reaches.start.next _ trivial⟩

/-- A datagram from the dropped host to the host's own address. -/
theorem vm_never_blackholed_sample :
    (voidgateXdp steadyDropped.dataPlane sampleFrame ⟨true, true, fun _ => false⟩).2 = .drop ∧
      ∃ p ∈ steadyDropped.drops.prefixes, ∀ q ∈ steadyDropped.cfg.protectedNets,
        ¬ ∃ x, p.Has x ∧ q.Has x := by
  have hdrop : (voidgateXdp steadyDropped.dataPlane sampleFrame
      ⟨true, true, fun _ => false⟩).2 = .drop := by decide +kernel
  obtain ⟨-, hlisted⟩ := vm_never_blackholed (fun _ => rfl) steadyDropped_reachable
    steadyDropped.dataPlane rfl sampleFrame ⟨true, true, fun _ => false⟩
  obtain ⟨-, -, p, hp, -, hclear⟩ := hlisted hdrop
  exact ⟨hdrop, p, hp, hclear⟩

end VoidGate
