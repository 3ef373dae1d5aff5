import VoidGate.DropCalls
import VoidGate.Deadlines
import VoidGate.KernelAgreement

/-!
# Failed drops

A drop or undrop that returns an error has not touched the list or the drop maps. A
drop may already have armed the gate by then, since a drop arms an idle gate first,
and the gate stays armed when the map write that follows fails.
-/

namespace VoidGate

open Runs

variable {env : Env} {c c' : VgCtrl}

/-- The listed drops in their order: prefix, reason, insert time and deadline. -/
def VgCtrl.listing (c : VgCtrl) : List (VgCidr × Reason × ℤ × WithTop ℤ) :=
  c.drops.records.map fun r => (r.cidr, r.reason, r.inserted, r.deadline c.cfg)

/-- The same listed drops and the same drop maps. -/
structure DropsKept (c c' : VgCtrl) : Prop where
  listing : c'.listing = c.listing
  maps : ∀ f, c'.maps.kernel.lpm (.drop f) = c.maps.kernel.lpm (.drop f)

/-- The same gate: its state and the kernel's flag. -/
structure GateKept (c c' : VgCtrl) : Prop where
  state : c'.state = c.state
  armed : c'.maps.kernel.cfg.armed = c.maps.kernel.cfg.armed

/-- The kernel changes a drop of `p` makes before it gets to the list: an idle gate is armed,
unless `p` is refused or the commit fails. -/
def ArmsFor (env : Env) (c : VgCtrl) (p : VgCidr) : Prop :=
  c.state = .idle ∧ vgCidrIsProtected c.cfg p = false ∧ env.fault c.maps.writes = false

/-- What a drop of `p` that returned an error left behind. -/
structure DropFailed (env : Env) (c : VgCtrl) (p : VgCidr) (c' : VgCtrl) : Prop where
  drops : DropsKept c c'
  gate : ¬ ArmsFor env c p → GateKept c c'
  armed : ArmsFor env c p → c'.state = .active ∧ c'.maps.kernel.cfg.armed = 1

private theorem dropListed_failed (h : c.drops.Ok) (p : VgCidr) (reason : Reason) (expires now : ℤ)
    (hfail : (dropListed env c p reason expires now).2 = false) :
    DropsKept c (dropListed env c p reason expires now).1 ∧
      GateKept c (dropListed env c p reason expires now).1 := by
  have hadd := vgDropAdd_eq env c.maps p reason now
  have hcase : DropCase env c p reason expires now (dropListed env c p reason expires now) :=
    dropListed_case h p reason expires now
  revert hcase hfail
  generalize dropListed env c p reason expires now = r
  rintro hfail (⟨_, _, _⟩ | ⟨d, _, hf, -, -, hrec⟩ | ⟨d, _, _, _, _, _⟩ | ⟨_, _, _, _, _⟩ |
    ⟨d, r, hmem, hkey, -, -, -, hrec⟩)
  · exact ⟨⟨rfl, fun _ => rfl⟩, rfl, rfl⟩
  · rw [hadd, hf]
    refine ⟨⟨?_, fun _ => rfl⟩, rfl, rfl⟩
    simp only [VgCtrl.listing, hrec]
  · cases hfail
  · cases hfail
  · have hf : env.fault c.maps.writes = true := by simpa using hfail
    rw [hadd, hf]
    refine ⟨⟨?_, fun _ => rfl⟩, rfl, rfl⟩
    simp only [VgCtrl.listing, hrec, List.map_map]
    refine List.map_congr_left fun x hx => ?_
    by_cases hx' : x.cidr.key = p.key
    · obtain rfl := h.eq_of_key hx hmem (hx'.trans hkey.symm)
      simp [hf, hx']
    · simp [hx']

theorem dropAdd_failed (h : c.drops.Ok) (p : VgCidr) (reason : Reason) (expires : ℤ)
    (hfail : (dropAdd env c p reason expires).2 = false) :
    DropFailed env c p (dropAdd env c p reason expires).1 := by
  rw [dropAdd_eq] at hfail ⊢
  cases hp : vgCidrIsProtected c.cfg p with
  | true =>
    refine ⟨⟨rfl, fun _ => rfl⟩, fun _ => ⟨rfl, rfl⟩, fun ha => ?_⟩
    exact absurd (hp.symm.trans ha.2.1) (by decide)
  | false =>
    rw [hp, if_neg (by decide)] at hfail
    rw [if_neg (by decide)]
    by_cases harm : ArmFails env c
    · rw [if_pos harm]
      refine ⟨⟨rfl, fun _ => rfl⟩, fun _ => ⟨rfl, rfl⟩, fun ha => ?_⟩
      exact absurd (harm.2.symm.trans ha.2.2) (by decide)
    · rw [if_neg harm] at hfail ⊢
      have hok : c.ticked.armed.drops.Ok := by simpa [VgCtrl.ticked] using h
      obtain ⟨⟨hlist, hmaps⟩, hstate, harmed⟩ := dropListed_failed hok p reason expires _ hfail
      refine ⟨⟨hlist.trans ?_, fun f => (hmaps f).trans ?_⟩, fun hno => ?_, fun ha => ?_⟩
      · simp [VgCtrl.listing, VgCtrl.ticked]
      · simp [VgCtrl.ticked]
      · have hactive : c.ticked.state = .active := by
          cases hs : c.state with
          | active => exact hs
          | idle =>
            cases hf : env.fault c.maps.writes with
            | true => exact absurd ⟨hs, hf⟩ harm
            | false => exact absurd ⟨hs, hp, hf⟩ hno
        rw [VgCtrl.armed_of_active hactive] at hstate harmed ⊢
        exact ⟨hstate, harmed⟩
      · have hidle : c.ticked.state ≠ .active := by
          have hs : c.ticked.state = .idle := ha.1
          simp [hs]
        refine ⟨hstate.trans (VgCtrl.armed_state _), harmed.trans ?_⟩
        rw [VgCtrl.armed, if_neg hidle]
        rfl

private theorem vgCtrlUndrop_failed (p : VgCidr) (hfail : (vgCtrlUndrop env c p).2 = false) :
    DropsKept c (vgCtrlUndrop env c p).1 ∧ GateKept c (vgCtrlUndrop env c p).1 := by
  have hkernel : ∀ q, (vgDropDel env c.maps q).2 = .error →
      (vgDropDel env c.maps q).1.kernel = c.maps.kernel := fun q hq =>
    vgDropDel_fault q ((vgDropDel_error_iff env c.maps q).mp hq)
  have hsame : ∀ m : VgMaps, m.kernel = c.maps.kernel →
      DropsKept c { c with maps := m } ∧ GateKept c { c with maps := m } := by
    intro m hm
    exact ⟨⟨rfl, fun f => by rw [hm]⟩, rfl, by rw [hm]⟩
  rw [vgCtrlUndrop] at hfail ⊢
  cases hfind : c.drops.dropsFind p with
  | some i =>
    rw [hfind] at hfail
    simp only [dropRemove] at hfail ⊢
    split_ifs at hfail ⊢ with herr
    exact hsame _ (hkernel _ herr)
  | none =>
    rw [hfind] at hfail
    exact hsame _ (hkernel p (by simpa using hfail))

/-- A drop or undrop that fails leaves the listed drops and the drop maps as they were. It leaves
the gate as it was as well, except that a drop of an unprotected prefix arms an idle gate. -/
theorem failed_calls_keep_drops {c : VgCtrl} (h : Reachable env c) :
    (∀ p reason, (vgCtrlDrop env c p reason).2 = false →
      DropFailed env c p (vgCtrlDrop env c p reason).1) ∧
    (∀ p ttl, (vgCtrlDropTtl env c p ttl).2 = false →
      DropFailed env c p (vgCtrlDropTtl env c p ttl).1) ∧
    ∀ p, (vgCtrlUndrop env c p).2 = false →
      DropsKept c (vgCtrlUndrop env c p).1 ∧ GateKept c (vgCtrlUndrop env c p).1 := by
  have hok := h.sound.drops_ok
  refine ⟨fun p reason => dropAdd_failed hok p reason 0, fun p ttl hfail => ?_,
    fun p => vgCtrlUndrop_failed p⟩
  obtain ⟨⟨hlist, hmaps⟩, hgate, harmed⟩ :=
    dropAdd_failed (c := { c with clock := c.clock + 1 }) hok p .timed _ hfail
  exact ⟨⟨hlist, hmaps⟩, fun hno => ⟨(hgate hno).state, (hgate hno).armed⟩, harmed⟩

/-- A second drop whose map write fails leaves the gate and the first drop alone. -/
theorem failed_calls_keep_drops_sample : ∃ c, Reachable flakyEnv c ∧ c.drops.count = 1 ∧
    DropFailed flakyEnv c (sampleHost [198, 18, 0, 2]).1
      (vgCtrlDrop flakyEnv c (sampleHost [198, 18, 0, 2]).1 .manual).1 := by
  have hrun : Reaches (step flakyEnv) (fun _ _ => True) flakyStart _ :=
    Reaches.start.next (.drop (sampleHost [198, 18, 0, 1])) trivial
  have hreach : Reachable flakyEnv _ := ⟨_, _, _, _, _, flakyStart_eq, hrun⟩
  refine ⟨_, hreach, by decide +kernel, ?_⟩
  exact (failed_calls_keep_drops hreach).1 _ _ (by decide +kernel)

/-- The small host when its ninth map write fails: that of a first drop, after the commit. -/
def earlyFaultEnv : Env := sampleEnv (· == 8)

def earlyFaultStart : VgCtrl := (sampleStart (· == 8)).get (by decide +kernel)

/-- The drop returns an error and nothing is listed, but the gate is now armed. -/
theorem failed_drop_arms : ∃ c, Reachable earlyFaultEnv c ∧ c.state = .idle ∧
    c.maps.kernel.cfg.armed = 0 ∧
    (vgCtrlDrop earlyFaultEnv c (sampleHost [198, 18, 0, 1]).1 .manual).2 = false ∧
    (vgCtrlDrop earlyFaultEnv c (sampleHost [198, 18, 0, 1]).1 .manual).1.state = .active ∧
    (vgCtrlDrop earlyFaultEnv c (sampleHost [198, 18, 0, 1]).1 .manual).1.maps.kernel.cfg.armed = 1 := by
  have hstart : startUp earlyFaultEnv (bytes "/etc/voidgate/voidgate.conf") none .missing
      sampleNic = some earlyFaultStart := (Option.some_get _).symm
  exact ⟨earlyFaultStart, ⟨_, _, _, _, _, hstart, .start⟩, by decide +kernel, by decide +kernel,
    by decide +kernel, by decide +kernel, by decide +kernel⟩

end VoidGate
