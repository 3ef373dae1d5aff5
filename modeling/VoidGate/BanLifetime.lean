import VoidGate.FloodResponse

/-!
# How long a drop is enforced

A listed drop is enforced from the end of the call that listed it to the event that takes
it off the list: a command that asks for it, a reload that protects the prefix, or the
end of a walk at a time past its deadline. In between come frames on all CPUs, other
commands, ticks and walks, and map calls that fail.
-/

namespace VoidGate

open Runs PerCpu

/-- Why the drop `x` may be off the list after an event. -/
inductive Lifted (env : Env) (g g' : Gateway) (x : VgDropRec) : GateEvent → Prop where
  | undrop {p : MaskedCidr} (h : p.1 = x.cidr) : Lifted env g g' x (.command (.undrop p))
  | disarm : Lifted env g g' x (.command .disarm)
  | reload {file : ConfigFile} {nic : Option (List IfAddr)}
      (h : vgCidrIsProtected g'.ctrl.cfg x.cidr = true) :
      Lifted env g g' x (.command (.reload file nic))
  | expired {complete : ℤ} (j : ℕ) (first : g.ctrl.clock ≤ j) (last : j < g'.ctrl.clock)
      (h : x.deadline g.ctrl.cfg ≤ (env.wall j : ℤ)) : Lifted env g g' x (.finish complete)

def GateEvent.IsReload (e : GateEvent) : Prop := ∃ file nic, e = .command (.reload file nic)

section Step
variable {env : Env} {possible : ℤ} {g : Gateway} {e : GateEvent}

theorem Gateway.finish_trace (hok : g.ctrl.drops.Ok) (complete : ℤ) :
    Trace env (TickAct env g.ctrl.clock) g.ctrl (g.step env possible (.finish complete)).ctrl := by
  simp only [Gateway.step]
  split
  · exact .refl
  · generalize hc : (if complete = 1 then { g.ctrl with snaps := g.ctrl.snaps.snapPrune }
      else g.ctrl) = c
    have hbooks : Books g.ctrl c := by
      rw [← hc]
      split_ifs <;> exact ⟨rfl, rfl, rfl, rfl, rfl, rfl, le_rfl⟩
    have hprune : Trace env (TickAct env g.ctrl.clock) g.ctrl c := .books hbooks trivial
    have hok' : c.drops.Ok := hbooks.drops ▸ hok
    have hexpire : Trace env (TickAct env g.ctrl.clock) c (expireDrops env c) :=
      expireDrops_trace hok' hbooks.clock_le
    exact hprune.trans (hexpire.trans ((quietTest_calls env _).tickTrace (hexpire.drops_ok hok')
      (hbooks.clock_le.trans hexpire.clock_le)))

/-- The drop of state `c` stays on the list, and without a reload with a deadline at least as
late. -/
def Stays (c c' : VgCtrl) (x : VgDropRec) (e : GateEvent) : Prop :=
  ∃ x' ∈ c'.drops.records, x'.cidr = x.cidr ∧
    (¬ e.IsReload → x.deadline c.cfg ≤ x'.deadline c'.cfg)

theorem Kept.stays {c c' : VgCtrl} {x : VgDropRec} (h : Kept c x c') : Stays c c' x e := by
  obtain ⟨hcfg, x', hx', hcidr, hle⟩ := h
  exact ⟨x', hx', hcidr, fun _ => hcfg ▸ hle⟩

private theorem Gateway.Tracks.stays_or_lifted (h : g.Tracks env) (hok : g.Permits possible e)
    {x : VgDropRec} (hx : x ∈ g.ctrl.drops.records) :
    Stays g.ctrl (g.step env possible e).ctrl x e ∨ Lifted env g (g.step env possible e) x e := by
  have hsound := h.inForce.toSound
  have hstart : Kept g.ctrl x g.ctrl := ⟨rfl, x, hx, rfl, le_rfl⟩
  cases e with
  | frame i bytes room => exact .inl hstart.stays
  | command cmd =>
    cases cmd with
    | drop p =>
      exact .inl (dropAct_kept (dropAdd_trace env g.ctrl p.1 .manual 0) hsound.drops_ok hx).stays
    | dropTtl p ttl =>
      exact .inl (dropAct_kept (vgCtrlDropTtl_trace env g.ctrl p.1 ttl) hsound.drops_ok hx).stays
    | undrop p => exact (undrop_kept hsound p hx).imp Kept.stays .undrop
    | arm =>
      have htrace : Trace env (DropAct x.cidr .manual) g.ctrl (vgCtrlArm env g.ctrl).1 :=
        vgCtrlArm_trace trivial
      exact .inl (dropAct_kept htrace hsound.drops_ok hx).stays
    | disarm => exact .inr .disarm
    | reload file nic =>
      refine (reload_kept hsound.drops_ok file nic hx).imp ?_ .reload
      rintro ⟨x', hx', hcidr⟩
      exact ⟨x', hx', hcidr, fun hno => absurd ⟨file, nic, rfl⟩ hno⟩
    | tick t => exact absurd rfl (hok.2 t)
  | tick mono readable =>
    obtain ⟨hdrops, hcfg⟩ := g.step_tick_drops env possible mono readable
    exact .inl ⟨x, by rwa [hdrops], rfl, fun _ => by rw [hcfg]⟩
  | visit y =>
    cases hcall : g.callback possible (.visit y) with
    | none =>
      rw [step_visit_of_none hcall]
      exact .inl hstart.stays
    | some r =>
      obtain ⟨-, dt, -, -, hstep⟩ := callback_some env hcall
      rw [hstep]
      exact .inl ((policyOneRemote_trace env dt g.ctrl r).visit_kept hsound.drops_ok hx).stays
  | finish complete =>
    refine ((finish_trace hsound.drops_ok complete).kept hsound.drops_ok (fun _ _ => id) hstart
      (Q := Lifted env g (g.step env possible (.finish complete)) x (.finish complete)) ?_ ?_).imp
      Kept.stays id
    · rintro y i _ hcfg ⟨j, hlo, hhi, hdue⟩ _ hle hrest
      rw [inForce_eq_false_iff, hcfg] at hdue
      exact .expired j hlo (hhi.trans_le hrest.clock_le) (hle.trans hdue)
    · -- the automatic disarm happens only with an empty list
      intro y hy ha hne
      have hcount : y.drops.count = 0 := ha
      rw [hy.count_eq, List.length_eq_zero_iff] at hcount
      exact absurd hcount hne

end Step

section Lifetime
variable {env : Env} {possible : ℤ} {s : ℕ → Gateway} {es : ℕ → GateEvent} {k n : ℕ}

/-- The drop `r` of moment `k` is on the list at `l`, with the record `x`. -/
structure Lasts (s : ℕ → Gateway) (es : ℕ → GateEvent) (r : VgDropRec) (k l : ℕ) (x : VgDropRec) :
    Prop where
  mem : x ∈ (s l).ctrl.drops.records
  cidr : x.cidr = r.cidr
  deadline : (∀ i, k ≤ i → i < l → ¬ (es i).IsReload) →
    r.deadline (s k).ctrl.cfg ≤ x.deadline (s l).ctrl.cfg

theorem Lasts.succ {r x : VgDropRec} {l : ℕ} (h : Lasts s es r k l x) (hkl : k ≤ l)
    (hstay : Stays (s l).ctrl (s (l + 1)).ctrl x (es l)) : ∃ x', Lasts s es r k (l + 1) x' := by
  obtain ⟨x', hx', hcidr, hle⟩ := hstay
  refine ⟨x', hx', hcidr.trans h.cidr, fun hno => ?_⟩
  exact (h.deadline fun i hki hil => hno i hki (hil.trans l.lt_succ_self)).trans
    (hle (hno l hkl l.lt_succ_self))

/-- A listed drop is enforced until an event lifts it, and without a reload an expiry lifts it only
past the deadline that it had at the beginning. -/
theorem ban_holds_until_lifted (h : Gateway.Run env possible s es) (h₀ : (s 0).Started env)
    (hkn : k ≤ n) {r : VgDropRec} (hr : r ∈ (s k).ctrl.drops.records) :
    ∃ m, k ≤ m ∧ m ≤ n ∧ (∀ l, k ≤ l → l ≤ m → (s l).Enforces r.cidr) ∧
      (m = n ∨ ∃ x, Lasts s es r k m x ∧ Lifted env (s m) (s (m + 1)) x (es m)) := by
  have hlisted : ∀ {l x}, Lasts s es r k l x → (s l).Enforces r.cidr := fun {l} _ hx =>
    (h.tracks h₀ l).enforces (List.mem_map.mpr ⟨_, hx.mem, hx.cidr⟩)
  have hrun : (∃ m, k ≤ m ∧ m < n ∧ (∀ l, k ≤ l → l ≤ m → (s l).Enforces r.cidr) ∧
        ∃ x, Lasts s es r k m x ∧ Lifted env (s m) (s (m + 1)) x (es m)) ∨
      (∀ l, k ≤ l → l ≤ n → (s l).Enforces r.cidr) ∧ ∃ x, Lasts s es r k n x := by
    induction n, hkn using Nat.le_induction with
    | base =>
      have hx : Lasts s es r k k r := ⟨hr, rfl, fun _ => le_rfl⟩
      refine .inr ⟨fun l hkl hlk => ?_, r, hx⟩
      rw [Nat.le_antisymm hlk hkl]
      exact hlisted hx
    | succ n hkn ih =>
      rcases ih with ⟨m, hkm, hmn, hm⟩ | ⟨hall, x, hx⟩
      · exact .inl ⟨m, hkm, hmn.trans n.lt_succ_self, hm⟩
      · rcases h.next n ▸ (h.tracks h₀ n).stays_or_lifted (h.permits n) hx.mem with hstay | hlift
        · obtain ⟨x', hx'⟩ := hx.succ hkn hstay
          refine .inr ⟨fun l hkl hln => ?_, x', hx'⟩
          rcases Nat.le_succ_iff_eq_or_le.mp hln with rfl | hln
          · exact hlisted hx'
          · exact hall l hkl hln
        · exact .inl ⟨n, hkn, n.lt_succ_self, hall, x, hx, hlift⟩
  rcases hrun with ⟨m, hkm, hmn, hall, hlift⟩ | ⟨hall, -⟩
  · exact ⟨m, hkm, hmn.le, hall, .inr hlift⟩
  · exact ⟨n, hkn, le_rfl, hall, .inl rfl⟩

/-- The drop of the small gateway is enforced from the visit on that made it. -/
theorem ban_holds_until_lifted_sample : ∃ r ∈ (gateRun 9).ctrl.drops.records,
    r.cidr = sampleSource.host ∧ ∃ m, 9 ≤ m ∧ m ≤ 20 ∧
      (∀ l, 9 ≤ l → l ≤ m → (gateRun l).Enforces r.cidr) ∧
      (m = 20 ∨ ∃ x, Lasts gateRun gateEvents r 9 m x ∧
        Lifted steadyEnv (gateRun m) (gateRun (m + 1)) x (gateEvents m)) := by
  have hlisted : ∃ r ∈ (gateRun 9).ctrl.drops.records, r.cidr = sampleSource.host := by
    decide +kernel
  obtain ⟨r, hr, hcidr⟩ := hlisted
  exact ⟨r, hr, hcidr, ban_holds_until_lifted gateRun_run ⟨rfl, _, _, _, _, steadyStart_eq⟩
    (by decide) hr⟩

end Lifetime

end VoidGate
