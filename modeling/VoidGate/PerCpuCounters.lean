import Mathlib.Algebra.BigOperators.Intervals

/-!
# Counters kept once per processor

A table has one value for every key and processor, so that processors never wait for
each other. Whoever wants a number adds the values of all processors up. An entry may be
thrown out and made anew at any time, and then it starts over. The sum of an entry
therefore lags behind what was really added to it, but it never runs ahead.
-/

namespace VoidGate.PerCpu

variable {κ ν M : Type*}

/-- Every key has a value for each processor, or no entry at all. -/
abbrev Table (κ ν : Type*) := κ → Option (ℕ → ν)

/-- What processor `i` finds. -/
def Table.view (t : Table κ ν) (i : ℕ) : κ → Option ν := fun x => (t x).map (· i)

/-- The table after processor `i` has turned its view into `v`. In an entry that `i` has made the
other processors find `zero`. -/
def Table.writeBack (t : Table κ ν) (zero : ν) (i : ℕ) (v : κ → Option ν) : Table κ ν :=
  fun x => (v x).map fun a => Function.update ((t x).getD fun _ => zero) i a

@[simp] theorem Table.view_eq_none_iff {t : Table κ ν} {i : ℕ} {x : κ} :
    t.view i x = none ↔ t x = none := Option.map_eq_none_iff

@[simp] theorem Table.writeBack_eq_none_iff {t : Table κ ν} {zero : ν} {i : ℕ} {v : κ → Option ν}
    {x : κ} : t.writeBack zero i v x = none ↔ v x = none := Option.map_eq_none_iff

@[simp] theorem Table.writeBack_view (t : Table κ ν) (zero : ν) (i : ℕ) :
    t.writeBack zero i (t.view i) = t := by
  funext x
  cases ht : t x with
  | none => simp [writeBack, view, ht]
  | some f => simp [writeBack, view, ht]

section Sums
variable [AddCommMonoid M]

/-- A quantity of the values, added up over the first `n` processors. -/
def total (n : ℕ) (q : ν → M) (f : ℕ → ν) : M := ∑ i ∈ Finset.range n, q (f i)

theorem total_succ (n : ℕ) (q : ν → M) (f : ℕ → ν) : total (n + 1) q f = total n q f + q (f n) :=
  Finset.sum_range_succ _ n

theorem foldl_add_eq_total {add : ν → ν → ν} {zero : ν} {q : ν → M} (hzero : q zero = 0)
    (hadd : ∀ a b, q (add a b) = q a + q b) (n : ℕ) (src : ℕ → ν) :
    q ((List.range n).foldl (fun dst cpu => add dst (src cpu)) zero) = total n q src := by
  induction n with
  | zero => exact hzero
  | succ n ih =>
    rw [List.range_succ, List.foldl_append, List.foldl_cons, List.foldl_nil, hadd, ih, total_succ]

theorem total_update {n i : ℕ} (hi : i < n) (q : ν → M) (f : ℕ → ν) {a : ν} {d : M}
    (h : q a = q (f i) + d) : total n q (Function.update f i a) = total n q f + d := by
  have hmem : i ∈ Finset.range n := Finset.mem_range.mpr hi
  have hrest : ∑ j ∈ (Finset.range n).erase i, q (Function.update f i a j) =
      ∑ j ∈ (Finset.range n).erase i, q (f j) := by
    refine Finset.sum_congr rfl fun j hj => ?_
    rw [Function.update_of_ne (Finset.ne_of_mem_erase hj)]
  rw [total, total, ← Finset.add_sum_erase _ _ hmem, ← Finset.add_sum_erase _ (fun j => q (f j)) hmem,
    hrest, Function.update_self, h, add_right_comm]

theorem total_zero (n : ℕ) {q : ν → M} {zero : ν} (h : q zero = 0) :
    total n q (fun _ => zero) = 0 := by
  simp only [total, h, Finset.sum_const_zero]

/-- The sum of an entry. -/
def Table.sum (t : Table κ ν) (n : ℕ) (q : ν → M) (x : κ) : Option M := (t x).map (total n q)

/-- From `a` to `b` the sum of an entry has taken all of `d`. -/
def Takes (d : M) (a b : Option M) : Prop := ∃ s, a = some s ∧ b = some (s + d)

/-- One write: the entry is gone, or it takes `d`, or it is made and starts with `d`. -/
def Shifts (d : M) (a b : Option M) : Prop := b = none ∨ Takes d a b ∨ a = none ∧ b = some d

/-- Nothing more than `d` has come into the entry: it has taken all of it, or it has been started
over with a part, or it is gone. -/
def Grown (of : ℕ →+ M) (d : ℕ) (a b : Option M) : Prop :=
  b = none ∨ Takes (of d) a b ∨ ∃ e ≤ d, b = some (of e)

variable {of : ℕ →+ M} {d d' : ℕ} {a b c : Option M}

theorem Takes.trans {d d' : M} (h : Takes d a b) (h' : Takes d' b c) : Takes (d + d') a c := by
  obtain ⟨s, rfl, rfl⟩ := h
  obtain ⟨_, he, rfl⟩ := h'
  cases he
  exact ⟨s, rfl, by rw [add_assoc]⟩

theorem Takes.zero (s : M) : Takes 0 (some s) (some s) := ⟨s, rfl, by rw [add_zero]⟩

theorem Grown.refl (of : ℕ →+ M) (a : Option M) : Grown of 0 a a := by
  cases a with
  | none => exact .inl rfl
  | some s => exact .inr (.inl ((map_zero of).symm ▸ Takes.zero s))

theorem Grown.trans (h : Grown of d a b) (h' : Grown of d' b c) : Grown of (d + d') a c := by
  rcases h' with rfl | htakes | ⟨e, he, rfl⟩
  · exact .inl rfl
  · rcases h with rfl | h | ⟨e, he, rfl⟩
    · obtain ⟨_, hnone, -⟩ := htakes
      cases hnone
    · exact .inr (.inl (map_add of d d' ▸ h.trans htakes))
    · obtain ⟨_, hsome, rfl⟩ := htakes
      cases hsome
      exact .inr (.inr ⟨e + d', by omega, by rw [map_add]⟩)
  · exact .inr (.inr ⟨e, by omega, rfl⟩)

theorem Shifts.refl (a : Option M) : Shifts 0 a a := by
  cases a with
  | none => exact .inl rfl
  | some s => exact .inr (.inl (.zero s))

theorem Shifts.grown (h : Shifts (of d) a b) : Grown of d a b :=
  h.imp_right fun h => h.imp_right fun h => ⟨d, le_rfl, h.2⟩

theorem Shifts.takes {d : M} (h : Shifts d a b) (ha : a.isSome) (hb : b.isSome) : Takes d a b := by
  rcases h with rfl | h | ⟨rfl, -⟩
  · cases hb
  · exact h
  · cases ha

section Run
variable {s : ℕ → Option M} {w : ℕ → ℕ} (h : ∀ k, Shifts (of (w k)) (s k) (s (k + 1)))
include h

theorem grown_of_shifts {m n : ℕ} (hmn : m ≤ n) :
    Grown of (∑ k ∈ Finset.Ico m n, w k) (s m) (s n) := by
  induction n, hmn using Nat.le_induction with
  | base =>
    rw [Finset.Ico_self, Finset.sum_empty]
    exact .refl of (s m)
  | succ n hmn ih =>
    rw [Finset.sum_Ico_succ_top hmn]
    exact ih.trans (h n).grown

theorem takes_of_shifts {m n : ℕ} (hmn : m ≤ n) (hstay : ∀ k, m ≤ k → k ≤ n → (s k).isSome) :
    Takes (of (∑ k ∈ Finset.Ico m n, w k)) (s m) (s n) := by
  induction n, hmn using Nat.le_induction with
  | base =>
    obtain ⟨a, ha⟩ := Option.isSome_iff_exists.mp (hstay m le_rfl le_rfl)
    rw [Finset.Ico_self, Finset.sum_empty, map_zero, ha]
    exact .zero a
  | succ n hmn ih =>
    rw [Finset.sum_Ico_succ_top hmn, map_add]
    have hlast := (h n).takes (hstay n hmn n.le_succ) (hstay (n + 1) (hmn.trans n.le_succ) le_rfl)
    exact (ih fun k hk hkn => hstay k hk (hkn.trans n.le_succ)).trans hlast

theorem sum_of_shifts (h₀ : s 0 = none) (hroom : ∀ k, s (k + 1) = none → s k = none ∧ w k = 0)
    (n : ℕ) : s n = none ∧ ∑ k ∈ Finset.Ico 0 n, w k = 0 ∨
      s n = some (of (∑ k ∈ Finset.Ico 0 n, w k)) := by
  induction n with
  | zero => exact .inl ⟨h₀, by rw [Finset.Ico_self, Finset.sum_empty]⟩
  | succ n ih =>
    rw [Finset.sum_Ico_succ_top n.zero_le]
    rcases h n with hnone | htakes | ⟨hnone, hsome⟩
    · obtain ⟨hprev, hw⟩ := hroom n hnone
      rcases ih with ⟨-, hzero⟩ | hsome
      · exact .inl ⟨hnone, by rw [hzero, hw]⟩
      · cases hprev.symm.trans hsome
    · obtain ⟨a, ha, hb⟩ := htakes
      rcases ih with ⟨hprev, -⟩ | hsome
      · cases hprev.symm.trans ha
      · cases ha.symm.trans hsome
        exact .inr (hb.trans (by rw [map_add]))
    · rcases ih with ⟨-, hzero⟩ | hprev
      · exact .inr (by rw [hsome, hzero, zero_add])
      · cases hnone.symm.trans hprev

end Run

/-- One processor writes to the table: every entry takes what was added to the view of it, starts
with that, or is gone. -/
theorem Table.sum_writeBack (t : Table κ ν) {n i : ℕ} (hi : i < n) {q : ν → M} {zero : ν}
    (hzero : q zero = 0) (v : κ → Option ν) {x : κ} {w : M}
    (hadds : ∀ a b, t.view i x = some a → v x = some b → q b = q a + w)
    (hnew : ∀ b, t.view i x = none → v x = some b → q b = w) :
    Shifts w (t.sum n q x) ((t.writeBack zero i v).sum n q x) := by
  cases hv : v x with
  | none => exact .inl (by simp [sum, writeBack, hv])
  | some b =>
    refine .inr ?_
    cases ht : t x with
    | none =>
      have hb : q b = q zero + w := by
        rw [hzero, zero_add]
        exact hnew b (by simp [view, ht]) hv
      refine .inr ⟨by simp [sum, ht], ?_⟩
      simp only [sum, writeBack, hv, ht, Option.map_some, Option.getD_none]
      rw [total_update hi q _ hb, total_zero n hzero, zero_add]
    | some f =>
      refine .inl ⟨total n q f, by simp [sum, ht], ?_⟩
      simp only [sum, writeBack, hv, ht, Option.map_some, Option.getD_some]
      rw [total_update hi q f (hadds _ b (by simp [view, ht]) hv)]

@[simp] theorem Table.sum_eq_none_iff (t : Table κ ν) (n : ℕ) (q : ν → M) (x : κ) :
    t.sum n q x = none ↔ t x = none := Option.map_eq_none_iff

end Sums

end VoidGate.PerCpu
