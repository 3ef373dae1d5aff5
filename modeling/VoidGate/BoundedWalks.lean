import Mathlib.Data.List.Basic

/-!
# Walks with a bounded number of rounds

A partial successor function is followed from a starting point. A walk that may take
only so many rounds ends where there is no successor, or where its rounds are used up.
Its result is thereby a statement about the points that the successor function visits,
in which the loop no longer occurs.
-/

namespace VoidGate.BoundedWalks

variable {σ β : Type*} (next : σ → Option σ)

/-- The point this many successors behind `s`, as long as there are that many. -/
def orbit (s : σ) : ℕ → Option σ
  | 0 => some s
  | k + 1 => (orbit s k).bind next

/-- Follow `next` for at most this many rounds. -/
def walk (ending full : σ → β) : ℕ → σ → β
  | 0, s => full s
  | n + 1, s => match next s with
    | none => ending s
    | some s' => walk ending full n s'

variable {next}

theorem orbit_succ (s : σ) (k : ℕ) :
    orbit next s (k + 1) = (next s).bind fun s' => orbit next s' k := by
  induction k with
  | zero =>
    rw [orbit, orbit, Option.bind_some]
    exact (Option.bind_fun_some _).symm
  | succ k ih =>
    rw [orbit, ih, Option.bind_assoc]
    rfl

theorem orbit_invariant {I : σ → Prop} (step : ∀ s s', I s → next s = some s' → I s') {s t : σ}
    {k : ℕ} (h : orbit next s k = some t) (start : I s) : I t := by
  induction k generalizing t with
  | zero =>
    obtain rfl := Option.some.inj h
    exact start
  | succ k ih =>
    obtain ⟨u, hu, ht⟩ := Option.bind_eq_some_iff.mp h
    exact step u t (ih hu) ht

/-- A walk returns `b` at a point without successor that it visits within its rounds, or at the
point that comes after all of them. -/
theorem walk_eq_iff (ending full : σ → β) (n : ℕ) (s : σ) (b : β) :
    walk next ending full n s = b ↔
      (∃ k < n, ∃ t, orbit next s k = some t ∧ next t = none ∧ ending t = b) ∨
        ∃ t, orbit next s n = some t ∧ full t = b := by
  induction n generalizing s with
  | zero => simp [walk, orbit]
  | succ n ih =>
    cases hs : next s with
    | none =>
      have hend (k : ℕ) : orbit next s (k + 1) = none := by rw [orbit_succ, hs, Option.bind_none]
      have hwalk : walk next ending full (n + 1) s = ending s := by rw [walk, hs]
      rw [hwalk, hend]
      constructor
      · intro h
        exact .inl ⟨0, n.succ_pos, s, rfl, hs, h⟩
      · rintro (⟨_ | k, -, t, ht, -, h⟩ | ⟨t, ht, -⟩)
        · obtain rfl := Option.some.inj ht
          exact h
        · exact absurd ht (by simp [hend])
        · exact absurd ht (by simp)
    | some s' =>
      have hstep (k : ℕ) : orbit next s (k + 1) = orbit next s' k := by
        rw [orbit_succ, hs, Option.bind_some]
      have hwalk : walk next ending full (n + 1) s = walk next ending full n s' := by rw [walk, hs]
      rw [hwalk, hstep, ih]
      refine or_congr_left ⟨?_, ?_⟩
      · rintro ⟨k, hk, t, ht, h⟩
        exact ⟨k + 1, Nat.succ_lt_succ hk, t, (hstep k).trans ht, h⟩
      · rintro ⟨_ | k, hk, t, ht, hnone, h⟩
        · obtain rfl := Option.some.inj ht
          exact absurd (hs.symm.trans hnone) (by simp)
        · exact ⟨k, Nat.lt_of_succ_lt_succ hk, t, (hstep k).symm.trans ht, hnone, h⟩

end VoidGate.BoundedWalks
