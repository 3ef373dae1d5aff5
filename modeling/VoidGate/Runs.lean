import Mathlib.Data.List.Basic

/-!
# Runs of a deterministic machine

A run feeds inputs to a step function one after the other. Every input may be
subject to a side condition on the state it is taken in. A property that holds at
the start and survives every permitted step holds in every state of every run. A
fold that may give up is a run that ends early.
-/

namespace VoidGate.Runs

variable {σ ι : Type*}

/-- The states reached from `s₀` by inputs that are permitted where they are taken. -/
inductive Reaches (step : σ → ι → σ) (ok : σ → ι → Prop) (s₀ : σ) : σ → Prop where
  | start : Reaches step ok s₀ s₀
  | next {s : σ} (run : Reaches step ok s₀ s) (i : ι) (permitted : ok s i) :
      Reaches step ok s₀ (step s i)

variable {step : σ → ι → σ} {ok : σ → ι → Prop} {s₀ s : σ}

/-- The induction rule for invariants. -/
theorem Reaches.invariant {I : σ → Prop} (h : Reaches step ok s₀ s) (start : I s₀)
    (next : ∀ s i, I s → ok s i → I (step s i)) : I s := by
  induction h with
  | start => exact start
  | next _ i hi ih => exact next _ i ih hi

/-- What does not hold at the start and holds at the end has come with some step of the run. -/
theorem Reaches.turns {P : σ → Prop} (h : Reaches step ok s₀ s) (start : ¬ P s₀) (last : P s) :
    ∃ t i, ¬ P t ∧ P (step t i) ∧ Reaches step ok s₀ (step t i) ∧ Reaches step ok (step t i) s := by
  induction h with
  | start => exact absurd last start
  | @next s run i hi ih =>
    by_cases hs : P s
    · obtain ⟨t, j, hbefore, hafter, hfirst, hrest⟩ := ih hs
      exact ⟨t, j, hbefore, hafter, hfirst, hrest.next i hi⟩
    · exact ⟨s, i, hs, last, run.next i hi, .start⟩

/-- Inputs that are permitted everywhere can be taken one after the other. -/
theorem Reaches.foldl (h : Reaches step ok s₀ s) (l : List ι) (hok : ∀ i ∈ l, ∀ s, ok s i) :
    Reaches step ok s₀ (l.foldl step s) := by
  induction l generalizing s with
  | nil => exact h
  | cons i l ih =>
    obtain ⟨hi, hl⟩ := List.forall_mem_cons.mp hok
    exact ih (h.next i (hi s)) hl

/-- The states of a run on an endless sequence of inputs. -/
def states (step : σ → ι → σ) (s₀ : σ) (is : ℕ → ι) : ℕ → σ
  | 0 => s₀
  | n + 1 => step (states step s₀ is n) (is n)

theorem reaches_states (is : ℕ → ι) (n : ℕ) :
    Reaches step (fun _ _ => True) s₀ (states step s₀ is n) := by
  induction n with
  | zero => exact .start
  | succ n ih => exact ih.next (is n) trivial

theorem exists_since {P : ℕ → Prop} {m n : ℕ} (hm : ¬ P m) (hmn : m ≤ n) (hn : P n) :
    ∃ k, m ≤ k ∧ k < n ∧ ¬ P k ∧ ∀ l, k < l → l ≤ n → P l := by
  induction hmn with
  | refl => exact absurd hn hm
  | @step n hmn ih =>
    by_cases hp : P n
    · obtain ⟨k, hmk, hkn, hk, hsince⟩ := ih hp
      refine ⟨k, hmk, by omega, hk, fun l hkl hl => ?_⟩
      by_cases hlast : l = n + 1
      · exact hlast ▸ hn
      · exact hsince l hkl (by omega)
    · refine ⟨n, hmn, by omega, hp, fun l hnl hl => ?_⟩
      obtain rfl : l = n + 1 := by omega
      exact hn

theorem foldlM_invariant {f : σ → ι → Option σ} {I : σ → Prop}
    (next : ∀ s i s', I s → f s i = some s' → I s') {l : List ι} {s s' : σ}
    (h : l.foldlM f s = some s') (start : I s) : I s' := by
  induction l generalizing s with
  | nil =>
    obtain rfl : s = s' := by simpa using h
    exact start
  | cons i l ih =>
    obtain ⟨t, ht, hl⟩ := Option.bind_eq_some_iff.mp h
    exact ih hl (next s i t start ht)

end VoidGate.Runs
