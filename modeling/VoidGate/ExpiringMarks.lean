import Mathlib.Logic.Function.Basic
import Mathlib.Order.Lattice
import Mathlib.Tactic.SplitIfs

/-!
# Marks that expire

A store in which a key can be marked until some time, by whoever comes first: as long
as the mark has not expired, nobody else can mark the key. What the store knows of the
past is then the list of the claims that were granted, and the claims on one key follow
each other without overlap.
-/

namespace VoidGate.ExpiringMarks

variable {κ τ : Type*}

abbrev Marks (κ τ : Type*) := κ → Option τ

/-- A mark on `key` that was set at `opened` and expires at `closes`. -/
structure Claim (κ τ : Type*) where
  key : κ
  opened : τ
  closes : τ

namespace Marks

def empty : Marks κ τ := fun _ => none

variable [LinearOrder τ] (m : Marks κ τ) (k : κ) (now e : τ)

def Live : Prop := ∃ e, m k = some e ∧ now < e

instance : Decidable (m.Live k now) :=
  match h : m k with
  | none => .isFalse fun ⟨_, he, _⟩ => by cases h.symm.trans he
  | some e =>
    decidable_of_iff (now < e)
      ⟨fun hlt => ⟨e, h, hlt⟩, fun ⟨_, he, hlt⟩ => Option.some.inj (h.symm.trans he) ▸ hlt⟩

/-- Mark the key until `e`, unless it has a mark already. -/
def add [DecidableEq κ] : Option (Marks κ τ) :=
  if m.Live k now then none else some (Function.update m k (some e))

variable {m k now e}

theorem add_eq_none_iff [DecidableEq κ] : m.add k now e = none ↔ m.Live k now := by
  rw [add]
  split_ifs with h <;> simp [h]

theorem not_live_of_add [DecidableEq κ] {m' : Marks κ τ} (h : m.add k now e = some m') :
    ¬ m.Live k now ∧ m' = Function.update m k (some e) := by
  rw [add] at h
  split_ifs at h with hlive
  exact ⟨hlive, (Option.some.inj h).symm⟩

end Marks

variable [LinearOrder τ] {m m' : Marks κ τ} {cs : List (Claim κ τ)} {now now' : τ}

/-- The marks at `now` are what these claims have left, one key at a time. -/
structure LeftBy (m : Marks κ τ) (cs : List (Claim κ τ)) (now : τ) : Prop where
  live_iff : ∀ k t, now ≤ t → (m.Live k t ↔ ∃ c ∈ cs, c.key = k ∧ t < c.closes)
  apart : cs.Pairwise fun a b => a.key = b.key → a.closes ≤ b.opened
  past : ∀ c ∈ cs, c.opened ≤ now

theorem leftBy_empty (now : τ) : LeftBy (.empty : Marks κ τ) [] now where
  live_iff k t _ := by simp [Marks.Live, Marks.empty]
  apart := .nil
  past := by simp

theorem LeftBy.later (h : LeftBy m cs now) (hle : now ≤ now') : LeftBy m cs now' where
  live_iff k t ht := h.live_iff k t (hle.trans ht)
  apart := h.apart
  past c hc := (h.past c hc).trans hle

/-- A mark that is granted is one more claim, and all earlier ones on its key have expired. -/
theorem LeftBy.add [DecidableEq κ] {k : κ} {e : τ} (h : LeftBy m cs now)
    (hadd : m.add k now e = some m') : LeftBy m' (cs ++ [⟨k, now, e⟩]) now := by
  obtain ⟨hlive, rfl⟩ := Marks.not_live_of_add hadd
  have hclosed : ∀ c ∈ cs, c.key = k → c.closes ≤ now := by
    intro c hc hk
    rw [h.live_iff k now le_rfl] at hlive
    exact not_lt.mp fun hlt => hlive ⟨c, hc, hk, hlt⟩
  refine ⟨fun k' t ht => ?_, ?_, fun c hc => ?_⟩
  · by_cases hk : k' = k
    · subst hk
      have hself : Marks.Live (Function.update m k' (some e)) k' t ↔ t < e := by
        simp [Marks.Live]
      rw [hself]
      constructor
      · exact fun hlt => ⟨⟨k', now, e⟩, by simp, rfl, hlt⟩
      · rintro ⟨c, hc, hck, hlt⟩
        rcases List.mem_append.mp hc with hc | hc
        · exact absurd (hlt.trans_le (hclosed c hc hck)) (not_lt.mpr ht)
        · rwa [List.mem_singleton.mp hc] at hlt
    · have hother : Marks.Live (Function.update m k (some e)) k' t ↔ m.Live k' t := by
        simp [Marks.Live, hk]
      rw [hother, h.live_iff k' t ht]
      constructor
      · rintro ⟨c, hc, hck⟩
        exact ⟨c, List.mem_append_left _ hc, hck⟩
      · rintro ⟨c, hc, hck, hlt⟩
        rcases List.mem_append.mp hc with hc | hc
        · exact ⟨c, hc, hck, hlt⟩
        · rw [List.mem_singleton.mp hc] at hck
          exact absurd hck.symm hk
  · refine List.pairwise_append.mpr ⟨h.apart, List.pairwise_singleton _ _, fun a ha b hb hab => ?_⟩
    obtain rfl := List.mem_singleton.mp hb
    exact hclosed a ha hab
  · rcases List.mem_append.mp hc with hc | hc
    · exact h.past c hc
    · rw [List.mem_singleton.mp hc]

end VoidGate.ExpiringMarks
