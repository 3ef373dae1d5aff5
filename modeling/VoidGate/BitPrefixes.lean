import Mathlib.Order.Basic
import Mathlib.Data.Nat.Basic
import Mathlib.Logic.Nontrivial.Basic

/-!
# Prefixes of infinite strings

A prefix of length `n` is the set of strings that agree with a given one on the
first `n` positions. Two such sets are nested or disjoint: they have a common
member exactly when the two strings agree on the shorter of the two lengths, and
one contains the other exactly when it is the shorter of the two as well.
-/

namespace VoidGate.BitPrefixes

variable {α : Type*}

/-- The strings `a` and `b` agree on their first `n` positions. -/
def Agree (n : ℕ) (a b : ℕ → α) : Prop := ∀ i < n, a i = b i

theorem Agree.refl (n : ℕ) (a : ℕ → α) : Agree n a a := fun _ _ => rfl

theorem Agree.symm {n : ℕ} {a b : ℕ → α} (h : Agree n a b) : Agree n b a :=
  fun i hi => (h i hi).symm

theorem Agree.trans {n : ℕ} {a b c : ℕ → α} (h : Agree n a b) (h' : Agree n b c) :
    Agree n a c := fun i hi => (h i hi).trans (h' i hi)

theorem Agree.mono {n m : ℕ} {a b : ℕ → α} (h : Agree m a b) (hnm : n ≤ m) : Agree n a b :=
  fun i hi => h i (hi.trans_le hnm)

theorem exists_agree_agree_iff {n m : ℕ} {a b : ℕ → α} :
    (∃ x, Agree n a x ∧ Agree m b x) ↔ (n ≤ m ∧ Agree n a b) ∨ (m ≤ n ∧ Agree m b a) := by
  constructor
  · rintro ⟨x, ha, hb⟩
    rcases le_total n m with h | h
    · exact .inl ⟨h, ha.trans (hb.mono h).symm⟩
    · exact .inr ⟨h, hb.trans (ha.mono h).symm⟩
  · rintro (⟨-, hab⟩ | ⟨-, hba⟩)
    · exact ⟨b, hab, .refl m b⟩
    · exact ⟨a, .refl n a, hba⟩

theorem forall_agree_iff [Nontrivial α] {n m : ℕ} {a b : ℕ → α} :
    (∀ x, Agree m b x → Agree n a x) ↔ n ≤ m ∧ Agree n a b := by
  constructor
  · intro h
    have hab : Agree n a b := h b (.refl m b)
    refine ⟨?_, hab⟩
    by_contra hlt
    -- a string that leaves `b` at position `m` is still in the prefix of `b`
    obtain ⟨y, hy⟩ := exists_ne (b m)
    have hupd : Agree m b (Function.update b m y) := fun i hi => by
      rw [Function.update_of_ne (by omega)]
    have hm := h _ hupd m (by omega)
    rw [Function.update_self, hab m (by omega)] at hm
    exact hy hm.symm
  · rintro ⟨hnm, hab⟩ x hx
    exact hab.trans (hx.mono hnm)

end VoidGate.BitPrefixes
