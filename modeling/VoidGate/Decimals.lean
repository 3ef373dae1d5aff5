import Mathlib.Data.Nat.Digits.Lemmas

/-!
# Decimal numerals

Numbers as they are printed and read back: the numeral of a number, the value of a
sequence of digits, and a reader that gives up once the value read so far exceeds a
bound. With the bound tested before each digit, an accumulator of fixed width that has
room for one digit more than the bound never wraps.
-/

namespace VoidGate.Decimals

/-- The bytes `0` to `9`. -/
def isDigit (b : UInt8) : Bool := 48 ≤ b && b ≤ 57

/-- The numeral of a number, without leading zeros. -/
def text (n : ℕ) : List UInt8 :=
  if n = 0 then [48] else (Nat.digits 10 n).reverse.map fun d => UInt8.ofNat (48 + d)

/-- Append the digits `ds` to a numeral of value `v`. -/
def valueFrom (v : ℕ) (ds : List UInt8) : ℕ := ds.foldl (fun v d => v * 10 + (d.toNat - 48)) v

/-- Read digits behind a numeral of value `v`; the bound is tested before each of them. -/
def readBounded (bound : ℕ) : List UInt8 → ℕ → Option ℕ
  | [], v => some v
  | d :: ds, v =>
    if isDigit d = false ∨ bound < v then none else readBounded bound ds (v * 10 + (d.toNat - 48))

/-- The same reader with an accumulator of `w` bits. -/
def readWord {w : ℕ} (bound : ℕ) : List UInt8 → BitVec w → Option (BitVec w)
  | [], v => some v
  | d :: ds, v =>
    if isDigit d = false ∨ bound < v.toNat then none
    else readWord bound ds (v * 10 + BitVec.ofNat w (d.toNat - 48))

theorem isDigit_ofNat : ∀ d < 10, isDigit (UInt8.ofNat (48 + d)) = true := by decide

theorem toNat_ofNat_sub : ∀ d < 10, (UInt8.ofNat (48 + d)).toNat - 48 = d := by decide

theorem valueFrom_append (v : ℕ) (ds ds' : List UInt8) :
    valueFrom v (ds ++ ds') = valueFrom (valueFrom v ds) ds' := List.foldl_append

theorem text_ne_nil (n : ℕ) : text n ≠ [] := by
  rw [text]
  split_ifs with hn
  · exact List.cons_ne_nil _ _
  · simpa using Nat.digits_ne_nil_iff_ne_zero.mpr hn

theorem length_text_le {n d : ℕ} (hd : 0 < d) (h : n < 10 ^ d) : (text n).length ≤ d := by
  rw [text]
  split_ifs
  · exact hd
  · rw [List.length_map, List.length_reverse]
    exact (Nat.digits_length_le_iff (by decide) n).mpr h

theorem isDigit_of_mem_text {n : ℕ} {b : UInt8} (h : b ∈ text n) : isDigit b = true := by
  rw [text] at h
  split_ifs at h with hn
  · rw [List.mem_singleton.mp h]
    rfl
  · obtain ⟨d, hd, rfl⟩ := List.mem_map.mp h
    exact isDigit_ofNat d (Nat.digits_lt_base (by decide) (List.mem_reverse.mp hd))

/-- The value of a numeral is the number it was made from. -/
@[simp] theorem valueFrom_text (n : ℕ) : valueFrom 0 (text n) = n := by
  have hfold : ∀ l : List ℕ, (∀ d ∈ l, d < 10) →
      valueFrom 0 (l.reverse.map fun d => UInt8.ofNat (48 + d)) = Nat.ofDigits 10 l := by
    intro l hl
    induction l with
    | nil => rfl
    | cons d l ih =>
      obtain ⟨hd, hrest⟩ := List.forall_mem_cons.mp hl
      have hlast : ∀ v, valueFrom v [UInt8.ofNat (48 + d)] = v * 10 + d := fun v => by
        rw [valueFrom, List.foldl_cons, List.foldl_nil, toNat_ofNat_sub d hd]
      rw [List.reverse_cons, List.map_append, valueFrom_append, ih hrest, Nat.ofDigits_cons,
        List.map_singleton, hlast]
      omega
  rw [text]
  split_ifs with hn
  · rw [hn]
    rfl
  · rw [hfold _ fun d hd => Nat.digits_lt_base (by decide) hd, Nat.ofDigits_digits]

theorem le_valueFrom (ds : List UInt8) (v : ℕ) : v ≤ valueFrom v ds := by
  induction ds generalizing v with
  | nil => exact le_rfl
  | cons d ds ih =>
    have hle := ih (v * 10 + (d.toNat - 48))
    rw [valueFrom, List.foldl_cons, ← valueFrom]
    omega

theorem of_readBounded {bound : ℕ} {ds : List UInt8} {v w : ℕ}
    (h : readBounded bound ds v = some w) : (∀ d ∈ ds, isDigit d = true) ∧ w = valueFrom v ds := by
  induction ds generalizing v with
  | nil =>
    cases h
    exact ⟨by simp, rfl⟩
  | cons d ds ih =>
    rw [readBounded] at h
    split_ifs at h with hbad
    obtain ⟨hds, hw⟩ := ih h
    refine ⟨List.forall_mem_cons.mpr ⟨?_, hds⟩, hw⟩
    by_contra hd
    exact hbad (.inl (by simpa using hd))

/-- Digits whose value stays below the bound are read to their end. -/
theorem readBounded_eq {bound : ℕ} {ds : List UInt8} {v : ℕ} (hds : ∀ d ∈ ds, isDigit d = true)
    (hv : valueFrom v ds ≤ bound) : readBounded bound ds v = some (valueFrom v ds) := by
  induction ds generalizing v with
  | nil => rfl
  | cons d ds ih =>
    obtain ⟨hd, hrest⟩ := List.forall_mem_cons.mp hds
    have hle : v ≤ bound := (le_valueFrom (d :: ds) v).trans hv
    rw [readBounded, if_neg (by simp [hd, hle]), ih hrest hv]
    rfl

theorem toNat_sub_le {d : UInt8} (h : isDigit d = true) : d.toNat - 48 ≤ 9 := by
  simp only [isDigit, Bool.and_eq_true, decide_eq_true_eq, UInt8.le_iff_toNat_le] at h
  have h57 : (57 : UInt8).toNat = 57 := rfl
  omega

theorem toNat_next {w bound : ℕ} (hfit : bound * 10 + 9 < 2 ^ w) {v : BitVec w}
    (hv : v.toNat ≤ bound) {d : UInt8} (hd : isDigit d = true) :
    (v * 10 + BitVec.ofNat w (d.toNat - 48)).toNat = v.toNat * 10 + (d.toNat - 48) := by
  have hd9 := toNat_sub_le hd
  have hlt : v.toNat * 10 + (d.toNat - 48) < 2 ^ w := by omega
  have h10 : (10 : BitVec w).toNat * v.toNat % 2 ^ w = v.toNat * 10 := by
    rw [show (10 : BitVec w) = BitVec.ofNat w 10 from rfl, BitVec.toNat_ofNat, Nat.mod_mul_mod,
      Nat.mod_eq_of_lt (by omega)]
    omega
  rw [BitVec.toNat_add, BitVec.toNat_mul, Nat.mul_comm v.toNat, h10, BitVec.toNat_ofNat,
    Nat.add_mod_mod, Nat.mod_eq_of_lt hlt]

/-- The reader with the narrow accumulator reads the same numbers, however many digits there
are. -/
theorem readWord_eq {w bound : ℕ} (hfit : bound * 10 + 9 < 2 ^ w) (ds : List UInt8) (v : BitVec w) :
    (readWord bound ds v).map BitVec.toNat = readBounded bound ds v.toNat := by
  induction ds generalizing v with
  | nil => rfl
  | cons d ds ih =>
    rw [readWord, readBounded]
    split_ifs with hbad
    · rfl
    · simp only [not_or, Bool.not_eq_false, not_lt] at hbad
      rw [ih, toNat_next hfit hbad.2 hbad.1]

end VoidGate.Decimals
