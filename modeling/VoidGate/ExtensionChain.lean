import VoidGate.BoundedWalks
import VoidGate.Encapsulation

/-!
# The chain of extension headers

The chain is a property of the bytes behind the fixed IPv6 header: every header gives
its own length and the protocol of what follows it. It goes on as long as the headers
are extension headers that lie inside the frame and do not belong to a later fragment.
The bounded loop of `v6_walk_ext` follows this chain, so its three results say what
is found on it within the first eight headers.
-/

namespace VoidGate

namespace Reference

/-- A header on the chain: where it starts behind the fixed header, and the protocol that announces
it. -/
structure ChainElement where
  offset : ℕ
  proto : UInt8
  deriving DecidableEq

namespace ChainElement

/-- The length of the element, if it is an extension header. -/
def length (bytes : List UInt8) (e : ChainElement) : ℕ :=
  extensionLength e.proto (bytes.drop e.offset)

/-- The last byte of the header is inside the frame. -/
def Inside (bytes : List UInt8) (e : ChainElement) : Prop :=
  e.offset + e.length bytes ≤ bytes.length

/-- A fragment header whose offset, the upper thirteen bits of its second pair of bytes, is not
zero. -/
def IsLaterFragment (bytes : List UInt8) (e : ChainElement) : Prop :=
  e.proto = 44 ∧ (be16At bytes (e.offset + 2)).toNat / 8 ≠ 0

instance (bytes : List UInt8) (e : ChainElement) : Decidable (e.Inside bytes) :=
  inferInstanceAs (Decidable (_ ≤ _))

instance (bytes : List UInt8) (e : ChainElement) : Decidable (e.IsLaterFragment bytes) :=
  inferInstanceAs (Decidable (_ ∧ _))

/-- The element behind this one. -/
def next (bytes : List UInt8) (e : ChainElement) : Option ChainElement :=
  if IsExtension e.proto ∧ e.Inside bytes ∧ ¬ e.IsLaterFragment bytes then
    some ⟨e.offset + e.length bytes, byteAt bytes e.offset⟩
  else none

end ChainElement

/-- The elements of the chain, counted from zero, in bytes that are announced as `first`. -/
def chain (bytes : List UInt8) (first : UInt8) : ℕ → Option ChainElement :=
  BoundedWalks.orbit (ChainElement.next bytes) ⟨0, first⟩

end Reference

open Reference

private theorem and_fff8_eq_zero_iff (x : UInt16) : x &&& 0xfff8 = 0 ↔ x.toNat / 8 = 0 := by
  have hx : x.toNat < 2 ^ 16 := x.toNat_lt
  have hdiv : (x.toNat &&& 0xfff8) / 2 ^ 3 = x.toNat / 2 ^ 3 := by
    rw [Nat.and_div_two_pow, show 0xfff8 / 2 ^ 3 = 2 ^ 13 - 1 from rfl,
      Nat.and_two_pow_sub_one_eq_mod]
    omega
  have hmod : (x.toNat &&& 0xfff8) % 2 ^ 3 = 0 := by
    rw [Nat.and_mod_two_pow]
    exact Nat.and_zero _
  rw [← UInt16.toNat_inj, UInt16.toNat_and]
  change x.toNat &&& 0xfff8 = 0 ↔ _
  omega

private theorem extensionLength_ge (proto : UInt8) (bytes : List UInt8) :
    8 ≤ extensionLength proto bytes := by
  rw [extensionLength]
  split_ifs <;> omega

namespace Reference.ChainElement
variable {bytes : List UInt8} {e e' : ChainElement}

theorem inside_iff : e.Inside bytes ↔ ¬ ((bytes.drop e.offset).length < 2 ∨
    (bytes.drop e.offset).length < extensionLength e.proto (bytes.drop e.offset)) := by
  have hlen := extensionLength_ge e.proto (bytes.drop e.offset)
  rw [Inside, length, List.length_drop]
  omega

theorem isLaterFragment_iff : e.IsLaterFragment bytes ↔
    e.proto = 44 ∧ be16At (bytes.drop e.offset) 2 &&& 0xfff8 ≠ 0 := by
  rw [IsLaterFragment, be16At_drop, ne_eq, ne_eq, and_fff8_eq_zero_iff]

theorem IsLaterFragment.isExtension (h : e.IsLaterFragment bytes) : IsExtension e.proto := by
  rw [h.1]
  decide

theorem IsLaterFragment.length_eq (h : e.IsLaterFragment bytes) : e.length bytes = 8 := by
  rw [length, extensionLength, if_pos h.1]

theorem next_eq_some_iff : e.next bytes = some e' ↔
    (IsExtension e.proto ∧ e.Inside bytes ∧ ¬ e.IsLaterFragment bytes) ∧
      e' = ⟨e.offset + e.length bytes, byteAt bytes e.offset⟩ := by
  rw [next, Option.ite_none_right_eq_some, Option.some.injEq, eq_comm (a := e')]

theorem next_eq_none_iff : e.next bytes = none ↔
    ¬ IsExtension e.proto ∨ ¬ e.Inside bytes ∨ e.IsLaterFragment bytes := by
  rw [next, ite_eq_right_iff]
  simp only [reduceCtorEq, imp_false]
  tauto

end Reference.ChainElement

private theorem chain_offset_le {bytes : List UInt8} {first : UInt8} {k : ℕ} {e : ChainElement}
    (h : chain bytes first k = some e) : e.offset ≤ bytes.length := by
  refine BoundedWalks.orbit_invariant (I := fun e => e.offset ≤ bytes.length) ?_ h (Nat.zero_le _)
  intro e e' _ hnext
  obtain ⟨⟨_, hin, _⟩, rfl⟩ := ChainElement.next_eq_some_iff.mp hnext
  exact hin

section Walk
variable (start : ℕ) (bytes : List UInt8) (e : ChainElement)

def walkFull : ExtWalk := .reached (start + e.offset) e.proto

def walkEnd : ExtWalk :=
  if ¬ IsExtension e.proto then walkFull start e
  else if ¬ e.Inside bytes then .truncated
  else .fragment (start + e.offset + 8) (byteAt bytes e.offset)

variable {start bytes e} {l4 : ℕ} {proto : UInt8}

private theorem walkEnd_truncated_iff :
    e.next bytes = none ∧ walkEnd start bytes e = .truncated ↔
      IsExtension e.proto ∧ ¬ e.Inside bytes := by
  rw [ChainElement.next_eq_none_iff, walkEnd, walkFull]
  by_cases hext : IsExtension e.proto <;> by_cases hin : e.Inside bytes <;> simp [hext, hin]

private theorem walkEnd_fragment_iff :
    e.next bytes = none ∧ walkEnd start bytes e = .fragment l4 proto ↔
      e.Inside bytes ∧ e.IsLaterFragment bytes ∧
        l4 = start + e.offset + 8 ∧ proto = byteAt bytes e.offset := by
  rw [ChainElement.next_eq_none_iff, walkEnd, walkFull]
  by_cases hext : IsExtension e.proto
  · by_cases hin : e.Inside bytes <;> simp [hext, hin, eq_comm]
  · have hno : ¬ e.IsLaterFragment bytes := fun h => hext h.isExtension
    simp [hext, hno]

private theorem walkEnd_reached_iff :
    e.next bytes = none ∧ walkEnd start bytes e = .reached l4 proto ↔
      ¬ IsExtension e.proto ∧ l4 = start + e.offset ∧ proto = e.proto := by
  rw [ChainElement.next_eq_none_iff, walkEnd, walkFull]
  by_cases hext : IsExtension e.proto
  · by_cases hin : e.Inside bytes <;> simp [hext, hin]
  · simp [hext, eq_comm]

end Walk

private theorem v6WalkExt_eq_walk (before bytes : List UInt8) (n : ℕ) (e : ChainElement) :
    v6WalkExt (before ++ bytes) n (before.length + e.offset) e.proto =
      BoundedWalks.walk (ChainElement.next bytes) (walkEnd before.length bytes)
        (walkFull before.length) n e := by
  induction n generalizing e with
  | zero => rfl
  | succ n ih =>
    rw [BoundedWalks.walk]
    by_cases hext : IsExtension e.proto
    · rw [v6WalkExt_round _ n _ hext, List.drop_length_add_append]
      dsimp only
      by_cases hin : e.Inside bytes
      · rw [if_neg (ChainElement.inside_iff.mp hin)]
        by_cases hfrag : e.IsLaterFragment bytes
        · rw [if_pos (ChainElement.isLaterFragment_iff.mp hfrag),
            ChainElement.next_eq_none_iff.mpr (.inr (.inr hfrag))]
          simp [walkEnd, hext, hin, byteAt_drop]
        · rw [if_neg (ChainElement.isLaterFragment_iff.not.mp hfrag),
            ChainElement.next_eq_some_iff.mpr ⟨⟨hext, hin, hfrag⟩, rfl⟩, byteAt_drop, Nat.add_assoc]
          exact ih ⟨e.offset + e.length bytes, byteAt bytes e.offset⟩
      · rw [if_pos (not_not.mp (ChainElement.inside_iff.not.mp hin)),
          ChainElement.next_eq_none_iff.mpr (.inr (.inl hin))]
        simp [walkEnd, hext, hin]
    · have hno := (isExtension_iff e.proto).not.mp hext
      rw [not_or, Bool.not_eq_true] at hno
      rw [v6WalkExt, if_neg hno.1, if_pos hno.2, ChainElement.next_eq_none_iff.mpr (.inl hext)]
      simp [walkEnd, walkFull, hext]

theorem v6WalkExt_eq_iff (before bytes : List UInt8) (first : UInt8) (w : ExtWalk) :
    v6WalkExt (before ++ bytes) vgMaxIpv6Ext before.length first = w ↔
      (∃ k < 8, ∃ e, chain bytes first k = some e ∧
        e.next bytes = none ∧ walkEnd before.length bytes e = w) ∨
      ∃ e, chain bytes first 8 = some e ∧ walkFull before.length e = w := by
  rw [show before.length = before.length + (⟨0, first⟩ : ChainElement).offset from rfl,
    v6WalkExt_eq_walk before bytes vgMaxIpv6Ext ⟨0, first⟩]
  exact BoundedWalks.walk_eq_iff _ _ _ _ _

section Results
variable {before bytes : List UInt8} {first : UInt8} {l4 : ℕ} {proto : UInt8}

private theorem v6WalkExt_truncated_iff :
    v6WalkExt (before ++ bytes) vgMaxIpv6Ext before.length first = .truncated ↔
      ∃ k < 8, ∃ e, chain bytes first k = some e ∧ IsExtension e.proto ∧ ¬ e.Inside bytes := by
  rw [v6WalkExt_eq_iff]
  simp only [walkEnd_truncated_iff]
  refine or_iff_left ?_
  rintro ⟨e, -, hw⟩
  exact ExtWalk.noConfusion hw

theorem v6WalkExt_fragment_iff :
    v6WalkExt (before ++ bytes) vgMaxIpv6Ext before.length first = .fragment l4 proto ↔
      ∃ k < 8, ∃ e, chain bytes first k = some e ∧ e.Inside bytes ∧ e.IsLaterFragment bytes ∧
        l4 = before.length + e.offset + 8 ∧ proto = byteAt bytes e.offset := by
  rw [v6WalkExt_eq_iff]
  simp only [walkEnd_fragment_iff]
  refine or_iff_left ?_
  rintro ⟨e, -, hw⟩
  exact ExtWalk.noConfusion hw

theorem v6WalkExt_reached_iff :
    v6WalkExt (before ++ bytes) vgMaxIpv6Ext before.length first = .reached l4 proto ↔
      ∃ k ≤ 8, ∃ e, chain bytes first k = some e ∧ (¬ IsExtension e.proto ∨ k = 8) ∧
        l4 = before.length + e.offset ∧ proto = e.proto := by
  rw [v6WalkExt_eq_iff]
  simp only [walkEnd_reached_iff, walkFull, ExtWalk.reached.injEq]
  constructor
  · rintro (⟨k, hk, e, he, hext, h⟩ | ⟨e, he, rfl, rfl⟩)
    · exact ⟨k, hk.le, e, he, .inl hext, h⟩
    · exact ⟨8, le_rfl, e, he, .inr rfl, rfl, rfl⟩
  · rintro ⟨k, hk, e, he, hend, rfl, rfl⟩
    rcases hk.lt_or_eq with hlt | rfl
    · exact .inl ⟨k, hlt, e, he, hend.resolve_right hlt.ne, rfl, rfl⟩
    · exact .inr ⟨e, he, rfl, rfl⟩

private theorem v6WalkExt_offset_le
    (h : v6WalkExt (before ++ bytes) vgMaxIpv6Ext before.length first = .fragment l4 proto ∨
      v6WalkExt (before ++ bytes) vgMaxIpv6Ext before.length first = .reached l4 proto) :
    l4 ≤ (before ++ bytes).length := by
  rw [List.length_append]
  rcases h with h | h
  · obtain ⟨k, _, e, _, hin, hfrag, rfl, _⟩ := v6WalkExt_fragment_iff.mp h
    rw [ChainElement.Inside, hfrag.length_eq] at hin
    omega
  · obtain ⟨k, _, e, he, _, rfl, _⟩ := v6WalkExt_reached_iff.mp h
    have hle := chain_offset_le he
    omega

end Results

/-- What `v6_walk_ext` returns, in terms of the chain alone. -/
theorem v6WalkExt_follows_chain (before bytes : List UInt8) (first : UInt8) :
    let walk := v6WalkExt (before ++ bytes) vgMaxIpv6Ext before.length first
    (walk = .truncated ↔ ∃ k < 8, ∃ e, chain bytes first k = some e ∧
      IsExtension e.proto ∧ ¬ e.Inside bytes) ∧
    (∀ l4 proto, walk = .fragment l4 proto ↔ ∃ k < 8, ∃ e, chain bytes first k = some e ∧
      e.Inside bytes ∧ e.IsLaterFragment bytes ∧
        l4 = before.length + e.offset + 8 ∧ proto = byteAt bytes e.offset) ∧
    (∀ l4 proto, walk = .reached l4 proto ↔ ∃ k ≤ 8, ∃ e, chain bytes first k = some e ∧
      (¬ IsExtension e.proto ∨ k = 8) ∧ l4 = before.length + e.offset ∧ proto = e.proto) ∧
    ∀ l4 proto, walk = .fragment l4 proto ∨ walk = .reached l4 proto →
      l4 ≤ (before ++ bytes).length := by
  intro walk
  refine ⟨v6WalkExt_truncated_iff, ?_, ?_, ?_⟩
  · intro l4 proto
    exact v6WalkExt_fragment_iff
  · intro l4 proto
    exact v6WalkExt_reached_iff
  · intro l4 proto
    exact v6WalkExt_offset_le

/-- The header of a later fragment, behind a hop-by-hop header. -/
theorem v6WalkExt_laterFragment :
    v6WalkExt ([] ++ [44, 0, 0, 0, 0, 0, 0, 0, 6, 0, 0, 8, 0, 0, 0, 1]) vgMaxIpv6Ext 0 0 =
        .fragment 16 6 ∧
      16 ≤ ([] ++ [44, 0, 0, 0, 0, 0, 0, 0, 6, 0, 0, 8, 0, 0, 0, 1] : List UInt8).length := by
  have hspec := v6WalkExt_follows_chain [] [44, 0, 0, 0, 0, 0, 0, 0, 6, 0, 0, 8, 0, 0, 0, 1] 0
  have hwalk := (hspec.2.1 16 6).mpr
    ⟨1, by decide, ⟨8, 44⟩, by decide, by decide, by decide, by decide, by decide⟩
  exact ⟨hwalk, hspec.2.2.2 16 6 (.inl hwalk)⟩

end VoidGate
