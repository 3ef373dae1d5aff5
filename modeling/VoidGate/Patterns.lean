import Mathlib.Data.List.Basic
import Mathlib.Data.List.TakeWhile

/-!
# Patterns with greedy repetition

Patterns as scripting languages have them for cutting texts apart: a sequence of
classes of elements, each to be met once or repeatedly, some of them captured, with or
without an anchor at the end of the subject. A repetition takes as many elements as it
can and gives them back one by one until the rest of the pattern matches.
-/

namespace VoidGate.Patterns

variable {α β : Type*}

inductive Item (α : Type*) where
  /-- One element of a class. -/
  | one (p : α → Bool)
  /-- At least one element of a class, and whether they are a capture. -/
  | plus (p : α → Bool) (keep : Bool)

def literal [BEq α] (l : List α) : List (Item α) := l.map fun a => .one (· == a)

/-- The first success on the way from `n` down to 1. -/
def firstDown (f : ℕ → Option β) : ℕ → Option β
  | 0 => none
  | n + 1 => (f (n + 1)).or (firstDown f n)

structure Pattern (α : Type*) where
  items : List (Item α)
  atEnd : Bool

def matchItems (atEnd : Bool) : List (Item α) → List α → Option (List (List α) × List α)
  | [], s => if atEnd && !s.isEmpty then none else some ([], s)
  | .one _ :: _, [] => none
  | .one p :: is, a :: s => if p a then matchItems atEnd is s else none
  | .plus p keep :: is, s =>
    firstDown (fun k => (matchItems atEnd is (s.drop k)).map fun m =>
      (if keep then s.take k :: m.1 else m.1, m.2)) (s.takeWhile p).length

/-- A match at the start of the subject. It returns the captures, or all it has matched if there are
none, and the rest of the subject. -/
def Pattern.matchStart (P : Pattern α) (s : List α) : Option (List (List α) × List α) :=
  (matchItems P.atEnd P.items s).map fun m =>
    (if m.1.isEmpty then [s.take (s.length - m.2.length)] else m.1, m.2)

/-- The matches from left to right, after so many elements that an earlier match has taken. -/
def Pattern.gmatch (P : Pattern α) : ℕ → List α → List (List (List α))
  | _ + 1, [] => []
  | n + 1, _ :: s => P.gmatch n s
  | 0, [] => (P.matchStart []).toList.map Prod.fst
  | 0, a :: s =>
    match P.matchStart (a :: s) with
    | none => P.gmatch 0 s
    | some (found, rest) => found :: P.gmatch (s.length - rest.length) s

/-- The subject without the matches, after so many elements that an earlier match has taken. -/
def Pattern.erase (P : Pattern α) : ℕ → List α → List α
  | _, [] => []
  | n + 1, _ :: s => P.erase n s
  | 0, a :: s =>
    match P.matchStart (a :: s) with
    | none => a :: P.erase 0 s
    | some (_, rest) =>
      if rest.length ≤ s.length then P.erase (s.length - rest.length) s else a :: P.erase 0 s

variable {atEnd keep : Bool} {p : α → Bool} {is : List (Item α)} {s w : List α}

theorem firstDown_top {f : ℕ → Option β} {n : ℕ} {m : β} (hn : n ≠ 0) (h : f n = some m) :
    firstDown f n = some m := by
  cases n with
  | zero => exact absurd rfl hn
  | succ n => rw [firstDown, h, Option.some_or]

theorem matchItems_literal [BEq α] [LawfulBEq α] (l : List α) :
    matchItems atEnd (literal l ++ is) (l ++ s) = matchItems atEnd is s := by
  induction l with
  | nil => rfl
  | cons a l ih =>
    rw [literal, List.map_cons, List.cons_append, List.cons_append, matchItems,
      if_pos (beq_self_eq_true a)]
    exact ih

theorem isSome_matchItems_literal [BEq α] [LawfulBEq α] {l : List α} :
    (matchItems false (literal l) s).isSome = true ↔ l <+: s := by
  induction l generalizing s with
  | nil => exact iff_of_true rfl List.nil_prefix
  | cons a l ih =>
    cases s with
    | nil => simp [literal, matchItems]
    | cons b s =>
      rw [List.cons_prefix_cons, ← ih, literal, List.map_cons, matchItems]
      by_cases hb : b = a
      · simp [hb, literal]
      · simp [hb, Ne.symm hb]

theorem matchItems_plus (keep : Bool) {m : List (List α) × List α} (hw : w ≠ []) (hp : ∀ a ∈ w, p a = true)
    (hs : s.takeWhile p = []) (hm : matchItems atEnd is s = some m) :
    matchItems atEnd (.plus p keep :: is) (w ++ s) =
      some (if keep then w :: m.1 else m.1, m.2) := by
  have hlen : ((w ++ s).takeWhile p).length = w.length := by
    rw [List.takeWhile_append_of_pos hp, hs, List.append_nil]
  rw [matchItems, hlen]
  refine firstDown_top (fun h0 => hw (List.length_eq_zero_iff.mp h0)) ?_
  rw [List.drop_left, List.take_left, hm]
  rfl

theorem matchItems_plus_none (hs : s.takeWhile p = []) :
    matchItems atEnd (.plus p keep :: is) s = none := by
  rw [matchItems, hs]
  rfl

variable {P : Pattern α}

theorem gmatch_skip (w s : List α) : P.gmatch w.length (w ++ s) = P.gmatch 0 s := by
  induction w with
  | nil => rfl
  | cons a w ih => exact ih

theorem gmatch_append {found : List (List α)} (hw : w ≠ [])
    (h : P.matchStart (w ++ s) = some (found, s)) :
    P.gmatch 0 (w ++ s) = found :: P.gmatch 0 s := by
  cases w with
  | nil => exact absurd rfl hw
  | cons a w =>
    have hlen : (w ++ s).length - s.length = w.length := by rw [List.length_append]; omega
    rw [List.cons_append] at h
    rw [List.cons_append, Pattern.gmatch, h]
    dsimp only
    rw [hlen, gmatch_skip]

/-- The longest runs of elements other than `sep`. -/
def runs [BEq α] (sep : α) : Pattern α := ⟨[.plus (· != sep) false], false⟩

theorem gmatch_runs [BEq α] [LawfulBEq α] {sep : α} {ls : List (List α)} (hne : ∀ l ∈ ls, l ≠ [])
    (hsep : ∀ l ∈ ls, sep ∉ l) :
    (runs sep).gmatch 0 (ls.flatMap (· ++ [sep])) = ls.map fun l => [l] := by
  induction ls with
  | nil => rfl
  | cons l ls ih =>
    obtain ⟨hl, hne⟩ := List.forall_mem_cons.mp hne
    obtain ⟨hl', hsep⟩ := List.forall_mem_cons.mp hsep
    have hp : ∀ a ∈ l, (a != sep) = true := fun a ha => bne_iff_ne.mpr fun he => hl' (he ▸ ha)
    have hstop : ∀ t : List α, (sep :: t).takeWhile (· != sep) = [] := fun t =>
      List.takeWhile_cons_of_neg (by simp)
    have hrun : ∀ t, (runs sep).matchStart (l ++ sep :: t) = some ([l], sep :: t) := fun t => by
      have hlen : (l ++ sep :: t).length - (sep :: t).length = l.length := by
        rw [List.length_append]
        omega
      rw [Pattern.matchStart, runs, matchItems_plus false hl hp (hstop t) rfl, Option.map_some]
      simp only [List.isEmpty_nil, Bool.false_eq_true, if_false, if_true, hlen, List.take_left]
    have hgap : ∀ t, (runs sep).matchStart (sep :: t) = none := fun t => by
      rw [Pattern.matchStart, runs, matchItems_plus_none (hstop t), Option.map_none]
    rw [List.flatMap_cons, List.append_assoc, List.singleton_append, gmatch_append hl (hrun _),
      Pattern.gmatch, hgap]
    exact congrArg _ (ih hne hsep)

/-- Two captures with `mid` between them. -/
def pairs [BEq α] (p : α → Bool) (mid : α) (q : α → Bool) : Pattern α :=
  ⟨[.plus p true, .one (· == mid), .plus q true], false⟩

/-- A pair as it stands in the subject, with what comes after it. -/
structure Pair (α : Type*) where
  key : List α
  val : List α
  sep : α

def Pair.text (mid : α) (l : Pair α) : List α := l.key ++ mid :: (l.val ++ [l.sep])

/-- The captures of the pair are its key and its value. -/
structure Pair.Cut (p q : α → Bool) (l : Pair α) : Prop where
  key_ne : l.key ≠ []
  key : ∀ a ∈ l.key, p a = true
  val_ne : l.val ≠ []
  val : ∀ a ∈ l.val, q a = true
  sep_key : p l.sep = false
  sep_val : q l.sep = false

theorem gmatch_pairs [BEq α] [LawfulBEq α] {p q : α → Bool} {mid : α} (hmid : p mid = false)
    {ls : List (Pair α)} (hcut : ∀ l ∈ ls, l.Cut p q) :
    (pairs p mid q).gmatch 0 (ls.flatMap (Pair.text mid)) = ls.map fun l => [l.key, l.val] := by
  have hstop : ∀ {r : α → Bool} {a : α} (t : List α), r a = false → (a :: t).takeWhile r = [] :=
    fun t h => List.takeWhile_cons_of_neg (by simp [h])
  induction ls with
  | nil => rfl
  | cons l ls ih =>
    obtain ⟨hl, hcut⟩ := List.forall_mem_cons.mp hcut
    have hpair : ∀ t, (pairs p mid q).matchStart ((l.key ++ mid :: l.val) ++ l.sep :: t) =
        some ([l.key, l.val], l.sep :: t) := fun t => by
      have hval : matchItems false [.plus q true] (l.val ++ l.sep :: t) =
          some ([l.val], l.sep :: t) :=
        matchItems_plus true hl.val_ne hl.val (hstop t hl.sep_val)
          (show matchItems false [] (l.sep :: t) = some ([], l.sep :: t) from rfl)
      have hmatch : matchItems false [.one (· == mid), .plus q true] (mid :: (l.val ++ l.sep :: t)) =
          some ([l.val], l.sep :: t) := by
        rw [matchItems, if_pos (beq_self_eq_true mid), hval]
      rw [List.append_assoc, List.cons_append, Pattern.matchStart, pairs,
        matchItems_plus true hl.key_ne hl.key (hstop _ hmid) hmatch]
      rfl
    have hgap : ∀ t, (pairs p mid q).matchStart (l.sep :: t) = none := fun t => by
      rw [Pattern.matchStart, pairs, matchItems_plus_none (hstop t hl.sep_key), Option.map_none]
    have htext : Pair.text mid l ++ ls.flatMap (Pair.text mid) =
        (l.key ++ mid :: l.val) ++ l.sep :: ls.flatMap (Pair.text mid) := by
      simp only [Pair.text, List.append_assoc, List.cons_append, List.nil_append]
    rw [List.flatMap_cons, htext, gmatch_append (by simp) (hpair _), Pattern.gmatch, hgap]
    exact congrArg _ (ih hcut)

end VoidGate.Patterns
