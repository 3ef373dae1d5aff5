import Mathlib.Data.List.Basic
import Mathlib.Data.List.Nodup
import Mathlib.Logic.Function.Basic

/-!
# Chains of pointer cells

A cell holds an optional pointer to a node, and every node owns one cell of its
own, its successor cell. `Chain` reads a list of nodes off a starting cell. A chain
whose nodes also remember the cell that points at them is `Backed`. The rules say
what moving the start of a chain, unlinking a node, and searching a chain do.
-/

namespace VoidGate.CellChains

variable {κ ν : Type*}

/-- The nodes reached from cell `c` are exactly `xs`, in this order. -/
def Chain (ptr : κ → Option ν) (nextCell : ν → κ) : κ → List ν → Prop
  | c, [] => ptr c = none
  | c, x :: xs => ptr c = some x ∧ Chain ptr nextCell (nextCell x) xs

/-- Every node of the chain from `c` records the cell that points at it. -/
def Backed (pprev : ν → Option κ) (nextCell : ν → κ) : κ → List ν → Prop
  | _, [] => True
  | c, x :: xs => pprev x = some c ∧ Backed pprev nextCell (nextCell x) xs

/-- The cell reached behind the nodes `xs` of a chain from `c`. -/
def endCell (nextCell : ν → κ) : κ → List ν → κ
  | c, [] => c
  | _, x :: xs => endCell nextCell (nextCell x) xs

variable {ptr ptr' : κ → Option ν} {pprev pprev' : ν → Option κ} {nextCell : ν → κ}

theorem endCell_mem (c : κ) (xs : List ν) :
    endCell nextCell c xs = c ∨ ∃ x ∈ xs, endCell nextCell c xs = nextCell x := by
  induction xs generalizing c with
  | nil => exact .inl rfl
  | cons x xs ih =>
    refine .inr ?_
    rcases ih (nextCell x) with he | ⟨y, hy, he⟩
    · exact ⟨x, by simp, he⟩
    · exact ⟨y, List.mem_cons_of_mem _ hy, he⟩

theorem endCell_ne_nextCell (hinj : Function.Injective nextCell) {c : κ} {xs : List ν} {x : ν}
    (hc : c ≠ nextCell x) (hx : x ∉ xs) : endCell nextCell c xs ≠ nextCell x := by
  rcases @endCell_mem _ _ nextCell c xs with he | ⟨y, hy, he⟩
  · rwa [he]
  · rw [he]
    exact fun hyx => hx (hinj hyx ▸ hy)

theorem endCell_snoc (c : κ) (xs : List ν) (x : ν) : endCell nextCell c (xs ++ [x]) = nextCell x := by
  induction xs generalizing c with
  | nil => rfl
  | cons y xs ih => exact ih (nextCell y)

theorem Chain.head_eq {c : κ} {xs : List ν} (h : Chain ptr nextCell c xs) : xs.head? = ptr c := by
  cases xs with
  | nil => exact Eq.symm h
  | cons x xs => exact h.1.symm

/-- A chain only reads its start, which may move, and its nodes' successor cells. -/
theorem Chain.move {c c' : κ} {xs : List ν} (h : Chain ptr nextCell c xs)
    (hc : ptr' c' = ptr c) (hx : ∀ x ∈ xs, ptr' (nextCell x) = ptr (nextCell x)) :
    Chain ptr' nextCell c' xs := by
  induction xs generalizing c c' with
  | nil => exact hc.trans h
  | cons x xs ih =>
    exact ⟨hc.trans h.1, ih h.2 (hx x (by simp)) (fun y hy => hx y (List.mem_cons_of_mem _ hy))⟩

theorem Backed.congr {c : κ} {xs : List ν} (h : Backed pprev nextCell c xs)
    (hx : ∀ x ∈ xs, pprev' x = pprev x) : Backed pprev' nextCell c xs := by
  induction xs generalizing c with
  | nil => trivial
  | cons x xs ih =>
    exact ⟨(hx x (by simp)).trans h.1, ih h.2 (fun y hy => hx y (List.mem_cons_of_mem _ hy))⟩

theorem Backed.push {c : κ} {n : ν} {xs : List ν} (h : Backed pprev nextCell c xs) (hd : xs.Nodup)
    (hn : pprev' n = some c) (hhead : ∀ y, xs.head? = some y → pprev' y = some (nextCell n))
    (hrest : ∀ z ∈ xs, xs.head? ≠ some z → pprev' z = pprev z) :
    Backed pprev' nextCell c (n :: xs) := by
  refine ⟨hn, ?_⟩
  cases xs with
  | nil => trivial
  | cons x xs =>
    refine ⟨hhead x rfl, h.2.congr fun z hz => hrest z (List.mem_cons_of_mem _ hz) ?_⟩
    intro he
    exact (List.nodup_cons.mp hd).1 (Option.some.inj he ▸ hz)

theorem Chain.ptr_endCell {c : κ} {xs ys : List ν} (h : Chain ptr nextCell c (xs ++ ys)) :
    Chain ptr nextCell (endCell nextCell c xs) ys := by
  induction xs generalizing c with
  | nil => exact h
  | cons x xs ih => exact ih h.2

theorem Backed.pprev_eq {c : κ} {n : ν} {xs ys : List ν}
    (h : Backed pprev nextCell c (xs ++ n :: ys)) : pprev n = some (endCell nextCell c xs) := by
  induction xs generalizing c with
  | nil => exact h.1
  | cons x xs ih => exact ih h.2

/-- Unlinking `n`: the cell that pointed at it now points at its successor. -/
theorem Chain.remove {c : κ} {n : ν} {xs ys : List ν} (h : Chain ptr nextCell c (xs ++ n :: ys))
    (hinj : Function.Injective nextCell) (hd : (xs ++ n :: ys).Nodup)
    (hc : ∀ x ∈ xs ++ n :: ys, nextCell x ≠ c)
    (hend : ptr' (endCell nextCell c xs) = ptr (nextCell n))
    (hrest : ∀ k, k ≠ endCell nextCell c xs → k ≠ nextCell n → ptr' k = ptr k) :
    Chain ptr' nextCell c (xs ++ ys) := by
  induction xs generalizing c with
  | nil =>
    refine h.2.move hend (fun y hy => hrest _ (hc y (List.mem_cons_of_mem _ hy)) ?_)
    intro he
    exact (List.nodup_cons.mp hd).1 (hinj he ▸ hy)
  | cons x xs ih =>
    obtain ⟨hx, hdx⟩ := List.nodup_cons.mp hd
    refine ⟨?_, ih h.2 hdx ?_ hend hrest⟩
    · rw [hrest c ?_ (hc n (by simp)).symm]
      · exact h.1
      · intro he
        rcases @endCell_mem _ _ nextCell (nextCell x) xs with hm | ⟨y, hy, hm⟩
        · exact hc x (by simp) (he.trans hm).symm
        · exact hc y (by simp [hy]) (he.trans hm).symm
    · intro y hy he
      exact hx (hinj he ▸ hy)

theorem mem_remove_iff {n x : ν} {xs ys : List ν} (hd : (xs ++ n :: ys).Nodup) :
    x ∈ xs ++ ys ↔ x ∈ xs ++ n :: ys ∧ x ≠ n := by
  have hn : n ∉ xs ++ ys := (List.nodup_cons.mp (List.nodup_middle.mp hd)).1
  simp only [List.mem_append, List.mem_cons] at hn ⊢
  constructor
  · intro hx
    refine ⟨hx.imp_right .inr, ?_⟩
    rintro rfl
    exact hn hx
  · rintro ⟨hx | rfl | hx, hne⟩
    · exact .inl hx
    · exact absurd rfl hne
    · exact .inr hx

theorem Backed.remove {c : κ} {n : ν} {xs ys : List ν}
    (h : Backed pprev nextCell c (xs ++ n :: ys)) (hd : (xs ++ n :: ys).Nodup)
    (hhead : ∀ y, ys.head? = some y → pprev' y = some (endCell nextCell c xs))
    (hrest : ∀ z ∈ xs ++ ys, ys.head? ≠ some z → pprev' z = pprev z) :
    Backed pprev' nextCell c (xs ++ ys) := by
  induction xs generalizing c with
  | nil =>
    cases ys with
    | nil => trivial
    | cons y ys =>
      have hy : y ∉ ys := (List.nodup_cons.mp (List.nodup_cons.mp hd).2).1
      refine ⟨hhead y rfl, h.2.2.congr fun z hz => hrest z (by simp [hz]) ?_⟩
      exact fun he => hy (Option.some.inj he ▸ hz)
  | cons x xs ih =>
    obtain ⟨hx, hdx⟩ := List.nodup_cons.mp hd
    refine ⟨(hrest x (by simp) ?_).trans h.1, ih h.2 hdx hhead ?_⟩
    · intro he
      exact hx (by simp [List.mem_of_mem_head? he])
    · exact fun z hz => hrest z (List.mem_cons_of_mem _ hz)

def nodesFrom (ptr : κ → Option ν) (nextCell : ν → κ) : ℕ → κ → List ν
  | 0, _ => []
  | k + 1, c => match ptr c with
    | none => []
    | some x => x :: nodesFrom ptr nextCell k (nextCell x)

theorem Chain.nodesFrom_eq {c : κ} {xs : List ν} (h : Chain ptr nextCell c xs) {k : ℕ}
    (hk : xs.length ≤ k) : nodesFrom ptr nextCell k c = xs := by
  induction xs generalizing c k with
  | nil =>
    have hc : ptr c = none := h
    cases k <;> simp [nodesFrom, hc]
  | cons x xs ih =>
    cases k with
    | zero => simp at hk
    | succ k =>
      have hc : ptr c = some x := h.1
      simp [nodesFrom, hc, ih h.2 (Nat.le_of_succ_le_succ hk)]

/-- The first node of a chain that satisfies a test. -/
def findFrom (ptr : κ → Option ν) (nextCell : ν → κ) (test : ν → Bool) : ℕ → κ → Option ν
  | 0, _ => none
  | k + 1, c => match ptr c with
    | none => none
    | some x => if test x then some x else findFrom ptr nextCell test k (nextCell x)

theorem Chain.findFrom_eq {c : κ} {xs : List ν} (h : Chain ptr nextCell c xs) (test : ν → Bool)
    {k : ℕ} (hk : xs.length ≤ k) : findFrom ptr nextCell test k c = xs.find? test := by
  induction xs generalizing c k with
  | nil =>
    have hc : ptr c = none := h
    cases k <;> simp [findFrom, hc]
  | cons x xs ih =>
    cases k with
    | zero => simp at hk
    | succ k =>
      have hc : ptr c = some x := h.1
      have ht := ih h.2 (Nat.le_of_succ_le_succ hk)
      by_cases hx : test x <;> simp [findFrom, hc, hx, ht]

end VoidGate.CellChains
