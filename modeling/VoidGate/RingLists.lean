import Mathlib.Data.List.Basic
import Mathlib.Data.List.Nodup
import Mathlib.Logic.Function.Basic

/-!
# Circular doubly linked lists

The heap is a pair of pointer fields over an arbitrary type of nodes. `Path` says
that a list of nodes lies between two given nodes with every neighbouring pair
pointing at each other; a `Ring` is a duplicate-free path from a sentinel back to
itself. The rules below describe a ring after one node was linked in front of the
sentinel or unlinked, from the resulting pointer fields alone.
-/

namespace VoidGate.RingLists

variable {α : Type*}

structure Links (α : Type*) where
  prev : α → α
  next : α → α

/-- The nodes `xs` lie between `a` and `b`, and neighbours point at each other. -/
def Path (l : Links α) : α → List α → α → Prop
  | a, [], b => l.next a = b ∧ l.prev b = a
  | a, x :: xs, b => l.next a = x ∧ l.prev x = a ∧ Path l x xs b

/-- A sentinel `h` and the nodes `xs` form a well-linked circle without repetition. -/
structure Ring (l : Links α) (h : α) (xs : List α) : Prop where
  nodup : (h :: xs).Nodup
  path : Path l h xs h

theorem path_append {l : Links α} {a y b : α} {xs ys : List α} :
    Path l a (xs ++ y :: ys) b ↔ Path l a xs y ∧ Path l y ys b := by
  induction xs generalizing a with
  | nil => simp [Path, and_assoc]
  | cons x xs ih => simp [Path, ih, and_assoc]

theorem Path.next_eq {l : Links α} {a b : α} {xs : List α} (h : Path l a xs b) :
    l.next a = xs.headD b := by
  cases xs with
  | nil => exact h.1
  | cons x xs => exact h.1

theorem Path.prev_mem {l : Links α} {a b : α} {xs : List α} (h : Path l a xs b) :
    l.prev b ∈ a :: xs := by
  induction xs generalizing a with
  | nil => simp [h.2]
  | cons x xs ih => exact List.mem_cons_of_mem _ (ih h.2.2)

/-- A path only reads `next` from its start on and `prev` up to its end. -/
theorem Path.congr {l l' : Links α} {a b : α} {xs : List α} (h : Path l a xs b)
    (hn : ∀ y ∈ a :: xs, l'.next y = l.next y)
    (hp : ∀ y ∈ xs ++ [b], l'.prev y = l.prev y) : Path l' a xs b := by
  induction xs generalizing a with
  | nil => exact ⟨(hn a (by simp)).trans h.1, (hp b (by simp)).trans h.2⟩
  | cons x xs ih =>
    refine ⟨(hn a (by simp)).trans h.1, (hp x (by simp)).trans h.2.1, ih h.2.2 ?_ ?_⟩
    · exact fun y hy => hn y (List.mem_cons_of_mem _ hy)
    · exact fun y hy => hp y (List.mem_cons_of_mem _ hy)

theorem Path.relink {l l' : Links α} {a b b' : α} {xs : List α} (h : Path l a xs b)
    (hd : (a :: xs).Nodup)
    (hn : ∀ y ∈ a :: xs, y ≠ l.prev b → l'.next y = l.next y)
    (hp : ∀ y ∈ xs, l'.prev y = l.prev y)
    (hlast : l'.next (l.prev b) = b') (hend : l'.prev b' = l.prev b) : Path l' a xs b' := by
  induction xs generalizing a with
  | nil =>
    rw [h.2] at hlast hend
    exact ⟨hlast, hend⟩
  | cons x xs ih =>
    have hne : a ≠ l.prev b := by
      intro he
      have hm := h.2.2.prev_mem
      rw [← he] at hm
      exact (List.nodup_cons.mp hd).1 hm
    refine ⟨(hn a (by simp) hne).trans h.1, (hp x (by simp)).trans h.2.1, ?_⟩
    apply ih h.2.2 (List.nodup_cons.mp hd).2
    · exact fun y hy => hn y (List.mem_cons_of_mem _ hy)
    · exact fun y hy => hp y (List.mem_cons_of_mem _ hy)

/-- A ring is untouched by writes to nodes outside it. -/
theorem Ring.frame {l l' : Links α} {h : α} {xs : List α} (hr : Ring l h xs)
    (hn : ∀ y ∈ h :: xs, l'.next y = l.next y)
    (hp : ∀ y ∈ h :: xs, l'.prev y = l.prev y) : Ring l' h xs := by
  refine ⟨hr.nodup, hr.path.congr hn ?_⟩
  intro y hy
  rcases List.mem_append.mp hy with hy | hy
  · exact hp y (List.mem_cons_of_mem _ hy)
  · exact hp y (by simp_all)

/-- The sentinel alone, pointing at itself both ways, is the empty ring. -/
theorem Ring.nil {l : Links α} {h : α} (hn : l.next h = h) (hp : l.prev h = h) : Ring l h [] :=
  ⟨by simp, hn, hp⟩

theorem Ring.next_notMem {l : Links α} {h n : α} {xs ys : List α} (hr : Ring l h (xs ++ n :: ys)) :
    l.next n ∉ n :: xs := by
  have hd : (h :: xs ++ n :: ys).Nodup := hr.nodup
  obtain ⟨hdl, hdr, hdis⟩ := List.nodup_append.mp hd
  rw [(path_append.mp hr.path).2.next_eq]
  intro hm
  cases ys with
  | nil =>
    rcases List.mem_cons.mp hm with hhn | hhx
    · exact hdis h (by simp) n (by simp) hhn
    · exact (List.nodup_cons.mp hdl).1 hhx
  | cons y ys =>
    rcases List.mem_cons.mp hm with hyn | hyx
    · exact (List.nodup_cons.mp hdr).1 (hyn ▸ List.mem_cons_self)
    · exact hdis y (List.mem_cons_of_mem _ hyx) y (by simp) rfl

section Writes
variable [DecidableEq α]

/-- Linking a fresh node in front of the sentinel appends it. -/
theorem Ring.snoc {l l' : Links α} {h n : α} {xs : List α} (hr : Ring l h xs) (hf : n ∉ h :: xs)
    (hn : l'.next = Function.update (Function.update l.next n h) (l.prev h) n)
    (hp : l'.prev = Function.update (Function.update l.prev n (l.prev h)) h n) :
    Ring l' h (xs ++ [n]) := by
  have hh : h ≠ n := fun he => hf (by simp [he])
  have hlast : l.prev h ≠ n := fun he => hf (he ▸ hr.path.prev_mem)
  constructor
  · have hx : n ∉ xs := fun hm => hf (List.mem_cons_of_mem _ hm)
    obtain ⟨h₁, h₂⟩ := List.nodup_cons.mp hr.nodup
    rw [← List.cons_append, List.nodup_append]
    refine ⟨hr.nodup, by simp, ?_⟩
    intro y hy z hz hyz
    rw [List.mem_singleton.mp hz] at hyz
    exact hf (hyz ▸ hy)
  · rw [path_append]
    constructor
    · apply hr.path.relink hr.nodup
      · intro y hy hne
        have hyn : y ≠ n := fun he => hf (he ▸ hy)
        simp [hn, hne, hyn]
      · intro y hy
        have hyn : y ≠ n := fun he => hf (he ▸ List.mem_cons_of_mem _ hy)
        have hyh : y ≠ h := fun he => (List.nodup_cons.mp hr.nodup).1 (he ▸ hy)
        simp [hp, hyn, hyh]
      · simp [hn]
      · simp [hp, hh.symm]
    · constructor
      · simp [hn, hlast.symm]
      · simp [hp]

section Unlink
variable {l l' : Links α} {h n : α} {xs ys : List α}
  (hn : l'.next = Function.update (Function.update l.next (l.prev n) (l.next n)) n n)
  (hp : l'.prev = Function.update (Function.update l.prev (l.next n) (l.prev n)) n n)
include hn hp

theorem Ring.remove_left (hr : Ring l h (xs ++ n :: ys)) : Path l' h xs (l.next n) := by
  have hleft := (path_append.mp hr.path).1
  have hd : (h :: xs ++ n :: ys).Nodup := hr.nodup
  obtain ⟨hdl, -, hdis⟩ := List.nodup_append.mp hd
  have hnl : n ∉ h :: xs := fun hm => hdis n hm n (by simp) rfl
  have hpn : l.prev n ≠ n := fun he => hnl (he ▸ hleft.prev_mem)
  obtain ⟨hnn, hxs⟩ := not_or.mp (List.mem_cons.not.mp hr.next_notMem)
  apply hleft.relink hdl
  · intro y hy hne
    have hyn : y ≠ n := fun he => hnl (he ▸ hy)
    simp [hn, hne, hyn]
  · intro y hy
    have hyn : y ≠ n := fun he => hnl (he ▸ List.mem_cons_of_mem _ hy)
    have hynext : y ≠ l.next n := fun he => hxs (he ▸ hy)
    simp [hp, hyn, hynext]
  · simp [hn, hpn]
  · simp [hp, hnn]

theorem Ring.remove_right {y : α} (hr : Ring l h (xs ++ n :: y :: ys)) : Path l' y ys h := by
  obtain ⟨hleft, hright⟩ := path_append.mp hr.path
  have hd : (h :: xs ++ n :: y :: ys).Nodup := hr.nodup
  obtain ⟨-, hdr, hdis⟩ := List.nodup_append.mp hd
  obtain ⟨hnr, hdy⟩ := List.nodup_cons.mp hdr
  have hy : l.next n = y := hright.next_eq
  refine hright.2.2.congr ?_ ?_
  · intro z hz
    have hzn : z ≠ n := fun he => hnr (he ▸ hz)
    have hzp : z ≠ l.prev n := by
      intro he
      exact hdis z (he ▸ hleft.prev_mem) z (List.mem_cons_of_mem _ hz) rfl
    simp [hn, hzn, hzp]
  · intro z hz
    have hzn : z ≠ n ∧ z ≠ y := by
      rcases List.mem_append.mp hz with hz | hz
      · refine ⟨fun he => hnr (he ▸ List.mem_cons_of_mem _ hz), fun he => ?_⟩
        exact (List.nodup_cons.mp hdy).1 (he ▸ hz)
      · rw [List.mem_singleton.mp hz]
        exact ⟨hdis h (by simp) n (by simp), hdis h (by simp) y (by simp)⟩
    simp [hp, hy, hzn.1, hzn.2]

/-- Unlinking an inner node joins its two neighbours. -/
theorem Ring.remove (hr : Ring l h (xs ++ n :: ys)) : Ring l' h (xs ++ ys) := by
  have hnext : l.next n = ys.headD h := (path_append.mp hr.path).2.next_eq
  have hpath := hr.remove_left hn hp
  rw [hnext] at hpath
  constructor
  · have hd : (h :: xs ++ n :: ys).Nodup := hr.nodup
    rw [← List.cons_append]
    exact hd.sublist ((List.Sublist.refl _).append (List.sublist_cons_self n ys))
  · cases ys with
    | nil => simpa using hpath
    | cons y ys =>
      rw [path_append]
      exact ⟨hpath, hr.remove_right hn hp⟩

end Unlink

theorem Ring.snoc_frame {l l' : Links α} {h g n : α} {xs ys : List α} (hr : Ring l h xs)
    (ho : Ring l g ys) (hd : ∀ y ∈ g :: ys, y ∉ n :: h :: xs)
    (hn : l'.next = Function.update (Function.update l.next n h) (l.prev h) n)
    (hp : l'.prev = Function.update (Function.update l.prev n (l.prev h)) h n) : Ring l' g ys := by
  apply ho.frame
  · intro y hy
    have hyn : y ≠ n := fun he => hd y hy (by simp [he])
    have hyp : y ≠ l.prev h := fun he => hd y hy (List.mem_cons_of_mem _ (he ▸ hr.path.prev_mem))
    simp [hn, hyn, hyp]
  · intro y hy
    have hyn : y ≠ n := fun he => hd y hy (by simp [he])
    have hyh : y ≠ h := fun he => hd y hy (by simp [he])
    simp [hp, hyn, hyh]

theorem Ring.remove_frame {l l' : Links α} {h g n : α} {xs ys zs : List α}
    (hr : Ring l h (xs ++ n :: ys)) (ho : Ring l g zs)
    (hd : ∀ y ∈ g :: zs, y ∉ h :: (xs ++ n :: ys))
    (hn : l'.next = Function.update (Function.update l.next (l.prev n) (l.next n)) n n)
    (hp : l'.prev = Function.update (Function.update l.prev (l.next n) (l.prev n)) n n) :
    Ring l' g zs := by
  obtain ⟨hleft, hright⟩ := path_append.mp hr.path
  have hprev : l.prev n ∈ h :: (xs ++ n :: ys) := by
    rcases List.mem_cons.mp hleft.prev_mem with he | hm
    · simp [he]
    · simp [hm]
  have hnext : l.next n ∈ h :: (xs ++ n :: ys) := by
    rw [hright.next_eq]
    cases ys <;> simp
  apply ho.frame
  · intro y hy
    have hyn : y ≠ n := fun he => hd y hy (by simp [he])
    have hyp : y ≠ l.prev n := fun he => hd y hy (he ▸ hprev)
    simp [hn, hyn, hyp]
  · intro y hy
    have hyn : y ≠ n := fun he => hd y hy (by simp [he])
    have hyp : y ≠ l.next n := fun he => hd y hy (he ▸ hnext)
    simp [hp, hyn, hyp]

/-- The inner nodes met by following `next` from `a` until `stop` comes up. -/
def collect (l : Links α) (stop : α) : ℕ → α → List α
  | 0, _ => []
  | k + 1, a => if l.next a = stop then [] else l.next a :: collect l stop k (l.next a)

theorem Path.collect_eq {l : Links α} {a b : α} {xs : List α} (h : Path l a xs b)
    (hb : b ∉ xs) {k : ℕ} (hk : xs.length ≤ k) : collect l b k a = xs := by
  induction xs generalizing a k with
  | nil => cases k <;> simp [collect, h.1]
  | cons x xs ih =>
    cases k with
    | zero => simp at hk
    | succ k =>
      have hx : x ≠ b := fun he => hb (by simp [he])
      have ht := ih h.2.2 (fun hm => hb (List.mem_cons_of_mem _ hm)) (Nat.le_of_succ_le_succ hk)
      simp [collect, h.1, hx, ht]

theorem Ring.collect_eq {l : Links α} {h : α} {xs : List α} (hr : Ring l h xs) {k : ℕ}
    (hk : xs.length ≤ k) : collect l h k h = xs :=
  hr.path.collect_eq (List.nodup_cons.mp hr.nodup).1 hk

end Writes

end VoidGate.RingLists
