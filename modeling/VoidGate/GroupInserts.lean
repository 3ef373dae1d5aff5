import Mathlib.Data.List.Dedup
import Mathlib.Data.List.Induction
import Mathlib.Data.List.Perm.Basic

/-!
# Inserting items and the groups they fill

A list of records with distinct keys receives items one after the other. An item
whose key is there already changes nothing. Every item may belong to a group, and
when the records that count for the group have reached a quota, a record for the
group as a whole is inserted too. Each decision reads the list that the earlier ones
have changed, and still the outcome depends only on the set of items.
-/

namespace VoidGate.GroupInserts

variable {ι α κ : Type*} [DecidableEq κ]

def insertNew (key : α → κ) (S : List α) (r : α) : List α :=
  if key r ∈ S.map key then S else S ++ [r]

theorem insertNew_extends (key : α → κ) (S : List α) (r : α) : S <+: insertNew key S r := by
  rw [insertNew]
  split_ifs
  · exact List.prefix_rfl
  · exact List.prefix_append _ _

theorem length_lt_of_insertNew {key : α → κ} {S : List α} {r : α} {n : ℕ} (h : key r ∉ S.map key)
    (hn : (insertNew key S r).length ≤ n) : S.length < n := by
  rw [insertNew, if_neg h, List.length_append, List.length_singleton] at hn
  exact hn

structure Rules (ι α κ : Type*) where
  key : α → κ
  item : ι → α
  group : ι → Option α
  /-- The second record counts for the group of the first. -/
  counts : α → α → Bool
  quota : ℕ

namespace Rules

variable (R : Rules ι α κ)

def fillGroup (S : List α) (i : ι) : List α :=
  match R.group i with
  | none => S
  | some g => if R.quota ≤ S.countP (R.counts g) then insertNew R.key S g else S

/-- Insert an item, and then its group. -/
def step (S : List α) (i : ι) : List α := R.fillGroup (insertNew R.key S (R.item i)) i

theorem fillGroup_extends (S : List α) (i : ι) : S <+: R.fillGroup S i := by
  rw [fillGroup]
  split
  · exact List.prefix_rfl
  · split_ifs
    · exact insertNew_extends _ _ _
    · exact List.prefix_rfl

theorem step_extends (S : List α) (i : ι) : S <+: R.step S i :=
  (insertNew_extends _ _ _).trans (R.fillGroup_extends _ i)

theorem foldl_step_extends (S : List α) (is : List ι) : S <+: is.foldl R.step S := by
  induction is generalizing S with
  | nil => exact List.prefix_rfl
  | cons i is ih => exact (R.step_extends S i).trans (ih _)

structure Separated : Prop where
  /-- Different items have different keys. -/
  items : ∀ i j, R.key (R.item i) = R.key (R.item j) → i = j
  /-- No item has the key of a group. -/
  apart : ∀ i j g, R.group j = some g → R.key (R.item i) ≠ R.key g
  /-- A group is determined by its key. -/
  groups : ∀ i j g g', R.group i = some g → R.group j = some g' → R.key g = R.key g' → g = g'
  /-- Among groups, only a group itself counts for it. -/
  alone : ∀ i j g g', R.group i = some g → R.group j = some g' → R.counts g g' = true →
    R.key g = R.key g'
  /-- Among items, only those of a group count for it. -/
  own : ∀ i j g, R.group j = some g → R.counts g (R.item i) = true → R.group i = some g

/-- The records at the start together with the new items. -/
def base (S : List α) (is : List ι) : List α :=
  S ++ (is.map R.item).filter fun r => decide (R.key r ∉ S.map R.key)

variable {R} {S T : List α} {is is' : List ι} {i : ι} {g : α}

theorem base_append_singleton : R.base S (is ++ [i]) =
    R.base S is ++ if R.key (R.item i) ∈ S.map R.key then [] else [R.item i] := by
  rw [base, base, List.map_append, List.filter_append, ← List.append_assoc, List.map_singleton,
    List.filter_singleton]
  by_cases h : R.key (R.item i) ∈ S.map R.key
  · rw [if_pos h, decide_eq_false (not_not_intro h)]
    rfl
  · rw [if_neg h, decide_eq_true h]
    rfl

theorem base_perm (h : is.Perm is') : (R.base S is).Perm (R.base S is') :=
  ((h.map _).filter _).append_left S

variable [DecidableEq α]

variable (R) in
/-- The new groups that reach their quota. -/
def reached (S : List α) (is : List ι) : List α :=
  (is.filterMap R.group).dedup.filter fun g =>
    decide (R.key g ∉ S.map R.key ∧ R.quota ≤ (R.base S is).countP (R.counts g))

variable (R) in
/-- What is there in the end. -/
def closed (S : List α) (is : List ι) : List α := R.base S is ++ R.reached S is

theorem mem_reached : g ∈ R.reached S is ↔ (∃ i ∈ is, R.group i = some g) ∧
    R.key g ∉ S.map R.key ∧ R.quota ≤ (R.base S is).countP (R.counts g) := by
  rw [reached, List.mem_filter, List.mem_dedup, List.mem_filterMap, decide_eq_true_iff]

theorem reached_nodup : (R.reached S is).Nodup := (List.nodup_dedup _).filter _

theorem closed_perm (h : is.Perm is') : (R.closed S is).Perm (R.closed S is') := by
  refine (base_perm h).append ?_
  refine (List.perm_ext_iff_of_nodup reached_nodup reached_nodup).mpr fun g => ?_
  rw [mem_reached, mem_reached, (base_perm h).countP_eq]
  simp only [h.mem_iff]

theorem mem_reached_append (h : R.Separated) : g ∈ R.reached S (is ++ [i]) ↔ g ∈ R.reached S is ∨
    (R.group i = some g ∧ R.key g ∉ S.map R.key ∧
      R.quota ≤ (R.base S (is ++ [i])).countP (R.counts g)) := by
  have hle : (R.base S is).countP (R.counts g) ≤ (R.base S (is ++ [i])).countP (R.counts g) := by
    rw [base_append_singleton, List.countP_append]
    omega
  rw [mem_reached, mem_reached]
  constructor
  · rintro ⟨⟨j, hj, hg⟩, hkey, hquota⟩
    by_cases hi : R.group i = some g
    · exact .inr ⟨hi, hkey, hquota⟩
    · -- the last item does not count for this group
      have hcount : R.counts g (R.item i) = false := by
        rw [← Bool.not_eq_true]
        exact fun hc => hi (h.own i j g hg hc)
      have hsame : (R.base S (is ++ [i])).countP (R.counts g) =
          (R.base S is).countP (R.counts g) := by
        rw [base_append_singleton, List.countP_append]
        split_ifs <;> simp [hcount]
      rw [hsame] at hquota
      refine .inl ⟨⟨j, ?_, hg⟩, hkey, hquota⟩
      rcases List.mem_append.mp hj with hj | hj
      · exact hj
      · exact absurd (List.mem_singleton.mp hj ▸ hg) hi
  · rintro (⟨⟨j, hj, hg⟩, hkey, hquota⟩ | ⟨hg, hkey, hquota⟩)
    · exact ⟨⟨j, List.mem_append_left _ hj, hg⟩, hkey, Nat.le_trans hquota hle⟩
    · exact ⟨⟨i, by simp, hg⟩, hkey, hquota⟩

theorem key_item_mem_closed (h : R.Separated) (hi : i ∉ is) :
    R.key (R.item i) ∈ (R.closed S is).map R.key ↔ R.key (R.item i) ∈ S.map R.key := by
  refine ⟨fun hmem => ?_, fun hmem => ?_⟩
  · obtain ⟨r, hr, hkey⟩ := List.mem_map.mp hmem
    rcases List.mem_append.mp hr with hr | hr
    · rcases List.mem_append.mp hr with hr | hr
      · exact hkey ▸ List.mem_map_of_mem hr
      · obtain ⟨j, hj, rfl⟩ := List.mem_map.mp (List.mem_filter.mp hr).1
        exact absurd (h.items j i hkey ▸ hj) hi
    · obtain ⟨⟨j, -, hg⟩, -⟩ := mem_reached.mp hr
      exact absurd hkey.symm (h.apart i j r hg)
  · rw [closed, base, List.append_assoc, List.map_append]
    exact List.mem_append_left _ hmem

theorem insertNew_item_perm (h : R.Separated) (hi : i ∉ is) (hT : T.Perm (R.closed S is)) :
    (insertNew R.key T (R.item i)).Perm (R.base S (is ++ [i]) ++ R.reached S is) := by
  have hmem : R.key (R.item i) ∈ T.map R.key ↔ R.key (R.item i) ∈ S.map R.key := by
    rw [(hT.map R.key).mem_iff, key_item_mem_closed h hi]
  rw [insertNew, base_append_singleton]
  by_cases hkey : R.key (R.item i) ∈ S.map R.key
  · rw [if_pos (hmem.mpr hkey), if_pos hkey, List.append_nil]
    exact hT
  · rw [if_neg fun hm => hkey (hmem.mp hm), if_neg hkey, List.append_assoc]
    refine (hT.append_right _).trans ?_
    rw [closed, List.append_assoc]
    exact List.perm_append_comm.append_left _

theorem key_group_mem (h : R.Separated) (hg : R.group i = some g)
    (hT : T.Perm (R.base S (is ++ [i]) ++ R.reached S is)) :
    R.key g ∈ T.map R.key ↔ R.key g ∈ S.map R.key ∨ g ∈ R.reached S is := by
  rw [(hT.map R.key).mem_iff, List.map_append, List.mem_append]
  constructor
  · rintro (hmem | hmem)
    · obtain ⟨r, hr, hkey⟩ := List.mem_map.mp hmem
      rcases List.mem_append.mp hr with hr | hr
      · exact .inl (hkey ▸ List.mem_map_of_mem hr)
      · obtain ⟨j, -, rfl⟩ := List.mem_map.mp (List.mem_filter.mp hr).1
        exact absurd hkey (h.apart j i g hg)
    · obtain ⟨r, hr, hkey⟩ := List.mem_map.mp hmem
      obtain ⟨⟨j, -, hr'⟩, -⟩ := mem_reached.mp hr
      exact .inr (h.groups j i r g hr' hg hkey ▸ hr)
  · rintro (hmem | hmem)
    · rw [base, List.map_append]
      exact .inl (List.mem_append_left _ hmem)
    · exact .inr (List.mem_map_of_mem hmem)

theorem countP_group (h : R.Separated) (hg : R.group i = some g) (hno : g ∉ R.reached S is)
    (hT : T.Perm (R.base S (is ++ [i]) ++ R.reached S is)) :
    T.countP (R.counts g) = (R.base S (is ++ [i])).countP (R.counts g) := by
  have hzero : (R.reached S is).countP (R.counts g) = 0 := by
    refine List.countP_eq_zero.mpr fun r hr hc => hno ?_
    obtain ⟨⟨j, -, hr'⟩, -⟩ := mem_reached.mp hr
    exact h.groups i j g r hg hr' (h.alone i j g r hg hr' hc) ▸ hr
  rw [hT.countP_eq, List.countP_append, hzero, Nat.add_zero]

theorem step_perm (h : R.Separated) (hi : i ∉ is) (hT : T.Perm (R.closed S is)) :
    (R.step T i).Perm (R.closed S (is ++ [i])) := by
  have hitem := insertNew_item_perm h hi hT
  have hmore : ∀ gs : List α, gs.Nodup → (∀ g, g ∈ gs ↔ g ∈ R.reached S (is ++ [i])) →
      (R.base S (is ++ [i]) ++ gs).Perm (R.closed S (is ++ [i])) := fun gs hd hgs =>
    ((List.perm_ext_iff_of_nodup hd reached_nodup).mpr hgs).append_left _
  rw [step, fillGroup]
  generalize insertNew R.key T (R.item i) = T' at hitem ⊢
  cases hg : R.group i with
  | none =>
    refine hitem.trans (hmore _ reached_nodup fun g => ?_)
    rw [mem_reached_append h, hg]
    simp
  | some g =>
    have hmem := key_group_mem h hg hitem
    dsimp only
    rw [insertNew]
    by_cases hkey : R.key g ∈ T'.map R.key
    · -- the group is there: whatever the count says, nothing is added
      rw [if_pos hkey, ite_self]
      refine hitem.trans (hmore _ reached_nodup fun g' => ?_)
      rw [mem_reached_append h, hg, iff_self_or]
      rintro ⟨he, hnew, -⟩
      obtain rfl := Option.some.inj he
      exact (hmem.mp hkey).resolve_left hnew
    · obtain ⟨hnew, hno⟩ := not_or.mp fun hm => hkey (hmem.mpr hm)
      rw [if_neg hkey, countP_group h hg hno hitem]
      split_ifs with hquota
      · refine (hitem.append_right [g]).trans ?_
        rw [List.append_assoc]
        refine hmore _ (reached_nodup.append (List.nodup_singleton g) ?_) fun g' => ?_
        · simpa using hno
        · rw [mem_reached_append h, hg, List.mem_append, List.mem_singleton]
          constructor
          · rintro (hm | rfl)
            · exact .inl hm
            · exact .inr ⟨rfl, hnew, hquota⟩
          · rintro (hm | ⟨he, -⟩)
            · exact .inl hm
            · exact .inr (Option.some.inj he).symm
      · refine hitem.trans (hmore _ reached_nodup fun g' => ?_)
        rw [mem_reached_append h, hg, iff_self_or]
        rintro ⟨he, -, hq⟩
        obtain rfl := Option.some.inj he
        exact absurd hq hquota

theorem foldl_step_perm (h : R.Separated) (his : is.Nodup) :
    (is.foldl R.step S).Perm (R.closed S is) := by
  induction is using List.reverseRecOn with
  | nil => simp [closed, base, reached]
  | append_singleton is i ih =>
    obtain ⟨his, -, hdis⟩ := List.nodup_append.mp his
    rw [List.foldl_append]
    exact step_perm h (fun hmem => hdis i hmem i (by simp) rfl) (ih his)

end Rules

end VoidGate.GroupInserts
