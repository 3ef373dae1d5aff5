import VoidGate.KernelAgreement

/-!
# Sweeps over the drop list

The prune of a reload and the expiry of a tick walk `drop_all` and lift every record
that is due. Under any failures such a walk is a sequence of kernel deletes, one for
each due record in the order of the list, and a record stays listed exactly when it is
not due or its delete failed.
-/

namespace VoidGate

/-- Delete the given prefixes from the drop maps, one after the other. -/
def dropDels (env : Env) (m : VgMaps) (ps : List VgCidr) : VgMaps :=
  ps.foldl (fun m p => (vgDropDel env m p).1) m

/-- An entry is left exactly if every delete of its key failed. -/
theorem mem_dropDels (env : Env) (m : VgMaps) (ps : List VgCidr) (f : Family)
    (e : VgCidr × MapValue) : e ∈ ((dropDels env m ps).kernel.lpm (.drop f)).entries ↔
      e ∈ (m.kernel.lpm (.drop f)).entries ∧ ∀ q ∈ ps.zipIdx m.writes, q.1.family = f →
        sameKey q.1 e.1 = true → env.fault q.2 = true := by
  induction ps generalizing m with
  | nil => simp [dropDels]
  | cons p ps ih =>
    have hfirst : e ∈ ((vgDropDel env m p).1.kernel.lpm (.drop f)).entries ↔
        e ∈ (m.kernel.lpm (.drop f)).entries ∧
          (p.family = f → sameKey p e.1 = true → env.fault m.writes = true) := by
      rw [vgDropDel]
      by_cases hf : p.family = f
      · rw [hf, mem_lpmDelete]
        simp
      · rw [(lpmDelete_frame env m (.drop p.family) p).2 (.drop f) fun h => hf (MapFd.drop.inj h).symm]
        simp [hf]
    have hwrites : (vgDropDel env m p).1.writes = m.writes + 1 := lpmDelete_writes env m _ p
    rw [dropDels, List.foldl_cons, ← dropDels, ih, hfirst, hwrites, and_assoc, List.zipIdx_cons,
      List.forall_mem_cons]

@[simp] theorem dropDels_writes (env : Env) (m : VgMaps) (ps : List VgCidr) :
    (dropDels env m ps).writes = m.writes + ps.length := by
  induction ps generalizing m with
  | nil => rfl
  | cons p ps ih =>
    rw [dropDels, List.foldl_cons, ← dropDels, ih, vgDropDel, lpmDelete_writes, List.length_cons]
    omega

section Kept
variable {α β : Type*} (fault : ℕ → Bool) (due : α → Bool)

/-- The elements that are not due, and the due ones whose attempt fails, when the attempts are
numbered from `w` on. -/
def keptFrom : ℕ → List α → List α
  | _, [] => []
  | w, x :: xs =>
    if due x then if fault w then x :: keptFrom (w + 1) xs else keptFrom (w + 1) xs
    else x :: keptFrom w xs

def liftedFrom : ℕ → List α → List α
  | _, [] => []
  | w, x :: xs =>
    if due x then if fault w then liftedFrom (w + 1) xs else x :: liftedFrom (w + 1) xs
    else liftedFrom w xs

theorem map_keptFrom (g : β → α) (w : ℕ) (xs : List β) :
    (keptFrom fault (due ∘ g) w xs).map g = keptFrom fault due w (xs.map g) := by
  induction xs generalizing w with
  | nil => rfl
  | cons x xs ih =>
    rw [List.map_cons, keptFrom, keptFrom, Function.comp_apply]
    split_ifs
    · rw [List.map_cons, ih]
    · exact ih _
    · rw [List.map_cons, ih]

/-- When the outcome of an attempt is a matter of the element, the walk is a filter. -/
theorem keptFrom_eq_filter {fault : ℕ → Bool} {due fails : α → Bool} {w : ℕ} {xs : List α}
    (h : ∀ j x, (xs.filter due)[j]? = some x → fault (w + j) = fails x) :
    keptFrom fault due w xs = xs.filter (fun x => !due x || fails x) ∧
      liftedFrom fault due w xs = xs.filter fun x => due x && !fails x := by
  induction xs generalizing w with
  | nil => exact ⟨rfl, rfl⟩
  | cons x xs ih =>
    by_cases hx : due x = true
    · rw [List.filter_cons_of_pos hx] at h
      have hfirst : fault w = fails x := h 0 x rfl
      have hrest : ∀ j y, (xs.filter due)[j]? = some y → fault (w + 1 + j) = fails y := by
        intro j y hy
        rw [Nat.add_assoc, Nat.add_comm 1 j]
        exact h (j + 1) y hy
      obtain ⟨hk, hl⟩ := ih hrest
      rw [keptFrom, liftedFrom, if_pos hx, if_pos hx, hfirst, hk, hl]
      cases hf : fails x <;> simp [hx, hf]
    · rw [List.filter_cons_of_neg hx] at h
      obtain ⟨hk, hl⟩ := ih h
      rw [keptFrom, liftedFrom, if_neg hx, if_neg hx, hk, hl]
      simp [hx]

variable {fault due} {w : ℕ} {xs : List α}

private theorem keptFrom_sublist : (keptFrom fault due w xs).Sublist xs := by
  induction xs generalizing w with
  | nil => exact .slnil
  | cons x xs ih =>
    rw [keptFrom]
    split_ifs
    · exact ih.cons_cons x
    · exact ih.cons x
    · exact ih.cons_cons x

theorem forall_fault_cons {x : α} {b : Bool} (hx : due x = true) :
    (∀ j < ((x :: xs).filter due).length, fault (w + j) = b) ↔
      fault w = b ∧ ∀ j < (xs.filter due).length, fault (w + 1 + j) = b := by
  rw [List.filter_cons_of_pos hx, List.length_cons, Nat.forall_lt_succ_left]
  simp only [Nat.add_zero, ← Nat.add_assoc, Nat.add_right_comm w _ 1]

theorem keptFrom_not_due_iff : (∀ x ∈ keptFrom fault due w xs, due x = false) ↔
    ∀ j < (xs.filter due).length, fault (w + j) = false := by
  induction xs generalizing w with
  | nil => simp [keptFrom]
  | cons x xs ih =>
    rw [keptFrom]
    by_cases hx : due x = true
    · rw [if_pos hx, forall_fault_cons hx, ← ih]
      cases hf : fault w <;> simp [hx]
    · rw [if_neg hx, List.filter_cons_of_neg hx, List.forall_mem_cons, ih,
        and_iff_right (by simpa using hx)]

theorem keptFrom_eq_self_iff : keptFrom fault due w xs = xs ↔
    ∀ j < (xs.filter due).length, fault (w + j) = true := by
  induction xs generalizing w with
  | nil => simp [keptFrom]
  | cons x xs ih =>
    rw [keptFrom]
    by_cases hx : due x = true
    · rw [if_pos hx, forall_fault_cons hx, ← ih]
      cases hf : fault w with
      | true => simp
      | false =>
        have hsub : (keptFrom fault due (w + 1) xs).Sublist xs := keptFrom_sublist
        have hlen := hsub.length_le
        have hne : keptFrom fault due (w + 1) xs ≠ x :: xs := fun he => by
          rw [he] at hlen
          simp at hlen
        simp [hne]
    · rw [if_neg hx, List.filter_cons_of_neg hx, List.cons_inj_right, ih]

end Kept

/-- The body of a loop over `drop_all` that lifts the records that are due. -/
def sweepOne (env : Env) (due : VgConfig → VgDropRec → Bool) (c : VgCtrl) (i : ℕ) : VgCtrl :=
  if due c.cfg (c.drops.pool i) then (dropRemove env c i).1 else c

variable {env : Env} {c : VgCtrl} (due : VgConfig → VgDropRec → Bool)

/-- What a sweep leaves behind, with `listed` the records that it walks. -/
structure Swept (env : Env) (due : VgConfig → VgDropRec → Bool) (c : VgCtrl) (past listed F : List ℕ)
    (c' : VgCtrl) : Prop where
  eq : c' = { c with
    maps := dropDels env c.maps (((listed.map c.drops.pool).filter (due c.cfg)).map VgDropRec.cidr)
    drops := c'.drops }
  pool : c'.drops.pool = c.drops.pool
  inv : c'.drops.Inv []
    (past ++ keptFrom env.fault (due c.cfg ∘ c.drops.pool) c.maps.writes listed)
    (F ++ liftedFrom env.fault (due c.cfg ∘ c.drops.pool) c.maps.writes listed)

section Cons
variable {due} {c' : VgCtrl} {i : ℕ} {past rest F : List ℕ}

private theorem Swept.cons_spared (hdue : due c.cfg (c.drops.pool i) ≠ true)
    (h : Swept env due c (past ++ [i]) rest F c') : Swept env due c past (i :: rest) F c' := by
  obtain ⟨heq, hpool, hinv⟩ := h
  refine ⟨?_, hpool, ?_⟩
  · rw [heq]
    simp [hdue]
  · simpa [keptFrom, liftedFrom, hdue] using hinv

private theorem Swept.cons_due (hdue : due c.cfg (c.drops.pool i) = true)
    (h : Swept env due (dropRemove env c i).1 (if env.fault c.maps.writes then past ++ [i] else past)
      rest (if env.fault c.maps.writes then F else F ++ [i]) c') :
    Swept env due c past (i :: rest) F c' := by
  have hwrites : (vgDropDel env c.maps (c.drops.pool i).cidr).1.writes = c.maps.writes + 1 :=
    lpmDelete_writes env c.maps _ _
  obtain ⟨heq, hpool, hinv⟩ := h
  rcases dropRemove_cases env c i with ⟨hf, he⟩ | ⟨hf, he⟩
  · rw [he] at heq hpool hinv
    refine ⟨?_, hpool, ?_⟩
    · rw [heq]
      simp [dropDels, hdue]
    · simpa [keptFrom, liftedFrom, hdue, hf, hwrites] using hinv
  · rw [he] at heq hpool hinv
    refine ⟨?_, hpool, ?_⟩
    · rw [heq]
      simp [dropDels, hdue, DropTable.lift]
    · simpa [keptFrom, liftedFrom, hdue, hf, hwrites, DropTable.lift] using hinv

end Cons

private theorem foldl_sweepOne {past rest F : List ℕ} (h : c.drops.Inv [] (past ++ rest) F) :
    Swept env due c past rest F (rest.foldl (sweepOne env due) c) := by
  induction rest generalizing c past F with
  | nil => exact ⟨rfl, rfl, by simpa [keptFrom, liftedFrom] using h⟩
  | cons i rest ih =>
    have hip : i ∉ past := fun hm =>
      (List.nodup_append.mp h.listed_nodup).2.2 i hm i (by simp) rfl
    rw [List.foldl_cons]
    by_cases hdue : due c.cfg (c.drops.pool i) = true
    · rw [sweepOne, if_pos hdue]
      refine .cons_due hdue (ih ?_)
      rcases dropRemove_cases env c i with ⟨hf, he⟩ | ⟨hf, he⟩
      · simpa [he, hf] using h
      · have hl := h.lift (i := i) (by simp)
        rw [List.erase_append_right _ hip, List.erase_cons_head] at hl
        simpa [he, hf] using hl
    · rw [sweepOne, if_neg hdue]
      exact .cons_spared hdue (ih (by simpa using h))

theorem sweepOne_drops (env : Env) (c : VgCtrl) (i : ℕ) :
    (sweepOne env due c i).drops = c.drops ∨ (sweepOne env due c i).drops = c.drops.lift i := by
  rw [sweepOne]
  split_ifs
  · exact dropRemove_drops env c i
  · exact .inl rfl

/-- A sweep visits every listed record once. -/
theorem forEachDrop_sweepOne {L F : List ℕ} (h : c.drops.Inv [] L F) :
    Swept env due c [] L F (forEachDrop (sweepOne env due) c) := by
  rw [forEachDrop_eq_foldl ⟨L, F, h⟩ (sweepOne_drops due env), h.listed_eq]
  have hall : c.drops.Inv [] ([] ++ L) F := h
  exact foldl_sweepOne due hall

end VoidGate
