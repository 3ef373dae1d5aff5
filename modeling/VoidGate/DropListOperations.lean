import VoidGate.DropList

/-!
# The operations of the drop list

Taking a record from the pool, giving it back, listing it, rewriting it and lifting
it all keep the invariant of the table. For the callers each operation is then
described by what it does to the records on `drop_all`.
-/

namespace VoidGate

open RingLists CellChains

namespace DropTable

variable {t : DropTable} {held L F : List ℕ}

theorem Inv.disjoint_rings (h : t.Inv held L F) :
    (∀ y ∈ ListNode.dropAll :: L.map .all, y ∉ ListNode.dropFree :: F.map .all) ∧
      (∀ i ∈ held, ListNode.all i ∉ ListNode.dropAll :: L.map .all) ∧
      ∀ i ∈ held, ListNode.all i ∉ ListNode.dropFree :: F.map .all := by
  obtain ⟨-, hLF, hheld⟩ := List.nodup_append.mp h.nodup
  obtain ⟨-, -, hdis⟩ := List.nodup_append.mp hLF
  refine ⟨?_, ?_, ?_⟩
  · intro y hy hy'
    rcases List.mem_cons.mp hy with rfl | hy
    · simp at hy'
    · obtain ⟨i, hi, rfl⟩ := List.mem_map.mp hy
      exact hdis i hi i (by simpa using hy') rfl
  · intro i hi hm
    exact hheld i hi i (by simp_all) rfl
  · intro i hi hm
    exact hheld i hi i (by simp_all) rfl

/-- Taking a record moves it from the free list, or from the untouched part of the pool, to the
caller. -/
theorem Inv.alloc_some (h : t.Inv [] L F) {t' : DropTable} {i : ℕ}
    (he : t.dropAlloc = (t', some i)) :
    t'.pool = t.pool ∧ t'.nbuckets = t.nbuckets ∧ t'.cap = t.cap ∧ ∃ F', t'.Inv [i] L F' := by
  have hnext := h.freeRing.path.next_eq
  cases F with
  | nil =>
    have hempty : vgListEmpty t.lists .dropFree = true := by simpa [vgListEmpty] using hnext
    rw [dropAlloc, if_neg (by simp [hempty])] at he
    split_ifs at he with hlt
    · cases he
      refine ⟨rfl, rfl, rfl, [], ⟨h.allRing, h.freeRing, ?_, hlt, h.count_eq, h.buckets_pos,
        h.buckets, h.keys⟩⟩
      have hparts : L.Perm (List.range t.used) := by simpa using h.parts
      simp only [List.range_succ, List.singleton_append, List.append_nil]
      exact (hparts.cons _).trans (List.perm_append_singleton _ _).symm
    · simp at he
  | cons j F =>
    have hne : vgListEmpty t.lists .dropFree = false := by
      rw [vgListEmpty, hnext]
      simp
    have hhead : t.lists.next .dropFree = .all j := by simpa using hnext
    rw [dropAlloc, if_pos hne, hhead] at he
    obtain ⟨rfl, hij⟩ := Prod.mk.inj he
    obtain rfl : j = i := by simpa [entry] using hij
    have hprev : t.lists.prev (.all j) = .dropFree := h.freeRing.path.2.1
    have hp := @vgListDel_prev t.lists (.all j) (by simp [hprev])
    have hfree : Ring t.lists .dropFree ([] ++ .all j :: F.map .all) := h.freeRing
    refine ⟨rfl, rfl, rfl, F, ⟨?_, ?_, ?_, h.used_le, h.count_eq, h.buckets_pos, h.buckets,
      h.keys⟩⟩
    · exact hfree.remove_frame h.allRing h.disjoint_rings.1 (vgListDel_next _ _) hp
    · exact hfree.remove (vgListDel_next _ _) hp
    · refine List.Perm.trans ?_ h.parts
      simpa using (@List.perm_middle _ j L F).symm

theorem Inv.alloc_none (h : t.Inv [] L F) (he : t.dropAlloc.2 = none) :
    t.dropAlloc.1 = t ∧ L.length = t.cap := by
  have hnext := h.freeRing.path.next_eq
  cases F with
  | nil =>
    have hempty : vgListEmpty t.lists .dropFree = true := by simpa [vgListEmpty] using hnext
    rw [dropAlloc, if_neg (by simp [hempty])] at he ⊢
    split_ifs at he ⊢ with hlt
    have hlen := h.parts.length_eq
    simp only [List.nil_append, List.append_nil, List.length_range] at hlen
    exact ⟨rfl, by have := h.used_le; omega⟩
  | cons j F =>
    have hhead : t.lists.next .dropFree = .all j := by simpa using hnext
    rw [dropAlloc, if_pos (by simp [vgListEmpty, hhead]), hhead] at he
    simp [entry] at he

/-- A record that was taken and not listed goes to the end of the free list. -/
theorem Inv.giveBack {i : ℕ} (h : t.Inv [i] L F) : (t.giveBack i).Inv [] L (F ++ [i]) := by
  obtain ⟨hAF, hA, hF⟩ := h.disjoint_rings
  have hn := @vgListAddTail_next t.lists (.all i) .dropFree (by simp)
  have hp := vgListAddTail_prev t.lists (.all i) .dropFree
  refine ⟨?_, ?_, ?_, h.used_le, h.count_eq, h.buckets_pos, h.buckets, h.keys⟩
  · apply Ring.snoc_frame h.freeRing h.allRing _ hn hp
    intro y hy hm
    rcases List.mem_cons.mp hm with rfl | hm
    · exact hA i (by simp) hy
    · exact hAF y hy hm
  · rw [List.map_append]
    exact Ring.snoc h.freeRing (hF i (by simp)) hn hp
  · refine List.Perm.trans ?_ h.parts
    simpa [List.append_assoc] using List.perm_append_singleton i (L ++ F)

/-- Overwriting the data of a record without changing its prefix. -/
theorem Inv.setRec (h : t.Inv held L F) {i : ℕ} {r : VgDropRec} (hr : r.cidr = (t.pool i).cidr) :
    (t.setRec i r).Inv held L F := by
  have hcidr : ∀ j, ((t.setRec i r).pool j).cidr = (t.pool j).cidr := by
    intro j
    by_cases hj : j = i
    · subst hj
      simp [DropTable.setRec, hr]
    · simp [DropTable.setRec, hj]
  refine ⟨h.allRing, h.freeRing, h.parts, h.used_le, h.count_eq, h.buckets_pos, ?_, ?_⟩
  · intro b hb
    obtain ⟨xs, hxs⟩ := h.buckets b hb
    refine ⟨xs, hxs.chain, hxs.backed, hxs.nodup, fun j => ?_⟩
    rw [hcidr j]
    exact hxs.mem j
  · simpa only [hcidr] using h.keys

section Listing
variable {i b : ℕ} {r : VgDropRec} {xs : List ℕ}

theorem Bucket.list_cell (hxs : Bucket t.hash t.nbuckets t.pool L b xs) (hi : i ∉ L) :
    ∀ x ∈ xs, (t.list i r).hash.ptr (.next x) = t.hash.ptr (.next x) := by
  intro x hx
  have hxi : x ≠ i := fun he => hi (he ▸ ((hxs.mem x).mp hx).1)
  simp [DropTable.list, vgHlistAddHead_ptr, hxi]

theorem Bucket.list_mem (hxs : Bucket t.hash t.nbuckets t.pool L b xs) {j : ℕ} (hj : j ≠ i) :
    j ∈ xs ↔ j ∈ L ++ [i] ∧ dropHash t.nbuckets ((t.list i r).pool j).cidr = b := by
  simp [hxs.mem j, DropTable.list, hj]

private theorem Bucket.list_own (hi : i ∉ L)
    (hxs : Bucket t.hash t.nbuckets t.pool L (dropHash t.nbuckets r.cidr) xs) :
    Bucket (t.list i r).hash (t.list i r).nbuckets (t.list i r).pool (L ++ [i])
      (dropHash t.nbuckets r.cidr) (i :: xs) := by
  have hixs : i ∉ xs := fun hm => hi ((hxs.mem i).mp hm).1
  obtain ⟨hself, hfirst, hother⟩ := vgHlistAddHead_pprev t.hash i (dropHash t.nbuckets r.cidr)
  have hhead : xs.head? = t.hash.ptr (.head (dropHash t.nbuckets r.cidr)) := hxs.chain.head_eq
  refine ⟨⟨?_, ?_⟩, ?_, ?_, ?_⟩
  · simp [DropTable.list, vgHlistAddHead_ptr]
  · exact hxs.chain.move (by simp [DropTable.list, vgHlistAddHead_ptr]) (hxs.list_cell hi)
  · apply hxs.backed.push hxs.nodup hself
    · intro y hy
      have hyi : y ≠ i := fun he => hixs (he ▸ List.mem_of_mem_head? hy)
      exact hfirst y hyi (hhead ▸ hy)
    · intro z hz hne
      have hzi : z ≠ i := fun he => hixs (he ▸ hz)
      exact hother z hzi (hhead ▸ hne)
  · exact List.nodup_cons.mpr ⟨hixs, hxs.nodup⟩
  · intro j
    by_cases hj : j = i
    · subst hj
      simp [DropTable.list]
    · rw [List.mem_cons]
      exact (or_iff_right hj).trans (hxs.list_mem hj)

private theorem Inv.list_other (h : t.Inv held L F) (hi : i ∉ L) (hb : b ≠ dropHash t.nbuckets r.cidr)
    (hxs : Bucket t.hash t.nbuckets t.pool L b xs) :
    Bucket (t.list i r).hash (t.list i r).nbuckets (t.list i r).pool (L ++ [i]) b xs := by
  have hixs : i ∉ xs := fun hm => hi ((hxs.mem i).mp hm).1
  obtain ⟨-, -, hother⟩ := vgHlistAddHead_pprev t.hash i (dropHash t.nbuckets r.cidr)
  refine ⟨?_, ?_, hxs.nodup, ?_⟩
  · refine hxs.chain.move ?_ (hxs.list_cell hi)
    simp [DropTable.list, vgHlistAddHead_ptr, hb]
  · apply hxs.backed.congr
    intro x hx
    have hxi : x ≠ i := fun he => hixs (he ▸ hx)
    refine hother x hxi fun he => ?_
    -- the first record of the other bucket hashes there, and `x` hashes to `b`
    obtain ⟨zs, hzs⟩ := h.buckets _ (dropHash_lt h.buckets_pos r.cidr)
    have hz : x ∈ zs := List.mem_of_mem_head? (hzs.chain.head_eq.trans he)
    exact hb (((hxs.mem x).mp hx).2.symm.trans ((hzs.mem x).mp hz).2)
  · intro j
    by_cases hj : j = i
    · subst hj
      simpa [DropTable.list, hixs] using hb.symm
    · exact hxs.list_mem hj

private theorem Inv.list_bucket (h : t.Inv held L F) (hi : i ∉ L)
    (hxs : Bucket t.hash t.nbuckets t.pool L b xs) :
    ∃ ys, Bucket (t.list i r).hash (t.list i r).nbuckets (t.list i r).pool (L ++ [i]) b ys := by
  by_cases hb : b = dropHash t.nbuckets r.cidr
  · subst hb
    exact ⟨i :: xs, hxs.list_own hi⟩
  · exact ⟨xs, h.list_other hi hb hxs⟩

end Listing

section Lifting
variable {i b : ℕ} {us vs zs : List ℕ}

theorem endCell_head_ne {x : ℕ} (hx : x ∉ us) : endCell HashCell.next (.head b) us ≠ .next x :=
  endCell_ne_nextCell (fun _ _ he => HashCell.next.inj he) (by simp) hx

theorem Bucket.lift_links (hxs : Bucket t.hash t.nbuckets t.pool L b (us ++ i :: vs)) :
    (t.lift i).hash.ptr (endCell HashCell.next (.head b) us) = t.hash.ptr (.next i) ∧
      (∀ k, k ≠ endCell HashCell.next (.head b) us → k ≠ .next i →
        (t.lift i).hash.ptr k = t.hash.ptr k) ∧
      (∀ y ≠ i, vs.head? = some y →
        (t.lift i).hash.pprev y = some (endCell HashCell.next (.head b) us)) ∧
      ∀ y ≠ i, vs.head? ≠ some y → (t.lift i).hash.pprev y = t.hash.pprev y := by
  have hiu : i ∉ us := fun hm => (List.nodup_append.mp hxs.nodup).2.2 i hm i (by simp) rfl
  have hvs : vs.head? = t.hash.ptr (.next i) := hxs.chain.ptr_endCell.2.head_eq
  rw [hvs]
  exact vgHlistDel_eq t.hash hxs.backed.pprev_eq (endCell_head_ne hiu)

theorem Inv.lift_mem (h : t.Inv [] L F) (hzs : Bucket t.hash t.nbuckets t.pool L b zs) (j : ℕ) :
    j ∈ zs ∧ j ≠ i ↔ j ∈ L.erase i ∧ dropHash t.nbuckets (t.pool j).cidr = b := by
  rw [h.listed_nodup.mem_erase_iff, hzs.mem j]
  tauto

private theorem Inv.lift_own (h : t.Inv [] L F)
    (hxs : Bucket t.hash t.nbuckets t.pool L b (us ++ i :: vs)) :
    Bucket (t.lift i).hash (t.lift i).nbuckets (t.lift i).pool (L.erase i) b (us ++ vs) := by
  obtain ⟨hend, hkeep, hsucc, hpp⟩ := hxs.lift_links
  have hleft : ∀ x ∈ us ++ vs, x ≠ i := fun x hx => ((mem_remove_iff hxs.nodup).mp hx).2
  refine ⟨?_, ?_, ?_, ?_⟩
  · exact hxs.chain.remove (fun _ _ he => HashCell.next.inj he) hxs.nodup (by simp) hend hkeep
  · apply hxs.backed.remove hxs.nodup
    · intro y hy
      exact hsucc y (hleft y (List.mem_append_right _ (List.mem_of_mem_head? hy))) hy
    · intro z hz hne
      exact hpp z (hleft z hz) hne
  · exact hxs.nodup.sublist ((List.Sublist.refl _).append (List.sublist_cons_self i vs))
  · intro j
    exact (mem_remove_iff hxs.nodup).trans (h.lift_mem hxs j)

/-- The other buckets keep their pointers: their records are neither the lifted one nor its
neighbours. -/
private theorem Inv.lift_other (h : t.Inv [] L F) {b' : ℕ} (hb : b ≠ b')
    (hxs : Bucket t.hash t.nbuckets t.pool L b' (us ++ i :: vs))
    (hzs : Bucket t.hash t.nbuckets t.pool L b zs) :
    Bucket (t.lift i).hash (t.lift i).nbuckets (t.lift i).pool (L.erase i) b zs := by
  obtain ⟨-, hkeep, -, hpp⟩ := hxs.lift_links
  have hother : ∀ x ∈ zs, x ∉ us ++ i :: vs := fun x hx hm =>
    hb (((hzs.mem x).mp hx).2.symm.trans ((hxs.mem x).mp hm).2)
  have hxi : ∀ x ∈ zs, x ≠ i := fun x hx he => hother x hx (by simp [he])
  refine ⟨?_, ?_, hzs.nodup, ?_⟩
  · refine hzs.chain.move (hkeep _ ?_ (by simp)) fun x hx => hkeep _ ?_ ?_
    · -- the cell in front of `i` is the head of its bucket or belongs to a record of it
      rcases @endCell_mem _ _ HashCell.next (.head b') us with he | ⟨u, -, he⟩
      · simpa [he] using hb
      · simp [he]
    · exact (endCell_head_ne fun hm => hother x hx (by simp [hm])).symm
    · simpa using hxi x hx
  · apply hzs.backed.congr
    intro x hx
    refine hpp x (hxi x hx) fun he => ?_
    exact hother x hx (by simp [List.mem_of_mem_head? he])
  · intro j
    refine Iff.trans ?_ (h.lift_mem hzs j)
    exact ⟨fun hj => ⟨hj, hxi j hj⟩, And.left⟩

private theorem Inv.lift_bucket (h : t.Inv [] L F) (hi : i ∈ L)
    (hzs : Bucket t.hash t.nbuckets t.pool L b zs) :
    ∃ ys, Bucket (t.lift i).hash (t.lift i).nbuckets (t.lift i).pool (L.erase i) b ys := by
  obtain ⟨xs, hxs⟩ := h.buckets _ (dropHash_lt h.buckets_pos (t.pool i).cidr)
  have hix : i ∈ xs := (hxs.mem i).mpr ⟨hi, rfl⟩
  obtain ⟨us, vs, rfl⟩ := List.append_of_mem hix
  by_cases hb : b = dropHash t.nbuckets (t.pool i).cidr
  · subst hb
    exact ⟨us ++ vs, h.lift_own hxs⟩
  · exact ⟨zs, h.lift_other hb hxs hzs⟩

private theorem Inv.lift_rings {xs ys : List ℕ} (h : t.Inv [] (xs ++ i :: ys) F) :
    Ring (t.lift i).lists .dropAll ((xs ++ ys).map .all) ∧
      Ring (t.lift i).lists .dropFree ((F ++ [i]).map .all) := by
  obtain ⟨hAF, -, -⟩ := h.disjoint_rings
  have hi : i ∉ xs ++ ys := (List.nodup_cons.mp (List.nodup_middle.mp h.listed_nodup)).1
  have hring : Ring t.lists .dropAll (xs.map .all ++ .all i :: ys.map .all) := by
    simpa using h.allRing
  have hprev : t.lists.prev (.all i) ≠ .all i := by
    intro he
    have hm := (path_append.mp hring.path).1.prev_mem
    rw [he] at hm
    simp_all
  have hdn := vgListDel_next t.lists (.all i)
  have hdp := vgListDel_prev t.lists hprev
  have hall : Ring (vgListDel t.lists (.all i)) .dropAll ((xs ++ ys).map .all) := by
    rw [List.map_append]
    exact hring.remove hdn hdp
  have hfree : Ring (vgListDel t.lists (.all i)) .dropFree (F.map .all) := by
    apply hring.remove_frame h.freeRing _ hdn hdp
    intro y hy hm
    exact hAF y (by simpa using hm) hy
  have hn := @vgListAddTail_next (vgListDel t.lists (.all i)) (.all i) .dropFree (by simp)
  have hp := vgListAddTail_prev (vgListDel t.lists (.all i)) (.all i) .dropFree
  constructor
  · apply hfree.snoc_frame hall _ hn hp
    intro y hy hm
    rcases List.mem_cons.mp hm with rfl | hm
    · simp_all
    · refine hAF y ?_ hm
      simp only [List.map_append, List.map_cons, List.mem_cons, List.mem_append] at hy ⊢
      tauto
  · rw [List.map_append]
    exact Ring.snoc hfree (hAF _ (by simp)) hn hp

end Lifting

/-- Listing a held record under a prefix that no listed record has. -/
theorem Inv.list {i : ℕ} (h : t.Inv [i] L F) {r : VgDropRec}
    (hr : ∀ j ∈ L, (t.pool j).cidr.key ≠ r.cidr.key) : (t.list i r).Inv [] (L ++ [i]) F := by
  obtain ⟨hAF, hA, hF⟩ := h.disjoint_rings
  have hiL : i ∉ L := fun hm => hA i (by simp) (by simp [hm])
  have hn := @vgListAddTail_next t.lists (.all i) .dropAll (by simp)
  have hp := vgListAddTail_prev t.lists (.all i) .dropAll
  have hpool : ∀ j ∈ L, (t.list i r).pool j = t.pool j := fun j hj => by
    have hji : j ≠ i := fun he => hiL (he ▸ hj)
    simp [DropTable.list, hji]
  have hpooli : (t.list i r).pool i = r := by simp [DropTable.list]
  refine ⟨?_, ?_, ?_, h.used_le, ?_, h.buckets_pos, ?_, ?_⟩
  · rw [List.map_append]
    exact Ring.snoc h.allRing (hA i (by simp)) hn hp
  · apply Ring.snoc_frame h.allRing h.freeRing _ hn hp
    intro y hy hm
    rcases List.mem_cons.mp hm with rfl | hm
    · exact hF i (by simp) hy
    · exact hAF y hm hy
  · refine List.Perm.trans ?_ h.parts
    simp
  · simp [DropTable.list, h.count_eq]
  · intro b hb
    obtain ⟨xs, hxs⟩ := h.buckets b hb
    exact h.list_bucket hiL hxs
  · have hkeys : (L.map fun j => ((t.list i r).pool j).cidr.key) =
        L.map fun j => (t.pool j).cidr.key :=
      List.map_congr_left fun j hj => by rw [hpool j hj]
    rw [List.map_append, hkeys, List.nodup_append]
    refine ⟨h.keys, by simp, ?_⟩
    intro k hk k' hk' he
    obtain ⟨j, hj, rfl⟩ := List.mem_map.mp hk
    simp only [List.map_cons, List.map_nil, List.mem_singleton, hpooli] at hk'
    exact hr j hj (he.trans hk')

/-- Lifting a listed record: it goes to the end of the free list. -/
theorem Inv.lift {i : ℕ} (h : t.Inv [] L F) (hi : i ∈ L) :
    (t.lift i).Inv [] (L.erase i) (F ++ [i]) := by
  have hbuckets : ∀ b < t.nbuckets, ∃ ys,
      Bucket (t.lift i).hash (t.lift i).nbuckets (t.lift i).pool (L.erase i) b ys := by
    intro b hb
    obtain ⟨zs, hzs⟩ := h.buckets b hb
    exact h.lift_bucket hi hzs
  have hkeys : ((L.erase i).map fun j => ((t.lift i).pool j).cidr.key).Nodup :=
    h.keys.sublist (List.Sublist.map _ List.erase_sublist)
  have hcount : (t.lift i).count = (L.erase i).length := by
    rw [List.length_erase_of_mem hi, ← h.count_eq]
    rfl
  have hparts : ([] ++ (L.erase i ++ (F ++ [i]))).Perm (List.range t.used) := by
    refine List.Perm.trans ?_ h.parts
    rw [List.nil_append, List.nil_append, ← List.append_assoc]
    refine (List.perm_append_singleton i (L.erase i ++ F)).trans ?_
    exact (List.perm_cons_erase hi).symm.append_right F
  obtain ⟨xs, ys, rfl⟩ := List.append_of_mem hi
  have hixs : i ∉ xs := fun hm =>
    (List.nodup_append.mp h.listed_nodup).2.2 i hm i (by simp) rfl
  have herase : (xs ++ i :: ys).erase i = xs ++ ys := by
    rw [List.erase_append_right _ hixs, List.erase_cons_head]
  obtain ⟨hall, hfree⟩ := h.lift_rings
  rw [← herase] at hall
  exact ⟨hall, hfree, hparts, h.used_le, hcount, h.buckets_pos, hbuckets, hkeys⟩

/-- The pointers are sound and no record is held. -/
def Ok (t : DropTable) : Prop := ∃ L F, t.Inv [] L F

theorem Ok.count_eq (h : t.Ok) : t.count = t.records.length := by
  obtain ⟨L, F, h⟩ := h
  rw [h.records_eq, List.length_map, h.count_eq]

theorem Ok.keys_nodup (h : t.Ok) : (t.records.map fun r => r.cidr.key).Nodup := by
  obtain ⟨L, F, h⟩ := h
  rw [h.records_eq, List.map_map]
  exact h.keys

theorem Ok.eq_of_key (h : t.Ok) {r r' : VgDropRec} (hr : r ∈ t.records) (hr' : r' ∈ t.records)
    (hk : r.cidr.key = r'.cidr.key) : r = r' :=
  List.inj_on_of_nodup_map h.keys_nodup hr hr' hk

theorem pool_mem_records {i : ℕ} (hi : i ∈ t.listed) : t.pool i ∈ t.records :=
  List.mem_map_of_mem hi

theorem ok_init {cap nbuckets : ℕ} (hb : 0 < nbuckets) :
    (DropTable.init cap nbuckets).Ok ∧ (DropTable.init cap nbuckets).records = [] := by
  have h := @inv_init cap nbuckets hb
  exact ⟨⟨_, _, h⟩, h.records_eq⟩

theorem Ok.reset (h : t.Ok) : t.dropsReset.Ok ∧ t.dropsReset.records = [] := by
  obtain ⟨L, F, h⟩ := h
  exact ⟨⟨_, _, h.reset⟩, h.reset.records_eq⟩

theorem Ok.dropsFind_none (h : t.Ok) {p : VgCidr} (hf : t.dropsFind p = none) :
    ∀ r ∈ t.records, r.cidr.key ≠ p.key := by
  obtain ⟨L, F, h⟩ := h
  intro r hr
  rw [h.records_eq] at hr
  obtain ⟨i, hi, rfl⟩ := List.mem_map.mp hr
  exact (h.dropsFind_eq_none_iff p).mp hf i hi

theorem Ok.dropsFind_some (h : t.Ok) {p : VgCidr} {i : ℕ} (hf : t.dropsFind p = some i) :
    i ∈ t.listed ∧ t.pool i ∈ t.records ∧ (t.pool i).cidr.key = p.key := by
  obtain ⟨L, F, h⟩ := h
  obtain ⟨hi, hk⟩ := (h.dropsFind_eq_some_iff p i).mp hf
  rw [h.listed_eq, h.records_eq]
  exact ⟨hi, List.mem_map_of_mem hi, hk⟩

/-- A record that is taken and listed comes last. -/
theorem Ok.list {t' : DropTable} {i : ℕ} {r : VgDropRec} (h : t.Ok)
    (ha : t.dropAlloc = (t', some i)) (hr : ∀ x ∈ t.records, x.cidr.key ≠ r.cidr.key) :
    (t'.list i r).Ok ∧ (t'.list i r).records = t.records ++ [r] := by
  obtain ⟨L, F, h⟩ := h
  obtain ⟨hpool, -, -, F', h'⟩ := h.alloc_some ha
  have hL : i ∉ L := fun hm => h'.disjoint_rings.2.1 i (by simp) (by simp [hm])
  have hkey : ∀ j ∈ L, (t'.pool j).cidr.key ≠ r.cidr.key := fun j hj => by
    rw [hpool]
    exact hr _ (by rw [h.records_eq]; exact List.mem_map_of_mem hj)
  have hinv := h'.list hkey
  refine ⟨⟨_, _, hinv⟩, ?_⟩
  rw [hinv.records_eq, h.records_eq, List.map_append]
  congr 1
  · refine List.map_congr_left fun j hj => ?_
    have hji : j ≠ i := fun he => hL (he ▸ hj)
    simp [DropTable.list, hji, hpool]
  · simp [DropTable.list]

theorem Ok.giveBack {t' : DropTable} {i : ℕ} (h : t.Ok) (ha : t.dropAlloc = (t', some i)) :
    (t'.giveBack i).Ok ∧ (t'.giveBack i).records = t.records := by
  obtain ⟨L, F, h⟩ := h
  obtain ⟨hpool, -, -, F', h'⟩ := h.alloc_some ha
  refine ⟨⟨_, _, h'.giveBack⟩, ?_⟩
  rw [h'.giveBack.records_eq, h.records_eq, ← hpool]
  rfl

/-- Overwriting a listed record in place. -/
theorem Ok.setRec {i : ℕ} {r : VgDropRec} (h : t.Ok) (hi : i ∈ t.listed)
    (hr : r.cidr = (t.pool i).cidr) :
    (t.setRec i r).Ok ∧ (t.setRec i r).records =
      t.records.map fun x => if x.cidr.key = r.cidr.key then r else x := by
  obtain ⟨L, F, h⟩ := h
  rw [h.listed_eq] at hi
  have h' := h.setRec hr
  refine ⟨⟨_, _, h'⟩, ?_⟩
  rw [h'.records_eq, h.records_eq, List.map_map]
  refine List.map_congr_left fun j hj => ?_
  have hiff : (t.pool j).cidr.key = r.cidr.key ↔ j = i := by
    rw [hr]
    exact ⟨fun he => List.inj_on_of_nodup_map h.keys hj hi he, fun he => he ▸ rfl⟩
  by_cases hji : j = i
  · subst hji
    simp [DropTable.setRec, hiff]
  · simp [DropTable.setRec, hji, hiff]

/-- Lifting a listed record drops it from the list and keeps the order of the others. -/
theorem Ok.lift {i : ℕ} (h : t.Ok) (hi : i ∈ t.listed) :
    (t.lift i).Ok ∧ (t.lift i).records =
      t.records.filter fun x => decide (x.cidr.key ≠ (t.pool i).cidr.key) := by
  obtain ⟨L, F, h⟩ := h
  rw [h.listed_eq] at hi
  have h' := h.lift hi
  refine ⟨⟨_, _, h'⟩, ?_⟩
  rw [h'.records_eq, h.records_eq, h.listed_nodup.erase_eq_filter, List.filter_map]
  have hpool : (t.lift i).pool = t.pool := rfl
  rw [hpool]
  congr 1
  refine List.filter_congr fun j hj => ?_
  have hiff : (t.pool j).cidr.key = (t.pool i).cidr.key ↔ j = i :=
    ⟨fun he => List.inj_on_of_nodup_map h.keys hj hi he, fun he => he ▸ rfl⟩
  by_cases hji : j = i
  · simp [hji]
  · simp [hiff, hji]

end DropTable

end VoidGate
