import VoidGate.MapCalls
import VoidGate.RingLists
import VoidGate.CellChains
import Mathlib.Data.List.Range
import Mathlib.Data.List.Perm.Subperm

/-!
# The drop list

The records of the drop list and the pointers that hold them together: the
circular lists `drop_all` and `drop_free`, which share the `all` node of a record,
and the hash buckets. The operations write the pointer fields in the order of
`list.h` and `policy.c`. `DropTable.Inv` ties the pointers to three lists of
record indices: those held by a caller, those listed, and those free for reuse.
-/

namespace VoidGate

open RingLists CellChains

/-- Where a `struct vg_list` lives: one of the two list heads, or the member `all` of a pool
record. -/
inductive ListNode where
  | null
  | dropFree
  | dropAll
  | all (i : ℕ)
  deriving DecidableEq

/-- A `struct vg_hlist_node *` in memory: the first node of a bucket, or the member `hash.next`
of a pool record. -/
inductive HashCell where
  | head (b : ℕ)
  | next (i : ℕ)
  deriving DecidableEq

structure HashLinks where
  ptr : HashCell → Option ℕ
  pprev : ℕ → Option HashCell

def vgListInit (l : Links ListNode) (head : ListNode) : Links ListNode :=
  { prev := Function.update l.prev head head, next := Function.update l.next head head }

def vgListEmpty (l : Links ListNode) (head : ListNode) : Bool := l.next head == head

def vgListAddTail (l : Links ListNode) (node head : ListNode) : Links ListNode :=
  let l := { l with prev := Function.update l.prev node (l.prev head) }
  let l := { l with next := Function.update l.next node head }
  let l := { l with next := Function.update l.next (l.prev head) node }
  { l with prev := Function.update l.prev head node }

def vgListDel (l : Links ListNode) (node : ListNode) : Links ListNode :=
  let l := { l with next := Function.update l.next (l.prev node) (l.next node) }
  let l := { l with prev := Function.update l.prev (l.next node) (l.prev node) }
  let l := { l with prev := Function.update l.prev node node }
  { l with next := Function.update l.next node node }

def vgHlistAddHead (h : HashLinks) (node : ℕ) (head : HashCell) : HashLinks :=
  let h := { h with ptr := Function.update h.ptr (.next node) (h.ptr head) }
  let h := match h.ptr (.next node) with
    | none => h
    | some n => { h with pprev := Function.update h.pprev n (some (.next node)) }
  let h := { h with ptr := Function.update h.ptr head (some node) }
  { h with pprev := Function.update h.pprev node (some head) }

def vgHlistDel (h : HashLinks) (node : ℕ) : HashLinks :=
  let h := match h.pprev node with
    | none => h
    | some c => { h with ptr := Function.update h.ptr c (h.ptr (.next node)) }
  let h := match h.ptr (.next node) with
    | none => h
    | some n => { h with pprev := Function.update h.pprev n (h.pprev node) }
  let h := { h with ptr := Function.update h.ptr (.next node) none }
  { h with pprev := Function.update h.pprev node none }

theorem vgListAddTail_next (l : Links ListNode) {node head : ListNode} (h : head ≠ node) :
    (vgListAddTail l node head).next =
      Function.update (Function.update l.next node head) (l.prev head) node := by
  simp [vgListAddTail, h]

theorem vgListAddTail_prev (l : Links ListNode) (node head : ListNode) :
    (vgListAddTail l node head).prev =
      Function.update (Function.update l.prev node (l.prev head)) head node := rfl

theorem vgListDel_next (l : Links ListNode) (node : ListNode) :
    (vgListDel l node).next =
      Function.update (Function.update l.next (l.prev node) (l.next node)) node node := rfl

theorem vgListDel_prev (l : Links ListNode) {node : ListNode} (h : l.prev node ≠ node) :
    (vgListDel l node).prev =
      Function.update (Function.update l.prev (l.next node) (l.prev node)) node node := by
  simp [vgListDel, h.symm]

theorem vgHlistAddHead_ptr (h : HashLinks) (node b : ℕ) :
    (vgHlistAddHead h node (.head b)).ptr =
      Function.update (Function.update h.ptr (.next node) (h.ptr (.head b))) (.head b)
        (some node) := by
  rw [vgHlistAddHead]
  cases hp : h.ptr (.head b) <;> simp

theorem vgHlistAddHead_pprev (h : HashLinks) (node b : ℕ) :
    (vgHlistAddHead h node (.head b)).pprev node = some (.head b) ∧
      (∀ y ≠ node, h.ptr (.head b) = some y →
        (vgHlistAddHead h node (.head b)).pprev y = some (.next node)) ∧
      ∀ y ≠ node, h.ptr (.head b) ≠ some y →
        (vgHlistAddHead h node (.head b)).pprev y = h.pprev y := by
  rw [vgHlistAddHead]
  cases hp : h.ptr (.head b) with
  | none => simp +contextual
  | some n => simp +contextual [eq_comm]

theorem vgHlistDel_eq (h : HashLinks) {node : ℕ} {c : HashCell} (hc : h.pprev node = some c)
    (hne : c ≠ .next node) :
    (vgHlistDel h node).ptr c = h.ptr (.next node) ∧
      (∀ k, k ≠ c → k ≠ .next node → (vgHlistDel h node).ptr k = h.ptr k) ∧
      (∀ y ≠ node, h.ptr (.next node) = some y → (vgHlistDel h node).pprev y = some c) ∧
      ∀ y ≠ node, h.ptr (.next node) ≠ some y → (vgHlistDel h node).pprev y = h.pprev y := by
  rw [vgHlistDel]
  simp only [hc, ne_eq, hne.symm, not_false_eq_true, Function.update_of_ne]
  cases hp : h.ptr (.next node) with
  | none => simp +contextual [hne]
  | some n => simp +contextual [hne, eq_comm]

/-- The data members of `struct vg_drop_rec`. -/
structure VgDropRec where
  cidr : VgCidr
  reason : Reason
  inserted : ℤ
  expires : ℤ
  deriving DecidableEq

/-- The drop list part of `struct vg_ctrl`. -/
structure DropTable where
  pool : ℕ → VgDropRec
  cap : ℕ
  used : ℕ
  lists : Links ListNode
  count : ℕ
  hash : HashLinks
  nbuckets : ℕ

/-- A zeroed record: it is written before it is first read. -/
def VgDropRec.zero : VgDropRec := ⟨zeroCidr .inet, .manual, 0, 0⟩

/-- The table `vg_ctrl_init` sets up in zeroed memory. -/
def DropTable.init (cap nbuckets : ℕ) : DropTable where
  pool _ := .zero
  cap := cap
  used := 0
  lists := vgListInit (vgListInit ⟨fun _ => .null, fun _ => .null⟩ .dropFree) .dropAll
  count := 0
  hash := ⟨fun _ => none, fun _ => none⟩
  nbuckets := nbuckets

def fnv (h x : UInt32) : UInt32 := (h ^^^ x) * 16777619

/-- `drop_hash`; `h & (drop_nbuckets - 1)` selects the bucket. -/
def dropHash (nbuckets : ℕ) (p : VgCidr) : ℕ :=
  let h := fnv (UInt32.ofNat p.family.num * 16777619) (UInt32.ofNat p.prefixlen)
  let h := (p.addr.toList.take p.family.nbytes).foldl (fun h b => fnv h b.toUInt32) h
  h.toNat &&& (nbuckets - 1)

/-- The comparison in `drops_find`. -/
def sameDrop (r p : VgCidr) : Bool :=
  r.family == p.family && r.prefixlen == p.prefixlen && memEq r.addr p.addr p.family.nbytes

@[simp] theorem sameDrop_iff (r p : VgCidr) : sameDrop r p = true ↔ r.key = p.key := by
  simp only [sameDrop, VgCidr.key, memEq, Bool.and_eq_true, beq_iff_eq, Prod.mk.injEq, and_assoc]
  constructor
  · rintro ⟨hf, hl, ha⟩
    exact ⟨hf, hl, hf ▸ ha⟩
  · rintro ⟨hf, hl, ha⟩
    exact ⟨hf, hl, hf ▸ ha⟩

private theorem dropHash_congr {nbuckets : ℕ} {p q : VgCidr} (h : p.key = q.key) :
    dropHash nbuckets p = dropHash nbuckets q := by
  simp only [VgCidr.key, Prod.mk.injEq] at h
  obtain ⟨hf, hl, ha⟩ := h
  rw [dropHash, dropHash, ha, hf, hl]

theorem dropHash_lt {nbuckets : ℕ} (h : 0 < nbuckets) (p : VgCidr) :
    dropHash nbuckets p < nbuckets := by
  rw [dropHash]
  exact Nat.lt_of_le_of_lt Nat.and_le_right (by omega)

namespace DropTable

/-- Walk the bucket of `p`; a chain never has more nodes than records were handed out. -/
def dropsFind (t : DropTable) (p : VgCidr) : Option ℕ :=
  findFrom t.hash.ptr .next (fun i => sameDrop (t.pool i).cidr p) t.used
    (.head (dropHash t.nbuckets p))

/-- `vg_list_entry` for the member `all`. -/
def entry : ListNode → Option ℕ
  | .all i => some i
  | _ => none

/-- A lifted record if there is one, else the next record of the pool never handed out. -/
def dropAlloc (t : DropTable) : DropTable × Option ℕ :=
  if vgListEmpty t.lists .dropFree = false then
    let l := t.lists.next .dropFree
    ({ t with lists := vgListDel t.lists l }, entry l)
  else if t.used < t.cap then ({ t with used := t.used + 1 }, some t.used)
  else (t, none)

def dropsReset (t : DropTable) : DropTable :=
  { t with
    hash := { t.hash with ptr := fun c => match c with
      | .head b => if b < t.nbuckets then none else t.hash.ptr (.head b)
      | .next i => t.hash.ptr (.next i) }
    lists := vgListInit (vgListInit t.lists .dropFree) .dropAll
    used := 0
    count := 0 }

/-- The part of `drop_remove` after the kernel delete: off the bucket and off `drop_all`, onto
`drop_free`. -/
def lift (t : DropTable) (i : ℕ) : DropTable :=
  { t with
    hash := vgHlistDel t.hash i
    lists := vgListAddTail (vgListDel t.lists (.all i)) (.all i) .dropFree
    count := t.count - 1 }

/-- The part of `drop_add` after the kernel update: fill the record and list it. -/
def list (t : DropTable) (i : ℕ) (r : VgDropRec) : DropTable :=
  { t with
    pool := Function.update t.pool i r
    hash := vgHlistAddHead t.hash i (.head (dropHash t.nbuckets r.cidr))
    lists := vgListAddTail t.lists (.all i) .dropAll
    count := t.count + 1 }

/-- The failure path of `drop_add`: the record was taken but never listed. -/
def giveBack (t : DropTable) (i : ℕ) : DropTable :=
  { t with lists := vgListAddTail t.lists (.all i) .dropFree }

/-- Overwrite the data of a record in place. -/
def setRec (t : DropTable) (i : ℕ) (r : VgDropRec) : DropTable :=
  { t with pool := Function.update t.pool i r }

/-- The indices on `drop_all`, oldest first. -/
def listed (t : DropTable) : List ℕ := (collect t.lists .dropAll t.used .dropAll).filterMap entry

/-- The listed records, oldest first. -/
def records (t : DropTable) : List VgDropRec := t.listed.map t.pool

/-- The listed prefixes, oldest first. -/
def prefixes (t : DropTable) : List VgCidr := t.records.map VgDropRec.cidr

/-- The chain of bucket `b`, with its back pointers, holds exactly the listed records that hash
to `b`. -/
structure Bucket (hash : HashLinks) (nbuckets : ℕ) (pool : ℕ → VgDropRec) (L : List ℕ) (b : ℕ)
    (xs : List ℕ) : Prop where
  chain : Chain hash.ptr .next (.head b) xs
  backed : Backed hash.pprev .next (.head b) xs
  nodup : xs.Nodup
  mem : ∀ i, i ∈ xs ↔ i ∈ L ∧ dropHash nbuckets (pool i).cidr = b

/-- The representation invariant: every record handed out is held by a caller, listed, or free,
and every pointer agrees with that. -/
structure Inv (t : DropTable) (held L F : List ℕ) : Prop where
  allRing : Ring t.lists .dropAll (L.map .all)
  freeRing : Ring t.lists .dropFree (F.map .all)
  parts : (held ++ (L ++ F)).Perm (List.range t.used)
  used_le : t.used ≤ t.cap
  count_eq : t.count = L.length
  buckets_pos : 0 < t.nbuckets
  buckets : ∀ b < t.nbuckets, ∃ xs, Bucket t.hash t.nbuckets t.pool L b xs
  keys : (L.map fun i => (t.pool i).cidr.key).Nodup

variable {t : DropTable} {held L F : List ℕ}

theorem Inv.nodup (h : t.Inv held L F) : (held ++ (L ++ F)).Nodup :=
  h.parts.nodup_iff.mpr (List.nodup_range)

theorem Inv.listed_nodup (h : t.Inv held L F) : L.Nodup :=
  (List.nodup_append.mp (List.nodup_append.mp h.nodup).2.1).1

theorem Inv.listed_length_le (h : t.Inv held L F) : L.length ≤ t.used := by
  have hl := h.parts.length_eq
  simp only [List.length_append, List.length_range] at hl
  omega

/-- Walking `drop_all` visits exactly the listed records. -/
theorem Inv.listed_eq (h : t.Inv held L F) : t.listed = L := by
  rw [listed, h.allRing.collect_eq (by simpa using h.listed_length_le)]
  simp [List.filterMap_map, Function.comp_def, entry]

theorem Inv.records_eq (h : t.Inv held L F) : t.records = L.map t.pool := by
  rw [records, h.listed_eq]

theorem inv_init {cap nbuckets : ℕ} (hb : 0 < nbuckets) :
    (DropTable.init cap nbuckets).Inv [] [] [] where
  allRing := .nil (by simp [init, vgListInit]) (by simp [init, vgListInit])
  freeRing := .nil (by simp [init, vgListInit]) (by simp [init, vgListInit])
  parts := by simp [init]
  used_le := Nat.zero_le _
  count_eq := rfl
  buckets_pos := hb
  buckets b _ := ⟨[], rfl, trivial, .nil, by simp⟩
  keys := .nil

theorem Inv.reset (h : t.Inv held L F) : t.dropsReset.Inv [] [] [] where
  allRing := .nil (by simp [dropsReset, vgListInit]) (by simp [dropsReset, vgListInit])
  freeRing := .nil (by simp [dropsReset, vgListInit]) (by simp [dropsReset, vgListInit])
  parts := by simp [dropsReset]
  used_le := Nat.zero_le _
  count_eq := rfl
  buckets_pos := h.buckets_pos
  buckets b hb := by
    have hb' : b < t.nbuckets := hb
    exact ⟨[], by simp [Chain, dropsReset, hb'], trivial, .nil, by simp⟩
  keys := .nil

theorem Inv.dropsFind_eq_some_iff (h : t.Inv held L F) (p : VgCidr) (i : ℕ) :
    t.dropsFind p = some i ↔ i ∈ L ∧ (t.pool i).cidr.key = p.key := by
  obtain ⟨xs, hxs⟩ := h.buckets _ (dropHash_lt h.buckets_pos p)
  have hsub : ∀ j ∈ xs, j ∈ L := fun j hj => ((hxs.mem j).mp hj).1
  have hlen : xs.length ≤ t.used :=
    (List.subperm_of_subset hxs.nodup hsub).length_le.trans h.listed_length_le
  rw [dropsFind, hxs.chain.findFrom_eq _ hlen]
  -- no two listed records share a key, so the first match is the only one
  have huniq : ∀ j ∈ L, ∀ k ∈ L, (t.pool j).cidr.key = (t.pool k).cidr.key → j = k :=
    fun j hj k hk he => List.inj_on_of_nodup_map h.keys hj hk he
  constructor
  · intro hf
    have htest := List.find?_some hf
    exact ⟨hsub i (List.mem_of_find?_eq_some hf), (sameDrop_iff _ _).mp htest⟩
  · rintro ⟨hi, hk⟩
    have hmem : i ∈ xs := (hxs.mem i).mpr ⟨hi, dropHash_congr hk⟩
    cases hf : xs.find? fun i => sameDrop (t.pool i).cidr p with
    | none =>
      have hno := List.find?_eq_none.mp hf i hmem
      exact absurd ((sameDrop_iff _ _).mpr hk) hno
    | some j =>
      have htest := List.find?_some hf
      have hjk := (sameDrop_iff _ _).mp htest
      rw [huniq j (hsub j (List.mem_of_find?_eq_some hf)) i hi (hjk.trans hk.symm)]

theorem Inv.dropsFind_eq_none_iff (h : t.Inv held L F) (p : VgCidr) :
    t.dropsFind p = none ↔ ∀ i ∈ L, (t.pool i).cidr.key ≠ p.key := by
  rw [Option.eq_none_iff_forall_ne_some]
  simp only [ne_eq, h.dropsFind_eq_some_iff, not_and]

end DropTable

end VoidGate
