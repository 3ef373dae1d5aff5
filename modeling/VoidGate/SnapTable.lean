import VoidGate.DropListOperations

/-!
# Remote snapshots

The table of counter readings that `policy.c` keeps per remote host: a pool of
entries, each on the free list or in the hash bucket of its address, all linked
through one `next` pointer. `SnapTable.Inv` ties the pointers to the lists of live
and free entries. An entry also remembers the tick in which its counters were read,
which the source does not store.
-/

namespace VoidGate

open CellChains

/-- `VG_SNAP_BUCKETS`. -/
def vgSnapBuckets : ℕ := 4096

/-- `struct timespec`. -/
structure Timespec where
  tvSec : ℤ
  tvNsec : ℤ
  deriving DecidableEq

/-- Where a `struct vg_snap_ent *` lives: a bucket of `snaps`, `snap_free`, or the member `next`
of a pool entry. -/
inductive SnapCell where
  | bucket (b : ℕ)
  | free
  | next (i : ℕ)
  deriving DecidableEq

/-- `struct vg_snap_ent`. `readAt` is no member of the source: it is the tick of the reading
that left the counters. -/
structure VgSnapEnt where
  host : IpAddr
  inPkts : ℕ
  inBytes : ℕ
  gen : ℕ
  readAt : Timespec

/-- What an entry remembers of its remote. -/
structure Reading where
  pkts : ℕ
  bytes : ℕ
  tick : Timespec
  deriving DecidableEq

def VgSnapEnt.reading (e : VgSnapEnt) : Reading := ⟨e.inPkts, e.inBytes, e.readAt⟩

structure SnapTable where
  pool : ℕ → VgSnapEnt
  cap : ℕ
  ptr : SnapCell → Option ℕ
  gen : ℕ

def snapHash (x : IpAddr) : ℕ :=
  let h := UInt32.ofNat x.family.num * 16777619
  ((x.octets.toList.take x.family.nbytes).foldl (fun h b => fnv h b.toUInt32) h).toNat %
    vgSnapBuckets

theorem snapHash_lt (x : IpAddr) : snapHash x < vgSnapBuckets := Nat.mod_lt _ (by decide)

namespace SnapTable

def snapResetPool (t : SnapTable) : SnapTable :=
  { t with
    pool := fun i => if i < t.cap then { t.pool i with gen := 0 } else t.pool i
    ptr := fun c => match c with
      | .bucket _ => none
      | .free => if t.cap = 0 then none else some 0
      | .next i =>
        if i < t.cap then if i + 1 < t.cap then some (i + 1) else none else t.ptr (.next i) }

/-- `vg_ctrl_init` zeroes the pool and links it into the free list. -/
def init (cap : ℕ) : SnapTable :=
  snapResetPool
    { pool := fun _ => ⟨.ofOctets .inet (Vector.replicate 16 0), 0, 0, 0, ⟨0, 0⟩⟩
      cap := cap
      ptr := fun _ => none
      gen := 0 }

/-- The body of the loop of `snap_prune` for an entry that is reclaimed. -/
def reclaim (t : SnapTable) (link : SnapCell) (e : ℕ) : SnapTable :=
  let ptr := Function.update t.ptr link (t.ptr (.next e))
  let ptr := Function.update ptr (.next e) (ptr .free)
  { t with
    pool := Function.update t.pool e { t.pool e with gen := 0 }
    ptr := Function.update ptr .free (some e) }

/-- The loop of `snap_prune` over one bucket, of at most as many rounds as there are entries. -/
def pruneBucket : ℕ → SnapTable → SnapCell → SnapTable
  | 0, t, _ => t
  | k + 1, t, link => match t.ptr link with
    | none => t
    | some e =>
      if (t.pool e).gen ≠ t.gen then pruneBucket k (t.reclaim link e) link
      else pruneBucket k t (.next e)

def snapPrune (t : SnapTable) : SnapTable :=
  (List.range vgSnapBuckets).foldl (fun t b => pruneBucket t.cap t (.bucket b)) t

/-- The search loop of `snap_get`. -/
def snapFind (t : SnapTable) (x : IpAddr) : Option ℕ :=
  findFrom t.ptr .next (fun i => (t.pool i).host == x) t.cap (.bucket (snapHash x))

def touch (t : SnapTable) (i : ℕ) : SnapTable :=
  { t with pool := Function.update t.pool i { t.pool i with gen := t.gen } }

/-- The first free entry becomes the first one of its bucket. -/
def take (t : SnapTable) (e : ℕ) (x : IpAddr) : SnapTable :=
  let ptr := Function.update t.ptr .free (t.ptr (.next e))
  let ptr := Function.update ptr (.next e) (ptr (.bucket (snapHash x)))
  { t with
    pool := Function.update t.pool e
      { t.pool e with host := x, inPkts := 0, inBytes := 0, gen := t.gen }
    ptr := Function.update ptr (.bucket (snapHash x)) (some e) }

/-- The entry of a remote and whether it was created for this call. -/
def snapGet (t : SnapTable) (x : IpAddr) : SnapTable × Option (ℕ × Bool) :=
  match t.snapFind x with
  | some i => (t.touch i, some (i, false))
  | none => match t.ptr .free with
    | none => (t, none)
    | some e => (t.take e x, some (e, true))

/-- Store a reading in an entry. -/
def store (t : SnapTable) (i pkts bytes : ℕ) (now : Timespec) : SnapTable :=
  { t with
    pool := Function.update t.pool i
      { t.pool i with inPkts := pkts, inBytes := bytes, readAt := now } }

/-- The chain of bucket `b` holds exactly the live entries that hash to `b`. -/
structure Bucket (ptr : SnapCell → Option ℕ) (pool : ℕ → VgSnapEnt) (L : List ℕ) (b : ℕ)
    (xs : List ℕ) : Prop where
  chain : Chain ptr .next (.bucket b) xs
  nodup : xs.Nodup
  mem : ∀ i, i ∈ xs ↔ i ∈ L ∧ snapHash (pool i).host = b

/-- Every entry of the pool is live or free, each live one in the bucket of its address, and no
address has two. -/
structure Inv (t : SnapTable) (L F : List ℕ) : Prop where
  buckets : ∀ b < vgSnapBuckets, ∃ xs, Bucket t.ptr t.pool L b xs
  freeChain : Chain t.ptr .next .free F
  parts : (L ++ F).Perm (List.range t.cap)
  hosts : (L.map fun i => (t.pool i).host).Nodup

variable {t : SnapTable} {L F : List ℕ}

theorem Inv.nodup (h : t.Inv L F) : (L ++ F).Nodup := h.parts.nodup_iff.mpr List.nodup_range

theorem Inv.bucket_length_le {b : ℕ} {xs : List ℕ} (h : t.Inv L F)
    (hxs : Bucket t.ptr t.pool L b xs) : xs.length ≤ t.cap := by
  have hsub : ∀ j ∈ xs, j ∈ L := fun j hj => ((hxs.mem j).mp hj).1
  have hle := (List.subperm_of_subset hxs.nodup hsub).length_le
  have hall := h.parts.length_eq
  simp only [List.length_append, List.length_range] at hall
  omega

private theorem chain_reset (t : SnapTable) {i n : ℕ} (h : i + n = t.cap) :
    Chain t.snapResetPool.ptr .next (if i = 0 then .free else .next (i - 1)) (List.range' i n) := by
  induction n generalizing i with
  | zero =>
    obtain rfl : i = t.cap := h
    by_cases hi : t.cap = 0
    · simp [Chain, snapResetPool, hi]
    · simp [Chain, snapResetPool, hi, show t.cap - 1 + 1 = t.cap by omega,
        show t.cap - 1 < t.cap by omega]
  | succ n ih =>
    have ht := ih (i := i + 1) (by omega)
    simp only [Nat.add_eq_zero_iff, one_ne_zero, and_false, if_false, Nat.add_sub_cancel] at ht
    refine ⟨?_, ht⟩
    by_cases hi : i = 0
    · simp [snapResetPool, hi, show t.cap ≠ 0 by omega]
    · simp [snapResetPool, hi, show i - 1 < t.cap by omega, show i - 1 + 1 = i by omega,
        show i < t.cap by omega]

/-- After a reset every entry is free, whatever the pointers were. -/
theorem inv_reset (t : SnapTable) : t.snapResetPool.Inv [] (List.range t.cap) where
  buckets b _ := ⟨[], rfl, .nil, by simp⟩
  freeChain := by simpa [List.range_eq_range'] using t.chain_reset (Nat.zero_add t.cap)
  parts := .refl _
  hosts := .nil

theorem inv_init (cap : ℕ) : (init cap).Inv [] (List.range cap) := inv_reset _

theorem Inv.snapFind_eq_some_iff (h : t.Inv L F) (x : IpAddr) (i : ℕ) :
    t.snapFind x = some i ↔ i ∈ L ∧ (t.pool i).host = x := by
  obtain ⟨xs, hxs⟩ := h.buckets _ (snapHash_lt x)
  have hsub : ∀ j ∈ xs, j ∈ L := fun j hj => ((hxs.mem j).mp hj).1
  rw [snapFind, hxs.chain.findFrom_eq _ (h.bucket_length_le hxs)]
  constructor
  · intro hf
    have htest := List.find?_some hf
    exact ⟨hsub i (List.mem_of_find?_eq_some hf), beq_iff_eq.mp htest⟩
  · rintro ⟨hi, rfl⟩
    have hmem : i ∈ xs := (hxs.mem i).mpr ⟨hi, rfl⟩
    cases hf : xs.find? fun j => (t.pool j).host == (t.pool i).host with
    | none => exact absurd (List.find?_eq_none.mp hf i hmem) (by simp)
    | some j =>
      have htest := List.find?_some hf
      have hj := hsub j (List.mem_of_find?_eq_some hf)
      rw [List.inj_on_of_nodup_map h.hosts hj hi (beq_iff_eq.mp htest)]

theorem Inv.snapFind_eq_none_iff (h : t.Inv L F) (x : IpAddr) :
    t.snapFind x = none ↔ ∀ i ∈ L, (t.pool i).host ≠ x := by
  rw [Option.eq_none_iff_forall_ne_some]
  simp only [ne_eq, h.snapFind_eq_some_iff, not_and]

private theorem Inv.snapGet_cases (h : t.Inv L F) (x : IpAddr) :
    (∃ i ∈ L, (t.pool i).host = x ∧ t.snapGet x = (t.touch i, some (i, false))) ∨
      (∃ e F', F = e :: F' ∧ (∀ i ∈ L, (t.pool i).host ≠ x) ∧
        t.snapGet x = (t.take e x, some (e, true))) ∨
      (F = [] ∧ (∀ i ∈ L, (t.pool i).host ≠ x) ∧ t.snapGet x = (t, none)) := by
  rw [snapGet]
  cases hf : t.snapFind x with
  | some i =>
    obtain ⟨hi, hx⟩ := (h.snapFind_eq_some_iff x i).mp hf
    exact .inl ⟨i, hi, hx, rfl⟩
  | none =>
    have hno := (h.snapFind_eq_none_iff x).mp hf
    cases F with
    | nil =>
      have hfree : t.ptr .free = none := h.freeChain
      exact .inr (.inr ⟨rfl, hno, by simp [hfree]⟩)
    | cons e F =>
      have hfree : t.ptr .free = some e := h.freeChain.1
      exact .inr (.inl ⟨e, F, rfl, hno, by simp [hfree]⟩)

theorem Inv.of_hosts {t' : SnapTable} (h : t.Inv L F) (hptr : t'.ptr = t.ptr)
    (hcap : t'.cap = t.cap) (hhost : ∀ i, (t'.pool i).host = (t.pool i).host) : t'.Inv L F where
  buckets b hb := by
    obtain ⟨xs, hxs⟩ := h.buckets b hb
    exact ⟨xs, hptr ▸ hxs.chain, hxs.nodup, fun i => by rw [hhost i]; exact hxs.mem i⟩
  freeChain := hptr ▸ h.freeChain
  parts := hcap ▸ h.parts
  hosts := by simpa only [hhost] using h.hosts

theorem Inv.touch (h : t.Inv L F) (i : ℕ) : (t.touch i).Inv L F := by
  refine h.of_hosts rfl rfl fun j => ?_
  by_cases hj : j = i
  · subst hj
    simp [SnapTable.touch]
  · simp [SnapTable.touch, hj]

theorem Inv.store (h : t.Inv L F) (i pkts bytes : ℕ) (now : Timespec) :
    (t.store i pkts bytes now).Inv L F := by
  refine h.of_hosts rfl rfl fun j => ?_
  by_cases hj : j = i
  · subst hj
    simp [SnapTable.store]
  · simp [SnapTable.store, hj]

/-- Handing out the first free entry for an address that has none. -/
theorem Inv.take {e : ℕ} {x : IpAddr} (h : t.Inv L (e :: F)) (hx : ∀ i ∈ L, (t.pool i).host ≠ x) :
    (t.take e x).Inv (L ++ [e]) F := by
  obtain ⟨-, hdF, hdis⟩ := List.nodup_append.mp h.nodup
  have heL : e ∉ L := fun hm => hdis e hm e (by simp) rfl
  have hpool : ∀ i ≠ e, (t.take e x).pool i = t.pool i := fun i hi => by simp [SnapTable.take, hi]
  have hpoole : ((t.take e x).pool e).host = x := by simp [SnapTable.take]
  have hcell : ∀ i ≠ e, (t.take e x).ptr (.next i) = t.ptr (.next i) := fun i hi => by
    simp [SnapTable.take, hi]
  refine ⟨fun b hb => ?_, ?_, ?_, ?_⟩
  · obtain ⟨xs, hxs⟩ := h.buckets b hb
    have hexs : e ∉ xs := fun hm => heL ((hxs.mem e).mp hm).1
    have hrest : ∀ i ∈ xs, (t.take e x).ptr (.next i) = t.ptr (.next i) := fun i hi =>
      hcell i fun he => hexs (he ▸ hi)
    have hmem : ∀ i ≠ e, (i ∈ xs ↔ i ∈ L ++ [e] ∧ snapHash ((t.take e x).pool i).host = b) := by
      intro i hi
      simp [hxs.mem i, hpool i hi, hi]
    by_cases hbx : b = snapHash x
    · subst hbx
      refine ⟨e :: xs, ⟨by simp [SnapTable.take], ?_⟩, List.nodup_cons.mpr ⟨hexs, hxs.nodup⟩, ?_⟩
      · exact hxs.chain.move (by simp [SnapTable.take]) hrest
      · intro i
        by_cases hi : i = e
        · subst hi
          simp [hpoole]
        · rw [List.mem_cons, hmem i hi]
          exact or_iff_right hi
    · refine ⟨xs, hxs.chain.move (by simp [SnapTable.take, hbx]) hrest, hxs.nodup, fun i => ?_⟩
      by_cases hi : i = e
      · subst hi
        simpa [hpoole, hexs] using fun he => hbx he.symm
      · exact hmem i hi
  · refine h.freeChain.2.move (by simp [SnapTable.take]) fun i hi => hcell i ?_
    exact fun he => (List.nodup_cons.mp hdF).1 (he ▸ hi)
  · simpa [List.append_assoc, SnapTable.take] using h.parts
  · have hL : (L.map fun i => ((t.take e x).pool i).host) = L.map fun i => (t.pool i).host :=
      List.map_congr_left fun i hi => by rw [hpool i fun he => heL (he ▸ hi)]
    rw [List.map_append, hL, List.nodup_append]
    refine ⟨h.hosts, by simp, ?_⟩
    intro y hy z hz he
    obtain ⟨i, hi, rfl⟩ := List.mem_map.mp hy
    simp only [List.map_cons, List.map_nil, List.mem_singleton, hpoole] at hz
    exact hx i hi (he.trans hz)

@[simp] theorem reclaim_host (t : SnapTable) (link : SnapCell) (e i : ℕ) :
    ((t.reclaim link e).pool i).host = (t.pool i).host := by
  by_cases hi : i = e
  · subst hi
    simp [SnapTable.reclaim]
  · simp [SnapTable.reclaim, hi]

theorem reclaim_ptr_of_ne {link c : SnapCell} {e : ℕ} (hlink : c ≠ link) (hfree : c ≠ .free)
    (he : c ≠ .next e) : (t.reclaim link e).ptr c = t.ptr c := by
  simp [SnapTable.reclaim, hlink, hfree, he]

theorem endCell_bucket (b : ℕ) (kept : List ℕ) :
    endCell SnapCell.next (.bucket b) kept = .bucket b ∨
      ∃ k ∈ kept, endCell SnapCell.next (.bucket b) kept = .next k :=
  endCell_mem _ kept

theorem reclaim_mem_iff (hL : L.Nodup) (link : SnapCell) (e i b : ℕ) :
    i ∈ L.erase e ∧ snapHash ((t.reclaim link e).pool i).host = b ↔
      (i ∈ L ∧ snapHash (t.pool i).host = b) ∧ i ≠ e := by
  rw [hL.mem_erase_iff, reclaim_host]
  tauto

section Reclaim
variable {e b b' : ℕ} {kept rest zs : List ℕ} (hL : L.Nodup)
  (hxs : Bucket t.ptr t.pool L b (kept ++ e :: rest))
include hL hxs

private theorem Bucket.reclaim_own : Bucket (t.reclaim (endCell .next (.bucket b) kept) e).ptr
    (t.reclaim (endCell .next (.bucket b) kept) e).pool (L.erase e) b (kept ++ rest) := by
  generalize hlink : endCell SnapCell.next (.bucket b) kept = link
  refine ⟨?_, ?_, fun i => ?_⟩
  · have hcut : Chain (Function.update t.ptr link (t.ptr (.next e))) .next (.bucket b)
        (kept ++ rest) := by
      apply hxs.chain.remove (fun _ _ he => SnapCell.next.inj he) hxs.nodup (by simp)
      · simp [hlink]
      · intro c hc _
        simp [hlink ▸ hc]
    refine hcut.move ?_ fun i hi => ?_
    · simp [SnapTable.reclaim]
    · have hie : i ≠ e := ((mem_remove_iff hxs.nodup).mp hi).2
      simp [SnapTable.reclaim, hie]
  · exact hxs.nodup.sublist ((List.Sublist.refl _).append (List.sublist_cons_self e rest))
  · rw [reclaim_mem_iff hL, ← hxs.mem i, mem_remove_iff hxs.nodup]

private theorem Bucket.reclaim_other (hzs : Bucket t.ptr t.pool L b' zs) (hb : b' ≠ b) :
    Bucket (t.reclaim (endCell .next (.bucket b) kept) e).ptr
      (t.reclaim (endCell .next (.bucket b) kept) e).pool (L.erase e) b' zs := by
  have hother : ∀ i ∈ zs, i ∉ kept ++ e :: rest := fun i hi hm =>
    hb (((hzs.mem i).mp hi).2.symm.trans ((hxs.mem i).mp hm).2)
  have hhead : SnapCell.bucket b' ≠ endCell .next (.bucket b) kept := by
    rcases endCell_bucket b kept with he | ⟨k, -, he⟩
    · simpa [he] using hb
    · simp [he]
  have hnext : ∀ i ∈ zs, SnapCell.next i ≠ endCell .next (.bucket b) kept := fun i hi =>
    (endCell_ne_nextCell (fun _ _ he => SnapCell.next.inj he) (by simp)
      fun hm => hother i hi (by simp [hm])).symm
  refine ⟨hzs.chain.move (reclaim_ptr_of_ne hhead (by simp) (by simp)) fun i hi =>
    reclaim_ptr_of_ne (hnext i hi) (by simp) ?_, hzs.nodup, fun i => ?_⟩
  · simpa using fun he : i = e => hother i hi (by simp [he])
  · rw [reclaim_mem_iff hL, ← hzs.mem i, iff_self_and]
    exact fun hi he => hother i hi (by simp [he])

end Reclaim

/-- Reclaiming the entry `e`, which the end of `kept` points at: every bucket loses `e`, and
only `e`. -/
theorem Inv.reclaim {e b : ℕ} {kept rest : List ℕ} (h : t.Inv L F)
    (hxs : Bucket t.ptr t.pool L b (kept ++ e :: rest)) :
    (t.reclaim (endCell .next (.bucket b) kept) e).Inv (L.erase e) (e :: F) ∧
      Bucket (t.reclaim (endCell .next (.bucket b) kept) e).ptr
        (t.reclaim (endCell .next (.bucket b) kept) e).pool (L.erase e) b (kept ++ rest) := by
  obtain ⟨hdL, hdF, hdis⟩ := List.nodup_append.mp h.nodup
  have heL : e ∈ L := ((hxs.mem e).mp (by simp)).1
  have heF : e ∉ F := fun hm => hdis e heL e hm rfl
  have hown := hxs.reclaim_own hdL
  refine ⟨⟨fun b' hb' => ?_, ?_, ?_, ?_⟩, hown⟩
  · by_cases hbb : b' = b
    · subst hbb
      exact ⟨_, hown⟩
    · obtain ⟨zs, hzs⟩ := h.buckets b' hb'
      exact ⟨zs, hxs.reclaim_other hdL hzs hbb⟩
  · -- the free list gets `e` in front, and none of its cells is written otherwise
    have hfree : SnapCell.free ≠ endCell .next (.bucket b) kept := by
      rcases endCell_bucket b kept with he | ⟨k, -, he⟩ <;> simp [he]
    refine ⟨by simp [SnapTable.reclaim], h.freeChain.move ?_ fun i hi =>
      reclaim_ptr_of_ne ?_ (by simp) ?_⟩
    · simp [SnapTable.reclaim, hfree]
    · refine (endCell_ne_nextCell (fun _ _ he => SnapCell.next.inj he) (by simp) fun hm => ?_).symm
      exact hdis i ((hxs.mem i).mp (by simp [hm])).1 i hi rfl
    · simpa using fun he : i = e => heF (he ▸ hi)
  · refine List.Perm.trans ?_ h.parts
    refine List.perm_middle.trans ?_
    exact (List.perm_cons_erase heL).symm.append_right F
  · simp only [reclaim_host]
    exact h.hosts.sublist (List.erase_sublist.map _)

/-- Pruning the rest of a bucket keeps the live entries that are of the current generation or
lie elsewhere, with all their data. -/
theorem Inv.pruneBucket {k b : ℕ} {kept rest : List ℕ} (h : t.Inv L F)
    (hxs : Bucket t.ptr t.pool L b (kept ++ rest)) (hk : rest.length ≤ k) :
    ∃ L' F', (pruneBucket k t (endCell .next (.bucket b) kept)).Inv L' F' ∧
      (pruneBucket k t (endCell .next (.bucket b) kept)).gen = t.gen ∧
      (pruneBucket k t (endCell .next (.bucket b) kept)).cap = t.cap ∧
      (∀ i, i ∈ L' ↔ i ∈ L ∧ (i ∈ rest → (t.pool i).gen = t.gen)) ∧
      ∀ i ∈ L', (pruneBucket k t (endCell .next (.bucket b) kept)).pool i = t.pool i := by
  induction rest generalizing t L F k kept with
  | nil =>
    have hend : t.ptr (endCell .next (.bucket b) kept) = none := hxs.chain.ptr_endCell
    have hid : SnapTable.pruneBucket k t (endCell .next (.bucket b) kept) = t := by
      cases k with
      | zero => rfl
      | succ k => simp [SnapTable.pruneBucket, hend]
    rw [hid]
    exact ⟨L, F, h, rfl, rfl, by simp, fun _ _ => rfl⟩
  | cons e rest ih =>
    obtain ⟨k, rfl⟩ : ∃ k', k = k' + 1 := ⟨k - 1, by simp at hk; omega⟩
    have hend : t.ptr (endCell .next (.bucket b) kept) = some e := hxs.chain.ptr_endCell.1
    have hdL : L.Nodup := (List.nodup_append.mp h.nodup).1
    have her : e ∉ rest := (List.nodup_cons.mp (List.nodup_append.mp hxs.nodup).2.1).1
    rw [SnapTable.pruneBucket, hend]
    by_cases hg : (t.pool e).gen = t.gen
    · have hxs' : Bucket t.ptr t.pool L b ((kept ++ [e]) ++ rest) := by simpa using hxs
      obtain ⟨L', F', hinv, hgen, hcap, hmem, hpool⟩ := ih h hxs' (Nat.le_of_succ_le_succ hk)
      rw [endCell_snoc] at hinv hgen hcap hpool
      simp only [hg, ne_eq, not_true_eq_false, if_false]
      refine ⟨L', F', hinv, hgen, hcap, fun i => ?_, hpool⟩
      rw [hmem i]
      by_cases hi : i = e
      · subst hi
        simp [her, hg]
      · simp [hi]
    · obtain ⟨hinv₁, hxs₁⟩ := h.reclaim hxs
      obtain ⟨L', F', hinv, hgen, hcap, hmem, hpool⟩ := ih hinv₁ hxs₁ (Nat.le_of_succ_le_succ hk)
      simp only [hg, ne_eq, not_false_eq_true, if_true]
      have hold : ∀ i ≠ e,
          (t.reclaim (endCell .next (.bucket b) kept) e).pool i = t.pool i :=
        fun i hi => by simp [SnapTable.reclaim, hi]
      have hne : ∀ i ∈ L', i ≠ e := fun i hi => (hdL.mem_erase_iff.mp ((hmem i).mp hi).1).1
      refine ⟨L', F', hinv, hgen, hcap, fun i => ?_, fun i hi => ?_⟩
      · rw [hmem i, hdL.mem_erase_iff]
        by_cases hi : i = e
        · subst hi
          simp [hg]
        · simp only [hold i hi, hi, ne_eq, not_false_eq_true, true_and, List.mem_cons, false_or]
          rfl
      · rw [hpool i hi, hold i (hne i hi)]

/-- `snap_prune` keeps exactly the live entries of the current generation. -/
theorem Inv.snapPrune (h : t.Inv L F) :
    ∃ L' F', t.snapPrune.Inv L' F' ∧ t.snapPrune.gen = t.gen ∧ t.snapPrune.cap = t.cap ∧
      (∀ i, i ∈ L' ↔ i ∈ L ∧ (t.pool i).gen = t.gen) ∧
      ∀ i ∈ L', t.snapPrune.pool i = t.pool i := by
  -- after the first `n` buckets only entries of later buckets can be of an old generation
  have hloop : ∀ n ≤ vgSnapBuckets, ∃ L' F',
      let t' := (List.range n).foldl (fun t b => SnapTable.pruneBucket t.cap t (.bucket b)) t
      t'.Inv L' F' ∧ t'.gen = t.gen ∧ t'.cap = t.cap ∧
        (∀ i, i ∈ L' ↔ i ∈ L ∧ (snapHash (t.pool i).host < n → (t.pool i).gen = t.gen)) ∧
        ∀ i ∈ L', t'.pool i = t.pool i := by
    intro n hn
    induction n with
    | zero => exact ⟨L, F, h, rfl, rfl, by simp, fun _ _ => rfl⟩
    | succ n ih =>
      obtain ⟨L₁, F₁, hinv₁, hgen₁, hcap₁, hmem₁, hpool₁⟩ := ih (by omega)
      rw [List.range_succ, List.foldl_append, List.foldl_cons, List.foldl_nil]
      generalize (List.range n).foldl (fun t b => SnapTable.pruneBucket t.cap t (.bucket b)) t = u
        at hinv₁ hgen₁ hcap₁ hpool₁
      obtain ⟨xs, hxs⟩ := hinv₁.buckets n (by omega)
      have hxs' : Bucket u.ptr u.pool L₁ n ([] ++ xs) := hxs
      obtain ⟨L', F', hinv, hgen, hcap, hmem, hpool⟩ :=
        hinv₁.pruneBucket hxs' (hinv₁.bucket_length_le hxs)
      refine ⟨L', F', hinv, hgen.trans hgen₁, hcap.trans hcap₁, fun i => ?_, fun i hi => ?_⟩
      · rw [hmem i, hxs.mem i]
        constructor
        · rintro ⟨hi, hfresh⟩
          have hp := hpool₁ i hi
          rw [hp, hgen₁] at hfresh
          refine ⟨((hmem₁ i).mp hi).1, fun hlt => ?_⟩
          by_cases he : snapHash (t.pool i).host = n
          · exact hfresh ⟨hi, he⟩
          · exact ((hmem₁ i).mp hi).2 (by omega)
        · rintro ⟨hi, hfresh⟩
          have hi₁ : i ∈ L₁ := (hmem₁ i).mpr ⟨hi, fun hlt => hfresh (by omega)⟩
          refine ⟨hi₁, fun hx => ?_⟩
          rw [hpool₁ i hi₁] at hx ⊢
          rw [hgen₁]
          exact hfresh (by omega)
      · exact (hpool i hi).trans (hpool₁ i ((hmem i).mp hi).1)
  obtain ⟨L', F', hinv, hgen, hcap, hmem, hpool⟩ := hloop vgSnapBuckets le_rfl
  rw [SnapTable.snapPrune]
  refine ⟨L', F', hinv, hgen, hcap, fun i => ?_, hpool⟩
  rw [hmem i]
  simp [snapHash_lt]

/-- The entry of a remote. -/
def entryOf (t : SnapTable) (x : IpAddr) : Option VgSnapEnt := (t.snapFind x).map t.pool

/-- The last reading of a remote. -/
def last (t : SnapTable) (x : IpAddr) : Option Reading :=
  (t.snapFind x).map fun i => (t.pool i).reading

theorem last_eq (t : SnapTable) (x : IpAddr) : t.last x = (t.entryOf x).map VgSnapEnt.reading := by
  rw [last, entryOf, Option.map_map]
  rfl

theorem Inv.entryOf_of_mem (h : t.Inv L F) {i : ℕ} (hi : i ∈ L) :
    t.entryOf (t.pool i).host = some (t.pool i) := by
  rw [entryOf, (h.snapFind_eq_some_iff _ i).mpr ⟨hi, rfl⟩, Option.map_some]

theorem Inv.entryOf_eq_none (h : t.Inv L F) {x : IpAddr} (hx : ∀ i ∈ L, (t.pool i).host ≠ x) :
    t.entryOf x = none := by
  rw [entryOf, (h.snapFind_eq_none_iff x).mpr hx, Option.map_none]

private theorem Inv.last_of_mem (h : t.Inv L F) {i : ℕ} (hi : i ∈ L) :
    t.last (t.pool i).host = some (t.pool i).reading := by
  rw [last_eq, h.entryOf_of_mem hi, Option.map_some]

theorem Inv.last_eq_none (h : t.Inv L F) {x : IpAddr} (hx : ∀ i ∈ L, (t.pool i).host ≠ x) :
    t.last x = none := by
  rw [last_eq, h.entryOf_eq_none hx, Option.map_none]

theorem Inv.entryOf_update {t' : SnapTable} {L' F' : List ℕ} {e : ℕ} (h : t.Inv L F)
    (h' : t'.Inv L' F') (he : e ∈ L') (hmem : ∀ j ≠ e, (j ∈ L' ↔ j ∈ L))
    (hpool : ∀ j ≠ e, t'.pool j = t.pool j) (hown : e ∈ L → (t.pool e).host = (t'.pool e).host) :
    t'.entryOf = Function.update t.entryOf (t'.pool e).host (some (t'.pool e)) := by
  funext x
  by_cases hx : x = (t'.pool e).host
  · subst hx
    rw [Function.update_self, h'.entryOf_of_mem he]
  · rw [Function.update_of_ne hx]
    by_cases hlive : ∃ j ∈ L, (t.pool j).host = x
    · obtain ⟨j, hj, rfl⟩ := hlive
      have hje : j ≠ e := by
        rintro rfl
        exact hx (hown hj)
      have hl := h'.entryOf_of_mem ((hmem j hje).mpr hj)
      rw [hpool j hje] at hl
      rw [hl, h.entryOf_of_mem hj]
    · have hold : ∀ j ∈ L, (t.pool j).host ≠ x := fun j hj he => hlive ⟨j, hj, he⟩
      rw [h.entryOf_eq_none hold]
      refine h'.entryOf_eq_none fun j hj => ?_
      by_cases hje : j = e
      · exact hje ▸ fun he => hx he.symm
      · rw [hpool j hje]
        exact hold j ((hmem j hje).mp hj)

/-- Pruning forgets the entries of older generations. -/
theorem Inv.entryOf_snapPrune (h : t.Inv L F) (x : IpAddr) :
    t.snapPrune.entryOf x = (t.entryOf x).filter fun e => e.gen = t.gen := by
  obtain ⟨L', F', h', -, -, hmem, hpool⟩ := h.snapPrune
  by_cases hlive : ∃ i ∈ L, (t.pool i).host = x
  · obtain ⟨i, hi, rfl⟩ := hlive
    rw [h.entryOf_of_mem hi, Option.filter_some]
    by_cases hgen : (t.pool i).gen = t.gen
    · have hi' : i ∈ L' := (hmem i).mpr ⟨hi, hgen⟩
      have hl := h'.entryOf_of_mem hi'
      rw [hpool i hi'] at hl
      rw [hl, if_pos (decide_eq_true hgen)]
    · rw [if_neg (by simpa using hgen)]
      refine h'.entryOf_eq_none fun j hj he => ?_
      rw [hpool j hj] at he
      obtain ⟨hjL, hjgen⟩ := (hmem j).mp hj
      exact hgen (List.inj_on_of_nodup_map h.hosts hjL hi he ▸ hjgen)
  · have hold : ∀ i ∈ L, (t.pool i).host ≠ x := fun i hi he => hlive ⟨i, hi, he⟩
    rw [h.entryOf_eq_none hold, Option.filter_none]
    refine h'.entryOf_eq_none fun j hj => ?_
    rw [hpool j hj]
    exact hold j ((hmem j).mp hj).1

def Ok (t : SnapTable) : Prop := ∃ L F, t.Inv L F

/-- What a lookup followed by a store does: nothing if there is no room, and else it sets the
entry of the address, which is then of the current generation. -/
theorem Ok.visit_entry (h : t.Ok) (x : IpAddr) (pkts bytes : ℕ) (now : Timespec) :
    (t.entryOf x = none ∧ t.snapGet x = (t, none)) ∨
      ∃ u i created, t.snapGet x = (u, some (i, created)) ∧
        (if created then t.entryOf x = none else t.last x = some (u.pool i).reading) ∧
        (u.store i pkts bytes now).Ok ∧ (u.store i pkts bytes now).gen = t.gen ∧
        ∃ e : VgSnapEnt, e.reading = ⟨pkts, bytes, now⟩ ∧ e.gen = t.gen ∧
          (u.store i pkts bytes now).entryOf = Function.update t.entryOf x (some e) := by
  obtain ⟨L, F, h⟩ := h
  rcases h.snapGet_cases x with ⟨i, hi, rfl, hget⟩ | ⟨e, F', rfl, hx, hget⟩ | ⟨-, hx, hget⟩
  · have hinv := (h.touch i).store i pkts bytes now
    have hentry := h.entryOf_update hinv hi (fun _ _ => Iff.rfl)
      (fun j hj => by simp [SnapTable.store, SnapTable.touch, hj])
      (fun _ => by simp [SnapTable.store, SnapTable.touch])
    have hhost : (((t.touch i).store i pkts bytes now).pool i).host = (t.pool i).host := by
      simp [SnapTable.store, SnapTable.touch]
    rw [hhost] at hentry
    refine .inr ⟨_, i, false, hget, ?_, ⟨_, _, hinv⟩, rfl,
      ((t.touch i).store i pkts bytes now).pool i, ?_, ?_, hentry⟩
    · simpa [SnapTable.touch, VgSnapEnt.reading] using h.last_of_mem hi
    · simp [SnapTable.store, VgSnapEnt.reading]
    · simp [SnapTable.store, SnapTable.touch]
  · have hinv := (h.take hx).store e pkts bytes now
    have heL : e ∉ L := fun hm => (List.nodup_append.mp h.nodup).2.2 e hm e (by simp) rfl
    have hentry := h.entryOf_update hinv (by simp) (fun j hj => by simp [hj])
      (fun j hj => by simp [SnapTable.store, SnapTable.take, hj]) (fun hm => absurd hm heL)
    have hhost : (((t.take e x).store e pkts bytes now).pool e).host = x := by
      simp [SnapTable.store, SnapTable.take]
    rw [hhost] at hentry
    refine .inr ⟨_, e, true, hget, h.entryOf_eq_none hx, ⟨_, _, hinv⟩, rfl,
      ((t.take e x).store e pkts bytes now).pool e, ?_, ?_, hentry⟩
    · simp [SnapTable.store, VgSnapEnt.reading]
    · simp [SnapTable.store, SnapTable.take]
  · exact .inl ⟨h.entryOf_eq_none hx, hget⟩

/-- The same for the readings. -/
theorem Ok.visit (h : t.Ok) (x : IpAddr) (pkts bytes : ℕ) (now : Timespec) :
    (t.last x = none ∧ t.snapGet x = (t, none)) ∨
      ∃ u i created, t.snapGet x = (u, some (i, created)) ∧
        (if created then t.last x = none else t.last x = some (u.pool i).reading) ∧
        (u.store i pkts bytes now).Ok ∧
        (u.store i pkts bytes now).last = Function.update t.last x (some ⟨pkts, bytes, now⟩) := by
  rcases h.visit_entry x pkts bytes now with
    ⟨hnone, hget⟩ | ⟨u, i, created, hget, hprev, hok, -, e, he, -, hentry⟩
  · exact .inl ⟨by rw [last_eq, hnone]; rfl, hget⟩
  · refine .inr ⟨u, i, created, hget, ?_, hok, ?_⟩
    · cases created with
      | true =>
        have hnone : t.entryOf x = none := hprev
        rw [if_pos rfl, last_eq, hnone]
        rfl
      | false => exact hprev
    · funext y
      rw [last_eq, hentry]
      by_cases hy : y = x
      · subst hy
        rw [Function.update_self, Function.update_self, Option.map_some, he]
      · rw [Function.update_of_ne hy, Function.update_of_ne hy, last_eq]

end SnapTable

end VoidGate
