import Mathlib.Data.List.Nodup
import Mathlib.Data.UInt
import VoidGate.PerCpuCounters
import VoidGate.Policy
import VoidGate.Xdp

/-!
# The walk over the remote counters

`foreach_family` and `vg_remote_foreach` of `maps.c`. The walk asks the kernel for one key
after another and stops at the end of the map or when the budget is spent. Packets come in
meanwhile, so the answers may change from call to call, and a cursor that was evicted makes
the kernel start over. Whatever it answers, the budget bounds the callbacks. When the content
stays the same, the walk visits a leading part of each map, and the result tells whether this
was all of it.
-/

namespace VoidGate

open PerCpu

/-- `memcpy(buf, key, ksz)`, and the write of a key by a map call. -/
def store {ksz : ℕ} (buf : Octets) (key : Vector UInt8 ksz) : Octets :=
  Vector.ofFn fun i => if h : i.val < ksz then key.get ⟨i, h⟩ else buf[i]

/-- The key that a map call reads at `buf`. -/
def load (ksz : ℕ) (buf : Octets) : Vector UInt8 ksz := Vector.ofFn fun i => octet buf i

/-- `memset(buf, 0, sizeof(buf))`. -/
def zeroed : Octets := Vector.replicate 16 0

variable {ksz : ℕ}

@[simp] theorem octet_zeroed (i : ℕ) : octet zeroed i = 0 := by
  by_cases hi : i < 16
  · simp [octet_of_lt _ hi, zeroed]
  · exact octet_of_ge _ (Nat.not_lt.mp hi)

theorem octet_store_of_lt (buf : Octets) (key : Vector UInt8 ksz) {i : ℕ} (hi : i < ksz)
    (hksz : ksz ≤ 16) : octet (store buf key) i = key.get ⟨i, hi⟩ := by
  rw [octet_of_lt _ (hi.trans_le hksz), store, Vector.getElem_ofFn, dif_pos hi]

theorem octet_store_of_ge (buf : Octets) (key : Vector UInt8 ksz) {i : ℕ} (hi : ksz ≤ i) :
    octet (store buf key) i = octet buf i := by
  by_cases h16 : i < 16
  · rw [octet_of_lt _ h16, octet_of_lt _ h16, store, Vector.getElem_ofFn,
      dif_neg (Nat.not_lt.mpr hi)]
    rfl
  · rw [octet_of_ge _ (Nat.not_lt.mp h16), octet_of_ge _ (Nat.not_lt.mp h16)]

theorem load_store (hksz : ksz ≤ 16) (buf : Octets) (key : Vector UInt8 ksz) :
    load ksz (store buf key) = key := by
  apply Vector.ext
  intro i hi
  rw [load, Vector.getElem_ofFn, octet_store_of_lt buf key hi hksz]
  rfl

private theorem store_eq_of_blank {buf : Octets} (h : ∀ i, ksz ≤ i → octet buf i = 0) (hksz : ksz ≤ 16)
    (key : Vector UInt8 ksz) : store buf key = store zeroed key := by
  apply octets_ext
  intro i _
  by_cases hi : i < ksz
  · rw [octet_store_of_lt _ _ hi hksz, octet_store_of_lt _ _ hi hksz]
  · rw [octet_store_of_ge _ _ (Nat.not_lt.mp hi), octet_store_of_ge _ _ (Nat.not_lt.mp hi),
      h i (Nat.not_lt.mp hi), octet_zeroed]

/-- The members of `struct vg_maps` that `vg_sum_percpu` reads; the size is `none` for a
`sum_scratch` that is `NULL`. -/
structure SumScratch where
  ncpus : ℤ
  size : Option ℕ

/-- `vg_sum_percpu` for `struct host_counters`, given the values of the CPUs that the lookup
copied, if it succeeded. -/
def vgSumPercpu (m : SumScratch) (found : Option (ℕ → HostCounters)) : Option HostCounters :=
  let ncpus := if m.ncpus ≤ 0 then 1 else m.ncpus.toNat
  match m.size with
  | none => none
  | some size =>
    if size < ncpus * 16 then none
    else found.map fun src => (List.range ncpus).foldl
      (fun dst cpu => ⟨dst.inPkts + (src cpu).inPkts, dst.inBytes + (src cpu).inBytes⟩) ⟨0, 0⟩

/-- The number of CPUs that the sum covers. -/
def SumScratch.cpus (m : SumScratch) : ℕ := if m.ncpus ≤ 0 then 1 else m.ncpus.toNat

/-- The buffer holds the values of all CPUs. -/
def SumScratch.HasRoom (m : SumScratch) : Prop := ∃ size, m.size = some size ∧ m.cpus * 16 ≤ size

def HostCounters.add (a b : HostCounters) : HostCounters :=
  ⟨a.inPkts + b.inPkts, a.inBytes + b.inBytes⟩

namespace HostCounters

@[simp] theorem zero_inPkts : (⟨0, 0⟩ : HostCounters).inPkts = 0 := rfl

@[simp] theorem zero_inBytes : (⟨0, 0⟩ : HostCounters).inBytes = 0 := rfl

@[simp] theorem add_inPkts (a b : HostCounters) : (a.add b).inPkts = a.inPkts + b.inPkts := rfl

@[simp] theorem add_inBytes (a b : HostCounters) : (a.add b).inBytes = a.inBytes + b.inBytes := rfl

end HostCounters

private theorem vgSumPercpu_of_hasRoom {m : SumScratch} (hm : m.HasRoom) (found : Option (ℕ → HostCounters)) :
    vgSumPercpu m found = found.map fun src =>
      ⟨total m.cpus HostCounters.inPkts src, total m.cpus HostCounters.inBytes src⟩ := by
  obtain ⟨size, hsize, hroom⟩ := hm
  have hsum (src : ℕ → HostCounters) :
      (List.range m.cpus).foldl (fun dst cpu => HostCounters.add dst (src cpu)) ⟨0, 0⟩ =
        ⟨total m.cpus HostCounters.inPkts src, total m.cpus HostCounters.inBytes src⟩ := by
    have hpkts := foldl_add_eq_total (q := HostCounters.inPkts) HostCounters.zero_inPkts
      HostCounters.add_inPkts m.cpus src
    have hbytes := foldl_add_eq_total (q := HostCounters.inBytes) HostCounters.zero_inBytes
      HostCounters.add_inBytes m.cpus src
    rw [← hpkts, ← hbytes]
  have hcpus : (if m.ncpus ≤ 0 then 1 else m.ncpus.toNat) = m.cpus := rfl
  simp only [vgSumPercpu, hsize, hcpus, if_neg (Nat.not_lt.mpr hroom), ← hsum, HostCounters.add]

/-- A counter map as a walk meets it: what its `n`-th call answers. -/
structure RemoteMap (ksz : ℕ) where
  getNextKey : ℕ → Option (Vector UInt8 ksz) → Option (Vector UInt8 ksz)
  lookupElem : ℕ → Vector UInt8 ksz → Option (ℕ → HostCounters)

/-- The arguments of one call of `fn`. -/
structure RemoteCall where
  family : Family
  addr : Octets
  sum : HostCounters
  deriving DecidableEq

/-- The local variables of `foreach_family`, the number of map calls and the callbacks made. -/
structure FamilyWalk where
  cur : Octets
  next : Octets
  first : Bool
  visited : ℕ
  calls : ℕ
  made : List RemoteCall

def FamilyWalk.start : FamilyWalk := ⟨zeroed, zeroed, true, 0, 0, []⟩

section Source
variable (family : Family) (m : SumScratch) (fd : RemoteMap ksz)

/-- `first ? NULL : cur`. -/
def FamilyWalk.cursor (ksz : ℕ) (w : FamilyWalk) : Option (Vector UInt8 ksz) :=
  if w.first then none else some (load ksz w.cur)

/-- The body of the loop, after the kernel has written `key` to `next`. -/
def FamilyWalk.visit (w : FamilyWalk) (key : Vector UInt8 ksz) : FamilyWalk :=
  let next := store w.next key
  let cur := store w.cur (load ksz next)
  let sum := vgSumPercpu m (fd.lookupElem (w.calls + 1) (load ksz cur))
  { cur := cur
    next := next
    first := false
    visited := w.visited + 1
    calls := w.calls + 2
    made := w.made ++ (sum.map (RemoteCall.mk family cur)).toList }

def foreachLoop (budget : ℕ) (w : FamilyWalk) : FamilyWalk :=
  if w.visited < budget then
    match fd.getNextKey w.calls (w.cursor ksz) with
    | none => { w with calls := w.calls + 1 }
    | some key => foreachLoop budget (w.visit family m fd key)
  else w
  termination_by budget - w.visited
  decreasing_by
    simp only [FamilyWalk.visit]
    omega

/-- The result and the callbacks; a map that has no descriptor is `none`. -/
def foreachFamily (fd : Option (RemoteMap ksz)) (budget : ℕ) : ℤ × List RemoteCall :=
  match fd with
  | none => (-1, [])
  | some fd =>
    let w := foreachLoop family m fd budget .start
    if w.visited < budget then (1, w.made)
    else if fd.getNextKey w.calls (w.cursor ksz) = none then (1, w.made)
    else (0, w.made)

end Source

def vgRemoteForeach (m : SumScratch) (v4 : Option (RemoteMap 4)) (v6 : Option (RemoteMap 16))
    (budget : ℕ) : ℤ × List RemoteCall :=
  let budget := if budget = 0 then vgRemoteMapMax else budget
  let c4 := foreachFamily .inet m v4 budget
  let c6 := foreachFamily .inet6 m v6 budget
  (if c4.1 < 0 ∨ c6.1 < 0 then -1 else if c4.1 ≠ 0 ∧ c6.1 ≠ 0 then 1 else 0, c4.2 ++ c6.2)

/-- The address that `remote_cb` hands on. -/
def RemoteCall.host (r : RemoteCall) : IpAddr := .ofOctets r.family r.addr

def RemoteCall.remote (r : RemoteCall) : Remote := ⟨r.host, r.sum.inPkts.toNat, r.sum.inBytes.toNat⟩

/-- The budget that `walk_remotes` gives. -/
def walkBudget (cfg : VgConfig) : ℕ :=
  if cfg.remoteMapSize = 0 then vgRemoteMapMax else cfg.remoteMapSize

/-- The inputs of a tick in which `walk_remotes` meets these maps. -/
def tickOver (cfg : VgConfig) (m : SumScratch) (v4 : Option (RemoteMap 4))
    (v6 : Option (RemoteMap 16)) (mono : Timespec) (metrics : Option VgMetrics) : TickIn :=
  let w := vgRemoteForeach m v4 v6 (walkBudget cfg)
  ⟨mono, metrics, w.2.map RemoteCall.remote, w.1⟩

section Walks
variable {family : Family} {m : SumScratch} {fd : RemoteMap ksz} {budget : ℕ} {w : FamilyWalk}

private theorem FamilyWalk.visit_made_length_le (w : FamilyWalk) (key : Vector UInt8 ksz) :
    (w.visit family m fd key).made.length ≤ w.made.length + 1 := by
  rw [visit, List.length_append]
  exact Nat.add_le_add_left Option.length_toList_le _

private theorem foreachLoop_bounds (family : Family) (m : SumScratch) (fd : RemoteMap ksz)
    (h : w.made.length ≤ w.visited) (hb : w.visited ≤ budget) :
    (foreachLoop family m fd budget w).made.length ≤ (foreachLoop family m fd budget w).visited ∧
      (foreachLoop family m fd budget w).visited ≤ budget := by
  fun_induction foreachLoop family m fd budget w with
  | case1 w hlt hnone => exact ⟨h, hb⟩
  | case2 w hlt key hkey ih =>
    exact ih ((w.visit_made_length_le key).trans (Nat.add_le_add_right h 1)) hlt
  | case3 w hge => exact ⟨h, hb⟩

private theorem foreachFamily_calls (family : Family) (m : SumScratch) (fd : Option (RemoteMap ksz))
    (budget : ℕ) : (foreachFamily family m fd budget).2.length ≤ budget := by
  rcases fd with _ | fd
  · exact Nat.zero_le _
  · have hstart : FamilyWalk.start.made.length ≤ FamilyWalk.start.visited := le_rfl
    obtain ⟨hmade, hvisited⟩ := foreachLoop_bounds family m fd hstart (Nat.zero_le budget)
    rw [foreachFamily]
    split_ifs <;> exact hmade.trans hvisited

/-- Throughout the walk the map has these keys in this order, each once, and the lookup of a key
gives these values. A cursor is answered with the key that follows it. -/
structure RemoteMap.Still (fd : RemoteMap ksz) (keys : List (Vector UInt8 ksz))
    (found : Vector UInt8 ksz → Option (ℕ → HostCounters)) : Prop where
  nodup : keys.Nodup
  next : ∀ n pre rest, keys = pre ++ rest → fd.getNextKey n pre.getLast? = rest.head?
  lookup : ∀ n, ∀ key ∈ keys, fd.lookupElem n key = found key

/-- A map that is never written. A cursor that is no key is answered with the first key. -/
def RemoteMap.fixed (keys : List (Vector UInt8 ksz))
    (found : Vector UInt8 ksz → Option (ℕ → HostCounters)) : RemoteMap ksz where
  getNextKey _ cursor :=
    match cursor with
    | none => keys.head?
    | some key => if key ∈ keys then keys[keys.idxOf key + 1]? else keys.head?
  lookupElem _ := found

theorem RemoteMap.still_fixed {keys : List (Vector UInt8 ksz)} (hkeys : keys.Nodup)
    (found : Vector UInt8 ksz → Option (ℕ → HostCounters)) :
    (fixed keys found).Still keys found where
  nodup := hkeys
  next := by
    intro n pre rest hsplit
    subst hsplit
    rcases List.eq_nil_or_concat pre with rfl | ⟨front, key, rfl⟩
    · rfl
    · have hnot : key ∉ front := by
        intro hmem
        rw [List.concat_eq_append, List.append_assoc] at hkeys
        exact (List.nodup_append.mp hkeys).2.2 key hmem key List.mem_cons_self rfl
      have hidx : (front ++ key :: rest).idxOf key = front.length := by
        rw [List.idxOf_append_of_notMem hnot, List.idxOf_cons_self, Nat.add_zero]
      simp [fixed, hidx, List.getElem?_append_right, List.head?_eq_getElem?]
  lookup _ _ _ := rfl

/-- The callback for a key, if its lookup succeeds. -/
def callFor (family : Family) (m : SumScratch)
    (found : Vector UInt8 ksz → Option (ℕ → HostCounters)) (key : Vector UInt8 ksz) :
    Option RemoteCall :=
  (vgSumPercpu m (found key)).map (RemoteCall.mk family (store zeroed key))

variable {keys pre rest : List (Vector UInt8 ksz)} {key : Vector UInt8 ksz}
  {found : Vector UInt8 ksz → Option (ℕ → HostCounters)}

/-- The loop has visited exactly `pre`. -/
structure FamilyWalk.At (family : Family) (m : SumScratch)
    (found : Vector UInt8 ksz → Option (ℕ → HostCounters)) (w : FamilyWalk)
    (pre : List (Vector UInt8 ksz)) : Prop where
  cursor : w.cursor ksz = pre.getLast?
  blank : ∀ i, ksz ≤ i → octet w.cur i = 0
  visited : w.visited = pre.length
  made : w.made = pre.filterMap (callFor family m found)

namespace FamilyWalk

theorem At.start : FamilyWalk.start.At family m found [] where
  cursor := rfl
  blank i _ := octet_zeroed i
  visited := rfl
  made := rfl

theorem At.visit (h : w.At family m found pre) (hksz : ksz ≤ 16)
    (hfound : ∀ n, fd.lookupElem n key = found key) :
    (w.visit family m fd key).At family m found (pre ++ [key]) where
  cursor := by
    simp only [FamilyWalk.cursor, FamilyWalk.visit, load_store hksz, Bool.false_eq_true, if_false,
      List.getLast?_concat]
  blank i hi := by
    simp only [FamilyWalk.visit]
    rw [octet_store_of_ge _ _ hi, h.blank i hi]
  visited := by
    rw [List.length_append, ← h.visited]
    rfl
  made := by
    simp only [FamilyWalk.visit, load_store hksz, store_eq_of_blank h.blank hksz, hfound]
    rw [List.filterMap_append, ← h.made]
    cases hsum : vgSumPercpu m (found key) <;> simp [callFor, hsum]

/-- The kernel answers with the first key that is still to come. -/
theorem At.getNextKey (h : w.At family m found pre) (hstill : fd.Still keys found)
    (hkeys : keys = pre ++ rest) (n : ℕ) : fd.getNextKey n (w.cursor ksz) = rest.head? := by
  rw [h.cursor]
  exact hstill.next n pre rest hkeys

theorem At.foreachLoop (h : w.At family m found pre) (hstill : fd.Still keys found)
    (hksz : ksz ≤ 16) (hkeys : keys = pre ++ rest) :
    (foreachLoop family m fd budget w).At family m found
      (pre ++ rest.take (budget - pre.length)) := by
  fun_induction VoidGate.foreachLoop family m fd budget w generalizing pre rest with
  | case1 w hlt hnone =>
    rw [h.getNextKey hstill hkeys, List.head?_eq_none_iff] at hnone
    subst hnone
    rw [List.take_nil, List.append_nil]
    exact ⟨h.cursor, h.blank, h.visited, h.made⟩
  | case2 w hlt key hkey ih =>
    rw [h.getNextKey hstill hkeys, List.head?_eq_some_iff] at hkey
    obtain ⟨rest, rfl⟩ := hkey
    have hmem : key ∈ keys := by
      rw [hkeys]
      exact List.mem_append_right _ List.mem_cons_self
    have hkeys' : keys = (pre ++ [key]) ++ rest := by
      rw [hkeys, List.append_assoc, List.singleton_append]
    have hnext := ih (h.visit hksz fun n => hstill.lookup n key hmem) hkeys'
    have hleft : budget - pre.length = budget - (pre ++ [key]).length + 1 := by
      have hvisited := h.visited
      rw [List.length_append, List.length_singleton]
      omega
    rw [hleft, List.take_succ_cons]
    rwa [List.append_assoc, List.singleton_append] at hnext
  | case3 w hge =>
    have hvisited := h.visited
    rw [show budget - pre.length = 0 by omega, List.take_zero, List.append_nil]
    exact h

end FamilyWalk

theorem foreachFamily_still (hstill : fd.Still keys found) (hksz : ksz ≤ 16) (budget : ℕ) :
    foreachFamily family m (some fd) budget =
      (if keys.length ≤ budget then 1 else 0,
        (keys.take budget).filterMap (callFor family m found)) := by
  have hstart : FamilyWalk.start.At family m found [] := .start
  have hat : (foreachLoop family m fd budget .start).At family m found
      ([] ++ keys.take (budget - 0)) := hstart.foreachLoop hstill hksz rfl
  have hprobe := hat.getNextKey hstill (List.take_append_drop budget keys).symm
  have hvisited := hat.visited
  rw [List.nil_append, Nat.sub_zero, List.length_take] at hvisited
  simp only [foreachFamily, hprobe, hat.made, List.head?_eq_none_iff, List.drop_eq_nil_iff]
  split_ifs with hlt hend
  · rfl
  · omega
  · rfl
  · rfl

theorem load_host_callFor (hksz : ksz ≤ family.nbytes) {r : RemoteCall}
    (hr : callFor family m found key = some r) : load ksz r.host.octets = key := by
  obtain ⟨sum, -, rfl⟩ := Option.map_eq_some_iff.mp hr
  have h16 := hksz.trans family.nbytes_le
  apply Vector.ext
  intro i hi
  rw [load, Vector.getElem_ofFn]
  simp only [RemoteCall.host, IpAddr.ofOctets, octet_clip]
  rw [if_pos (hi.trans_le hksz), octet_store_of_lt _ _ hi h16]
  rfl

theorem family_callFor {r : RemoteCall} (hr : callFor family m found key = some r) :
    r.host.family = family := by
  obtain ⟨sum, -, rfl⟩ := Option.map_eq_some_iff.mp hr
  rfl

theorem nodup_hosts (hkeys : keys.Nodup) (hksz : ksz ≤ family.nbytes) :
    ((keys.filterMap (callFor family m found)).map RemoteCall.host).Nodup := by
  rw [List.map_filterMap]
  refine hkeys.filterMap fun k k' x hk hk' => ?_
  obtain ⟨r, hr, rfl⟩ := Option.map_eq_some_iff.mp hk
  obtain ⟨r', hr', hhost⟩ := Option.map_eq_some_iff.mp hk'
  rw [← load_host_callFor hksz hr, ← hhost, load_host_callFor hksz hr']

end Walks

section Remotes
variable {m : SumScratch} {v4 : RemoteMap 4} {v6 : RemoteMap 16} {keys4 : List (Vector UInt8 4)}
  {keys6 : List (Vector UInt8 16)} {found4 : Vector UInt8 4 → Option (ℕ → HostCounters)}
  {found6 : Vector UInt8 16 → Option (ℕ → HostCounters)}

/-- The callbacks for these keys of the two maps, in the order of the walk. -/
def callsFor (m : SumScratch) (found4 : Vector UInt8 4 → Option (ℕ → HostCounters))
    (found6 : Vector UInt8 16 → Option (ℕ → HostCounters)) (keys4 : List (Vector UInt8 4))
    (keys6 : List (Vector UInt8 16)) : List RemoteCall :=
  keys4.filterMap (callFor .inet m found4) ++ keys6.filterMap (callFor .inet6 m found6)

theorem vgRemoteForeach_still (h4 : v4.Still keys4 found4) (h6 : v6.Still keys6 found6) {b : ℕ}
    (hb : 1 ≤ b) :
    vgRemoteForeach m (some v4) (some v6) b =
      (if keys4.length ≤ b ∧ keys6.length ≤ b then 1 else 0,
        callsFor m found4 found6 (keys4.take b) (keys6.take b)) := by
  have hb0 : b ≠ 0 := by omega
  simp only [vgRemoteForeach, if_neg hb0, foreachFamily_still h4 (by decide : 4 ≤ 16),
    foreachFamily_still h6 le_rfl, callsFor]
  by_cases hfits4 : keys4.length ≤ b <;> by_cases hfits6 : keys6.length ≤ b <;>
    simp [hfits4, hfits6]

private theorem nodup_hosts_callsFor (h4 : keys4.Nodup) (h6 : keys6.Nodup) :
    ((callsFor m found4 found6 keys4 keys6).map RemoteCall.host).Nodup := by
  rw [callsFor, List.map_append]
  refine (nodup_hosts h4 le_rfl).append (nodup_hosts h6 le_rfl) fun x hx hx' => ?_
  obtain ⟨r, hr, rfl⟩ := List.mem_map.mp hx
  obtain ⟨r', hr', hhost⟩ := List.mem_map.mp hx'
  obtain ⟨k, -, hk⟩ := List.mem_filterMap.mp hr
  obtain ⟨k', -, hk'⟩ := List.mem_filterMap.mp hr'
  have hfam := congrArg IpAddr.family hhost
  rw [family_callFor hk, family_callFor hk'] at hfam
  cases hfam

theorem walkBudget_pos (cfg : VgConfig) : 1 ≤ walkBudget cfg := by
  rw [walkBudget]
  split_ifs with h
  · decide
  · omega

/-- Every behaviour of the kernel leaves the walk within its budget. With room in the buffer the
callback for a key has the address and the sums of the CPUs, and it is left out only if the lookup
fails. When the maps do not change, the walk calls `fn` once for each key among the first `b` of its
family whose lookup succeeds, and for nothing else; it returns 1 exactly when no key was left over, so
that a tick prunes the snapshots only after it has seen every remote that the maps hold. -/
theorem remote_walk_complete (m : SumScratch) :
    (∀ (family : Family) (ksz : ℕ) (fd : Option (RemoteMap ksz)) (budget : ℕ),
      (foreachFamily family m fd budget).2.length ≤ budget) ∧
    (m.HasRoom → ∀ (family : Family) (ksz : ℕ) (found : Vector UInt8 ksz → Option (ℕ → HostCounters))
      (key : Vector UInt8 ksz), callFor family m found key = (found key).map fun src =>
        ⟨family, store zeroed key, ⟨total m.cpus HostCounters.inPkts src,
          total m.cpus HostCounters.inBytes src⟩⟩) ∧
    ∀ (v4 : RemoteMap 4) (v6 : RemoteMap 16) (keys4 : List (Vector UInt8 4))
      (keys6 : List (Vector UInt8 16)) (found4 : Vector UInt8 4 → Option (ℕ → HostCounters))
      (found6 : Vector UInt8 16 → Option (ℕ → HostCounters)),
      v4.Still keys4 found4 → v6.Still keys6 found6 →
      (∀ b, 1 ≤ b →
        (vgRemoteForeach m (some v4) (some v6) b).2 =
          callsFor m found4 found6 (keys4.take (min b keys4.length))
            (keys6.take (min b keys6.length)) ∧
        ((vgRemoteForeach m (some v4) (some v6) b).2.map RemoteCall.host).Nodup ∧
        ((vgRemoteForeach m (some v4) (some v6) b).1 = 1 ↔
          keys4.length ≤ b ∧ keys6.length ≤ b)) ∧
      ∀ cfg mono metrics, (tickOver cfg m (some v4) (some v6) mono metrics).complete = 1 →
        (tickOver cfg m (some v4) (some v6) mono metrics).remotes =
          (callsFor m found4 found6 keys4 keys6).map RemoteCall.remote := by
  refine ⟨fun family _ => foreachFamily_calls family m, fun hm family ksz found key => ?_, ?_⟩
  · rw [callFor, vgSumPercpu_of_hasRoom hm, Option.map_map]
    rfl
  intro v4 v6 keys4 keys6 found4 found6 h4 h6
  constructor
  · intro b hb
    rw [vgRemoteForeach_still h4 h6 hb]
    refine ⟨?_, nodup_hosts_callsFor (h4.nodup.sublist (List.take_sublist b _))
      (h6.nodup.sublist (List.take_sublist b _)), by simp⟩
    rw [← List.take_eq_take_min, ← List.take_eq_take_min]
  · intro cfg mono metrics hone
    simp only [tickOver, vgRemoteForeach_still h4 h6 (walkBudget_pos cfg)] at hone ⊢
    have hfits : keys4.length ≤ walkBudget cfg ∧ keys6.length ≤ walkBudget cfg := by
      by_contra hno
      rw [if_neg hno] at hone
      cases hone
    rw [List.take_of_length_le hfits.1, List.take_of_length_le hfits.2]

/-- Three remotes, of which the second cannot be read. -/
def threeRemotes : RemoteMap 4 :=
  .fixed [#v[192, 0, 2, 7], #v[192, 0, 2, 8], #v[192, 0, 2, 9]] fun key =>
    if key = #v[192, 0, 2, 8] then none else some fun _ => ⟨1, 64⟩

def noRemotes : RemoteMap 16 := .fixed [] fun _ => none

/-- A budget of exactly three keys reaches the end of the map, a budget of two does not. A remote that
can be read is handed on with the sums of both CPUs. -/
theorem remote_walk_complete_three :
    (vgRemoteForeach ⟨2, some 32⟩ (some threeRemotes) (some noRemotes) 3).1 = 1 ∧
      (vgRemoteForeach ⟨2, some 32⟩ (some threeRemotes) (some noRemotes) 2).1 ≠ 1 ∧
      callFor .inet ⟨2, some 32⟩ (threeRemotes.lookupElem 0) #v[192, 0, 2, 7] =
        some ⟨.inet, store zeroed #v[192, 0, 2, 7], ⟨2, 128⟩⟩ ∧
      (vgRemoteForeach ⟨2, some 32⟩ (some threeRemotes) (some noRemotes) 2).2 =
        [⟨.inet, store zeroed #v[192, 0, 2, 7], ⟨2, 128⟩⟩] := by
  obtain ⟨-, hcall, hstill⟩ := remote_walk_complete ⟨2, some 32⟩
  have hwalk := (hstill threeRemotes noRemotes _ _ _ _
    (RemoteMap.still_fixed (by decide) _) (RemoteMap.still_fixed List.nodup_nil _)).1
  obtain ⟨-, -, hthree⟩ := hwalk 3 (by decide)
  obtain ⟨hmade, -, htwo⟩ := hwalk 2 (by decide)
  have hfirst := hcall ⟨32, rfl, by decide⟩ .inet 4 (threeRemotes.lookupElem 0) #v[192, 0, 2, 7]
  exact ⟨hthree.mpr (by decide), fun h => absurd (htwo.mp h) (by decide), hfirst.trans (by decide),
    hmade.trans (by decide)⟩

end Remotes

end VoidGate
