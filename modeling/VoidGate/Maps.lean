import VoidGate.Config
import Mathlib.Data.List.Perm.Basic
import Mathlib.Data.List.Pairwise

/-!
# Kernel maps

The maps shared with the data plane and the calls of `maps.c` that write them. A
longest-prefix-match map is a list of entries with pairwise different prefixes, in
the order in which the kernel enumerates them. Every write may fail and then
leaves its map unchanged; which writes fail, what the clocks say, and where the
kernel puts a new key in its enumeration is decided by an environment that no
theorem restricts unless it says so.
-/

namespace VoidGate

open BitPrefixes

/-- `VG_REASON_*`. -/
inductive Reason where
  | manual
  | policy
  | aggregate
  | timed
  deriving DecidableEq, Repr

def Reason.num : Reason → ℕ
  | .manual => 1
  | .policy => 2
  | .aggregate => 3
  | .timed => 4

/-- Everything outside the program. -/
structure Env where
  /-- Does the `n`-th kernel map write fail? -/
  fault : ℕ → Bool
  /-- The `n`-th reading of `time(NULL)`. -/
  wall : ℕ → ℤ
  /-- Where a new key goes in the enumeration of a map. -/
  slot : List VgCidr → VgCidr → ℕ
  inetPton : InetPton
  /-- Does an allocation of this many records succeed? -/
  calloc : ℕ → Bool

/-- The value stored under a prefix: `struct drop_entry`, or the byte 1. -/
inductive MapValue where
  | dropEntry (reason : Reason) (insertTime : ℕ)
  | one
  deriving DecidableEq

/-- Two keys name the same trie node: same length and same leading bits. -/
def sameKey (k k' : VgCidr) : Bool :=
  k.prefixlen == k'.prefixlen && bitsEqual k.addr k'.addr k.prefixlen

theorem sameKey_iff (k k' : VgCidr) : sameKey k k' = true ↔
    k.prefixlen = k'.prefixlen ∧ Agree k.prefixlen (bit k.addr) (bit k'.addr) := by
  rw [sameKey, Bool.and_eq_true, beq_iff_eq, bitsEqual_iff _ _ k.prefixlen_le_128]

@[simp] theorem sameKey_self (k : VgCidr) : sameKey k k = true :=
  (sameKey_iff k k).mpr ⟨rfl, .refl _ _⟩

theorem sameKey_comm (k k' : VgCidr) : sameKey k k' = sameKey k' k := by
  apply Bool.eq_iff_iff.mpr
  rw [sameKey_iff, sameKey_iff]
  constructor
  · rintro ⟨hl, ha⟩
    exact ⟨hl.symm, hl ▸ ha.symm⟩
  · rintro ⟨hl, ha⟩
    exact ⟨hl.symm, hl ▸ ha.symm⟩

/-- In one map, masked keys name the same node only when they are equal. -/
theorem sameKey_masked_iff {k k' : VgCidr} (hk : k.Masked) (hk' : k'.Masked)
    (hf : k.family = k'.family) : sameKey k k' = true ↔ k = k' := by
  constructor
  · intro h
    obtain ⟨hl, ha⟩ := (sameKey_iff k k').mp h
    exact hk.eq_of_agree hk' hf hl ha
  · rintro rfl
    exact sameKey_self k

/-- `BPF_MAP_TYPE_LPM_TRIE`: entries with pairwise different keys, in enumeration order. -/
structure Lpm where
  entries : List (VgCidr × MapValue)
  distinct : entries.Pairwise fun e e' => sameKey e.1 e'.1 = false
  deriving DecidableEq

namespace Lpm

def empty : Lpm := ⟨[], .nil⟩

def keys (m : Lpm) : List VgCidr := m.entries.map Prod.fst

@[simp] theorem keys_empty : empty.keys = [] := rfl

/-- Some stored prefix contains the address. -/
def lookup (m : Lpm) (a : Octets) : Bool := m.entries.any fun e => bitsEqual e.1.addr a e.1.prefixlen

def erase (m : Lpm) (k : VgCidr) : Lpm where
  entries := m.entries.filter fun e => !sameKey k e.1
  distinct := m.distinct.filter _

/-- Replace the entry of this key, or insert a new one at the given place. -/
def update (m : Lpm) (place : ℕ) (k : VgCidr) (v : MapValue) : Lpm where
  entries := (m.erase k).entries.take place ++ (k, v) :: (m.erase k).entries.drop place
  distinct := by
    have hperm : ((m.erase k).entries.take place ++ (k, v) :: (m.erase k).entries.drop place).Perm
        ((k, v) :: (m.erase k).entries) := by
      simpa using @List.perm_middle _ (k, v) ((m.erase k).entries.take place)
        ((m.erase k).entries.drop place)
    refine (hperm.pairwise_iff fun h => by rwa [sameKey_comm]).mpr ?_
    refine List.pairwise_cons.mpr ⟨fun e he => ?_, (m.erase k).distinct⟩
    simpa using (List.mem_filter.mp he).2

@[simp] theorem mem_erase {m : Lpm} {k : VgCidr} {e : VgCidr × MapValue} :
    e ∈ (m.erase k).entries ↔ e ∈ m.entries ∧ sameKey k e.1 = false := by
  simp [erase]

@[simp] theorem mem_update {m : Lpm} {place : ℕ} {k : VgCidr} {v : MapValue}
    {e : VgCidr × MapValue} :
    e ∈ (m.update place k v).entries ↔ e = (k, v) ∨ (e ∈ m.entries ∧ sameKey k e.1 = false) := by
  rw [← mem_erase]
  conv_rhs => rw [← List.take_append_drop place (m.erase k).entries]
  simp only [update, List.mem_append, List.mem_cons]
  tauto

theorem lookup_iff {m : Lpm} {a : Octets} : m.lookup a = true ↔
    ∃ e ∈ m.entries, Agree e.1.prefixlen (bit e.1.addr) (bit a) := by
  simp only [lookup, List.any_eq_true]
  constructor
  · rintro ⟨e, he, hb⟩
    exact ⟨e, he, (bitsEqual_iff _ _ e.1.prefixlen_le_128).mp hb⟩
  · rintro ⟨e, he, hb⟩
    exact ⟨e, he, (bitsEqual_iff _ _ e.1.prefixlen_le_128).mpr hb⟩

theorem lookup_update {m : Lpm} {place : ℕ} {k : VgCidr} {v : MapValue} {a : Octets} :
    (m.update place k v).lookup a = true ↔
      Agree k.prefixlen (bit k.addr) (bit a) ∨ m.lookup a = true := by
  rw [lookup_iff, lookup_iff]
  constructor
  · rintro ⟨e, he, ha⟩
    rcases mem_update.mp he with rfl | ⟨he, -⟩
    · exact .inl ha
    · exact .inr ⟨e, he, ha⟩
  · rintro (ha | ⟨e, he, ha⟩)
    · exact ⟨(k, v), mem_update.mpr (.inl rfl), ha⟩
    · by_cases hk : sameKey k e.1 = true
      · obtain ⟨hl, hb⟩ := (sameKey_iff _ _).mp hk
        exact ⟨(k, v), mem_update.mpr (.inl rfl), hb.trans (hl ▸ ha)⟩
      · exact ⟨e, mem_update.mpr (.inr ⟨he, by simpa using hk⟩), ha⟩

theorem mem_keys_update {m : Lpm} {f : Family} (hm : ∀ q ∈ m.keys, q.Masked ∧ q.family = f)
    {p q : VgCidr} (hp : p.Masked) (hf : p.family = f) {place : ℕ} {v : MapValue} :
    q ∈ (m.update place p v).keys ↔ q = p ∨ q ∈ m.keys := by
  simp only [keys, List.mem_map, mem_update]
  constructor
  · rintro ⟨e, rfl | ⟨he, -⟩, rfl⟩
    · exact .inl rfl
    · exact .inr ⟨e, he, rfl⟩
  · rintro (rfl | ⟨e, he, rfl⟩)
    · exact ⟨(q, v), .inl rfl, rfl⟩
    · obtain ⟨hmask, hfam⟩ := hm e.1 (List.mem_map_of_mem he)
      by_cases hk : sameKey p e.1 = true
      · exact ⟨(p, v), .inl rfl, (sameKey_masked_iff hp hmask (hf.trans hfam.symm)).mp hk⟩
      · exact ⟨e, .inr ⟨he, by simpa using hk⟩, rfl⟩

theorem mem_keys_erase {m : Lpm} {f : Family} (hm : ∀ q ∈ m.keys, q.Masked ∧ q.family = f)
    {p q : VgCidr} (hp : p.Masked) (hf : p.family = f) :
    q ∈ (m.erase p).keys ↔ q ∈ m.keys ∧ q ≠ p := by
  simp only [keys, List.mem_map, mem_erase]
  constructor
  · rintro ⟨e, ⟨he, hk⟩, rfl⟩
    refine ⟨⟨e, he, rfl⟩, ?_⟩
    rintro rfl
    simp at hk
  · rintro ⟨⟨e, he, rfl⟩, hne⟩
    obtain ⟨hmask, hfam⟩ := hm e.1 (List.mem_map_of_mem he)
    refine ⟨e, ⟨he, ?_⟩, rfl⟩
    rw [← Bool.not_eq_true, sameKey_masked_iff hp hmask (hf.trans hfam.symm)]
    exact fun h => hne h.symm

end Lpm

/-- The longest-prefix-match maps: `drop_v4`, `drop_v6` and so on. -/
inductive MapFd where
  | drop (f : Family)
  | allow (f : Family)
  | localNets (f : Family)
  deriving DecidableEq

/-- `struct vg_cfg`. -/
structure VgCfg where
  armed : ℕ
  allowPorts : Vector UInt16 8
  allowPortCount : ℕ
  deriving DecidableEq

/-- The content of the maps that the control plane writes. -/
structure Kernel where
  cfg : VgCfg
  lpm : MapFd → Lpm

/-- Freshly loaded maps: a zeroed array entry and empty tries. -/
def Kernel.fresh : Kernel := ⟨⟨0, Vector.replicate 8 0, 0⟩, fun _ => .empty⟩

def Kernel.setLpm (k : Kernel) (fd : MapFd) (m : Lpm) : Kernel :=
  { k with lpm := Function.update k.lpm fd m }

@[simp] theorem Kernel.setLpm_self (k : Kernel) (fd : MapFd) (m : Lpm) :
    (k.setLpm fd m).lpm fd = m := by simp [setLpm]

theorem Kernel.setLpm_ne (k : Kernel) {fd fd' : MapFd} (m : Lpm) (h : fd' ≠ fd) :
    (k.setLpm fd m).lpm fd' = k.lpm fd' := by simp [setLpm, h]

/-- The kernel side as the daemon sees it. `writes` counts the map writes made so far, and
`contents` records the map contents after each of them, the latest first. -/
structure VgMaps where
  kernel : Kernel
  writes : ℕ
  contents : List Kernel

/-- One write has been made and left this content. -/
def VgMaps.wrote (m : VgMaps) (k : Kernel) : VgMaps := ⟨k, m.writes + 1, k :: m.contents⟩

@[simp] theorem VgMaps.wrote_kernel (m : VgMaps) (k : Kernel) : (m.wrote k).kernel = k := rfl

@[simp] theorem VgMaps.wrote_writes (m : VgMaps) (k : Kernel) :
    (m.wrote k).writes = m.writes + 1 := rfl

@[simp] theorem VgMaps.wrote_contents (m : VgMaps) (k : Kernel) :
    (m.wrote k).contents = k :: m.contents := rfl

section Calls
variable (env : Env)

/-- `lpm_update`: `BPF_MAP_UPDATE_ELEM` with `BPF_ANY`. The flag is the success. -/
def lpmUpdate (m : VgMaps) (fd : MapFd) (p : VgCidr) (v : MapValue) : VgMaps × Bool :=
  if env.fault m.writes then (m.wrote m.kernel, false)
  else
    let t := m.kernel.lpm fd
    (m.wrote (m.kernel.setLpm fd (t.update (env.slot t.keys p) p v)), true)

inductive DelResult where
  | ok
  | enoent
  | error
  deriving DecidableEq

/-- `lpm_delete`: `BPF_MAP_DELETE_ELEM`. -/
def lpmDelete (m : VgMaps) (fd : MapFd) (p : VgCidr) : VgMaps × DelResult :=
  if env.fault m.writes then (m.wrote m.kernel, .error)
  else if (m.kernel.lpm fd).entries.any fun e => sameKey p e.1 then
    (m.wrote (m.kernel.setLpm fd ((m.kernel.lpm fd).erase p)), .ok)
  else (m.wrote m.kernel, .enoent)

/-- The array entry that `vg_cfg_commit` writes for a configuration. -/
def cfgEntry (armed : ℕ) (cfg : VgConfig) : VgCfg where
  armed := armed
  allowPorts := Vector.ofFn fun i => cfg.allowPorts.getD i.val 0
  allowPortCount := min cfg.allowPorts.length vgMaxAllowPorts

def vgCfgCommit (m : VgMaps) (armed : ℕ) (cfg : VgConfig) : VgMaps × Bool :=
  if env.fault m.writes then (m.wrote m.kernel, false)
  else (m.wrote { m.kernel with cfg := cfgEntry armed cfg }, true)

/-- `(uint32_t) now`. -/
def stamp (now : ℤ) : ℕ := (now % 2 ^ 32).toNat

def vgDropAdd (m : VgMaps) (p : VgCidr) (reason : Reason) (now : ℤ) : VgMaps × Bool :=
  lpmUpdate env m (.drop p.family) p (.dropEntry reason (stamp now))

def vgDropDel (m : VgMaps) (p : VgCidr) : VgMaps × DelResult :=
  lpmDelete env m (.drop p.family) p

/-- `bpf_map_get_next_key`: the first key without a key or for one that is not stored, else the
key enumerated after it. -/
def getNextKey (t : Lpm) : Option VgCidr → Option VgCidr
  | none => t.keys.head?
  | some k => match t.keys.dropWhile fun k' => !sameKey k k' with
    | [] => t.keys.head?
    | _ :: rest => rest.head?

/-- The loop of `flush_lpm`: fetch the successor, then delete the key. -/
def flushLoop (fd : MapFd) : ℕ → VgMaps → VgCidr → VgMaps
  | 0, m, _ => m
  | n + 1, m, key =>
    let next := getNextKey (m.kernel.lpm fd) (some key)
    let m := (lpmDelete env m fd key).1
    match next with
    | none => m
    | some key => flushLoop fd n m key

def flushLpm (m : VgMaps) (fd : MapFd) : VgMaps :=
  match getNextKey (m.kernel.lpm fd) none with
  | none => m
  | some key => flushLoop env fd (m.kernel.lpm fd).entries.length m key

def vgDropFlush (m : VgMaps) : VgMaps := flushLpm env (flushLpm env m (.drop .inet)) (.drop .inet6)

/-- Write every prefix into the map of its family; a failed update is only logged. -/
def populate (fd : Family → MapFd) (m : VgMaps) (nets : List VgCidr) : VgMaps :=
  nets.foldl (fun m p => (lpmUpdate env m (fd p.family) p .one).1) m

def vgPopulateLocal (m : VgMaps) (cfg : VgConfig) : VgMaps :=
  populate env .localNets (flushLpm env (flushLpm env m (.localNets .inet)) (.localNets .inet6))
    cfg.localCidr

def vgPopulateAllow (m : VgMaps) (cfg : VgConfig) : VgMaps :=
  populate env .allow (flushLpm env (flushLpm env m (.allow .inet)) (.allow .inet6)) cfg.allowCidr

end Calls

end VoidGate
