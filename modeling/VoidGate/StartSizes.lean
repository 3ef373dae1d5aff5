import VoidGate.CtlServer

/-!
# Sizes at start-up

`vg_ctrl_init` doubles the two map sizes and then doubles the number of buckets until
it reaches the size of the pool, all in 32 bits. The sizes come out exact as long as
the doublings fit. Otherwise the pools are too small, or the number of buckets becomes
0 and the loop never ends.
-/

namespace VoidGate

private theorem growBuckets_zero {cap : ℕ} (hcap : 0 < cap) (k : ℕ) : growBuckets k 0 cap = none := by
  induction k with
  | zero => rfl
  | succ k ih => rw [growBuckets, if_pos hcap, Nat.zero_shiftLeft, Nat.zero_mod, ih]

theorem pow_shiftLeft_mod {j : ℕ} (hj : j < 31) : (2 ^ j <<< 1) % 2 ^ 32 = 2 ^ (j + 1) := by
  rw [Nat.shiftLeft_eq, pow_one, ← pow_succ]
  exact Nat.mod_eq_of_lt (Nat.pow_lt_pow_right (by decide) (by omega))

theorem growBuckets_eq_none {j cap : ℕ} (hj : j ≤ 31) (hcap : 2 ^ 31 < cap) (k : ℕ) :
    growBuckets k (2 ^ j) cap = none := by
  induction k generalizing j with
  | zero => rfl
  | succ k ih =>
    have hlt : 2 ^ j < cap := (Nat.pow_le_pow_right (by decide) hj).trans_lt hcap
    rw [growBuckets, if_pos hlt]
    rcases hj.lt_or_eq with hj | rfl
    · rw [pow_shiftLeft_mod hj]
      exact ih (by omega)
    · exact growBuckets_zero (by omega) k

theorem growBuckets_eq_some {j cap k : ℕ} (hj : j ≤ 31) (hcap : cap ≤ 2 ^ 31) (hk : 31 < j + k) :
    ∃ i, growBuckets k (2 ^ j) cap = some (2 ^ i) := by
  induction k generalizing j with
  | zero => omega
  | succ k ih =>
    rw [growBuckets]
    split_ifs with hlt
    · have hj' : j < 31 := by
        refine hj.lt_of_ne ?_
        rintro rfl
        omega
      rw [pow_shiftLeft_mod hj']
      exact ih (by omega) (by omega)
    · exact ⟨j, rfl⟩

def sizeOr (size builtin : ℕ) : ℕ := if size = 0 then builtin else size

/-- Start-up ends, and when it succeeds the pools have twice the configured sizes and the number of
buckets is a power of two that is not below the size of the pool. -/
structure SizedExactly (env : Env) (cfg : VgConfig) : Prop where
  ends : ∃ k nbuckets, growBuckets k 1024 (dropPoolCap cfg) = some nbuckets
  sizes : ∀ maps cfgPath ifaceOv c, vgCtrlInit env cfg maps cfgPath ifaceOv = some c →
    c.drops.cap = 2 * sizeOr cfg.dropMapSize vgDropMapMax ∧
    c.snaps.cap = 2 * sizeOr cfg.remoteMapSize vgRemoteMapMax ∧
    (∃ i, c.drops.nbuckets = 2 ^ i) ∧ c.drops.cap ≤ c.drops.nbuckets

variable {env : Env} {cfg : VgConfig}

private theorem dropPoolCap_eq (cfg : VgConfig) :
    dropPoolCap cfg = 2 * sizeOr cfg.dropMapSize vgDropMapMax % 2 ^ 32 := by
  rw [dropPoolCap, sizeOr, ite_not]

theorem snapCap_eq (cfg : VgConfig) :
    snapCap cfg = 2 * sizeOr cfg.remoteMapSize vgRemoteMapMax % 2 ^ 32 := by
  rw [snapCap, sizeOr]
  split_ifs <;> omega

theorem sizeOr_lt {size builtin n : ℕ} (hb : builtin < n) : sizeOr size builtin < n ↔ size < n := by
  rw [sizeOr]
  split_ifs <;> omega

theorem vgCtrlInit_sizes {maps : VgMaps} {cfgPath : List UInt8} {ifaceOv : Option (List UInt8)}
    {c : VgCtrl} (h : vgCtrlInit env cfg maps cfgPath ifaceOv = some c) :
    growBuckets 33 1024 (dropPoolCap cfg) = some c.drops.nbuckets ∧
      c.drops.cap = dropPoolCap cfg ∧ c.snaps.cap = snapCap cfg := by
  rw [vgCtrlInit] at h
  split at h
  · cases h
  · rename_i nbuckets hg
    split_ifs at h
    cases h
    exact ⟨hg, rfl, rfl⟩

private theorem exists_vgCtrlInit (env : Env) {nbuckets : ℕ} (hmem : ∀ n, env.calloc n = true)
    (hg : growBuckets 33 1024 (dropPoolCap cfg) = some nbuckets) (maps : VgMaps)
    (cfgPath : List UInt8) (ifaceOv : Option (List UInt8)) :
    ∃ c, vgCtrlInit env cfg maps cfgPath ifaceOv = some c := by
  rw [vgCtrlInit, hg]
  simp [hmem]

private theorem sizedExactly_of_le (env : Env) (hd : cfg.dropMapSize ≤ 2 ^ 30)
    (hr : cfg.remoteMapSize < 2 ^ 31) : SizedExactly env cfg := by
  have hdrop : sizeOr cfg.dropMapSize vgDropMapMax < 2 ^ 30 + 1 :=
    (sizeOr_lt (by decide)).mpr (by omega)
  have hsnap : sizeOr cfg.remoteMapSize vgRemoteMapMax < 2 ^ 31 := (sizeOr_lt (by decide)).mpr hr
  have hcap : dropPoolCap cfg = 2 * sizeOr cfg.dropMapSize vgDropMapMax := by
    rw [dropPoolCap_eq, Nat.mod_eq_of_lt (by omega)]
  obtain ⟨i, hg⟩ : ∃ i, growBuckets 33 (2 ^ 10) (dropPoolCap cfg) = some (2 ^ i) :=
    growBuckets_eq_some (by decide) (by omega) (by decide)
  refine ⟨⟨33, 2 ^ i, hg⟩, fun maps cfgPath ifaceOv c hc => ?_⟩
  obtain ⟨hbuckets, hcapc, hsnapc⟩ := vgCtrlInit_sizes hc
  have hnb : c.drops.nbuckets = 2 ^ i := Option.some.inj (hbuckets.symm.trans hg)
  refine ⟨hcapc.trans hcap, ?_, ⟨i, hnb⟩, hcapc.le.trans (growBuckets_ge hbuckets)⟩
  rw [hsnapc, snapCap_eq, Nat.mod_eq_of_lt (by omega)]

/-- Whatever `calloc` answers, start-up ends with the exact sizes, for exactly the configured sizes
whose doublings fit: up to 2^30 for the drop maps and below 2^31 for the remote maps. -/
theorem start_sizes_iff (cfg : VgConfig) :
    (∀ env, SizedExactly env cfg) ↔ cfg.dropMapSize ≤ 2 ^ 30 ∧ cfg.remoteMapSize < 2 ^ 31 := by
  constructor
  · intro h
    obtain ⟨⟨k, nbuckets, hends⟩, hsizes⟩ := h (sampleEnv fun _ => false)
    have hcap : dropPoolCap cfg ≤ 2 ^ 31 := by
      by_contra hbig
      have hnone := growBuckets_eq_none (j := 10) (by decide) (not_le.mp hbig) k
      cases hends.symm.trans hnone
    obtain ⟨i, hg⟩ : ∃ i, growBuckets 33 (2 ^ 10) (dropPoolCap cfg) = some (2 ^ i) :=
      growBuckets_eq_some (by decide) hcap (by decide)
    obtain ⟨c, hc⟩ := exists_vgCtrlInit (sampleEnv fun _ => false) (fun _ => rfl) hg
      ⟨.fresh, 0, []⟩ [] none
    obtain ⟨hdrop, hsnap, -⟩ := hsizes _ _ _ c hc
    obtain ⟨-, hcapc, hsnapc⟩ := vgCtrlInit_sizes hc
    rw [hcapc] at hdrop
    rw [hsnapc, snapCap_eq] at hsnap
    have hdrop' : sizeOr cfg.dropMapSize vgDropMapMax < 2 ^ 30 + 1 := by omega
    have hsnap' : sizeOr cfg.remoteMapSize vgRemoteMapMax < 2 ^ 31 := by omega
    have hle := (sizeOr_lt (by decide)).mp hdrop'
    exact ⟨by omega, (sizeOr_lt (by decide)).mp hsnap'⟩
  · rintro ⟨hd, hr⟩ env
    exact sizedExactly_of_le env hd hr

/-- With one prefix more than 2^30 start-up never ends, and with 2^31 prefixes and one more the pool
has two records. -/
theorem large_drop_map_fails :
    (∀ k, growBuckets k 1024
      (dropPoolCap { vgConfigDefaults samplePton with dropMapSize := 1073741825 }) = none) ∧
    (vgCtrlInit (sampleEnv fun _ => false)
      { vgConfigDefaults samplePton with dropMapSize := 2147483649 } ⟨.fresh, 0, []⟩ [] none).map
        (fun c => c.drops.cap) = some 2 :=
  ⟨fun k => growBuckets_eq_none (j := 10) (by decide) (by decide) k, by decide +kernel⟩

end VoidGate
