import VoidGate.Maps

/-!
# What the calls do to the maps

One write changes one map or, when it fails, nothing. A flush walks the keys while
it deletes them, and comes down to deleting the keys it started with one by one.
-/

namespace VoidGate

section Calls
variable (env : Env)

/-- The content of the maps after a successful `vg_drop_add`. -/
def dropUpdated (k : Kernel) (p : VgCidr) (reason : Reason) (now : ℤ) : Kernel :=
  k.setLpm (.drop p.family) ((k.lpm (.drop p.family)).update
    (env.slot (k.lpm (.drop p.family)).keys p) p (.dropEntry reason (stamp now)))

theorem vgDropAdd_eq (m : VgMaps) (p : VgCidr) (reason : Reason) (now : ℤ) :
    vgDropAdd env m p reason now =
      (m.wrote (if env.fault m.writes then m.kernel else dropUpdated env m.kernel p reason now),
        !env.fault m.writes) := by
  rw [vgDropAdd, lpmUpdate]
  cases env.fault m.writes <;> rfl

private theorem Lpm.erase_eq_self {t : Lpm} {p : VgCidr} (h : ∀ e ∈ t.entries, sameKey p e.1 = false) :
    t.erase p = t := by
  cases t
  simp only [Lpm.erase, Lpm.mk.injEq, List.filter_eq_self]
  intro e he
  simp [h e he]

theorem lpmDelete_kernel (m : VgMaps) (fd : MapFd) (p : VgCidr) :
    (lpmDelete env m fd p).1.kernel =
      if env.fault m.writes then m.kernel
      else m.kernel.setLpm fd ((m.kernel.lpm fd).erase p) := by
  rw [lpmDelete]
  split_ifs with hf hany
  · rfl
  · rfl
  · have he : (m.kernel.lpm fd).erase p = m.kernel.lpm fd := by
      apply Lpm.erase_eq_self
      simpa using hany
    simp [he, Kernel.setLpm]

@[simp] theorem lpmDelete_writes (m : VgMaps) (fd : MapFd) (p : VgCidr) :
    (lpmDelete env m fd p).1.writes = m.writes + 1 := by
  rw [lpmDelete]
  split_ifs <;> rfl

private theorem lpmDelete_error_iff (m : VgMaps) (fd : MapFd) (p : VgCidr) :
    (lpmDelete env m fd p).2 = .error ↔ env.fault m.writes = true := by
  rw [lpmDelete]
  split_ifs with hf hany <;> simp [hf]

theorem lpmDelete_frame (m : VgMaps) (fd : MapFd) (p : VgCidr) :
    (lpmDelete env m fd p).1.kernel.cfg = m.kernel.cfg ∧
      ∀ fd', fd' ≠ fd → (lpmDelete env m fd p).1.kernel.lpm fd' = m.kernel.lpm fd' := by
  rw [lpmDelete_kernel]
  split_ifs
  · exact ⟨rfl, fun _ _ => rfl⟩
  · exact ⟨rfl, fun fd' hne => Kernel.setLpm_ne _ _ hne⟩

@[simp] theorem vgDropDel_kernel_cfg (m : VgMaps) (p : VgCidr) :
    (vgDropDel env m p).1.kernel.cfg = m.kernel.cfg :=
  (lpmDelete_frame env m (.drop p.family) p).1

@[simp] theorem vgDropDel_error_iff (m : VgMaps) (p : VgCidr) :
    (vgDropDel env m p).2 = .error ↔ env.fault m.writes = true :=
  lpmDelete_error_iff env m (.drop p.family) p

theorem getNextKey_of_split {t : Lpm} {k : VgCidr} {done rest : List VgCidr}
    (h : t.keys = done ++ k :: rest) : getNextKey t (some k) = rest.head? := by
  have hd : (done ++ k :: rest).Pairwise fun a b => sameKey a b = false := by
    rw [← h, Lpm.keys, List.pairwise_map]
    exact t.distinct
  have hdone : ∀ k' ∈ done, (!sameKey k k') = true := by
    intro k' hk'
    rw [sameKey_comm, (List.pairwise_append.mp hd).2.2 k' hk' k (by simp)]
    rfl
  rw [getNextKey, h, List.dropWhile_append_of_pos hdone, List.dropWhile_cons_of_neg (by simp)]

private theorem Lpm.keys_erase_of_split {t : Lpm} {k : VgCidr} {done rest : List VgCidr}
    (h : t.keys = done ++ k :: rest) : (t.erase k).keys = done ++ rest := by
  have hd : (done ++ k :: rest).Pairwise fun a b => sameKey a b = false := by
    rw [← h, Lpm.keys, List.pairwise_map]
    exact t.distinct
  obtain ⟨-, hr, hdis⟩ := List.pairwise_append.mp hd
  have hk : (t.erase k).keys = t.keys.filter fun k' => !sameKey k k' := by
    simp [Lpm.keys, Lpm.erase, List.filter_map, Function.comp_def]
  rw [hk, h, List.filter_append, List.filter_cons_of_neg (by simp)]
  congr 1
  · rw [List.filter_eq_self]
    intro k' hk'
    rw [sameKey_comm, hdis k' hk' k (by simp)]
    rfl
  · rw [List.filter_eq_self]
    intro k' hk'
    rw [(List.pairwise_cons.mp hr).1 k' hk']
    rfl

def deleteAll (fd : MapFd) (m : VgMaps) (ks : List VgCidr) : VgMaps :=
  ks.foldl (fun m k => (lpmDelete env m fd k).1) m

theorem lpmDelete_split {m : VgMaps} {fd : MapFd} {key : VgCidr} {done rest : List VgCidr}
    (h : (m.kernel.lpm fd).keys = done ++ key :: rest) :
    ∃ done', ((lpmDelete env m fd key).1.kernel.lpm fd).keys = done' ++ rest := by
  rw [lpmDelete_kernel]
  split_ifs
  · exact ⟨done ++ [key], by simp [h]⟩
  · exact ⟨done, by simp [Lpm.keys_erase_of_split h]⟩

private theorem flushLoop_eq_deleteAll (fd : MapFd) {n : ℕ} {m : VgMaps} {key : VgCidr}
    {done rest : List VgCidr} (h : (m.kernel.lpm fd).keys = done ++ key :: rest)
    (hn : rest.length < n) : flushLoop env fd n m key = deleteAll env fd m (key :: rest) := by
  induction n generalizing m key done rest with
  | zero => omega
  | succ n ih =>
    rw [flushLoop, getNextKey_of_split h]
    cases rest with
    | nil => rfl
    | cons next rest =>
      obtain ⟨done', hkeys⟩ := lpmDelete_split env h
      simpa [deleteAll] using ih hkeys (by simpa using hn)

theorem flushLpm_eq_deleteAll (m : VgMaps) (fd : MapFd) :
    flushLpm env m fd = deleteAll env fd m (m.kernel.lpm fd).keys := by
  rw [flushLpm]
  cases h : (m.kernel.lpm fd).keys with
  | nil => simp [getNextKey, h, deleteAll]
  | cons key rest =>
    have hlen : (m.kernel.lpm fd).entries.length = rest.length + 1 := by
      simpa [Lpm.keys] using congrArg List.length h
    simp only [getNextKey, h, List.head?_cons]
    exact @flushLoop_eq_deleteAll env fd _ _ _ [] _ h (by omega)

@[simp] theorem deleteAll_writes (fd : MapFd) (m : VgMaps) (ks : List VgCidr) :
    (deleteAll env fd m ks).writes = m.writes + ks.length := by
  induction ks generalizing m with
  | nil => rfl
  | cons k ks ih =>
    rw [deleteAll, List.foldl_cons, ← deleteAll, ih, lpmDelete_writes, List.length_cons]
    omega

private theorem deleteAll_frame (fd : MapFd) (m : VgMaps) (ks : List VgCidr) :
    (deleteAll env fd m ks).kernel.cfg = m.kernel.cfg ∧
      ∀ fd', fd' ≠ fd → (deleteAll env fd m ks).kernel.lpm fd' = m.kernel.lpm fd' := by
  induction ks generalizing m with
  | nil => exact ⟨rfl, fun _ _ => rfl⟩
  | cons k ks ih =>
    obtain ⟨hcfg, hlpm⟩ := ih (lpmDelete env m fd k).1
    obtain ⟨hcfg₁, hlpm₁⟩ := lpmDelete_frame env m fd k
    rw [deleteAll, List.foldl_cons, ← deleteAll]
    exact ⟨hcfg.trans hcfg₁, fun fd' hne => (hlpm fd' hne).trans (hlpm₁ fd' hne)⟩

theorem mem_lpmDelete (m : VgMaps) (fd : MapFd) (p : VgCidr) (e : VgCidr × MapValue) :
    e ∈ ((lpmDelete env m fd p).1.kernel.lpm fd).entries ↔
      e ∈ (m.kernel.lpm fd).entries ∧ (sameKey p e.1 = true → env.fault m.writes = true) := by
  rw [lpmDelete_kernel]
  cases env.fault m.writes <;> simp

private theorem mem_deleteAll (fd : MapFd) (m : VgMaps) (ks : List VgCidr) (e : VgCidr × MapValue) :
    e ∈ ((deleteAll env fd m ks).kernel.lpm fd).entries ↔ e ∈ (m.kernel.lpm fd).entries ∧
      ∀ q ∈ ks.zipIdx m.writes, sameKey q.1 e.1 = true → env.fault q.2 = true := by
  induction ks generalizing m with
  | nil => simp [deleteAll]
  | cons k ks ih =>
    rw [deleteAll, List.foldl_cons, ← deleteAll, ih, mem_lpmDelete, lpmDelete_writes, and_assoc,
      List.zipIdx_cons, List.forall_mem_cons]

theorem flushLpm_frame (m : VgMaps) (fd : MapFd) :
    (flushLpm env m fd).kernel.cfg = m.kernel.cfg ∧
      ∀ fd', fd' ≠ fd → (flushLpm env m fd).kernel.lpm fd' = m.kernel.lpm fd' := by
  rw [flushLpm_eq_deleteAll]
  exact deleteAll_frame env fd m _

@[simp] theorem flushLpm_writes (m : VgMaps) (fd : MapFd) :
    (flushLpm env m fd).writes = m.writes + (m.kernel.lpm fd).entries.length := by
  rw [flushLpm_eq_deleteAll, deleteAll_writes, Lpm.keys, List.length_map]

private theorem Lpm.eq_of_sameKey {t : Lpm} {w : ℕ} {a b : VgCidr × ℕ} (ha : a ∈ t.keys.zipIdx w)
    (hb : b ∈ t.keys.zipIdx w) (h : sameKey a.1 b.1 = true) : a = b := by
  have hkeys : t.keys.Pairwise fun k k' => sameKey k k' = false := by
    rw [Lpm.keys, List.pairwise_map]
    exact t.distinct
  rw [← List.zipIdx_map_fst w t.keys, List.pairwise_map] at hkeys
  have hsymm : Std.Symm fun a b : VgCidr × ℕ => sameKey a.1 b.1 = false :=
    ⟨fun a b hab => by rwa [sameKey_comm]⟩
  by_contra hne
  rw [hkeys.forall ha hb hne] at h
  cases h

theorem mem_flushLpm (m : VgMaps) (fd : MapFd) (e : VgCidr × MapValue) :
    e ∈ ((flushLpm env m fd).kernel.lpm fd).entries ↔ e ∈ (m.kernel.lpm fd).entries ∧
      ∃ j, (e.1, j) ∈ (m.kernel.lpm fd).keys.zipIdx m.writes ∧ env.fault j = true := by
  rw [flushLpm_eq_deleteAll, mem_deleteAll, and_congr_right_iff]
  intro he
  have hkey : e.1 ∈ (m.kernel.lpm fd).keys := List.mem_map_of_mem he
  rw [← List.zipIdx_map_fst m.writes (m.kernel.lpm fd).keys] at hkey
  obtain ⟨⟨k, i⟩, hi, rfl⟩ := List.mem_map.mp hkey
  constructor
  · intro h
    exact ⟨i, hi, h _ hi (sameKey_self _)⟩
  · rintro ⟨j, hj, hf⟩ q hq hk
    rw [Lpm.eq_of_sameKey hq hj hk, hf]

/-- A flush empties the map exactly when none of its deletes fails. -/
theorem flushLpm_empty_iff (m : VgMaps) (fd : MapFd) :
    ((flushLpm env m fd).kernel.lpm fd).entries = [] ↔
      ∀ j < (m.kernel.lpm fd).entries.length, env.fault (m.writes + j) = false := by
  have hlen : (m.kernel.lpm fd).keys.length = (m.kernel.lpm fd).entries.length := List.length_map _
  constructor
  · intro h j hj
    by_contra hf
    have he := List.getElem_mem hj
    have hmem : ((m.kernel.lpm fd).entries[j].1, m.writes + j) ∈
        (m.kernel.lpm fd).keys.zipIdx m.writes := by
      rw [List.mem_zipIdx_iff_le_and_getElem?_sub]
      simp [Lpm.keys, hj]
    have hleft := (mem_flushLpm env m fd _).mpr ⟨he, _, hmem, by simpa using hf⟩
    simp [h] at hleft
  · intro h
    rw [List.eq_nil_iff_forall_not_mem]
    intro e he
    obtain ⟨-, j, hj, hf⟩ := (mem_flushLpm env m fd e).mp he
    obtain ⟨hle, hlt, -⟩ := List.mem_zipIdx hj
    have hok := h (j - m.writes) (by omega)
    rw [Nat.add_sub_cancel' hle, hf] at hok
    cases hok

theorem vgCfgCommit_eq (m : VgMaps) (armed : ℕ) (cfg : VgConfig) :
    vgCfgCommit env m armed cfg =
      (m.wrote { m.kernel with
        cfg := if env.fault m.writes then m.kernel.cfg else cfgEntry armed cfg },
        !env.fault m.writes) := by
  rw [vgCfgCommit]
  cases env.fault m.writes <;> rfl

/-- Flushing the drop maps leaves everything else alone. -/
theorem vgDropFlush_frame (m : VgMaps) : (vgDropFlush env m).kernel.cfg = m.kernel.cfg ∧
    ∀ fd, (∀ f, fd ≠ .drop f) → (vgDropFlush env m).kernel.lpm fd = m.kernel.lpm fd := by
  obtain ⟨hc₁, hl₁⟩ := flushLpm_frame env m (.drop .inet)
  obtain ⟨hc₂, hl₂⟩ := flushLpm_frame env (flushLpm env m (.drop .inet)) (.drop .inet6)
  exact ⟨hc₂.trans hc₁, fun fd hfd => (hl₂ fd (hfd _)).trans (hl₁ fd (hfd _))⟩

theorem vgDropFlush_writes (m : VgMaps) : (vgDropFlush env m).writes = m.writes +
    (m.kernel.lpm (.drop .inet)).entries.length + (m.kernel.lpm (.drop .inet6)).entries.length := by
  rw [vgDropFlush, flushLpm_writes, flushLpm_writes, (flushLpm_frame env m _).2 _ (by simp)]

private theorem lpmUpdate_frame (m : VgMaps) (fd : MapFd) (p : VgCidr) (v : MapValue) :
    (lpmUpdate env m fd p v).1.kernel.cfg = m.kernel.cfg ∧
      ∀ fd', fd' ≠ fd → (lpmUpdate env m fd p v).1.kernel.lpm fd' = m.kernel.lpm fd' := by
  rw [lpmUpdate]
  split_ifs
  · exact ⟨rfl, fun _ _ => rfl⟩
  · exact ⟨rfl, fun fd' hne => Kernel.setLpm_ne _ _ hne⟩

private theorem populate_frame {fd : Family → MapFd} (m : VgMaps) (nets : List VgCidr) :
    (populate env fd m nets).kernel.cfg = m.kernel.cfg ∧
      ∀ fd', (∀ f, fd' ≠ fd f) → (populate env fd m nets).kernel.lpm fd' = m.kernel.lpm fd' := by
  induction nets generalizing m with
  | nil => exact ⟨rfl, fun _ _ => rfl⟩
  | cons p nets ih =>
    obtain ⟨hc, hl⟩ := ih (lpmUpdate env m (fd p.family) p .one).1
    obtain ⟨hc₁, hl₁⟩ := lpmUpdate_frame env m (fd p.family) p .one
    exact ⟨hc.trans hc₁, fun fd' hne => (hl fd' hne).trans (hl₁ fd' (hne _))⟩

theorem rebuild_frame {fd : Family → MapFd} (m : VgMaps) (nets : List VgCidr) :
    let m' := populate env fd (flushLpm env (flushLpm env m (fd .inet)) (fd .inet6)) nets
    m'.kernel.cfg = m.kernel.cfg ∧
      ∀ fd', (∀ f, fd' ≠ fd f) → m'.kernel.lpm fd' = m.kernel.lpm fd' := by
  obtain ⟨hc₁, hl₁⟩ := flushLpm_frame env m (fd .inet)
  obtain ⟨hc₂, hl₂⟩ := flushLpm_frame env (flushLpm env m (fd .inet)) (fd .inet6)
  obtain ⟨hc₃, hl₃⟩ := @populate_frame env fd
    (flushLpm env (flushLpm env m (fd .inet)) (fd .inet6)) nets
  refine ⟨hc₃.trans (hc₂.trans hc₁), fun fd' hne => ?_⟩
  exact (hl₃ fd' hne).trans ((hl₂ fd' (hne _)).trans (hl₁ fd' (hne _)))

/-- The allow and local maps are rebuilt without touching the array entry or the drop maps. -/
theorem vgPopulate_frame (m : VgMaps) (cfg : VgConfig) :
    (vgPopulateLocal env (vgPopulateAllow env m cfg) cfg).kernel.cfg = m.kernel.cfg ∧
      ∀ f, (vgPopulateLocal env (vgPopulateAllow env m cfg) cfg).kernel.lpm (.drop f) =
        m.kernel.lpm (.drop f) := by
  obtain ⟨hc₁, hl₁⟩ := @rebuild_frame env .allow m cfg.allowCidr
  obtain ⟨hc₂, hl₂⟩ := @rebuild_frame env .localNets (vgPopulateAllow env m cfg)
    cfg.localCidr
  exact ⟨hc₂.trans hc₁, fun f => (hl₂ _ (by simp)).trans (hl₁ _ (by simp))⟩

end Calls

end VoidGate
