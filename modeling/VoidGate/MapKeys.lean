import VoidGate.ReloadConfig
import VoidGate.MapHistories

/-!
# The keys of the maps

Every prefix that ever reaches a map has no host bits and belongs to the family of
the map, so a map is determined by the set of its prefixes. What a map holds after
it was flushed and filled again is then a matter of which single writes failed.
-/

namespace VoidGate

variable {env : Env} {c c' : VgCtrl}

/-- The family a map is for. -/
def MapFd.family : MapFd → Family
  | .drop f => f
  | .allow f => f
  | .localNets f => f

/-- Every stored prefix has no host bits and belongs to the family of its map. -/
def Kernel.KeysMasked (k : Kernel) : Prop :=
  ∀ fd, ∀ q ∈ (k.lpm fd).keys, q.Masked ∧ q.family = fd.family

private theorem mem_keys_lpmDelete {m : VgMaps} {fd fd' : MapFd} {p q : VgCidr}
    (h : q ∈ ((lpmDelete env m fd p).1.kernel.lpm fd').keys) : q ∈ (m.kernel.lpm fd').keys := by
  by_cases hfd : fd' = fd
  · subst hfd
    obtain ⟨e, he, rfl⟩ := List.mem_map.mp h
    exact List.mem_map_of_mem ((mem_lpmDelete env m fd' p e).mp he).1
  · rwa [(lpmDelete_frame env m fd p).2 fd' hfd] at h

theorem Kernel.KeysMasked.lpmDelete {m : VgMaps} (h : m.kernel.KeysMasked) (fd : MapFd)
    (p : VgCidr) : (lpmDelete env m fd p).1.kernel.KeysMasked :=
  fun fd' q hq => h fd' q (mem_keys_lpmDelete hq)

theorem mem_keys_lpmUpdate {m : VgMaps} (hm : m.kernel.KeysMasked) {fd : MapFd} {p : VgCidr}
    (hp : p.Masked) (hf : p.family = fd.family) (v : MapValue) (fd' : MapFd) (q : VgCidr) :
    q ∈ ((lpmUpdate env m fd p v).1.kernel.lpm fd').keys ↔
      q ∈ (m.kernel.lpm fd').keys ∨ (fd' = fd ∧ q = p ∧ env.fault m.writes = false) := by
  rw [lpmUpdate]
  cases env.fault m.writes with
  | true => simp
  | false =>
    by_cases hfd : fd' = fd
    · subst hfd
      simp only [Bool.false_eq_true, if_false, VgMaps.wrote_kernel, Kernel.setLpm_self, true_and,
        and_true]
      rw [Lpm.mem_keys_update (hm fd') hp hf, or_comm]
    · simp [hfd, Kernel.setLpm_ne _ _ hfd]

theorem Kernel.KeysMasked.lpmUpdate {m : VgMaps} (h : m.kernel.KeysMasked) {fd : MapFd}
    {p : VgCidr} (hp : p.Masked) (hf : p.family = fd.family) (v : MapValue) :
    (lpmUpdate env m fd p v).1.kernel.KeysMasked := by
  intro fd' q hq
  rcases (mem_keys_lpmUpdate h hp hf v fd' q).mp hq with hq | ⟨rfl, rfl, -⟩
  · exact h fd' q hq
  · exact ⟨hp, hf⟩

@[simp] theorem lpmUpdate_writes (env : Env) (m : VgMaps) (fd : MapFd) (p : VgCidr) (v : MapValue) :
    (lpmUpdate env m fd p v).1.writes = m.writes + 1 := by
  rw [lpmUpdate]
  split_ifs <;> rfl

/-- One of the writes for the prefix `p` failed, where those for `ps` start with number `w`. -/
def Refused (env : Env) (w : ℕ) (ps : List VgCidr) (p : VgCidr) : Prop :=
  ∃ j, (p, j) ∈ ps.zipIdx w ∧ env.fault j = true

/-- One of the writes for the prefix `p` went through. -/
def Accepted (env : Env) (w : ℕ) (ps : List VgCidr) (p : VgCidr) : Prop :=
  ∃ j, (p, j) ∈ ps.zipIdx w ∧ env.fault j = false

theorem Refused.mem {w : ℕ} {ps : List VgCidr} {p : VgCidr} (h : Refused env w ps p) : p ∈ ps := by
  obtain ⟨j, hj, -⟩ := h
  exact List.fst_mem_of_mem_zipIdx hj

theorem Accepted.mem {w : ℕ} {ps : List VgCidr} {p : VgCidr} (h : Accepted env w ps p) :
    p ∈ ps := by
  obtain ⟨j, hj, -⟩ := h
  exact List.fst_mem_of_mem_zipIdx hj

private theorem accepted_cons {w : ℕ} {p q : VgCidr} {ps : List VgCidr} :
    Accepted env w (p :: ps) q ↔ (q = p ∧ env.fault w = false) ∨ Accepted env (w + 1) ps q := by
  simp only [Accepted, List.zipIdx_cons, List.mem_cons, Prod.mk.injEq, or_and_right, exists_or,
    and_assoc, exists_and_left, exists_eq_left]

private theorem refused_append {w : ℕ} {ps qs : List VgCidr} {p : VgCidr} :
    Refused env w (ps ++ qs) p ↔ Refused env w ps p ∨ Refused env (w + ps.length) qs p := by
  simp only [Refused, List.zipIdx_append, List.mem_append, or_and_right, exists_or]

theorem Kernel.KeysMasked.flushLpm {m : VgMaps} (h : m.kernel.KeysMasked) (fd : MapFd) :
    (flushLpm env m fd).kernel.KeysMasked := by
  rw [flushLpm_eq_deleteAll]
  generalize (m.kernel.lpm fd).keys = ks
  induction ks generalizing m with
  | nil => exact h
  | cons k ks ih => exact ih (h.lpmDelete fd k)

theorem mem_keys_flushLpm (env : Env) (m : VgMaps) (fd : MapFd) (q : VgCidr) :
    q ∈ ((flushLpm env m fd).kernel.lpm fd).keys ↔
      Refused env m.writes (m.kernel.lpm fd).keys q := by
  constructor
  · intro hq
    obtain ⟨e, he, rfl⟩ := List.mem_map.mp hq
    exact ((mem_flushLpm env m fd e).mp he).2
  · intro hq
    obtain ⟨e, he, rfl⟩ := List.mem_map.mp hq.mem
    exact List.mem_map_of_mem ((mem_flushLpm env m fd e).mpr ⟨he, hq⟩)

def storedKeys (k : Kernel) (fd : Family → MapFd) : List VgCidr :=
  (k.lpm (fd .inet)).keys ++ (k.lpm (fd .inet6)).keys

@[simp] theorem populate_writes (env : Env) (fd : Family → MapFd) (m : VgMaps) (nets : List VgCidr) :
    (populate env fd m nets).writes = m.writes + nets.length := by
  induction nets generalizing m with
  | nil => rfl
  | cons p nets ih =>
    rw [populate, List.foldl_cons, ← populate, ih, lpmUpdate_writes, List.length_cons]
    omega

section Rebuild
variable {fd : Family → MapFd} (hfam : ∀ f, (fd f).family = f) {m : VgMaps}
include hfam

theorem fd_injective : Function.Injective fd := by
  intro f f' h
  rw [← hfam f, h, hfam]

theorem flushBoth_writes : (flushBoth env fd m).writes = m.writes + (storedKeys m.kernel fd).length := by
  rw [flushBoth, flushLpm_writes, flushLpm_writes,
    (flushLpm_frame env m (fd .inet)).2 _ ((fd_injective hfam).ne (by decide)), storedKeys,
    List.length_append, Lpm.keys, Lpm.keys, List.length_map, List.length_map, Nat.add_assoc]

variable (hm : m.kernel.KeysMasked)
include hm

theorem mem_keys_flushBoth (f : Family) (q : VgCidr) :
    q ∈ ((flushBoth env fd m).kernel.lpm (fd f)).keys ↔
      q.family = f ∧ Refused env m.writes (storedKeys m.kernel fd) q := by
  have hne : fd .inet ≠ fd .inet6 := (fd_injective hfam).ne (by decide)
  have hwrites : (flushLpm env m (fd .inet)).writes = m.writes + (m.kernel.lpm (fd .inet)).keys.length := by
    rw [flushLpm_writes, Lpm.keys, List.length_map]
  have hfamily (f' : Family) (hq : q ∈ (m.kernel.lpm (fd f')).keys) : q.family = f' :=
    (hm _ q hq).2.trans (hfam f')
  rw [storedKeys, refused_append, flushBoth]
  cases f with
  | inet =>
    rw [(flushLpm_frame env _ (fd .inet6)).2 _ hne, mem_keys_flushLpm]
    constructor
    · intro h
      exact ⟨hfamily _ h.mem, .inl h⟩
    · rintro ⟨hf, h | h⟩
      · exact h
      · rw [hfamily _ h.mem] at hf
        cases hf
  | inet6 =>
    rw [mem_keys_flushLpm, hwrites, (flushLpm_frame env m (fd .inet)).2 _ hne.symm]
    constructor
    · intro h
      exact ⟨hfamily _ h.mem, .inr h⟩
    · rintro ⟨hf, h | h⟩
      · rw [hfamily _ h.mem] at hf
        cases hf
      · exact h

theorem mem_keys_populate {nets : List VgCidr} (hnets : ∀ p ∈ nets, p.Masked) (f : Family)
    (q : VgCidr) : q ∈ ((populate env fd m nets).kernel.lpm (fd f)).keys ↔
      q ∈ (m.kernel.lpm (fd f)).keys ∨ (q.family = f ∧ Accepted env m.writes nets q) := by
  induction nets generalizing m with
  | nil => simp [populate, Accepted]
  | cons p nets ih =>
    obtain ⟨hp, hrest⟩ := List.forall_mem_cons.mp hnets
    have hpf : p.family = (fd p.family).family := (hfam _).symm
    have hfd : fd f = fd p.family ↔ p.family = f := (fd_injective hfam).eq_iff.trans eq_comm
    rw [populate, List.foldl_cons, ← populate, ih (hm.lpmUpdate hp hpf .one) hrest,
      mem_keys_lpmUpdate hm hp hpf, lpmUpdate_writes, accepted_cons, hfd, or_assoc]
    refine or_congr_right ?_
    constructor
    · rintro (⟨hf, rfl, hok⟩ | ⟨hf, h⟩)
      · exact ⟨hf, .inl ⟨rfl, hok⟩⟩
      · exact ⟨hf, .inr h⟩
    · rintro ⟨hf, ⟨rfl, hok⟩ | h⟩
      · exact .inl ⟨hf, rfl, hok⟩
      · exact .inr ⟨hf, h⟩

theorem Kernel.KeysMasked.populate {nets : List VgCidr} (hnets : ∀ p ∈ nets, p.Masked) :
    (populate env fd m nets).kernel.KeysMasked := by
  induction nets generalizing m with
  | nil => exact hm
  | cons p nets ih =>
    obtain ⟨hp, hrest⟩ := List.forall_mem_cons.mp hnets
    exact ih (hm.lpmUpdate hp (hfam _).symm .one) hrest

end Rebuild

theorem Kernel.KeysMasked.vgPopulate {m : VgMaps} (h : m.kernel.KeysMasked) {cfg : VgConfig}
    (hcfg : cfg.NetsMasked) :
    (vgPopulateLocal env (vgPopulateAllow env m cfg) cfg).kernel.KeysMasked := by
  have hallow : (vgPopulateAllow env m cfg).kernel.KeysMasked :=
    ((h.flushLpm _).flushLpm _).populate (fun _ => rfl) fun p hp =>
      hcfg p (List.mem_append_right _ hp)
  exact ((hallow.flushLpm _).flushLpm _).populate (fun _ => rfl) fun p hp =>
    hcfg p (List.mem_append_left _ hp)

structure PlainKeys (c : VgCtrl) : Prop where
  cfg : c.cfg.NetsMasked
  kernel : c.maps.kernel.KeysMasked

private theorem DropOutcome.keysMasked {p : VgCidr} {reason : Reason} {expires now : ℤ}
    (hout : DropOutcome env c p reason expires now c') (hp : p.Masked)
    (h : c.maps.kernel.KeysMasked) : c'.maps.kernel.KeysMasked := by
  have hupdated : (dropUpdated env c.maps.kernel p reason now).KeysMasked := by
    intro fd q hq
    rw [dropUpdated] at hq
    by_cases hfd : fd = .drop p.family
    · subst hfd
      rw [Kernel.setLpm_self, Lpm.mem_keys_update (h _) hp rfl] at hq
      rcases hq with rfl | hq
      · exact ⟨hp, rfl⟩
      · exact h _ q hq
    · rw [Kernel.setLpm_ne _ _ hfd] at hq
      exact h fd q hq
  cases hout with
  | kept _ hk => exact hk ▸ h
  | listed _ _ hk => exact hk ▸ hupdated
  | rewritten _ _ _ _ _ _ _ hk =>
    rcases hk with ⟨hk, -⟩ | ⟨hk, -⟩
    · exact hk ▸ h
    · exact hk ▸ hupdated

theorem Micro.plainKeys {a : Act} (hm : Micro env a c c') (ha : ∀ n, a ≠ .setCfg n)
    (hmask : a.Masked) (hok : c.drops.Ok) (h : PlainKeys c) : PlainKeys c' := by
  refine ⟨hm.cfg_eq ha ▸ h.cfg, ?_⟩
  cases hm with
  | books hb => exact hb.maps ▸ h.kernel
  | arm hs =>
    have he := vgCtrlArm_idle env hs
    rw [he, vgCfgCommit_eq]
    exact h.kernel
  | drop hs hp => exact (dropListed_outcome hok _ _ _ _).2.keysMasked hmask h.kernel
  | @lift _ i hi =>
    have hdel : (vgDropDel env c.maps (c.drops.pool i).cidr).1.kernel.KeysMasked :=
      h.kernel.lpmDelete _ _
    rcases dropRemove_cases env c i with ⟨-, he⟩ | ⟨-, he⟩
    · rw [he]
      exact hdel
    · rw [he]
      exact hdel
  | stray hf => exact h.kernel.lpmDelete _ _
  | disarm =>
    rw [vgCtrlDisarm_eq, vgCfgCommit_eq]
    exact (h.kernel.flushLpm _).flushLpm _
  | setCfg => exact absurd rfl (ha _)
  | commit =>
    rw [vgCfgCommit_eq]
    exact h.kernel
  | populate => exact h.kernel.vgPopulate h.cfg

private theorem startUp_plainKeys {cfgPath : List UInt8} {ifaceOv : Option (List UInt8)}
    {file : ConfigFile} {nic : Option (List IfAddr)}
    (h : startUp env cfgPath ifaceOv file nic = some c) : PlainKeys c := by
  obtain ⟨-, -, -, -, -, hmaps⟩ := startUp_some h
  obtain ⟨f, hf⟩ := startUp_loaded h
  have hfresh : Kernel.fresh.KeysMasked := fun fd q hq => by cases hq
  have hstart : (startMaps env c.cfg).kernel.KeysMasked :=
    Kernel.KeysMasked.vgPopulate hfresh hf.netsMasked
  refine ⟨hf.netsMasked, ?_⟩
  rw [hmaps]
  exact hstart

theorem Reachable.plainKeys (h : Reachable env c) : PlainKeys c := by
  refine h.invariant startUp_plainKeys fun c cmd hs hi => ?_
  refine step_invariant hs.drops_ok hi (fun x x' a hx hp ha hmask hm => ?_) ?_
  · exact hm.plainKeys ha hmask hx hp
  · intro file nic n _ hn
    obtain ⟨f, hf⟩ := reloadConfig_loaded hn
    exact ⟨hf.netsMasked, hi.kernel⟩

end VoidGate
