import VoidGate.MapKeys
import VoidGate.ReloadPhases
import VoidGate.NeverBlackhole

/-!
# What a reload that reports success has put in place

A reload answers ok as soon as its commit went through. The deletes of the prune
before it and the writes that rebuild the allow and local maps after it may fail
without a trace, and a drop that the kernel holds but the list does not is not even
tried. So the answer means that the new networks are protected only when every
write that mattered went through.
-/

namespace VoidGate

open Runs

variable {env : Env} {c : VgCtrl}

/-- No drop of the list or of the kernel shares an address with a local or an allowed network,
and the kernel has exactly these networks. -/
structure ProtectionInPlace (c : VgCtrl) : Prop where
  listed : ∀ p ∈ c.drops.prefixes, ∀ q ∈ c.cfg.protectedNets, ¬ ∃ x, p.Has x ∧ q.Has x
  dropped : ∀ f, ∀ p ∈ (c.maps.kernel.lpm (.drop f)).keys, ∀ q ∈ c.cfg.protectedNets,
    ¬ ∃ x, p.Has x ∧ q.Has x
  allow : ∀ f p, p ∈ (c.maps.kernel.lpm (.allow f)).keys ↔ p.family = f ∧ p ∈ c.cfg.allowCidr
  localNets : ∀ f p,
    p ∈ (c.maps.kernel.lpm (.localNets f)).keys ↔ p.family = f ∧ p ∈ c.cfg.localCidr

/-- The writes that replace the prefixes `olds` by `nets`, starting with number `w`, end well: a
prefix that could not be deleted is wanted again, and every wanted one was written or was never
deleted. -/
structure Rebuilt (env : Env) (w : ℕ) (olds nets : List VgCidr) : Prop where
  stale : ∀ p, Refused env w olds p → p ∈ nets
  present : ∀ p ∈ nets, Refused env w olds p ∨ Accepted env (w + olds.length) nets p

/-- The number of the write with which a reload to `n` starts to rebuild the local maps. -/
def localAt (c : VgCtrl) (n : VgConfig) : ℕ :=
  commitAt c n + 1 + (storedKeys c.maps.kernel .allow).length + n.allowCidr.length

/-- What has to go well in a reload to `n` besides its commit. -/
structure ReloadClean (env : Env) (c : VgCtrl) (n : VgConfig) : Prop where
  lifted : ∀ j < (c.swapped n).exposed.length, env.fault (c.maps.writes + j) = false
  tracked : ∀ f, ∀ p ∈ (c.maps.kernel.lpm (.drop f)).keys, vgCidrIsProtected n p = true →
    p ∈ c.drops.prefixes
  allow : Rebuilt env (commitAt c n + 1) (storedKeys c.maps.kernel .allow) n.allowCidr
  localNets : Rebuilt env (localAt c n) (storedKeys c.maps.kernel .localNets) n.localCidr

theorem unprotected_iff (cfg : VgConfig) (p : VgCidr) :
    (∀ q ∈ cfg.protectedNets, ¬ ∃ x, p.Has x ∧ q.Has x) ↔ vgCidrIsProtected cfg p = false := by
  rw [← Bool.not_eq_true, vgCidrIsProtected_iff]
  simp only [not_exists, not_and]

theorem rebuild_exact_iff {fd : Family → MapFd} (hfam : ∀ f, (fd f).family = f) {m : VgMaps}
    (hm : m.kernel.KeysMasked) {nets : List VgCidr} (hnets : ∀ p ∈ nets, p.Masked) :
    (∀ f p, p ∈ ((populate env fd (flushBoth env fd m) nets).kernel.lpm (fd f)).keys ↔
        p.family = f ∧ p ∈ nets) ↔
      Rebuilt env m.writes (storedKeys m.kernel fd) nets := by
  have hflush : (flushBoth env fd m).kernel.KeysMasked := (hm.flushLpm _).flushLpm _
  have hmem (f : Family) (p : VgCidr) :
      p ∈ ((populate env fd (flushBoth env fd m) nets).kernel.lpm (fd f)).keys ↔ p.family = f ∧
        (Refused env m.writes (storedKeys m.kernel fd) p ∨
          Accepted env (m.writes + (storedKeys m.kernel fd).length) nets p) := by
    rw [mem_keys_populate hfam hflush hnets, mem_keys_flushBoth hfam hm,
      flushBoth_writes hfam, and_or_left]
  simp only [hmem, and_congr_right_iff]
  constructor
  · intro h
    exact ⟨fun p hp => (h p.family p rfl).mp (.inl hp), fun p hp => (h p.family p rfl).mpr hp⟩
  · intro h f p _
    constructor
    · rintro (hp | hp)
      · exact h.stale p hp
      · exact hp.mem
    · exact h.present p

section Committed
variable {n : VgConfig}

@[simp] theorem committed_writes (env : Env) (c : VgCtrl) (n : VgConfig) :
    (committed env c n).writes = commitAt c n + 1 := by
  rw [committed, VgMaps.wrote_writes, dropDels_writes, commitAt]

theorem committed_frame (env : Env) (c : VgCtrl) (n : VgConfig) {fd : MapFd}
    (hfd : fd ∉ Set.range MapFd.drop) :
    (committed env c n).kernel.lpm fd = c.maps.kernel.lpm fd :=
  (writes_dropDels env c.maps (c.swapped n).exposed).frame.2 fd hfd

theorem PlainKeys.committed (h : PlainKeys c) : (committed env c n).kernel.KeysMasked := by
  have hdels (ps : List VgCidr) (m : VgMaps) (hm : m.kernel.KeysMasked) :
      (dropDels env m ps).kernel.KeysMasked := by
    induction ps generalizing m with
    | nil => exact hm
    | cons p ps ih => exact ih _ (hm.lpmDelete _ p)
  exact hdels _ c.maps h.kernel

theorem PlainKeys.allowFilled (h : PlainKeys c) (hn : n.NetsMasked) :
    (allowFilled env c n).kernel.KeysMasked :=
  ((h.committed.flushLpm _).flushLpm _).populate (fun _ => rfl) fun p hp =>
    hn p (List.mem_append_right _ hp)

@[simp] theorem allowFilled_writes (env : Env) (c : VgCtrl) (n : VgConfig) :
    (allowFilled env c n).writes = localAt c n := by
  have hkeys : storedKeys (committed env c n).kernel .allow = storedKeys c.maps.kernel .allow := by
    rw [storedKeys, committed_frame env c n (by simp), committed_frame env c n (by simp), storedKeys]
  rw [allowFilled, populate_writes, flushBoth_writes fun _ => rfl, committed_writes, hkeys, localAt]

theorem allowFilled_frame (env : Env) (c : VgCtrl) (n : VgConfig) {fd : MapFd}
    (hfd : fd ∉ Set.range MapFd.allow) :
    (allowFilled env c n).kernel.lpm fd = (committed env c n).kernel.lpm fd :=
  ((writes_flushBoth env .allow (committed env c n)).trans
    (writes_populate env .allow _ n.allowCidr)).frame.2 fd hfd

private theorem mem_keys_committed (hs : Sound c) (h : PlainKeys c)
    (hok : ∀ j < (c.swapped n).exposed.length, env.fault (c.maps.writes + j) = false)
    (f : Family) (p : VgCidr) : p ∈ ((committed env c n).kernel.lpm (.drop f)).keys ↔
      p ∈ (c.maps.kernel.lpm (.drop f)).keys ∧ p ∉ (c.swapped n).exposed := by
  have hmasked : ∀ q ∈ (c.swapped n).exposed, q.Masked := fun q hq =>
    hs.masked q (List.mem_of_mem_filter hq)
  have hindex (q : VgCidr × ℕ) (hq : q ∈ (c.swapped n).exposed.zipIdx c.maps.writes) :
      env.fault q.2 = false := by
    obtain ⟨hle, hlt, -⟩ := List.mem_zipIdx hq
    have hj := hok (q.2 - c.maps.writes) (by omega)
    rwa [Nat.add_sub_cancel' hle] at hj
  have hentry (e : VgCidr × MapValue) (he : e ∈ (c.maps.kernel.lpm (.drop f)).entries) :
      (∀ q ∈ (c.swapped n).exposed.zipIdx c.maps.writes, q.1.family = f →
        sameKey q.1 e.1 = true → env.fault q.2 = true) ↔ e.1 ∉ (c.swapped n).exposed := by
    obtain ⟨hemask, hefam⟩ := h.kernel (.drop f) e.1 (List.mem_map_of_mem he)
    constructor
    · intro hall hmem
      rw [← List.zipIdx_map_fst c.maps.writes (c.swapped n).exposed] at hmem
      obtain ⟨q, hq, hqe⟩ := List.mem_map.mp hmem
      have hf := hall q hq (hqe ▸ hefam) (hqe ▸ sameKey_self _)
      rw [hindex q hq] at hf
      cases hf
    · intro hnot q hq hfam hk
      have hqmem : q.1 ∈ (c.swapped n).exposed := List.fst_mem_of_mem_zipIdx hq
      have hqe := (sameKey_masked_iff (hmasked _ hqmem) hemask (hfam.trans hefam.symm)).mp hk
      exact absurd (hqe ▸ hqmem) hnot
  simp only [Lpm.keys, List.mem_map]
  constructor
  · rintro ⟨e, he, rfl⟩
    obtain ⟨hmem, hall⟩ := (mem_dropDels env c.maps _ f e).mp he
    exact ⟨⟨e, hmem, rfl⟩, (hentry e hmem).mp hall⟩
  · rintro ⟨⟨e, he, rfl⟩, hnot⟩
    exact ⟨e, (mem_dropDels env c.maps _ f e).mpr ⟨he, (hentry e he).mpr hnot⟩, rfl⟩

theorem storedKeys_committed (env : Env) (c : VgCtrl) (n : VgConfig) {fd : Family → MapFd}
    (hfd : ∀ f, fd f ∉ Set.range MapFd.drop) :
    storedKeys (committed env c n).kernel fd = storedKeys c.maps.kernel fd := by
  rw [storedKeys, committed_frame env c n (hfd _), committed_frame env c n (hfd _), storedKeys]

private theorem storedKeys_allowFilled (env : Env) (c : VgCtrl) (n : VgConfig) :
    storedKeys (allowFilled env c n).kernel .localNets = storedKeys c.maps.kernel .localNets := by
  rw [← storedKeys_committed env c n (by simp), storedKeys, allowFilled_frame env c n (by simp),
    allowFilled_frame env c n (by simp), storedKeys]

/-- What the list and the drop maps hold is clear of `n` exactly if every lift went through and
the kernel had no protected drop besides the listed ones. -/
private theorem clear_iff (hs : Sound c) (h : PlainKeys c) :
    ((∀ r ∈ survivors env n c.maps.writes c.drops.records, vgCidrIsProtected n r.cidr = false) ∧
      ∀ f, ∀ p ∈ ((committed env c n).kernel.lpm (.drop f)).keys, vgCidrIsProtected n p = false) ↔
    (∀ j < (c.swapped n).exposed.length, env.fault (c.maps.writes + j) = false) ∧
      ∀ f, ∀ p ∈ (c.maps.kernel.lpm (.drop f)).keys, vgCidrIsProtected n p = true →
        p ∈ c.drops.prefixes := by
  have hlist := survivors_unprotected_iff env n c.maps.writes c.drops.records
  rw [hlist]
  refine and_congr_right fun hok => forall_congr' fun f => ?_
  have hmem := mem_keys_committed hs h hok f
  constructor
  · intro hclear p hp hprot
    by_contra hnot
    have hleft := (hmem p).mpr ⟨hp, fun hexp => hnot (List.mem_of_mem_filter hexp)⟩
    rw [hclear p hleft] at hprot
    cases hprot
  · intro htracked p hp
    obtain ⟨hkey, hnot⟩ := (hmem p).mp hp
    by_contra hprot
    rw [Bool.not_eq_false] at hprot
    exact hnot (List.mem_filter.mpr ⟨htracked p hkey hprot, hprot⟩)

/-- A reload whose commit went through has put the protection in place exactly when its other
writes ended well. -/
theorem reloadApply_inPlace_iff (hs : Sound c) (h : PlainKeys c) (hn : n.NetsMasked)
    (hcommit : env.fault (commitAt c n) = false) :
    ProtectionInPlace (reloadApply env (c.swapped n)).1 ↔ ReloadClean env c n := by
  obtain ⟨hmaps, hrec, hcfg⟩ := reloadApply_committed hs.drops_ok hcommit
  have hlast := ((writes_flushBoth env .localNets (allowFilled env c n)).trans
    (writes_populate env .localNets _ n.localCidr)).frame.2
  have hdrop (f : Family) : (reloadApply env (c.swapped n)).1.maps.kernel.lpm (.drop f) =
      (committed env c n).kernel.lpm (.drop f) := by
    rw [hmaps, hlast _ (by simp), allowFilled_frame env c n (by simp)]
  have hallow (f : Family) : (reloadApply env (c.swapped n)).1.maps.kernel.lpm (.allow f) =
      (allowFilled env c n).kernel.lpm (.allow f) := by
    rw [hmaps, hlast _ (by simp)]
  have hclear := @clear_iff env c n hs h
  have hcommitted : (committed env c n).kernel.KeysMasked := h.committed
  have hfilled : (allowFilled env c n).kernel.KeysMasked := h.allowFilled hn
  have hallowIff := @rebuild_exact_iff env .allow (fun _ => rfl) _ hcommitted n.allowCidr
    fun p hp => hn p (List.mem_append_right _ hp)
  rw [committed_writes, storedKeys_committed env c n (by simp)] at hallowIff
  have hlocalIff := @rebuild_exact_iff env .localNets (fun _ => rfl) _ hfilled n.localCidr
    fun p hp => hn p (List.mem_append_left _ hp)
  rw [allowFilled_writes, storedKeys_allowFilled] at hlocalIff
  constructor
  · rintro ⟨hl, hd, ha, hloc⟩
    simp only [hcfg, unprotected_iff, DropTable.prefixes, hrec, List.forall_mem_map] at hl
    simp only [hcfg, unprotected_iff, hdrop] at hd
    simp only [hcfg, hallow] at ha
    simp only [hcfg, hmaps] at hloc
    obtain ⟨hlifted, htracked⟩ := hclear.mp ⟨hl, hd⟩
    exact ⟨hlifted, htracked, hallowIff.mp ha, hlocalIff.mp hloc⟩
  · rintro ⟨hlifted, htracked, ha, hloc⟩
    obtain ⟨hl, hd⟩ := hclear.mpr ⟨hlifted, htracked⟩
    refine ⟨?_, ?_, ?_, ?_⟩
    · simpa only [hcfg, unprotected_iff, DropTable.prefixes, hrec, List.forall_mem_map] using hl
    · simpa only [hcfg, unprotected_iff, hdrop] using hd
    · simpa only [hcfg, hallow, allowFilled] using hallowIff.mpr ha
    · simpa only [hcfg, hmaps] using hlocalIff.mpr hloc

end Committed

/-- In every reachable state, for every config file and every pattern of failures: if a reload
reports success then the protection of the new configuration is in place, exactly when, with the
commit going through, the other writes end well too. -/
theorem reload_ok_protects_iff (h : Reachable env c) (file : ConfigFile)
    (nic : Option (List IfAddr)) :
    ((vgCtrlReload env c file nic).2 = true →
        ProtectionInPlace (vgCtrlReload env c file nic).1) ↔
      ∀ n, reloadConfig env c file nic = some n → env.fault (commitAt c n) = false →
        ReloadClean env c n := by
  rw [vgCtrlReload]
  cases hn : reloadConfig env c file nic with
  | none => simp
  | some n =>
    obtain ⟨f, hf⟩ := reloadConfig_loaded hn
    have hok := (@reloadApply_result env c h.sound.drops_ok n).1
    have hiff := fun hcommit => @reloadApply_inPlace_iff env c n h.sound h.plainKeys hf.netsMasked
      hcommit
    simp only [Option.some.injEq, forall_eq']
    rw [← hok]
    exact forall_congr' fun hres => hiff (hok.mp hres)

/-- The small host drops 198.18.0.1 and gets this address itself. Every write of the reload goes
through. -/
theorem reload_ok_protects_sample : Reachable steadyEnv (step steadyEnv steadyStart
      (.drop (sampleHost [198, 18, 0, 1]))) ∧
    (vgCtrlReload steadyEnv (step steadyEnv steadyStart (.drop (sampleHost [198, 18, 0, 1])))
      (.opened [] false) movedNic).2 = true ∧
    ProtectionInPlace (vgCtrlReload steadyEnv (step steadyEnv steadyStart
      (.drop (sampleHost [198, 18, 0, 1]))) (.opened [] false) movedNic).1 := by
  have hrun : Reaches (step steadyEnv) (fun _ _ => True) steadyStart _ :=
    Reaches.start.next (.drop (sampleHost [198, 18, 0, 1])) trivial
  have hreach : Reachable steadyEnv _ := ⟨_, _, _, _, _, steadyStart_eq, hrun⟩
  have hres : (vgCtrlReload steadyEnv (step steadyEnv steadyStart
      (.drop (sampleHost [198, 18, 0, 1]))) (.opened [] false) movedNic).2 = true := by
    decide +kernel
  refine ⟨hreach, hres, (reload_ok_protects_iff hreach _ _).mpr (fun n _ _ => ?_) hres⟩
  obtain ⟨htracked, -⟩ := hreach.guarded fun _ => rfl
  have hnone (w : ℕ) (ps : List VgCidr) (p : VgCidr) : ¬ Refused steadyEnv w ps p := by
    rintro ⟨j, -, hj⟩
    cases hj
  have hall (w : ℕ) (ps : List VgCidr) (p : VgCidr) (hp : p ∈ ps) : Accepted steadyEnv w ps p := by
    rw [← List.zipIdx_map_fst w ps] at hp
    obtain ⟨q, hq, rfl⟩ := List.mem_map.mp hp
    exact ⟨q.2, hq, rfl⟩
  refine ⟨fun _ _ => rfl, fun f p hp _ => ((htracked.tracked f p).mp hp).2, ?_, ?_⟩
  · exact ⟨fun p hp => absurd hp (hnone _ _ p), fun p hp => .inr (hall _ _ p hp)⟩
  · exact ⟨fun p hp => absurd hp (hnone _ _ p), fun p hp => .inr (hall _ _ p hp)⟩

/-- The same reload on a host on which the delete of the prune fails: it reports success, and the
host's own address is still dropped, in the list and in the kernel. -/
theorem reload_ok_keeps_drop : ∃ c, Reachable flakyEnv c ∧
    (vgCtrlReload flakyEnv c (.opened [] false) movedNic).2 = true ∧
    (vgCtrlReload flakyEnv c (.opened [] false) movedNic).1.cfg.localCidr =
      [(sampleHost [198, 18, 0, 1]).1] ∧
    (vgCtrlReload flakyEnv c (.opened [] false) movedNic).1.drops.prefixes =
      [(sampleHost [198, 18, 0, 1]).1] ∧
    (sampleHost [198, 18, 0, 1]).1 ∈ ((vgCtrlReload flakyEnv c
      (.opened [] false) movedNic).1.maps.kernel.lpm (.drop .inet)).keys ∧
    ¬ ProtectionInPlace (vgCtrlReload flakyEnv c (.opened [] false) movedNic).1 := by
  have hrun : Reaches (step flakyEnv) (fun _ _ => True) flakyStart _ :=
    Reaches.start.next (.drop (sampleHost [198, 18, 0, 1])) trivial
  have hlisted : (vgCtrlReload flakyEnv (step flakyEnv flakyStart
      (.drop (sampleHost [198, 18, 0, 1]))) (.opened [] false) movedNic).1.drops.prefixes =
        [(sampleHost [198, 18, 0, 1]).1] := by decide +kernel
  have hprot : vgCidrIsProtected (vgCtrlReload flakyEnv (step flakyEnv flakyStart
      (.drop (sampleHost [198, 18, 0, 1]))) (.opened [] false) movedNic).1.cfg
        (sampleHost [198, 18, 0, 1]).1 = true := by decide +kernel
  refine ⟨_, ⟨_, _, _, _, _, flakyStart_eq, hrun⟩, by decide +kernel, by decide +kernel, hlisted,
    by decide +kernel, fun hplace => ?_⟩
  have hmem : (sampleHost [198, 18, 0, 1]).1 ∈ (vgCtrlReload flakyEnv (step flakyEnv flakyStart
      (.drop (sampleHost [198, 18, 0, 1]))) (.opened [] false) movedNic).1.drops.prefixes := by
    rw [hlisted]
    exact List.mem_singleton_self _
  have hclear := (unprotected_iff _ _).mp (hplace.listed _ hmem)
  rw [hprot] at hclear
  cases hclear

end VoidGate
