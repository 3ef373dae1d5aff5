import VoidGate.MapKeys

/-!
# Rebuilding the maps of networks

`flush_lpm` deletes the keys of the map it walks over, and fetches the successor of a key
before it deletes the key. Its loop has no bound in the source, so that it ends is a result of
its own. A rebuild flushes the two maps of a kind and writes the networks of the configuration;
a network that is listed twice, with or without the same host bits, has one entry in the end,
and networks inside each other have one each.
-/

namespace VoidGate

variable {env : Env} {m m' m'' : VgMaps} {fd : MapFd} {key : VgCidr}

/-- `for ( ;; )` of `flush_lpm`, started at a key, ends with these maps. -/
inductive FlushLoopEnds (env : Env) (fd : MapFd) : VgMaps → VgCidr → VgMaps → Prop
  | last {m : VgMaps} {key : VgCidr} (h : getNextKey (m.kernel.lpm fd) (some key) = none) :
    FlushLoopEnds env fd m key (lpmDelete env m fd key).1
  | more {m m' : VgMaps} {key next : VgCidr}
    (h : getNextKey (m.kernel.lpm fd) (some key) = some next)
    (hrest : FlushLoopEnds env fd (lpmDelete env m fd key).1 next m') :
    FlushLoopEnds env fd m key m'

/-- `flush_lpm` returns with these maps. -/
inductive FlushReturns (env : Env) (fd : MapFd) (m : VgMaps) : VgMaps → Prop
  | empty (h : getNextKey (m.kernel.lpm fd) none = none) : FlushReturns env fd m m
  | loop {m' : VgMaps} {key : VgCidr} (h : getNextKey (m.kernel.lpm fd) none = some key)
    (hloop : FlushLoopEnds env fd m key m') : FlushReturns env fd m m'

private theorem flushLoopEnds_flushLoop {n : ℕ} {done rest : List VgCidr}
    (h : (m.kernel.lpm fd).keys = done ++ key :: rest) (hn : rest.length < n) :
    FlushLoopEnds env fd m key (flushLoop env fd n m key) := by
  induction n generalizing m key done rest with
  | zero => omega
  | succ n ih =>
    have hnext := getNextKey_of_split h
    rw [flushLoop]
    cases rest with
    | nil =>
      rw [hnext]
      exact .last hnext
    | cons next rest =>
      obtain ⟨done', hkeys⟩ := lpmDelete_split env h
      rw [hnext]
      exact .more hnext (ih hkeys (Nat.lt_of_succ_lt_succ hn))

private theorem flushReturns_flushLpm (env : Env) (fd : MapFd) (m : VgMaps) :
    FlushReturns env fd m (flushLpm env m fd) := by
  rw [flushLpm]
  cases h : (m.kernel.lpm fd).keys with
  | nil =>
    have hfirst : getNextKey (m.kernel.lpm fd) none = none := congrArg List.head? h
    rw [hfirst]
    exact .empty hfirst
  | cons key rest =>
    have hfirst : getNextKey (m.kernel.lpm fd) none = some key := congrArg List.head? h
    have hlen : (m.kernel.lpm fd).entries.length = rest.length + 1 := by
      rw [← List.length_map Prod.fst, ← Lpm.keys, h, List.length_cons]
    have hsplit : (m.kernel.lpm fd).keys = [] ++ key :: rest := h
    rw [hfirst]
    exact .loop hfirst (flushLoopEnds_flushLoop hsplit (by omega))

theorem FlushLoopEnds.unique (h : FlushLoopEnds env fd m key m')
    (h' : FlushLoopEnds env fd m key m'') : m' = m'' := by
  induction h with
  | last hnone =>
    cases h' with
    | last _ => rfl
    | more hsome _ => rw [hnone] at hsome; cases hsome
  | more hsome _ ih =>
    cases h' with
    | last hnone => rw [hnone] at hsome; cases hsome
    | more hsome' hrest' =>
      rw [hsome] at hsome'
      cases hsome'
      exact ih hrest'

theorem FlushReturns.unique (h : FlushReturns env fd m m') (h' : FlushReturns env fd m m'') :
    m' = m'' := by
  cases h with
  | empty hnone =>
    cases h' with
    | empty _ => rfl
    | loop hsome _ => rw [hnone] at hsome; cases hsome
  | loop hsome hloop =>
    cases h' with
    | empty hnone => rw [hnone] at hsome; cases hsome
    | loop hsome' hloop' =>
      rw [hsome] at hsome'
      cases hsome'
      exact hloop.unique hloop'

private theorem sameKey_trans {k k' k'' : VgCidr} (h : sameKey k k' = true) (h' : sameKey k' k'' = true) :
    sameKey k k'' = true := by
  rw [sameKey_iff] at h h' ⊢
  exact ⟨h.1.trans h'.1, h.2.trans (h.1 ▸ h'.2)⟩

/-- The two maps of a kind hold the prefixes of the list and no others: every entry is in the list,
and every prefix of the list has an entry with its length and its leading bits. -/
structure Mirrors (k : Kernel) (fd : Family → MapFd) (nets : List VgCidr) : Prop where
  listed : ∀ f, ∀ e ∈ (k.lpm (fd f)).entries, e.1 ∈ nets ∧ e.1.family = f ∧ e.2 = .one
  stored : ∀ p ∈ nets, ∃ e ∈ (k.lpm (fd p.family)).entries, sameKey p e.1 = true

section Rebuild
variable {fd : Family → MapFd} {nets done : List VgCidr} {p : VgCidr}

theorem Mirrors.mem_keys_iff (h : Mirrors m.kernel fd nets) (hmask : ∀ p ∈ nets, p.Masked)
    (f : Family) : p ∈ (m.kernel.lpm (fd f)).keys ↔ p ∈ nets ∧ p.family = f := by
  constructor
  · intro hp
    obtain ⟨e, he, rfl⟩ := List.mem_map.mp hp
    obtain ⟨hmem, hfam, -⟩ := h.listed f e he
    exact ⟨hmem, hfam⟩
  · rintro ⟨hp, rfl⟩
    obtain ⟨e, he, hkey⟩ := h.stored p hp
    obtain ⟨hmem, hfam, -⟩ := h.listed _ e he
    have heq := (sameKey_masked_iff (hmask p hp) (hmask _ hmem) hfam.symm).mp hkey
    exact List.mem_map.mpr ⟨e, he, heq.symm⟩

private theorem mirrors_nil (h : ∀ f, (m.kernel.lpm (fd f)).entries = []) : Mirrors m.kernel fd [] where
  listed f e he := by
    rw [h] at he
    cases he
  stored p hp := by cases hp

/-- An update takes the place of the entry of its prefix, if there is one. -/
theorem Mirrors.lpmUpdate (h : Mirrors m.kernel fd done) (hinj : Function.Injective fd)
    (hok : env.fault m.writes = false) (p : VgCidr) :
    Mirrors (lpmUpdate env m (fd p.family) p .one).1.kernel fd (done ++ [p]) := by
  rw [VoidGate.lpmUpdate, if_neg (by simp [hok])]
  have hother (f : Family) (hf : f ≠ p.family) (t : Lpm) :
      (m.kernel.setLpm (fd p.family) t).lpm (fd f) = m.kernel.lpm (fd f) :=
    Kernel.setLpm_ne _ _ (hinj.ne hf)
  simp only [VgMaps.wrote_kernel]
  constructor
  · intro f e he
    by_cases hf : f = p.family
    · subst hf
      rw [Kernel.setLpm_self, Lpm.mem_update] at he
      rcases he with rfl | ⟨he, -⟩
      · exact ⟨List.mem_append_right _ List.mem_cons_self, rfl, rfl⟩
      · obtain ⟨hmem, hrest⟩ := h.listed _ e he
        exact ⟨List.mem_append_left _ hmem, hrest⟩
    · rw [hother f hf] at he
      obtain ⟨hmem, hrest⟩ := h.listed f e he
      exact ⟨List.mem_append_left _ hmem, hrest⟩
  · intro q hq
    by_cases hf : q.family = p.family
    · rw [hf, Kernel.setLpm_self]
      simp only [Lpm.mem_update]
      rcases List.mem_append.mp hq with hq | hq
      · obtain ⟨e, he, hkey⟩ := h.stored q hq
        rw [hf] at he
        by_cases hp : sameKey p e.1 = true
        · rw [sameKey_comm] at hp
          exact ⟨(p, .one), .inl rfl, sameKey_trans hkey hp⟩
        · exact ⟨e, .inr ⟨he, Bool.not_eq_true _ ▸ hp⟩, hkey⟩
      · rw [List.mem_singleton.mp hq]
        exact ⟨(p, .one), .inl rfl, sameKey_self p⟩
    · rcases List.mem_append.mp hq with hq | hq
      · rw [hother _ hf]
        exact h.stored q hq
      · exact absurd (congrArg VgCidr.family (List.mem_singleton.mp hq)) hf

theorem Mirrors.populate (h : Mirrors m.kernel fd done) (hinj : Function.Injective fd)
    (hok : ∀ j, m.writes ≤ j → env.fault j = false) (nets : List VgCidr) :
    Mirrors (populate env fd m nets).kernel fd (done ++ nets) := by
  induction nets generalizing m done with
  | nil =>
    rw [List.append_nil]
    exact h
  | cons p nets ih =>
    have hstep := h.lpmUpdate hinj (hok _ le_rfl) p
    have hwrites := lpmUpdate_writes env m (fd p.family) p .one
    have hrest := ih hstep fun j hj => hok j (by omega)
    rwa [List.append_assoc, List.singleton_append] at hrest

theorem mirrors_rebuilt (hinj : Function.Injective fd)
    (hok : ∀ j, m.writes ≤ j → env.fault j = false) (nets : List VgCidr) :
    Mirrors (VoidGate.populate env fd (flushBoth env fd m) nets).kernel fd nets := by
  have hok' : ∀ j, (flushBoth env fd m).writes ≤ j → env.fault j = false := fun j hj =>
    hok j ((writes_flushBoth env fd m).writes_le.trans hj)
  exact (mirrors_nil (flushBoth_empty hinj hok)).populate hinj hok' nets

theorem Mirrors.of_eq {k k' : Kernel} (h : Mirrors k fd nets)
    (heq : ∀ f, k'.lpm (fd f) = k.lpm (fd f)) : Mirrors k' fd nets where
  listed f := by
    rw [heq]
    exact h.listed f
  stored p := by
    rw [heq]
    exact h.stored p

theorem mirrors_both {fd' : Family → MapFd} (hinj : Function.Injective fd)
    (hinj' : Function.Injective fd') (hdisj : ∀ f, fd f ∉ Set.range fd')
    (hok : ∀ j, m.writes ≤ j → env.fault j = false) (nets nets' : List VgCidr)
    (hm' : m' = VoidGate.populate env fd (flushBoth env fd m) nets)
    (hm'' : m'' = VoidGate.populate env fd' (flushBoth env fd' m') nets') :
    Mirrors m''.kernel fd nets ∧ Mirrors m''.kernel fd' nets' := by
  have hfirst : Writes (Set.range fd) m m' := by
    rw [hm']
    exact (writes_flushBoth env fd m).trans (writes_populate env fd _ nets)
  have hsecond : Writes (Set.range fd') m' m'' := by
    rw [hm'']
    exact (writes_flushBoth env fd' m').trans (writes_populate env fd' _ nets')
  constructor
  · have hkept : Mirrors m'.kernel fd nets := hm' ▸ mirrors_rebuilt hinj hok nets
    exact hkept.of_eq fun f => hsecond.frame.2 _ (hdisj f)
  · rw [hm'']
    exact mirrors_rebuilt hinj' (fun j hj => hok j (hfirst.writes_le.trans hj)) nets'

end Rebuild

private theorem Lpm.eq_empty {t : Lpm} (h : t.entries = []) : t = .empty := by
  cases t
  subst h
  rfl

/-- From any content of the maps, with map calls that succeed: a flush returns and leaves its map
empty, and after both rebuilds, in either order, the four maps hold the networks of the
configuration and nothing else. -/
theorem map_rebuild_exact (env : Env) (m : VgMaps) (cfg : VgConfig)
    (hok : ∀ j, m.writes ≤ j → env.fault j = false) :
    (∀ fd, FlushReturns env fd m (flushLpm env m fd) ∧
        ∀ m', FlushReturns env fd m m' → m'.kernel.lpm fd = .empty) ∧
      ∀ m', (m' = vgPopulateLocal env (vgPopulateAllow env m cfg) cfg ∨
          m' = vgPopulateAllow env (vgPopulateLocal env m cfg) cfg) →
        Mirrors m'.kernel .localNets cfg.localCidr ∧ Mirrors m'.kernel .allow cfg.allowCidr ∧
        (cfg.NetsMasked → ∀ f p,
          (p ∈ (m'.kernel.lpm (.localNets f)).keys ↔ p ∈ cfg.localCidr ∧ p.family = f) ∧
          (p ∈ (m'.kernel.lpm (.allow f)).keys ↔ p ∈ cfg.allowCidr ∧ p.family = f)) := by
  constructor
  · intro fd
    have hreturns := flushReturns_flushLpm env fd m
    refine ⟨hreturns, fun m' hm' => ?_⟩
    rw [hm'.unique hreturns]
    exact Lpm.eq_empty ((flushLpm_empty_iff env m fd).mpr fun j _ => hok _ (Nat.le_add_right _ _))
  · intro m' hm'
    have hboth : Mirrors m'.kernel .localNets cfg.localCidr ∧
        Mirrors m'.kernel .allow cfg.allowCidr := by
      rcases hm' with rfl | rfl
      · exact (mirrors_both allow_injective localNets_injective (by simp) hok _ _ rfl rfl).symm
      · exact mirrors_both localNets_injective allow_injective (by simp) hok _ _ rfl rfl
    obtain ⟨hlocal, hallow⟩ := hboth
    refine ⟨hlocal, hallow, fun hmask f p => ⟨?_, ?_⟩⟩
    · exact hlocal.mem_keys_iff (fun q hq => hmask q (List.mem_append_left _ hq)) f
    · exact hallow.mem_keys_iff (fun q hq => hmask q (List.mem_append_right _ hq)) f

/-- A network inside another one, and the outer network a second time with host bits. -/
def nestedConfig : VgConfig :=
  { vgConfigDefaults samplePton with
    allowCidr :=
      [⟨.inet, octetsOf [10, 0, 0, 0], 8, by decide⟩, ⟨.inet, octetsOf [10, 1, 0, 0], 16, by decide⟩,
        ⟨.inet, octetsOf [10, 9, 9, 9], 8, by decide⟩] }

/-- They replace the networks that the daemon started with. -/
theorem map_rebuild_exact_nested :
    (steadyStart.maps.kernel.lpm (.localNets .inet)).entries ≠ [] ∧
      Mirrors (vgPopulateLocal steadyEnv
        (vgPopulateAllow steadyEnv steadyStart.maps nestedConfig) nestedConfig).kernel .allow
        nestedConfig.allowCidr :=
  ⟨by decide +kernel, ((map_rebuild_exact steadyEnv steadyStart.maps nestedConfig
    fun _ _ => rfl).2 _ (.inl rfl)).2.1⟩

end VoidGate
