import VoidGate.CtlServer

/-!
# What calls leave alone

A drop in an armed gate, and every lift, change the drop list, the maps and the clock
only. Only the walk of a tick compares the rates of remotes: every other call leaves
the log of comparisons alone, and the snapshots as well unless it arms the gate, which
forgets them all. An armed gate has been armed for a while, with its quiet time and its
snapshots, or its period begins, without either.
-/

namespace VoidGate

/-- Nothing changed but the drop list, the maps and the clock. -/
def DropsOnly (c c' : VgCtrl) : Prop :=
  ∃ maps drops clock, c' = { c with maps := maps, drops := drops, clock := clock }

/-- No rate was compared, and the snapshots are at most forgotten. -/
structure Still (c c' : VgCtrl) : Prop where
  judged : c'.judged = c.judged
  snaps_ok : c.snaps.Ok → c'.snaps.Ok

def VisitsOnly (c c' : VgCtrl) : Prop :=
  ∃ snaps judged maps drops clock, c' =
    { c with snaps := snaps, judged := judged, maps := maps, drops := drops, clock := clock }

structure SameRates (c c' : VgCtrl) : Prop where
  haveLastM : c'.haveLastM = c.haveLastM
  rxPps : c'.rxPps = c.rxPps
  rxBps : c'.rxBps = c.rxBps

/-- The readings that rates are made of are unchanged as well. -/
structure SameSamples (c c' : VgCtrl) : Prop extends SameRates c c' where
  lastM : c'.lastM = c.lastM
  lastTick : c'.lastTick = c.lastTick
  haveLastTick : c'.haveLastTick = c.haveLastTick

structure SamePeriod (c c' : VgCtrl) : Prop where
  state : c'.state = c.state
  quietSince : c'.quietSince = c.quietSince
  snaps : c'.snaps = c.snaps

/-- If the gate is armed now, then it was armed before and its period goes on, or its period begins
without a quiet time and without snapshots. -/
def KeepsPeriod (c c' : VgCtrl) : Prop :=
  c'.state = .active → (c.state = .active ∧ SamePeriod c c') ∨
    (c'.quietSince = 0 ∧ c'.snaps = c.snaps.snapResetPool)

variable {c c' c'' : VgCtrl}

theorem Still.refl (c : VgCtrl) : Still c c := ⟨rfl, id⟩

theorem Still.trans (h : Still c c') (h' : Still c' c'') : Still c c'' :=
  ⟨h'.judged.trans h.judged, h'.snaps_ok ∘ h.snaps_ok⟩

theorem DropsOnly.refl (c : VgCtrl) : DropsOnly c c := ⟨c.maps, c.drops, c.clock, rfl⟩

theorem DropsOnly.trans (h : DropsOnly c c') (h' : DropsOnly c' c'') : DropsOnly c c'' := by
  obtain ⟨maps, drops, clock, rfl⟩ := h
  obtain ⟨maps', drops', clock', rfl⟩ := h'
  exact ⟨maps', drops', clock', rfl⟩

theorem DropsOnly.state (h : DropsOnly c c') : c'.state = c.state := by
  obtain ⟨maps, drops, clock, rfl⟩ := h
  rfl

theorem DropsOnly.still (h : DropsOnly c c') : Still c c' := by
  obtain ⟨maps, drops, clock, rfl⟩ := h
  exact ⟨rfl, id⟩

theorem DropsOnly.sameSamples (h : DropsOnly c c') : SameSamples c c' := by
  obtain ⟨maps, drops, clock, rfl⟩ := h
  exact ⟨⟨rfl, rfl, rfl⟩, rfl, rfl, rfl⟩

theorem DropsOnly.samePeriod (h : DropsOnly c c') : SamePeriod c c' := by
  obtain ⟨maps, drops, clock, rfl⟩ := h
  exact ⟨rfl, rfl, rfl⟩

theorem DropsOnly.visitsOnly (h : DropsOnly c c') : VisitsOnly c c' := by
  obtain ⟨maps, drops, clock, rfl⟩ := h
  exact ⟨c.snaps, c.judged, maps, drops, clock, rfl⟩

theorem dropsOnly_clock (c : VgCtrl) (n : ℕ) : DropsOnly c { c with clock := n } :=
  ⟨c.maps, c.drops, n, rfl⟩

theorem dropListed_dropsOnly (env : Env) (c : VgCtrl) (p : VgCidr) (reason : Reason)
    (expires now : ℤ) : DropsOnly c (dropListed env c p reason expires now).1 := by
  obtain ⟨maps, drops, he⟩ := dropListed_frame env c p reason expires now
  exact ⟨maps, drops, c.clock, he⟩

theorem dropAdd_dropsOnly (env : Env) (h : c.state = .active) (p : VgCidr) (reason : Reason)
    (expires : ℤ) : DropsOnly c (dropAdd env c p reason expires).1 := by
  have harm : vgCtrlArm env { c with clock := c.clock + 1 } =
      ({ c with clock := c.clock + 1 }, true) := if_pos h
  rw [dropAdd, dropAt, harm]
  split_ifs
  · exact dropsOnly_clock c _
  · exact (dropsOnly_clock c _).trans (dropListed_dropsOnly env _ p reason expires _)

private theorem maybeAggregate_dropsOnly (env : Env) (h : c.state = .active) (host : VgCidr) :
    DropsOnly c (maybeAggregate env c host) := by
  rw [maybeAggregate]
  split
  · exact .refl c
  · split_ifs
    · exact dropAdd_dropsOnly env h _ .aggregate 0
    · exact .refl c

/-- The end of a visit that found its remote above a threshold. -/
theorem policyDrop_dropsOnly (env : Env) (h : c.state = .active) (host : VgCidr) :
    DropsOnly c (policyDrop env c host) := by
  have hdrop : DropsOnly c (vgCtrlDrop env c host .policy).1 :=
    dropAdd_dropsOnly env h host .policy 0
  rw [policyDrop]
  split_ifs
  · exact hdrop.trans (maybeAggregate_dropsOnly env (hdrop.state.trans h) host)
  · exact hdrop

theorem dropRemove_dropsOnly (env : Env) (c : VgCtrl) (i : ℕ) :
    DropsOnly c (dropRemove env c i).1 := by
  rcases dropRemove_cases env c i with ⟨-, he⟩ | ⟨-, he⟩ <;> exact ⟨_, _, c.clock, he⟩

theorem vgCtrlUndrop_dropsOnly (env : Env) (c : VgCtrl) (p : VgCidr) :
    DropsOnly c (vgCtrlUndrop env c p).1 := by
  rw [vgCtrlUndrop]
  split
  · exact dropRemove_dropsOnly env c _
  · exact ⟨_, c.drops, c.clock, rfl⟩

theorem forEachDrop_dropsOnly {body : VgCtrl → ℕ → VgCtrl} (hbody : ∀ c i, DropsOnly c (body c i))
    (c : VgCtrl) : DropsOnly c (forEachDrop body c) := by
  rw [forEachDrop]
  generalize c.drops.lists.next .dropAll = l
  generalize c.drops.used = k
  induction k generalizing c l with
  | zero => exact .refl c
  | succ k ih =>
    rw [forEachSafe]
    split
    · exact .refl c
    · exact (hbody c _).trans (ih _ _)

theorem vgCtrlPruneProtected_dropsOnly (env : Env) (c : VgCtrl) :
    DropsOnly c (vgCtrlPruneProtected env c) := by
  refine forEachDrop_dropsOnly (fun x i => ?_) c
  rw [pruneOne]
  split_ifs
  · exact dropRemove_dropsOnly env x i
  · exact .refl x

theorem expireDrops_dropsOnly (env : Env) (c : VgCtrl) : DropsOnly c (expireDrops env c) := by
  refine (dropsOnly_clock c _).trans (forEachDrop_dropsOnly (fun x i => ?_) _)
  rw [expireOne]
  split_ifs
  · exact .refl x
  · exact dropRemove_dropsOnly env x i

theorem VisitsOnly.trans (h : VisitsOnly c c') (h' : VisitsOnly c' c'') : VisitsOnly c c'' := by
  obtain ⟨snaps, judged, maps, drops, clock, rfl⟩ := h
  obtain ⟨snaps', judged', maps', drops', clock', rfl⟩ := h'
  exact ⟨snaps', judged', maps', drops', clock', rfl⟩

theorem VisitsOnly.state (h : VisitsOnly c c') : c'.state = c.state := by
  obtain ⟨snaps, judged, maps, drops, clock, rfl⟩ := h
  rfl

theorem VisitsOnly.cfg (h : VisitsOnly c c') : c'.cfg = c.cfg := by
  obtain ⟨snaps, judged, maps, drops, clock, rfl⟩ := h
  rfl

theorem VisitsOnly.quietSince (h : VisitsOnly c c') : c'.quietSince = c.quietSince := by
  obtain ⟨snaps, judged, maps, drops, clock, rfl⟩ := h
  rfl

theorem VisitsOnly.sameSamples (h : VisitsOnly c c') : SameSamples c c' := by
  obtain ⟨snaps, judged, maps, drops, clock, rfl⟩ := h
  exact ⟨⟨rfl, rfl, rfl⟩, rfl, rfl, rfl⟩

theorem policyOneRemote_visitsOnly (env : Env) (dt : ℚ) (h : c.state = .active) (r : Remote) :
    VisitsOnly c (policyOneRemote env dt c r) := by
  obtain ⟨snaps, judged, hcases⟩ := policyOneRemote_cases env dt c r
  have hbooks : VisitsOnly c { c with snaps := snaps, judged := judged } :=
    ⟨snaps, judged, c.maps, c.drops, c.clock, rfl⟩
  rcases hcases with he | ⟨-, he⟩
  · exact he ▸ hbooks
  · exact he ▸ hbooks.trans (policyDrop_dropsOnly env (by exact h) r.host.host).visitsOnly

private theorem foldl_policyOneRemote_visitsOnly (env : Env) (dt : ℚ) (h : c.state = .active)
    (rs : List Remote) : VisitsOnly c (rs.foldl (policyOneRemote env dt) c) := by
  induction rs generalizing c with
  | nil => exact (DropsOnly.refl c).visitsOnly
  | cons r rs ih =>
    have hr := policyOneRemote_visitsOnly env dt h r
    exact hr.trans (ih (hr.state.trans h))

theorem walkRemotes_visitsOnly (env : Env) (dt : ℚ) (h : c.state = .active) (t : TickIn) :
    VisitsOnly c (walkRemotes env dt c t) := by
  have hsnaps : ∀ (x : VgCtrl) (snaps : SnapTable), VisitsOnly x { x with snaps := snaps } :=
    fun x snaps => ⟨snaps, x.judged, x.maps, x.drops, x.clock, rfl⟩
  have hfold := (hsnaps c (nextGen c.snaps)).trans
    (foldl_policyOneRemote_visitsOnly env dt (by exact h) t.remotes)
  rw [walkRemotes]
  split_ifs
  · exact hfold.trans (hsnaps _ _)
  · exact hfold

theorem vgCtrlArm_still (env : Env) (c : VgCtrl) : Still c (vgCtrlArm env c).1 := by
  simp only [vgCtrlArm]
  split_ifs
  · exact .refl c
  all_goals exact ⟨rfl, fun _ => ⟨_, _, c.snaps.inv_reset⟩⟩

theorem dropAdd_still (env : Env) (c : VgCtrl) (p : VgCidr) (reason : Reason) (expires : ℤ) :
    Still c (dropAdd env c p reason expires).1 := by
  have hclock := (dropsOnly_clock c (c.clock + 1)).still
  simp only [dropAdd, dropAt]
  split_ifs
  · exact hclock
  · exact (hclock.trans (vgCtrlArm_still env _)).trans
      (dropListed_dropsOnly env _ p reason expires _).still
  · exact hclock.trans (vgCtrlArm_still env _)

theorem vgCtrlDisarm_still (env : Env) (c : VgCtrl) : Still c (vgCtrlDisarm env c).1 := by
  rw [vgCtrlDisarm_eq]
  exact ⟨rfl, id⟩

theorem vgCtrlReload_still (env : Env) (c : VgCtrl) (file : ConfigFile)
    (nic : Option (List IfAddr)) : Still c (vgCtrlReload env c file nic).1 := by
  rw [vgCtrlReload]
  split
  · exact .refl c
  · rename_i n _
    have hprune := (vgCtrlPruneProtected_dropsOnly env { c with cfg := n }).still
    simp only [reloadApply]
    split_ifs <;> exact ⟨hprune.judged, hprune.snaps_ok⟩

theorem quietTest_still (env : Env) (c : VgCtrl) : Still c (quietTest env c) := by
  have hstart : Still c (quietStart env c) := by
    rw [quietStart]
    split_ifs <;> exact ⟨rfl, id⟩
  simp only [quietTest]
  split_ifs
  · have hdisarm := vgCtrlDisarm_still env
      { quietStart env c with clock := (quietStart env c).clock + 1 }
    exact hstart.trans ⟨hdisarm.judged, hdisarm.snaps_ok⟩
  · exact ⟨hstart.judged, hstart.snaps_ok⟩
  · exact hstart
  · exact ⟨rfl, id⟩

theorem SamePeriod.trans (h : SamePeriod c c') (h' : SamePeriod c' c'') : SamePeriod c c'' :=
  ⟨h'.state.trans h.state, h'.quietSince.trans h.quietSince, h'.snaps.trans h.snaps⟩

theorem SamePeriod.keepsPeriod (h : SamePeriod c c') : KeepsPeriod c c' :=
  fun hs => .inl ⟨h.state.symm.trans hs, h⟩

theorem SamePeriod.trans_keepsPeriod (h : SamePeriod c c') (h' : KeepsPeriod c' c'') :
    KeepsPeriod c c'' := by
  intro hs
  rcases h' hs with ⟨hs', hsame⟩ | ⟨hquiet, hsnaps⟩
  · exact .inl ⟨h.state.symm.trans hs', h.trans hsame⟩
  · exact .inr ⟨hquiet, h.snaps ▸ hsnaps⟩

private theorem KeepsPeriod.trans_samePeriod (h : KeepsPeriod c c') (h' : SamePeriod c' c'') :
    KeepsPeriod c c'' := by
  intro hs
  rcases h (h'.state.symm.trans hs) with ⟨hs', hsame⟩ | ⟨hquiet, hsnaps⟩
  · exact .inl ⟨hs', hsame.trans h'⟩
  · exact .inr ⟨h'.quietSince.trans hquiet, h'.snaps.trans hsnaps⟩

theorem vgCtrlArm_keepsPeriod (env : Env) (c : VgCtrl) : KeepsPeriod c (vgCtrlArm env c).1 := by
  cases hs : c.state with
  | active =>
    rw [vgCtrlArm, if_pos hs]
    exact (DropsOnly.refl c).samePeriod.keepsPeriod
  | idle =>
    rw [vgCtrlArm_idle env hs]
    exact fun _ => .inr ⟨rfl, rfl⟩

private theorem vgCtrlDisarm_keepsPeriod (env : Env) (c : VgCtrl) :
    KeepsPeriod c (vgCtrlDisarm env c).1 := by
  rw [vgCtrlDisarm_eq]
  split_ifs with hcommit
  · exact fun hs => by cases hs
  · exact SamePeriod.keepsPeriod ⟨rfl, rfl, rfl⟩

theorem dropAdd_keepsPeriod (env : Env) (c : VgCtrl) (p : VgCidr) (reason : Reason)
    (expires : ℤ) : KeepsPeriod c (dropAdd env c p reason expires).1 := by
  have hclock := (dropsOnly_clock c (c.clock + 1)).samePeriod
  have harm := vgCtrlArm_keepsPeriod env { c with clock := c.clock + 1 }
  simp only [dropAdd, dropAt]
  split_ifs
  · exact hclock.keepsPeriod
  · exact hclock.trans_keepsPeriod
      (harm.trans_samePeriod (dropListed_dropsOnly env _ p reason expires _).samePeriod)
  · exact hclock.trans_keepsPeriod harm

private theorem vgCtrlReload_keepsPeriod (env : Env) (c : VgCtrl) (file : ConfigFile)
    (nic : Option (List IfAddr)) : KeepsPeriod c (vgCtrlReload env c file nic).1 := by
  rw [vgCtrlReload]
  split
  · exact (DropsOnly.refl c).samePeriod.keepsPeriod
  · rename_i n _
    have hprune := (vgCtrlPruneProtected_dropsOnly env { c with cfg := n }).samePeriod
    simp only [reloadApply]
    split_ifs <;> exact SamePeriod.keepsPeriod ⟨hprune.state, hprune.quietSince, hprune.snaps⟩

theorem SameSamples.trans (h : SameSamples c c') (h' : SameSamples c' c'') : SameSamples c c'' :=
  ⟨⟨h'.haveLastM.trans h.haveLastM, h'.rxPps.trans h.rxPps, h'.rxBps.trans h.rxBps⟩,
    h'.lastM.trans h.lastM, h'.lastTick.trans h.lastTick, h'.haveLastTick.trans h.haveLastTick⟩

theorem vgCtrlArm_sameSamples (env : Env) (c : VgCtrl) : SameSamples c (vgCtrlArm env c).1 := by
  simp only [vgCtrlArm]
  split_ifs <;> exact ⟨⟨rfl, rfl, rfl⟩, rfl, rfl, rfl⟩

theorem vgCtrlDisarm_sameSamples (env : Env) (c : VgCtrl) : SameSamples c (vgCtrlDisarm env c).1 := by
  rw [vgCtrlDisarm_eq]
  exact ⟨⟨rfl, rfl, rfl⟩, rfl, rfl, rfl⟩

theorem dropAdd_sameSamples (env : Env) (c : VgCtrl) (p : VgCidr) (reason : Reason)
    (expires : ℤ) : SameSamples c (dropAdd env c p reason expires).1 := by
  have hclock := (dropsOnly_clock c (c.clock + 1)).sameSamples
  simp only [dropAdd, dropAt]
  split_ifs
  · exact hclock
  · exact (hclock.trans (vgCtrlArm_sameSamples env _)).trans
      (dropListed_dropsOnly env _ p reason expires _).sameSamples
  · exact hclock.trans (vgCtrlArm_sameSamples env _)

private theorem vgCtrlReload_sameSamples (env : Env) (c : VgCtrl) (file : ConfigFile)
    (nic : Option (List IfAddr)) : SameSamples c (vgCtrlReload env c file nic).1 := by
  rw [vgCtrlReload]
  split
  · exact (DropsOnly.refl c).sameSamples
  · rename_i n _
    have hprune := (vgCtrlPruneProtected_dropsOnly env { c with cfg := n }).sameSamples
    simp only [reloadApply]
    split_ifs <;> exact ⟨⟨hprune.haveLastM, hprune.rxPps, hprune.rxBps⟩, hprune.lastM,
      hprune.lastTick, hprune.haveLastTick⟩

theorem quietTest_sameSamples (env : Env) (c : VgCtrl) : SameSamples c (quietTest env c) := by
  have hstart : SameSamples c (quietStart env c) := by
    rw [quietStart]
    split_ifs <;> exact ⟨⟨rfl, rfl, rfl⟩, rfl, rfl, rfl⟩
  simp only [quietTest]
  split_ifs
  · exact (hstart.trans (dropsOnly_clock _ _).sameSamples).trans (vgCtrlDisarm_sameSamples env _)
  · exact hstart.trans (dropsOnly_clock _ _).sameSamples
  · exact hstart
  · exact ⟨⟨rfl, rfl, rfl⟩, rfl, rfl, rfl⟩

theorem step_keepsPeriod (env : Env) (c : VgCtrl) {cmd : Cmd} (h : ∀ t, cmd ≠ .tick t) :
    KeepsPeriod c (step env c cmd) := by
  cases cmd with
  | drop p => exact dropAdd_keepsPeriod env c p.1 .manual 0
  | dropTtl p ttl =>
    exact (dropsOnly_clock c _).samePeriod.trans_keepsPeriod
      (dropAdd_keepsPeriod env _ p.1 .timed _)
  | undrop p => exact (vgCtrlUndrop_dropsOnly env c p.1).samePeriod.keepsPeriod
  | arm => exact vgCtrlArm_keepsPeriod env c
  | disarm => exact vgCtrlDisarm_keepsPeriod env c
  | reload file nic => exact vgCtrlReload_keepsPeriod env c file nic
  | tick t => exact absurd rfl (h t)

/-- Only ticks take samples. -/
theorem step_sameSamples (env : Env) (c : VgCtrl) {cmd : Cmd} (h : ∀ t, cmd ≠ .tick t) :
    SameSamples c (step env c cmd) := by
  cases cmd with
  | drop p => exact dropAdd_sameSamples env c p.1 .manual 0
  | dropTtl p ttl =>
    exact (dropsOnly_clock c _).sameSamples.trans (dropAdd_sameSamples env _ p.1 .timed _)
  | undrop p => exact (vgCtrlUndrop_dropsOnly env c p.1).sameSamples
  | arm => exact vgCtrlArm_sameSamples env c
  | disarm => exact vgCtrlDisarm_sameSamples env c
  | reload file nic => exact vgCtrlReload_sameSamples env c file nic
  | tick t => exact absurd rfl (h t)

theorem tickDt_still (c : VgCtrl) (now : Timespec) : Still c (tickDt c now).1 := by
  rw [tickDt]
  split_ifs <;> exact ⟨rfl, id⟩

theorem tickDt_samePeriod (c : VgCtrl) (now : Timespec) : SamePeriod c (tickDt c now).1 := by
  rw [tickDt]
  split_ifs <;> exact ⟨rfl, rfl, rfl⟩

theorem tickDt_sameRates (c : VgCtrl) (now : Timespec) : SameRates c (tickDt c now).1 := by
  rw [tickDt]
  split_ifs <;> exact ⟨rfl, rfl, rfl⟩

theorem updateRates_samePeriod (c : VgCtrl) (m : VgMetrics) (dt : ℚ) :
    SamePeriod c (updateRates c m dt) := by
  simp only [updateRates]
  split_ifs <;> exact ⟨rfl, rfl, rfl⟩

theorem updateRates_still (c : VgCtrl) (m : VgMetrics) (dt : ℚ) : Still c (updateRates c m dt) := by
  simp only [updateRates]
  split_ifs <;> exact ⟨rfl, id⟩

end VoidGate
