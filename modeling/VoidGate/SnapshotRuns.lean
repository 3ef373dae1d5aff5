import VoidGate.FreshBaselines

/-!
# The snapshot table in runs

A walk marks the entries of the remotes it visits with its own generation, and a
complete walk then sweeps what is not marked. The generation is a 32-bit number that
grows by one with each walk, and when it wraps the table starts over, so that no entry
is ever marked before its visit.
-/

namespace VoidGate

namespace SnapTable
variable {t u : SnapTable} {s : ℕ → SnapTable} {rs : List Remote} {now : Timespec} {x : IpAddr}
  {ρ : Reading}

/-- What `policy_one_remote` does to the snapshots. -/
def visitOne (now : Timespec) (t : SnapTable) (r : Remote) : SnapTable :=
  match t.snapGet r.host with
  | (_, none) => t
  | (u, some (i, _)) => u.store i r.inPkts r.inBytes now

/-- The table is `s j` before visit number `j` of `rs`. -/
def Walk (now : Timespec) (s : ℕ → SnapTable) (rs : List Remote) : Prop :=
  ∀ j r, rs[j]? = some r → s (j + 1) = visitOne now (s j) r

/-- `snap_get` has an entry for the remote: it is there, or there is a free one. -/
def Gets (t : SnapTable) (x : IpAddr) : Prop := (t.snapGet x).2.isSome

/-- The last visit of `x` among `rs` got an entry and left `ρ` in it. -/
def Noted (now : Timespec) (s : ℕ → SnapTable) (rs : List Remote) (x : IpAddr) (ρ : Reading) :
    Prop :=
  ∃ pre r post, rs = pre ++ r :: post ∧ r.host = x ∧ (∀ r' ∈ post, r'.host ≠ x) ∧
    (s pre.length).Gets x ∧ ρ = ⟨r.inPkts, r.inBytes, now⟩

/-- One visit: without an entry nothing happens, and else the entry of the remote is written and
marked. -/
theorem Ok.visitOne_cases (h : t.Ok) (now : Timespec) (r : Remote) :
    (t.visitOne now r).Ok ∧ (t.visitOne now r).gen = t.gen ∧
      ((¬ t.Gets r.host ∧ t.entryOf r.host = none ∧ t.visitOne now r = t) ∨
        (t.Gets r.host ∧ ∃ e : VgSnapEnt, e.reading = ⟨r.inPkts, r.inBytes, now⟩ ∧ e.gen = t.gen ∧
          (t.visitOne now r).entryOf = Function.update t.entryOf r.host (some e))) := by
  rcases h.visit_entry r.host r.inPkts r.inBytes now with
    ⟨hnone, hget⟩ | ⟨u, i, created, hget, -, hok, hgen, e, he, hegen, hentry⟩
  · have hid : t.visitOne now r = t := by rw [visitOne, hget]
    rw [hid, Gets, hget]
    exact ⟨h, rfl, .inl ⟨by simp, hnone, rfl⟩⟩
  · have hid : t.visitOne now r = u.store i r.inPkts r.inBytes now := by rw [visitOne, hget]
    rw [hid, Gets, hget]
    exact ⟨hok, hgen, .inr ⟨rfl, e, he, hegen, hentry⟩⟩

theorem Walk.init {r : Remote} (h : Walk now s (rs ++ [r])) : Walk now s rs := by
  intro j q hq
  have hj := (List.getElem?_eq_some_iff.mp hq).1
  exact h j q (by rw [List.getElem?_append_left hj, hq])

theorem Walk.snoc {r : Remote} (h : Walk now s (rs ++ [r])) :
    s (rs ++ [r]).length = visitOne now (s rs.length) r := by
  rw [List.length_append, List.length_singleton]
  exact h rs.length r (by simp)

theorem snoc_eq_append_cons {r r' : Remote} {pre post : List Remote}
    (h : rs ++ [r] = pre ++ r' :: post) :
    (pre = rs ∧ r' = r ∧ post = []) ∨ ∃ mid, post = mid ++ [r] ∧ rs = pre ++ r' :: mid := by
  rcases List.append_eq_append_iff.mp h with ⟨l, rfl, hl⟩ | ⟨l, rfl, hl⟩
  · rcases List.singleton_eq_append_iff.mp hl with ⟨rfl, hr⟩ | ⟨rfl, hr⟩
    · obtain ⟨rfl, rfl⟩ := List.cons_eq_cons.mp hr
      exact .inl ⟨by simp, rfl, rfl⟩
    · cases hr
  · cases l with
    | nil =>
      obtain ⟨rfl, rfl⟩ := List.cons_eq_cons.mp hl
      exact .inl ⟨by simp, rfl, rfl⟩
    | cons q l =>
      obtain ⟨rfl, rfl⟩ := List.cons_eq_cons.mp hl
      exact .inr ⟨l, rfl, rfl⟩

theorem noted_snoc_self {r : Remote} : Noted now s (rs ++ [r]) r.host ρ ↔
    (s rs.length).Gets r.host ∧ ρ = ⟨r.inPkts, r.inBytes, now⟩ := by
  constructor
  · rintro ⟨pre, r', post, heq, -, hpost, hgets, rfl⟩
    rcases snoc_eq_append_cons heq with ⟨rfl, rfl, rfl⟩ | ⟨mid, rfl, -⟩
    · exact ⟨hgets, rfl⟩
    · -- the visit of `r` itself would come after the last one
      exact absurd rfl (hpost r (by simp))
  · rintro ⟨hgets, rfl⟩
    exact ⟨rs, r, [], rfl, rfl, by simp, hgets, rfl⟩

private theorem noted_snoc_of_ne {r : Remote} (hx : r.host ≠ x) :
    Noted now s (rs ++ [r]) x ρ ↔ Noted now s rs x ρ := by
  constructor
  · rintro ⟨pre, r', post, heq, hhost, hpost, hgets, rfl⟩
    rcases snoc_eq_append_cons heq with ⟨rfl, rfl, rfl⟩ | ⟨mid, rfl, rfl⟩
    · exact absurd hhost hx
    · exact ⟨pre, r', mid, rfl, hhost, fun q hq => hpost q (by simp [hq]), hgets, rfl⟩
  · rintro ⟨pre, r', post, rfl, hhost, hpost, hgets, rfl⟩
    refine ⟨pre, r', post ++ [r], by simp, hhost, fun q hq => ?_, hgets, rfl⟩
    rcases List.mem_append.mp hq with hq | hq
    · exact hpost q hq
    · rwa [List.mem_singleton.mp hq]

/-- After a walk a remote that was noted has the marked entry of its last visit, and any other
remote the entry it had before, if it was visited without one. -/
theorem Walk.entryOf (h : Walk now s rs) (hok : (s 0).Ok) :
    (s rs.length).Ok ∧ (s rs.length).gen = (s 0).gen ∧ ∀ x,
      (∃ e : VgSnapEnt, (s rs.length).entryOf x = some e ∧ e.gen = (s 0).gen ∧
        ∀ ρ, Noted now s rs x ρ ↔ e.reading = ρ) ∨
      ((∀ ρ, ¬ Noted now s rs x ρ) ∧ (s rs.length).entryOf x = (s 0).entryOf x ∧
        ((∃ r ∈ rs, r.host = x) → (s 0).entryOf x = none)) := by
  induction rs using List.reverseRecOn with
  | nil =>
    refine ⟨hok, rfl, fun x => .inr ⟨fun ρ hn => ?_, rfl, by simp⟩⟩
    obtain ⟨pre, r, post, heq, -⟩ := hn
    simp at heq
  | append_singleton rs r ih =>
    obtain ⟨hoks, hgens, hold⟩ := ih h.init
    obtain ⟨hok', hgen', hcases⟩ := hoks.visitOne_cases now r
    rw [h.snoc]
    refine ⟨hok', hgen'.trans hgens, fun x => ?_⟩
    by_cases hx : r.host = x
    · subst hx
      rcases hcases with ⟨hno, hnone, hid⟩ | ⟨hgets, e, he, hegen, hentry⟩
      · -- what has no entry now had none before the walk
        have hstart : (s 0).entryOf r.host = none := by
          rcases hold r.host with ⟨e, he, -⟩ | ⟨-, he, -⟩
          · cases hnone.symm.trans he
          · exact he.symm.trans hnone
        rw [hid, hnone, hstart]
        exact .inr ⟨fun ρ hn => hno (noted_snoc_self.mp hn).1, rfl, fun _ => rfl⟩
      · refine .inl ⟨e, by rw [hentry, Function.update_self], hegen.trans hgens, fun ρ => ?_⟩
        rw [noted_snoc_self, he]
        exact ⟨fun hn => hn.2.symm, fun hn => ⟨hgets, hn.symm⟩⟩
    · have hsame : ((s rs.length).visitOne now r).entryOf x = (s rs.length).entryOf x := by
        rcases hcases with ⟨-, -, hid⟩ | ⟨-, e, -, -, hentry⟩
        · rw [hid]
        · rw [hentry, Function.update_of_ne (Ne.symm hx)]
      have hmem : (∃ q ∈ rs ++ [r], q.host = x) ↔ ∃ q ∈ rs, q.host = x := by
        simp [or_and_right, exists_or, hx]
      simp only [hsame, noted_snoc_of_ne hx, hmem]
      exact hold x

structure Aged (t : SnapTable) : Prop where
  ok : t.Ok
  gen_lt : t.gen < 2 ^ 32
  le_gen : ∀ x e, t.entryOf x = some e → e.gen ≤ t.gen

structure Unmarked (t : SnapTable) : Prop where
  ok : t.Ok
  gen_lt : t.gen < 2 ^ 32
  lt_gen : ∀ x e, t.entryOf x = some e → e.gen < t.gen

@[simp] theorem entryOf_snapResetPool (t : SnapTable) (x : IpAddr) : t.snapResetPool.entryOf x = none :=
  t.inv_reset.entryOf_eq_none (by simp)

theorem Aged.reset (h : t.Aged) : t.snapResetPool.Aged where
  ok := ⟨_, _, t.inv_reset⟩
  gen_lt := h.gen_lt
  le_gen x e he := by cases (t.entryOf_snapResetPool x).symm.trans he

private theorem aged_init (cap : ℕ) : (init cap).Aged where
  ok := ⟨_, _, inv_init cap⟩
  gen_lt := Nat.two_pow_pos 32
  le_gen x e he := by cases (entryOf_snapResetPool _ x).symm.trans he

theorem Aged.next (h : t.Aged) : (nextGen t).Unmarked := by
  have hlt := h.gen_lt
  by_cases hgen : (t.gen + 1) % 2 ^ 32 = 0
  · have hnext : nextGen t = { t.snapResetPool with gen := 1 } := if_pos hgen
    have hone : (nextGen t).gen = 1 := by rw [hnext]
    refine ⟨h.ok.nextGen, by omega, fun x e he => ?_⟩
    rw [hnext] at he
    cases (t.entryOf_snapResetPool x).symm.trans he
  · have hnext : nextGen t = { t with gen := (t.gen + 1) % 2 ^ 32 } := if_neg hgen
    have hsucc : (nextGen t).gen = t.gen + 1 := by
      rw [hnext]
      exact Nat.mod_eq_of_lt (by omega)
    refine ⟨h.ok.nextGen, by omega, fun x e he => ?_⟩
    rw [hsucc]
    rw [hnext] at he
    exact Nat.lt_succ_of_le (h.le_gen x e he)

theorem entryOf_nextGen (h : (t.gen + 1) % 2 ^ 32 ≠ 0) : (nextGen t).entryOf = t.entryOf := by
  rw [nextGen, if_neg h]
  rfl

theorem Aged.prune (h : t.Aged) : t.snapPrune.Aged := by
  obtain ⟨L, F, hinv⟩ := h.ok
  obtain ⟨L', F', hinv', hgen, -⟩ := hinv.snapPrune
  refine ⟨⟨L', F', hinv'⟩, by rw [hgen]; exact h.gen_lt, fun x e he => ?_⟩
  rw [hinv.entryOf_snapPrune] at he
  rw [hgen]
  exact h.le_gen x e (Option.filter_eq_some_iff.mp he).1

theorem Walk.aged (h : Walk now s rs) (h₀ : (s 0).Unmarked) : (s rs.length).Aged := by
  obtain ⟨hok, hgen, hentry⟩ := h.entryOf h₀.ok
  refine ⟨hok, hgen ▸ h₀.gen_lt, fun x e he => ?_⟩
  rw [hgen]
  rcases hentry x with ⟨e', he', hegen, -⟩ | ⟨-, hsame, -⟩
  · obtain rfl := Option.some.inj (he'.symm.trans he)
    exact hegen.le
  · exact (h₀.lt_gen x e (hsame.symm.trans he)).le

private theorem Walk.last_snapPrune (h : Walk now s rs) (h₀ : (s 0).Unmarked) :
    (s rs.length).snapPrune.last x = some ρ ↔ Noted now s rs x ρ := by
  obtain ⟨⟨L, F, hinv⟩, hgen, hentry⟩ := h.entryOf h₀.ok
  rw [last_eq, hinv.entryOf_snapPrune, hgen]
  rcases hentry x with ⟨e, he, hegen, hnoted⟩ | ⟨hno, hsame, -⟩
  · rw [he, Option.filter_some, if_pos (decide_eq_true hegen), hnoted, Option.map_some,
      Option.some_inj]
  · refine iff_of_false (fun hl => ?_) (hno ρ)
    obtain ⟨e, he, -⟩ := Option.map_eq_some_iff.mp hl
    obtain ⟨hmem, hegen⟩ := Option.filter_eq_some_iff.mp he
    exact absurd (of_decide_eq_true hegen) (h₀.lt_gen x e (hsame.symm.trans hmem)).ne

/-- Without the sweep every snapshot is still there: a remote that was visited has the counters of
its last visit, and any other one those it had. -/
private theorem Walk.last_kept (h : Walk now s rs) (hok : (s 0).Ok) (hx : (s 0).last x = some ρ) :
    ∃ ρ', (s rs.length).last x = some ρ' ∧
      (Noted now s rs x ρ' ∨ (ρ' = ρ ∧ ∀ r ∈ rs, r.host ≠ x)) := by
  rw [last_eq] at hx
  rcases (h.entryOf hok).2.2 x with ⟨e, he, -, hnoted⟩ | ⟨-, hsame, hvisit⟩
  · exact ⟨e.reading, by rw [last_eq, he, Option.map_some], .inl ((hnoted _).mpr rfl)⟩
  · refine ⟨ρ, by rw [last_eq, hsame, hx], .inr ⟨rfl, fun r hr he => ?_⟩⟩
    rw [hvisit ⟨r, hr, he⟩] at hx
    cases hx

end SnapTable

open SnapTable

variable {env : Env} {c : VgCtrl} {t : TickIn} {r : Remote}

theorem vgCtrlArm_snaps (env : Env) (c : VgCtrl) : (vgCtrlArm env c).1.snaps = c.snaps ∨
    (vgCtrlArm env c).1.snaps = c.snaps.snapResetPool := by
  cases hs : c.state with
  | active =>
    rw [vgCtrlArm, if_pos hs]
    exact .inl rfl
  | idle =>
    rw [vgCtrlArm_idle env hs]
    exact .inr rfl

theorem dropAdd_snaps (env : Env) (c : VgCtrl) (p : VgCidr) (reason : Reason) (expires : ℤ) :
    (dropAdd env c p reason expires).1.snaps = c.snaps ∨
      (dropAdd env c p reason expires).1.snaps = c.snaps.snapResetPool := by
  have harm := vgCtrlArm_snaps env { c with clock := c.clock + 1 }
  simp only [dropAdd, dropAt]
  split_ifs
  · exact .inl rfl
  · rw [(dropListed_dropsOnly env _ p reason expires _).samePeriod.snaps]
    exact harm
  · exact harm

@[simp] theorem vgCtrlReload_snaps (env : Env) (c : VgCtrl) (file : ConfigFile)
    (nic : Option (List IfAddr)) : (vgCtrlReload env c file nic).1.snaps = c.snaps := by
  rw [vgCtrlReload]
  split
  · rfl
  · rename_i n _
    have hprune := (vgCtrlPruneProtected_dropsOnly env { c with cfg := n }).samePeriod.snaps
    simp only [reloadApply]
    split_ifs <;> exact hprune

theorem step_snaps (env : Env) {cmd : Cmd} (h : ∀ t, cmd = .tick t → ¬ Walks c t) :
    (step env c cmd).snaps = c.snaps ∨ (step env c cmd).snaps = c.snaps.snapResetPool := by
  cases cmd with
  | drop p => exact dropAdd_snaps env c p.1 .manual 0
  | dropTtl p ttl => exact dropAdd_snaps env { c with clock := c.clock + 1 } p.1 .timed _
  | undrop p => exact .inl (vgCtrlUndrop_dropsOnly env c p.1).samePeriod.snaps
  | arm => exact vgCtrlArm_snaps env c
  | disarm =>
    rw [step, vgCtrlDisarm_eq]
    exact .inl rfl
  | reload file nic => exact .inl (vgCtrlReload_snaps env c file nic)
  | tick t =>
    have hsame := (measured_samePeriod c t).snaps
    rcases vgCtrlTick_rests env (h t rfl) with he | ⟨-, -, -, -, he⟩
    · rw [step, he]
      exact .inl hsame
    · rw [step, he, ← hsame]
      exact vgCtrlArm_snaps env (measured c t)

theorem policyOneRemote_visitOne (env : Env) (dt : ℚ) (hs : c.state = .active) (r : Remote) :
    (policyOneRemote env dt c r).snaps = c.snaps.visitOne c.lastTick r := by
  rcases hget : c.snaps.snapGet r.host with ⟨u, _ | ⟨i, created⟩⟩
  · rw [visitOne, policyOneRemote, hget]
  · have hdrop (judged : List Judgement) := (policyDrop_dropsOnly env
      (c := { c with snaps := u.store i r.inPkts r.inBytes c.lastTick, judged := judged })
      hs r.host.host).samePeriod.snaps
    simp only [visitOne, policyOneRemote, hget]
    split
    · rfl
    · split
      · rfl
      · exact hdrop _

theorem walk_visitIn (env : Env) (hw : Walks c t) (hok : c.snaps.Ok) :
    Walk t.mono (fun j => (visitIn env c t j).snaps) t.remotes := by
  intro j r hr
  have hx := visitIn_ready env hw hok j
  dsimp only
  rw [visitIn_succ env c hr, policyOneRemote_visitOne env _ hx.state, hx.lastTick]

theorem visitIn_zero_snaps (env : Env) (c : VgCtrl) (t : TickIn) :
    (visitIn env c t 0).snaps = nextGen c.snaps := by
  rw [← (measured_samePeriod c t).snaps]
  rfl

private theorem step_aged {cmd : Cmd} (h : c.snaps.Aged) : (step env c cmd).snaps.Aged := by
  by_cases hwalk : ∃ t, cmd = .tick t ∧ Walks c t
  · obtain ⟨t, rfl, hw⟩ := hwalk
    have haged := (walk_visitIn env hw h.ok).aged ((visitIn_zero_snaps env c t).symm ▸ h.next)
    rw [step, vgCtrlTick_snaps env hw]
    split_ifs
    · exact haged.prune
    · exact haged
  · rcases step_snaps env fun t ht hw => hwalk ⟨t, ht, hw⟩ with he | he
    · exact he ▸ h
    · exact he ▸ h.reset

theorem Reachable.aged (h : Reachable env c) : c.snaps.Aged := by
  refine h.invariant (I := fun c => c.snaps.Aged) (fun hstart => ?_) fun c cmd _ hi => step_aged hi
  obtain ⟨cap, hs⟩ := (startUp_initial hstart).1.snaps
  exact hs ▸ aged_init cap

/-- In every reachable state the entries of the pool are live or free, each live one in the bucket
of its address and no address twice. A tick that walks all remotes leaves exactly those whose last
visit had or got an entry, with the counters of that visit; after any other walk every snapshot is
still there, unless the generation wraps. -/
theorem snapshot_table_sound (h : Reachable env c) :
    c.snaps.Ok ∧ ∀ t, Walks c t →
      (t.complete = 1 → ∀ x ρ, (vgCtrlTick env c t).1.snaps.last x = some ρ ↔
        Noted t.mono (fun j => (visitIn env c t j).snaps) t.remotes x ρ) ∧
      (t.complete ≠ 1 → c.snaps.gen + 1 ≠ 2 ^ 32 → ∀ x ρ, c.snaps.last x = some ρ →
        ∃ ρ', (vgCtrlTick env c t).1.snaps.last x = some ρ' ∧
          (Noted t.mono (fun j => (visitIn env c t j).snaps) t.remotes x ρ' ∨
            (ρ' = ρ ∧ ∀ r ∈ t.remotes, r.host ≠ x))) := by
  have haged := h.aged
  refine ⟨haged.ok, fun t hw => ?_⟩
  have hwalk := walk_visitIn env hw haged.ok
  have hzero := visitIn_zero_snaps env c t
  rw [vgCtrlTick_snaps env hw]
  refine ⟨fun hc x ρ => ?_, fun hc hwrap x ρ hx => ?_⟩
  · rw [if_pos hc]
    exact hwalk.last_snapPrune (hzero ▸ haged.next)
  · rw [if_neg hc]
    refine hwalk.last_kept (hzero ▸ haged.ok.nextGen) ?_
    have hlt := haged.gen_lt
    rw [hzero, last_eq, entryOf_nextGen (by omega), ← last_eq]
    exact hx

/-- A second after 192.0.2.7 was noted a complete walk meets 192.0.2.8 twice and nothing else. -/
def otherTick : TickIn where
  mono := ⟨2, 0⟩
  metrics := some ⟨0, 0⟩
  remotes := [⟨.ofOctets .inet (octetsOf [192, 0, 2, 8]), 5, 300⟩,
    ⟨.ofOctets .inet (octetsOf [192, 0, 2, 8]), 6, 400⟩]
  complete := 1

theorem snapshot_table_sound_other : Reachable steadyEnv (floodRun 3) ∧
    Walks (floodRun 3) otherTick ∧
    (floodRun 3).snaps.last (.ofOctets .inet (octetsOf [192, 0, 2, 7])) = some ⟨0, 0, ⟨1, 0⟩⟩ ∧
    (∀ ρ, (vgCtrlTick steadyEnv (floodRun 3) otherTick).1.snaps.last
      (.ofOctets .inet (octetsOf [192, 0, 2, 7])) ≠ some ρ) ∧
    (vgCtrlTick steadyEnv (floodRun 3) otherTick).1.snaps.last
      (.ofOctets .inet (octetsOf [192, 0, 2, 8])) = some ⟨6, 400, ⟨2, 0⟩⟩ := by
  have hreach : Reachable steadyEnv (floodRun 3) :=
    ⟨_, _, _, _, _, steadyStart_eq, Runs.reaches_states floodCmds 3⟩
  have hw : Walks (floodRun 3) otherTick := by decide +kernel
  have hsweep := ((snapshot_table_sound hreach).2 otherTick hw).1 rfl
  refine ⟨hreach, hw, by decide +kernel, fun ρ hl => ?_, (hsweep _ _).mpr ?_⟩
  · obtain ⟨pre, r, post, heq, hhost, -⟩ := (hsweep _ _).mp hl
    have hmem : r ∈ otherTick.remotes := heq ▸ by simp
    have hnone : ∀ r ∈ otherTick.remotes, r.host ≠ .ofOctets .inet (octetsOf [192, 0, 2, 7]) := by
      decide +kernel
    exact hnone r hmem hhost
  · refine ⟨[_], _, [], rfl, rfl, by simp, ?_, rfl⟩
    have hgets : ((visitIn steadyEnv (floodRun 3) otherTick 1).snaps.snapGet
        (.ofOctets .inet (octetsOf [192, 0, 2, 8]))).2.isSome = true := by decide +kernel
    exact hgets

end VoidGate
