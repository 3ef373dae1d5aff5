import VoidGate.RemoteRates

/-!
# Automatic changes of state

A tick arms an idle gate when the rates of the interface exceed a wake threshold, and
disarms an armed one when nothing is listed and the rates have been low for a while.
How long is kept in one field, with 0 for a quiet time that has not begun. The field
says what it should: it is set by a tick that finds low rates, and no rate test since
then, in the same period, has found others.
-/

namespace VoidGate

open Runs

variable {env : Env} {c c' x : VgCtrl} {t : TickIn}

/-- The state in which a tick tests the rates of the interface in an armed gate, if it gets that
far. -/
def testedIn (env : Env) (c : VgCtrl) (t : TickIn) : Option VgCtrl :=
  if Walks c t then
    some (expireDrops env (walkRemotes env (c.lastTick.until t.mono) (measured c t) t))
  else none

/-- Both rates are below the wake thresholds. -/
def LowRates (x : VgCtrl) : Prop :=
  x.rxPps < x.cfg.wakePps ∧ x.rxBps < x.cfg.wakeMbps * 1000000

def HighRates (x : VgCtrl) : Prop :=
  x.cfg.wakePps < x.rxPps ∨ x.cfg.wakeMbps * 1000000 < x.rxBps

/-- The rates are those that the tick `t` in state `c` measures: the increase from the reading of
the metrics before it to its own, over the time since the last tick, and 0 if there is no reading
before it. -/
def Rated (c : VgCtrl) (t : TickIn) (x : VgCtrl) : Prop :=
  ∃ m, t.metrics = some m ∧
    (x.rxPps = if c.haveLastM then increase c.lastM.rxPkts m.rxPkts / (tickDt c t.mono).2 else 0) ∧
    x.rxBps =
      if c.haveLastM then increase c.lastM.rxBytes m.rxBytes * 8 / (tickDt c t.mono).2 else 0

theorem testedIn_eq_none_iff : testedIn env c t = none ↔ ¬ Walks c t := by
  rw [testedIn]
  split_ifs with h <;> simp [h]

theorem vgCtrlTick_tested (h : testedIn env c t = some x) :
    Walks c t ∧ (vgCtrlTick env c t).1 = quietTest env x ∧ VisitsOnly (measured c t) x := by
  rw [testedIn] at h
  split_ifs at h with hw
  obtain rfl := Option.some.inj h
  have hactive := (measured_samePeriod c t).state.trans hw.1
  exact ⟨hw, vgCtrlTick_walks env hw,
    (walkRemotes_visitsOnly env _ hactive t).trans (expireDrops_dropsOnly env _).visitsOnly⟩

theorem quietSince_tested (h : testedIn env c t = some x) : x.quietSince = c.quietSince := by
  obtain ⟨-, -, hvisits⟩ := vgCtrlTick_tested h
  exact hvisits.quietSince.trans (measured_samePeriod c t).quietSince

def RatesKnown (c : VgCtrl) : Prop := c.haveLastM = false → c.rxPps = 0 ∧ c.rxBps = 0

theorem SameRates.ratesKnown (h : SameRates c c') (hc : RatesKnown c) : RatesKnown c' := by
  intro hfirst
  rw [h.rxPps, h.rxBps]
  exact hc (h.haveLastM.symm.trans hfirst)

theorem SameRates.rated (h : SameRates x c') (hx : Rated c t x) : Rated c t c' := by
  obtain ⟨m, hm, hpps, hbps⟩ := hx
  exact ⟨m, hm, h.rxPps.trans hpps, h.rxBps.trans hbps⟩

theorem measured_ratesKnown (h : RatesKnown c) (t : TickIn) : RatesKnown (measured c t) := by
  rw [measured]
  split
  · exact (tickDt_sameRates c t.mono).ratesKnown h
  · intro hfirst
    simp [updateRates] at hfirst

theorem measured_rated (h : RatesKnown c) (hm : t.metrics.isSome)
    (hdt : 0 < (tickDt c t.mono).2) : Rated c t (measured c t) := by
  obtain ⟨m, hm⟩ := Option.isSome_iff_exists.mp hm
  have hsame := tickDt_sameRates c t.mono
  have hlast : (tickDt c t.mono).1.lastM = c.lastM := by
    rw [tickDt]
    split_ifs <;> rfl
  refine ⟨m, hm, ?_⟩
  rw [measured, hm]
  simp only [updateRates, hsame.haveLastM, hdt, decide_true, Bool.and_true, hlast]
  cases hfirst : c.haveLastM with
  | true => exact ⟨rfl, rfl⟩
  | false => exact (hsame.ratesKnown h) (hsame.haveLastM.trans hfirst)

private theorem testedIn_rated (h : RatesKnown c) (hx : testedIn env c t = some x) : Rated c t x := by
  obtain ⟨⟨-, hm, hlast, hdt⟩, -, hvisits⟩ := vgCtrlTick_tested hx
  have htick : (tickDt c t.mono).2 = c.lastTick.until t.mono := by rw [tickDt, if_pos hlast]
  exact hvisits.sameSamples.toSameRates.rated (measured_rated h hm (htick ▸ hdt))

private theorem step_ratesKnown (h : RatesKnown c) (cmd : Cmd) : RatesKnown (step env c cmd) := by
  by_cases ht : ∃ t, cmd = .tick t
  · obtain ⟨t, rfl⟩ := ht
    have hm := measured_ratesKnown h t
    rw [step]
    cases hx : testedIn env c t with
    | some x =>
      obtain ⟨-, he, hvisits⟩ := vgCtrlTick_tested hx
      rw [he]
      exact (hvisits.sameSamples.trans (quietTest_sameSamples env x)).toSameRates.ratesKnown hm
    | none =>
      rcases vgCtrlTick_rests env (testedIn_eq_none_iff.mp hx) with he | ⟨-, -, -, -, he⟩
      · exact he ▸ hm
      · exact he ▸ (vgCtrlArm_sameSamples env _).toSameRates.ratesKnown hm
  · exact (step_sameSamples env c fun t he => ht ⟨t, he⟩).toSameRates.ratesKnown h

/-- After the test an armed gate has a quiet time only if the rates were low, and it is the one the
gate had or began in this tick. -/
private theorem quietTest_quietSince (hs : (quietTest env x).state = .active)
    (h : (quietTest env x).quietSince ≠ 0) :
    LowRates x ∧ (quietTest env x).quietSince = (quietStart env x).quietSince := by
  simp only [quietTest] at hs h ⊢
  split_ifs at hs h ⊢ with hlow
  · refine ⟨hlow, ?_⟩
    rw [vgCtrlDisarm_eq] at hs ⊢
    dsimp only at hs ⊢
    split_ifs at hs ⊢
    rfl
  · exact ⟨hlow, rfl⟩
  · exact ⟨hlow, rfl⟩
  · exact absurd rfl h

private theorem quietTest_disarms (hx : x.state = .active) (hs : (quietTest env x).state = .idle) :
    x.drops.count = 0 ∧ LowRates x ∧
      x.cfg.clearSeconds ≤ env.wall (quietStart env x).clock - (quietStart env x).quietSince := by
  have hstart : (quietStart env x).state = .active ∧ (quietStart env x).drops = x.drops ∧
      (quietStart env x).cfg = x.cfg := by
    rw [quietStart]
    split_ifs <;> exact ⟨hx, rfl, rfl⟩
  obtain ⟨hactive, hdrops, hcfg⟩ := hstart
  simp only [quietTest] at hs
  split_ifs at hs with hlow hcount hlong
  · exact ⟨hdrops ▸ hcount, hlow, hcfg ▸ hlong⟩
  · exact absurd (hactive.symm.trans hs) (by decide)
  · exact absurd (hactive.symm.trans hs) (by decide)
  · exact absurd (hx.symm.trans hs) (by decide)

/-- The rate test of input `k` of a run takes place in state `x`. -/
def TestedAt (env : Env) (s : ℕ → VgCtrl) (cmds : ℕ → Cmd) (k : ℕ) (x : VgCtrl) : Prop :=
  ∃ t, cmds k = .tick t ∧ testedIn env (s k) t = some x

/-- A quiet time that began in tick `i`, with reading `r` of the clock: the gate was armed from then
to input `n`, and all rate tests before input `n` found low rates. -/
structure QuietFrom (env : Env) (s : ℕ → VgCtrl) (cmds : ℕ → Cmd) (i n : ℕ) (r : ℤ) : Prop where
  began : ∃ x, TestedAt env s cmds i x ∧ x.quietSince = 0 ∧ r = env.wall x.clock
  armed : ∀ k, i ≤ k → k ≤ n → (s k).state = .active
  low : ∀ k x, i ≤ k → k < n → TestedAt env s cmds k x → LowRates x

section Run

variable {s : ℕ → VgCtrl} {cmds : ℕ → Cmd} {n : ℕ}

theorem QuietFrom.succ {i : ℕ} {r : ℤ} (h : QuietFrom env s cmds i n r)
    (hs : (s (n + 1)).state = .active) (hlow : ∀ x, TestedAt env s cmds n x → LowRates x) :
    QuietFrom env s cmds i (n + 1) r where
  began := h.began
  armed k hi hk := by
    rcases Nat.le_succ_iff.mp hk with hk | rfl
    · exact h.armed k hi hk
    · exact hs
  low k x hi hk hx := by
    rcases Nat.lt_succ_iff_lt_or_eq.mp hk with hk | rfl
    · exact h.low k x hi hk hx
    · exact hlow x hx

/-- What the quiet time of the state before input `n` says about the inputs so far. -/
def Meant (env : Env) (s : ℕ → VgCtrl) (cmds : ℕ → Cmd) (n : ℕ) : Prop :=
  (s n).state = .active → (s n).quietSince ≠ 0 →
    ∃ i < n, QuietFrom env s cmds i n (s n).quietSince

/-- The quiet time that a rate test with low rates goes by, its own tick included. -/
theorem Meant.quietStart (h : Meant env s cmds n) (hx : TestedAt env s cmds n x) :
    ∃ i ≤ n, QuietFrom env s cmds i n (quietStart env x).quietSince := by
  obtain ⟨t, ht, hin⟩ := hx
  have hactive : (s n).state = .active := (vgCtrlTick_tested hin).1.1
  rw [VoidGate.quietStart]
  split_ifs with hzero
  · refine ⟨n, le_rfl, ⟨x, ⟨t, ht, hin⟩, hzero, rfl⟩, fun k hi hk => ?_, fun k _ hi hk _ => ?_⟩
    · exact Nat.le_antisymm hk hi ▸ hactive
    · exact absurd hi (Nat.not_le.mpr hk)
  · rw [quietSince_tested hin] at hzero ⊢
    obtain ⟨i, hi, hquiet⟩ := h hactive hzero
    exact ⟨i, hi.le, hquiet⟩

/-- One input keeps the meaning of the quiet time. -/
theorem Meant.succ (h : Meant env s cmds n) (hstep : s (n + 1) = step env (s n) (cmds n)) :
    Meant env s cmds (n + 1) := by
  intro hs hq
  by_cases htest : ∃ x, TestedAt env s cmds n x
  · obtain ⟨x, hx⟩ := htest
    obtain ⟨i, hi, hquiet⟩ := h.quietStart hx
    obtain ⟨t, ht, hin⟩ := hx
    have he : s (n + 1) = quietTest env x := by
      rw [hstep, ht]
      exact (vgCtrlTick_tested hin).2.1
    obtain ⟨hlow, hsince⟩ := quietTest_quietSince (he ▸ hs) (he ▸ hq)
    refine ⟨i, Nat.lt_succ_of_le hi, ?_⟩
    rw [he, hsince]
    refine hquiet.succ hs fun y hy => ?_
    obtain ⟨t', ht', hin'⟩ := hy
    cases ht.symm.trans ht'
    exact Option.some.inj (hin.symm.trans hin') ▸ hlow
  · -- No rate test: the quiet time is the one of the period before the input, if there was one.
    have hkeep : KeepsPeriod (s n) (s (n + 1)) := by
      rw [hstep]
      refine step_rests fun t ht hw => ?_
      cases hin : testedIn env (s n) t with
      | none => exact testedIn_eq_none_iff.mp hin hw
      | some x => exact htest ⟨x, t, ht, hin⟩
    rcases hkeep hs with ⟨hactive, hsame⟩ | ⟨hzero, -⟩
    · rw [hsame.quietSince] at hq ⊢
      obtain ⟨i, hi, hquiet⟩ := h hactive hq
      exact ⟨i, Nat.lt_succ_of_lt hi, hquiet.succ hs fun y hy => absurd ⟨y, hy⟩ htest⟩
    · exact absurd hzero hq

end Run

private theorem states_meant {c₀ : VgCtrl} (h : c₀.state = .idle) (cmds : ℕ → Cmd) (n : ℕ) :
    Meant env (states (step env) c₀ cmds) cmds n := by
  induction n with
  | zero => exact fun hs _ => absurd (h.symm.trans hs) (by decide)
  | succ n ih => exact ih.succ rfl

private theorem states_ratesKnown {c₀ : VgCtrl} (h : RatesKnown c₀) (cmds : ℕ → Cmd) (n : ℕ) :
    RatesKnown (states (step env) c₀ cmds n) :=
  (reaches_states cmds n).invariant h fun _ cmd hc _ => step_ratesKnown hc cmd

/-- In every run a tick disarms only if nothing is listed and a quiet time of `clear_seconds` has
passed, which began in a tick of the same period and in which every rate test, that of this tick
included, found both rates below the wake thresholds; and a tick arms only if it measured a rate
above its wake threshold. -/
theorem automatic_changes_for_cause {c₀ : VgCtrl} {cfgPath : List UInt8}
    {ifaceOv : Option (List UInt8)} {file : ConfigFile} {nic : Option (List IfAddr)}
    (hstart : startUp env cfgPath ifaceOv file nic = some c₀) (cmds : ℕ → Cmd) {n : ℕ}
    (ht : cmds n = .tick t) :
    let s := states (step env) c₀ cmds
    ((s n).state = .active → (s (n + 1)).state = .idle →
      ∃ x, testedIn env (s n) t = some x ∧ x.drops.count = 0 ∧ LowRates x ∧
        ∃ i ≤ n, ∃ r, QuietFrom env s cmds i n r ∧
          x.cfg.clearSeconds ≤ env.wall (quietStart env x).clock - r) ∧
      ((s n).state = .idle → (s (n + 1)).state = .active →
        HighRates (s (n + 1)) ∧ Rated (s n) t (s (n + 1))) ∧
      ∀ x, testedIn env (s n) t = some x → Rated (s n) t x := by
  intro s
  have hinit := (startUp_initial hstart).1
  have hknown : RatesKnown (s n) := states_ratesKnown (fun _ => hinit.rates) cmds n
  have hnext : s (n + 1) = (vgCtrlTick env (s n) t).1 := states_tick ht
  rw [hnext]
  refine ⟨fun hactive hidle => ?_, fun hidle hactive => ?_, fun x => testedIn_rated hknown⟩
  · cases hin : testedIn env (s n) t with
    | some x =>
      obtain ⟨-, he, hvisits⟩ := vgCtrlTick_tested hin
      have hx := (hvisits.state.trans (measured_samePeriod _ t).state).trans hactive
      obtain ⟨hcount, hlow, hlong⟩ := quietTest_disarms hx (he ▸ hidle)
      obtain ⟨i, hi, hquiet⟩ := (states_meant hinit.state cmds n).quietStart ⟨t, ht, hin⟩
      exact ⟨x, rfl, hcount, hlow, i, hi, _, hquiet, hlong⟩
    | none =>
      have hkeep := (measured_samePeriod (s n) t).state.trans hactive
      rcases vgCtrlTick_rests env (testedIn_eq_none_iff.mp hin) with he | ⟨hsidle, -⟩
      · exact absurd (hkeep.symm.trans (he ▸ hidle)) (by decide)
      · exact absurd (hactive.symm.trans hsidle) (by decide)
  · have hwalks : ¬ Walks (s n) t := fun hw => absurd (hidle.symm.trans hw.1) (by decide)
    have hstay := (measured_samePeriod (s n) t).state.trans hidle
    rcases vgCtrlTick_rests env hwalks with he | ⟨-, hm, hdt, hhigh, he⟩
    · exact absurd (hstay.symm.trans (he ▸ hactive)) (by decide)
    · have hrated := (vgCtrlArm_sameSamples env _).toSameRates.rated (measured_rated hknown hm hdt)
      rw [he]
      refine ⟨?_, hrated⟩
      rw [vgCtrlArm_idle env hstay]
      exact hhigh

/-- An operator arms the small host at once, and then it ticks every second without traffic. -/
def calmCmds : ℕ → Cmd
  | 0 => .arm
  | k + 1 => .tick (tickAt (k + 1) 0 true)

def calmRun : ℕ → VgCtrl := states (step steadyEnv) steadyStart calmCmds

theorem automatic_changes_for_cause_calm : (calmRun 17).state = .active ∧
    (calmRun 18).state = .idle ∧
    ∃ x, testedIn steadyEnv (calmRun 17) (tickAt 17 0 true) = some x ∧ x.drops.count = 0 ∧
      LowRates x ∧ ∃ i ≤ 17, ∃ r, QuietFrom steadyEnv calmRun calmCmds i 17 r ∧
        x.cfg.clearSeconds ≤ steadyEnv.wall (quietStart steadyEnv x).clock - r := by
  have hactive : (calmRun 17).state = .active := by decide +kernel
  have hidle : (calmRun 18).state = .idle := by decide +kernel
  exact ⟨hactive, hidle,
    (automatic_changes_for_cause steadyStart_eq calmCmds (n := 17) rfl).1 hactive hidle⟩

end VoidGate
