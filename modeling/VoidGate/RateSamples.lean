import VoidGate.QuietTime

/-!
# The samples behind the rates of the interface

A tick divides what the interface received since the last reading of the metrics by
the time since the last tick. The two belong together as long as the last tick made
that reading. A tick that could not read the metrics moves the time and leaves the
counters, and the next one then finds rates that are too high.
-/

namespace VoidGate

open Runs

variable {env : Env} {c c' : VgCtrl} {t : TickIn} {cmds : ℕ → Cmd} {n : ℕ}

/-- A reading of the metrics and the time of its tick. -/
structure RateSample where
  time : Timespec
  metrics : VgMetrics
  deriving DecidableEq

namespace RateSample

/-- Packets per second from one sample to the next. -/
def pps (a b : RateSample) : ℚ :=
  increase a.metrics.rxPkts b.metrics.rxPkts / a.time.until b.time

/-- Bits per second from one sample to the next. -/
def bps (a b : RateSample) : ℚ :=
  increase a.metrics.rxBytes b.metrics.rxBytes * 8 / a.time.until b.time

def NoGrowth (a b : RateSample) : Prop :=
  b.metrics.rxPkts ≤ a.metrics.rxPkts ∧ b.metrics.rxBytes ≤ a.metrics.rxBytes

end RateSample

/-- The time of the last tick before input `n`. -/
def lastTickTime (cmds : ℕ → Cmd) : ℕ → Option Timespec
  | 0 => none
  | n + 1 => match cmds n with
    | .tick t => some t.mono
    | _ => lastTickTime cmds n

/-- The last sample before input `n`. -/
def lastSample (cmds : ℕ → Cmd) : ℕ → Option RateSample
  | 0 => none
  | n + 1 => match cmds n with
    | .tick t => match t.metrics with
      | some m => some ⟨t.mono, m⟩
      | none => lastSample cmds n
    | _ => lastSample cmds n

/-- `CLOCK_MONOTONIC` does not go back from one tick to the next. -/
def ClockForward (cmds : ℕ → Cmd) : Prop :=
  ∀ n t, cmds n = .tick t → ∀ p ∈ lastTickTime cmds n, 0 ≤ p.until t.mono

/-- The tick from `c` to `c'` found the rates between the samples `a` and `b`, and did not arm the
gate if these exceed no wake threshold. -/
structure RatesMatch (a b : RateSample) (c c' : VgCtrl) : Prop where
  pps : c'.rxPps = a.pps b
  bps : c'.rxBps = a.bps b
  idle : c.state = .idle → a.pps b ≤ c.cfg.wakePps → a.bps b ≤ c.cfg.wakeMbps * 1000000 →
    c'.state = .idle

structure Sampled (cmds : ℕ → Cmd) (n : ℕ) (c : VgCtrl) : Prop where
  tick : lastTickTime cmds n = if c.haveLastTick then some c.lastTick else none
  sample : (lastSample cmds n).map RateSample.metrics = if c.haveLastM then some c.lastM else none
  known : RatesKnown c

theorem SameSamples.sampled (h : SameSamples c c') (hc : Sampled cmds n c) : Sampled cmds n c' := by
  refine ⟨?_, ?_, h.toSameRates.ratesKnown hc.known⟩
  · rw [h.haveLastTick, h.lastTick]
    exact hc.tick
  · rw [h.haveLastM, h.lastM]
    exact hc.sample

theorem vgCtrlTick_sameSamples (env : Env) (c : VgCtrl) (t : TickIn) :
    SameSamples (measured c t) (vgCtrlTick env c t).1 := by
  cases hx : testedIn env c t with
  | some x =>
    obtain ⟨-, he, hvisits⟩ := vgCtrlTick_tested hx
    rw [he]
    exact hvisits.sameSamples.trans (quietTest_sameSamples env x)
  | none =>
    rcases vgCtrlTick_rests env (testedIn_eq_none_iff.mp hx) with he | ⟨-, -, -, -, he⟩
    · rw [he]
      exact (DropsOnly.refl _).sameSamples
    · rw [he]
      exact vgCtrlArm_sameSamples env _

theorem Sampled.tick_measured (h : Sampled cmds n c) (ht : cmds n = .tick t) :
    Sampled cmds (n + 1) (measured c t) := by
  obtain ⟨hhave, hlast⟩ := measured_lastTick c t
  refine ⟨?_, ?_, measured_ratesKnown h.known t⟩
  · rw [lastTickTime, ht, hhave, hlast]
    rfl
  · rw [lastSample, ht, measured]
    cases hm : t.metrics with
    | none =>
      have hsame : (tickDt c t.mono).1.lastM = c.lastM := by
        rw [tickDt]
        split_ifs <;> rfl
      simp only [hm, (tickDt_sameRates c t.mono).haveLastM, hsame]
      exact h.sample
    | some m =>
      simp only [hm, updateRates]
      rfl

theorem Sampled.step (h : Sampled cmds n c) : Sampled cmds (n + 1) (step env c (cmds n)) := by
  cases hcmd : cmds n with
  | tick t => exact (vgCtrlTick_sameSamples env c t).sampled (h.tick_measured hcmd)
  | _ =>
    have hsame := @step_sameSamples env c (cmds n) fun t he => by simp [hcmd] at he
    obtain ⟨htick, hsample, hknown⟩ := hsame.sampled h
    rw [hcmd] at htick hsample hknown
    refine ⟨?_, ?_, hknown⟩
    · rw [lastTickTime, hcmd]
      exact htick
    · rw [lastSample, hcmd]
      exact hsample

private theorem ClockForward.sample_le (h : ClockForward cmds) {a : RateSample}
    (ha : lastSample cmds n = some a) :
    ∃ p, lastTickTime cmds n = some p ∧ 0 ≤ a.time.until p := by
  induction n with
  | zero => cases ha
  | succ n ih =>
    cases hcmd : cmds n with
    | tick t =>
      have hp : lastTickTime cmds (n + 1) = some t.mono := by rw [lastTickTime, hcmd]
      refine ⟨t.mono, hp, ?_⟩
      rw [lastSample, hcmd] at ha
      cases hm : t.metrics with
      | some m =>
        simp only [hm, Option.some.injEq] at ha
        subst ha
        simp [Timespec.until]
      | none =>
        simp only [hm] at ha
        obtain ⟨p, hp, hle⟩ := ih ha
        rw [← Timespec.until_add_until a.time p t.mono]
        exact add_nonneg hle (h n t hcmd p hp)
    | _ =>
      rw [lastSample, hcmd] at ha
      rw [lastTickTime, hcmd]
      exact ih ha

private theorem vgCtrlInit_first {cfg : VgConfig} {maps : VgMaps} {cfgPath : List UInt8}
    {ifaceOv : Option (List UInt8)} (h : vgCtrlInit env cfg maps cfgPath ifaceOv = some c) :
    c.haveLastTick = false ∧ c.haveLastM = false := by
  rw [vgCtrlInit] at h
  split at h
  · cases h
  · split_ifs at h
    cases h
    exact ⟨rfl, rfl⟩

private theorem sampled_startUp {cfgPath : List UInt8} {ifaceOv : Option (List UInt8)} {file : ConfigFile}
    {nic : Option (List IfAddr)} (h : startUp env cfgPath ifaceOv file nic = some c) :
    Sampled cmds 0 c := by
  have hfirst : c.haveLastTick = false ∧ c.haveLastM = false := by
    simp only [startUp] at h
    split at h
    · cases h
    · split at h
      · cases h
      · split_ifs at h
        exact vgCtrlInit_first h
  refine ⟨?_, ?_, fun _ => (startUp_initial h).1.rates⟩
  · rw [hfirst.1]
    rfl
  · rw [hfirst.2]
    rfl

theorem div_eq_div_iff_eq_span {a : ℕ} {k dt e : ℚ} (hk : 0 < k) (hdt : 0 < dt) (he : 0 < e) :
    a * k / dt = a * k / e ↔ e = dt ∨ a = 0 := by
  rw [div_eq_div_iff hdt.ne' he.ne', mul_eq_mul_left_iff, mul_eq_zero, or_iff_left hk.ne',
    Nat.cast_eq_zero]

/-- Rates over the span from the last tick are those of the samples exactly if that tick made the
last sample, or neither counter has grown since. -/
private theorem pps_bps_iff {a b : RateSample} {p : Timespec} (hdt : 0 < p.until b.time)
    (hle : 0 ≤ a.time.until p) :
    (increase a.metrics.rxPkts b.metrics.rxPkts / p.until b.time = a.pps b ∧
      increase a.metrics.rxBytes b.metrics.rxBytes * 8 / p.until b.time = a.bps b) ↔
      a.time.until p = 0 ∨ a.NoGrowth b := by
  have hadd := Timespec.until_add_until a.time p b.time
  have hpos : 0 < a.time.until b.time := hadd ▸ add_pos_of_nonneg_of_pos hle hdt
  have hspan : a.time.until b.time = p.until b.time ↔ a.time.until p = 0 := by
    rw [← hadd]
    exact add_eq_right
  have hpps := @div_eq_div_iff_eq_span (increase a.metrics.rxPkts b.metrics.rxPkts) 1 _ _ one_pos hdt hpos
  have hbps := @div_eq_div_iff_eq_span (increase a.metrics.rxBytes b.metrics.rxBytes) 8 _ _ (by norm_num)
    hdt hpos
  simp only [mul_one, hspan, increase_eq_zero_iff] at hpps hbps
  rw [RateSample.pps, RateSample.bps, hpps, hbps, RateSample.NoGrowth, or_and_left]

theorem vgCtrlTick_idle (hs : c.state = .idle)
    (hlow : t.metrics.isSome → 0 < (tickDt c t.mono).2 → ¬ HighRates (measured c t)) :
    (vgCtrlTick env c t).1.state = .idle := by
  have hwalks : ¬ Walks c t := fun hw => absurd (hs.symm.trans hw.1) (by decide)
  rcases vgCtrlTick_rests env hwalks with he | ⟨-, hm, hdt, hhigh, -⟩
  · rw [he]
    exact (measured_samePeriod c t).state.trans hs
  · exact absurd hhigh (hlow hm hdt)

@[simp] theorem measured_cfg (c : VgCtrl) (t : TickIn) : (measured c t).cfg = c.cfg := by
  rw [measured]
  split
  · exact (tickDt_books c t.mono).cfg
  · exact (updateRates_books _ _ _).cfg.trans (tickDt_books c t.mono).cfg

/-- The rates of a tick that measures some. -/
theorem Sampled.rates (h : Sampled cmds n c) {m : VgMetrics} {a : RateSample} {p : Timespec}
    (hm : t.metrics = some m) (ha : lastSample cmds n = some a) (hp : lastTickTime cmds n = some p)
    (hdt : 0 < p.until t.mono) :
    (measured c t).rxPps = increase a.metrics.rxPkts m.rxPkts / p.until t.mono ∧
      (measured c t).rxBps = increase a.metrics.rxBytes m.rxBytes * 8 / p.until t.mono := by
  obtain ⟨htick, hsample, hknown⟩ := h
  rw [hp] at htick
  rw [ha, Option.map_some] at hsample
  split_ifs at htick hsample with hhave hhaveM
  obtain rfl := Option.some.inj htick
  have hspan : (tickDt c t.mono).2 = c.lastTick.until t.mono := by rw [tickDt, if_pos hhave]
  obtain ⟨m', hm', hpps, hbps⟩ := measured_rated hknown (by rw [hm]; rfl) (hspan ▸ hdt)
  obtain rfl := Option.some.inj (hm.symm.trans hm')
  rw [if_pos hhaveM, hspan, ← Option.some.inj hsample] at hpps hbps
  exact ⟨hpps, hbps⟩

theorem Sampled.first (h : Sampled cmds n c) (hno : lastSample cmds n = none) :
    c.haveLastM = false := by
  have hsample := h.sample
  rw [hno] at hsample
  cases hhave : c.haveLastM with
  | false => rfl
  | true => simp [hhave] at hsample

theorem Sampled.span_le (h : Sampled cmds n c)
    (hno : ∀ p, lastTickTime cmds n = some p → p.until t.mono ≤ 0) :
    (tickDt c t.mono).2 ≤ 0 := by
  rw [tickDt]
  split_ifs with hhave
  · exact hno _ (h.tick.trans (if_pos hhave))
  · exact le_rfl

/-- A tick that cannot read the metrics, or has nothing to compare them with, leaves the rates as
they are. -/
private theorem Sampled.same_rates (h : Sampled cmds n c)
    (hno : t.metrics = none ∨ lastSample cmds n = none ∨
      ∀ p, lastTickTime cmds n = some p → p.until t.mono ≤ 0) :
    (measured c t).rxPps = c.rxPps ∧ (measured c t).rxBps = c.rxBps := by
  have hsame := tickDt_sameRates c t.mono
  rw [measured]
  cases hm : t.metrics with
  | none => exact ⟨hsame.rxPps, hsame.rxBps⟩
  | some m =>
    have hskip : ((tickDt c t.mono).1.haveLastM && decide (0 < (tickDt c t.mono).2)) = false := by
      rcases hno with hno | hno | hno
      · cases hm.symm.trans hno
      · rw [hsame.haveLastM, h.first hno, Bool.false_and]
      · rw [decide_eq_false (not_lt.mpr (h.span_le hno)), Bool.and_false]
    simp only [updateRates, hskip, Bool.false_eq_true, if_false]
    exact ⟨hsame.rxPps, hsame.rxBps⟩

/-- At a tick that measures rates, they are those between the last reading of the metrics and its
own exactly if no tick in between failed to read them, or neither counter has grown. Any other tick
leaves the rates alone and does not arm the gate. -/
theorem rates_match_iff {c₀ : VgCtrl} {cfgPath : List UInt8}
    {ifaceOv : Option (List UInt8)} {file : ConfigFile} {nic : Option (List IfAddr)}
    (hstart : startUp env cfgPath ifaceOv file nic = some c₀) (hclock : ClockForward cmds)
    (ht : cmds n = .tick t) :
    let s := states (step env) c₀ cmds
    (∀ m a p, t.metrics = some m → lastSample cmds n = some a → lastTickTime cmds n = some p →
      0 < p.until t.mono →
      (RatesMatch a ⟨t.mono, m⟩ (s n) (s (n + 1)) ↔
        a.time.until p = 0 ∨ a.NoGrowth ⟨t.mono, m⟩)) ∧
    (t.metrics = none ∨ lastSample cmds n = none ∨
        (∀ p, lastTickTime cmds n = some p → p.until t.mono ≤ 0) →
      (s (n + 1)).rxPps = (s n).rxPps ∧ (s (n + 1)).rxBps = (s n).rxBps ∧
        ((s n).state = .idle → (s (n + 1)).state = .idle)) := by
  intro s
  have hs : ∀ k, Sampled cmds k (s k) := by
    intro k
    induction k with
    | zero => exact sampled_startUp hstart
    | succ k ih => exact ih.step
  have hnext : s (n + 1) = (vgCtrlTick env (s n) t).1 := states_tick ht
  have hsame := vgCtrlTick_sameSamples env (s n) t
  rw [hnext]
  constructor
  · intro m a p hm ha hp hdt
    obtain ⟨q, hq, hle⟩ := hclock.sample_le ha
    obtain rfl := Option.some.inj (hp.symm.trans hq)
    obtain ⟨hpps, hbps⟩ := (hs n).rates hm ha hp hdt
    have hiff := @pps_bps_iff a ⟨t.mono, m⟩ p hdt hle
    constructor
    · intro hmatch
      refine hiff.mp ⟨?_, ?_⟩
      · rw [← hpps, ← hsame.rxPps]
        exact hmatch.pps
      · rw [← hbps, ← hsame.rxBps]
        exact hmatch.bps
    · intro hcond
      obtain ⟨hpps', hbps'⟩ := hiff.mpr hcond
      rw [← hpps] at hpps'
      rw [← hbps] at hbps'
      refine ⟨hsame.rxPps.trans hpps', hsame.rxBps.trans hbps', fun hidle hlow hlow' => ?_⟩
      refine vgCtrlTick_idle hidle fun _ _ => ?_
      rw [HighRates, measured_cfg, hpps', hbps', not_or, not_lt, not_lt]
      exact ⟨hlow, hlow'⟩
  · intro hno
    obtain ⟨hpps, hbps⟩ := (hs n).same_rates hno
    refine ⟨hsame.rxPps.trans hpps, hsame.rxBps.trans hbps, fun hidle => ?_⟩
    refine vgCtrlTick_idle hidle fun hm hdt => ?_
    rcases hno with hno | hno | hno
    · simp [hno] at hm
    · obtain ⟨hzero, hzero'⟩ := (hs n).known ((hs n).first hno)
      rw [HighRates, hpps, hbps, hzero, hzero', not_or, not_lt, not_lt]
      exact ⟨by positivity, by positivity⟩
    · exact absurd hdt (not_lt.mpr ((hs n).span_le hno))

/-- A tick `n` seconds after boot that finds `pkts` packets received, if it can read the metrics. -/
def rateTick (n : ℕ) (pkts : Option ℕ) : TickIn where
  mono := ⟨n, 0⟩
  metrics := pkts.map (⟨·, 0⟩)
  remotes := []
  complete := 1

/-- 1500 packets in every second. -/
def evenCmds (k : ℕ) : Cmd := .tick (rateTick k (some (1500 * k)))

private theorem evenCmds_forward : ClockForward evenCmds := by
  intro n t ht p hp
  cases ht
  cases n with
  | zero => cases hp
  | succ n =>
    cases hp
    simp [rateTick, Timespec.until]

theorem rates_match_iff_even :
    (RateSample.pps ⟨⟨0, 0⟩, ⟨0, 0⟩⟩ ⟨⟨1, 0⟩, ⟨1500, 0⟩⟩ = 1500) ∧
      RatesMatch ⟨⟨0, 0⟩, ⟨0, 0⟩⟩ ⟨⟨1, 0⟩, ⟨1500, 0⟩⟩ (states (step steadyEnv) steadyStart evenCmds 1)
        (states (step steadyEnv) steadyStart evenCmds 2) := by
  refine ⟨by decide +kernel, ?_⟩
  exact ((rates_match_iff steadyStart_eq evenCmds_forward (n := 1) rfl).1 ⟨1500, 0⟩ ⟨⟨0, 0⟩, ⟨0, 0⟩⟩
    ⟨0, 0⟩ rfl rfl rfl (by decide +kernel)).mpr (.inl (by decide +kernel))

/-- The same traffic, with a reading that fails. -/
def outageCmds : ℕ → Cmd
  | 0 => .tick (rateTick 0 (some 0))
  | 1 => .tick (rateTick 1 none)
  | 2 => .tick (rateTick 2 (some 3000))
  | _ => .disarm

def outageRun : ℕ → VgCtrl := states (step steadyEnv) steadyStart outageCmds

/-- 3000 packets in two seconds count as 3000 packets per second, and the gate is armed. -/
theorem failed_read_inflates_rates : ClockForward outageCmds ∧
    lastSample outageCmds 2 = some ⟨⟨0, 0⟩, ⟨0, 0⟩⟩ ∧
    RateSample.pps ⟨⟨0, 0⟩, ⟨0, 0⟩⟩ ⟨⟨2, 0⟩, ⟨3000, 0⟩⟩ = 1500 ∧
    (outageRun 2).cfg.wakePps = 2000 ∧ (outageRun 2).state = .idle ∧
    (outageRun 3).rxPps = 3000 ∧ (outageRun 3).state = .active ∧
    ¬ RatesMatch ⟨⟨0, 0⟩, ⟨0, 0⟩⟩ ⟨⟨2, 0⟩, ⟨3000, 0⟩⟩ (outageRun 2) (outageRun 3) := by
  have htrue : RateSample.pps ⟨⟨0, 0⟩, ⟨0, 0⟩⟩ ⟨⟨2, 0⟩, ⟨3000, 0⟩⟩ = 1500 := by decide +kernel
  have hrate : (outageRun 3).rxPps = 3000 := by decide +kernel
  have hclock : ClockForward outageCmds := by
    intro n t ht p hp
    rcases n with _ | _ | _ | n
    · cases hp
    · cases ht
      cases hp
      decide +kernel
    · cases ht
      cases hp
      decide +kernel
    · cases ht
  refine ⟨hclock, rfl, htrue, by decide +kernel, by decide +kernel, hrate, by decide +kernel,
    fun h => ?_⟩
  have hpps := h.pps
  rw [htrue, hrate] at hpps
  exact absurd hpps (by decide +kernel)

end VoidGate
