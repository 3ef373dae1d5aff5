import VoidGate.Expiry
import VoidGate.FloodResponse
import VoidGate.QuietTime

/-!
# The end of an attack

When the rates stay below the wake thresholds and no remote is over its own, every tick
brings the gate closer to rest: drops run out and are lifted, the quiet time goes on, and
in the end a tick disarms. From then on the gate stays idle.
-/

namespace VoidGate

open Runs

section Tick
variable {env : Env} {c x : VgCtrl} {t : TickIn}

theorem expireDrops_calm (hok : c.drops.Ok)
    (hcalm : ∀ k, c.maps.writes ≤ k → env.fault k = false) :
    (expireDrops env c).drops.records =
        c.drops.records.filter (fun r => inForce c.cfg r (env.wall c.clock)) ∧
      c.maps.writes ≤ (expireDrops env c).maps.writes ∧
      (expireDrops env c).clock = c.clock + 1 := by
  obtain ⟨L, F, hinv⟩ := hok
  obtain ⟨heq, hpool, hinv'⟩ : Swept env _ { c with clock := c.clock + 1 } [] L F
      (expireDrops env c) := by
    rw [expireDrops, expireOne_eq]
    exact forEachDrop_sweepOne _ hinv
  dsimp only at heq hpool hinv'
  refine ⟨?_, ?_, ?_⟩
  · have hkept : keptFrom env.fault ((fun r => !inForce c.cfg r (env.wall c.clock)) ∘ c.drops.pool)
        c.maps.writes L =
        L.filter fun i => !!inForce c.cfg (c.drops.pool i) (env.wall c.clock) || false :=
      (keptFrom_eq_filter fun j _ _ => hcalm (c.maps.writes + j) (Nat.le_add_right _ _)).1
    rw [hinv'.records_eq, hinv.records_eq, hpool, List.nil_append, hkept, List.filter_map]
    simp [Function.comp_def]
  · rw [heq]
    simp
  · rw [heq]

def QuietWalk (env : Env) (c : VgCtrl) (t : TickIn) : Prop :=
  ∀ j r, t.remotes[j]? = some r →
    overThreshold (visitIn env c t j) (c.lastTick.until t.mono) r = false

private theorem visitIn_quiet (hw : Walks c t) (hok : c.snaps.Ok) (hquiet : QuietWalk env c t) (j : ℕ) :
    Books (measured c t) (visitIn env c t j) := by
  induction j with
  | zero => exact ⟨rfl, rfl, rfl, rfl, rfl, rfl, le_rfl⟩
  | succ j ih =>
    cases hr : t.remotes[j]? with
    | none => exact visitIn_succ_of_none env c hr ▸ ih
    | some r =>
      obtain ⟨snaps, judged, -, hvisit⟩ := policyOneRemote_eq env (c.lastTick.until t.mono)
        (visitIn_ready env hw hok j).snaps_ok r
      rw [visitIn_succ env c hr, hvisit, hquiet j r hr]
      exact ih.trans ⟨rfl, rfl, rfl, rfl, rfl, rfl, le_rfl⟩

structure Calmed (env : Env) (c x : VgCtrl) : Prop where
  state : x.state = .active
  cfg : x.cfg = c.cfg
  quietSince : x.quietSince = c.quietSince
  drops_ok : x.drops.Ok
  low : LowRates x
  writes : c.maps.writes ≤ x.maps.writes
  records : ∃ k, c.clock ≤ k ∧ k < x.clock ∧
    x.drops.records = c.drops.records.filter fun r => inForce c.cfg r (env.wall k)

private theorem testedIn_calmed (hx : testedIn env c t = some x) (hok : c.drops.Ok) (hsnaps : c.snaps.Ok)
    (hquiet : QuietWalk env c t) (hlow : LowRates (measured c t))
    (hcalm : ∀ k, c.maps.writes ≤ k → env.fault k = false) : Calmed env c x := by
  have hsince := quietSince_tested hx
  obtain ⟨hw, -, hvisits⟩ := vgCtrlTick_tested hx
  have hrates := hvisits.sameSamples.toSameRates
  have hmeasured := measured_books c t
  rw [testedIn, if_pos hw, walkRemotes_visitIn] at hx
  obtain ⟨y, hy, rfl⟩ : ∃ y, Books c y ∧ expireDrops env y = x := by
    refine ⟨_, hmeasured.trans ((visitIn_quiet hw hsnaps hquiet t.remotes.length).trans ?_),
      Option.some.inj hx⟩
    split_ifs <;> exact ⟨rfl, rfl, rfl, rfl, rfl, rfl, le_rfl⟩
  have hcfg : (expireDrops env y).cfg = c.cfg := by
    obtain ⟨maps, drops, clock, he⟩ := expireDrops_dropsOnly env y
    rw [he, hy.cfg]
  have hdrops : y.drops.Ok := hy.drops ▸ hok
  obtain ⟨hrecords, hwrites, hclock⟩ := expireDrops_calm hdrops (hy.maps ▸ hcalm)
  refine ⟨?_, hcfg, hsince, (expireDrops_trace hdrops le_rfl).drops_ok hdrops, ?_,
    hy.maps ▸ hwrites, y.clock, hy.clock_le, by omega, ?_⟩
  · rw [(expireDrops_dropsOnly env y).state, hy.state]
    exact hw.1
  · rw [LowRates, hmeasured.cfg] at hlow
    rw [LowRates, hrates.rxPps, hrates.rxBps, hcfg]
    exact hlow
  · rw [hrecords, hy.drops, hy.cfg]

structure Waits (env : Env) (x x' : VgCtrl) : Prop where
  state : x'.state = .active
  cfg : x'.cfg = x.cfg
  maps : x'.maps = x.maps
  drops : x'.drops = x.drops
  quietSince : x'.quietSince = if x.quietSince = 0 then env.wall x.clock else x.quietSince
  clock_le : x.clock ≤ x'.clock

private theorem quietStart_waits (hs : x.state = .active) : Waits env x (quietStart env x) := by
  rw [quietStart]
  split_ifs with h0
  · exact ⟨hs, rfl, rfl, rfl, (if_pos h0).symm, Nat.le_succ _⟩
  · exact ⟨hs, rfl, rfl, rfl, (if_neg h0).symm, le_rfl⟩

/-- With low rates the test begins a quiet time or lets it go on, and disarms when the list is empty
and the time is up. -/
private theorem quietTest_calm (hs : x.state = .active) (hlow : LowRates x)
    (hcalm : ∀ k, x.maps.writes ≤ k → env.fault k = false) :
    (quietTest env x).state = .idle ∨ Waits env x (quietTest env x) ∧
      (x.drops.count = 0 → ∃ k, x.clock ≤ k ∧
        env.wall k - (quietTest env x).quietSince < x.cfg.clearSeconds) := by
  have hz : Waits env x (quietStart env x) := quietStart_waits hs
  have htest : quietTest env x =
      if (quietStart env x).drops.count = 0 then
        if (quietStart env x).cfg.clearSeconds ≤
            env.wall (quietStart env x).clock - (quietStart env x).quietSince then
          (vgCtrlDisarm env { quietStart env x with clock := (quietStart env x).clock + 1 }).1
        else { quietStart env x with clock := (quietStart env x).clock + 1 }
      else quietStart env x := if_pos hlow
  rw [htest]
  generalize quietStart env x = z at hz
  split_ifs with hcount hlong
  · left
    have hok : env.fault (vgDropFlush env z.maps).writes = false := by
      refine hcalm _ ?_
      rw [vgDropFlush_writes, hz.maps]
      omega
    simp [vgCtrlDisarm_eq, vgCfgCommit_eq, hok]
  · right
    exact ⟨⟨hz.state, hz.cfg, hz.maps, hz.drops, hz.quietSince, hz.clock_le.trans (Nat.le_succ _)⟩,
      fun _ => ⟨z.clock, hz.clock_le, hz.cfg ▸ not_le.mp hlong⟩⟩
  · right
    exact ⟨hz, fun h0 => absurd (hz.drops ▸ h0) hcount⟩

end Tick

/-- An attack is over: from now on there are only ticks, time passes between them, the metrics can be
read and show low rates, no remote is over a threshold, the map calls succeed and the clock goes on.
Nothing is listed by hand. The first of these ticks may be the first of all. -/
structure Subsides (env : Env) (s : ℕ → VgCtrl) (ts : ℕ → TickIn) : Prop where
  reachable : Reachable env (s 0)
  next : ∀ n, s (n + 1) = step env (s n) (.tick (ts n))
  timely : ∀ n, (ts n).metrics.isSome ∧
    ((s n).haveLastTick = true → 0 < (s n).lastTick.until (ts n).mono)
  low : ∀ n, LowRates (measured (s n) (ts n))
  quiet : ∀ n, QuietWalk env (s n) (ts n)
  transient : ∀ r ∈ (s 0).drops.records, r.reason ≠ .manual
  calm : ∀ k, (s 0).maps.writes ≤ k → env.fault k = false
  clock : ∀ b, ∃ k, ∀ l, k ≤ l → b ≤ env.wall l
  positive : ∀ k, (s 0).clock ≤ k → env.wall k ≠ 0

section Runs
variable {env : Env} {s : ℕ → VgCtrl} {ts : ℕ → TickIn} {n : ℕ}

theorem Subsides.reachable_at (h : Subsides env s ts) (n : ℕ) : Reachable env (s n) := by
  induction n with
  | zero => exact h.reachable
  | succ n ih =>
    rw [h.next n]
    exact ih.step (.tick (ts n))

theorem Subsides.rests (h : Subsides env s ts) (hrests : ¬ Walks (s n) (ts n)) :
    s (n + 1) = measured (s n) (ts n) := by
  rw [h.next n, step]
  rcases vgCtrlTick_rests env hrests with he | ⟨-, -, -, hhigh, -⟩
  · exact he
  · obtain ⟨hpps, hbps⟩ := h.low n
    rcases hhigh with hhigh | hhigh
    · exact absurd hhigh hpps.not_gt
    · exact absurd hhigh hbps.not_gt

private theorem Subsides.stays_idle (h : Subsides env s ts) (hs : (s n).state = .idle) :
    (s (n + 1)).state = .idle := by
  rw [h.rests fun hw => absurd (hs.symm.trans hw.1) (by decide), (measured_books _ _).state]
  exact hs

theorem Subsides.haveLastTick (h : Subsides env s ts) (h₀ : (s 0).haveLastTick = true) (n : ℕ) :
    (s n).haveLastTick = true := by
  cases n with
  | zero => exact h₀
  | succ n =>
    rw [h.next n, step, (vgCtrlTick_sameSamples env (s n) (ts n)).haveLastTick]
    exact (measured_lastTick (s n) (ts n)).1

/-- The first tick of all only reads the clock and the metrics. -/
theorem Subsides.first (h : Subsides env s ts) (h₀ : (s 0).haveLastTick = false) :
    s 1 = measured (s 0) (ts 0) :=
  h.rests fun hw => absurd hw.2.2.1 (by simp [h₀])

theorem Subsides.tail (h : Subsides env s ts) (h₀ : (s 0).haveLastTick = false) :
    Subsides env (fun n => s (n + 1)) fun n => ts (n + 1) := by
  have hbooks : Books (s 0) (s 1) := by
    rw [h.first h₀]
    exact measured_books _ _
  refine ⟨h.reachable_at 1, fun n => h.next (n + 1), fun n => h.timely (n + 1),
    fun n => h.low (n + 1), fun n => h.quiet (n + 1), ?_, ?_, h.clock, fun k hk => ?_⟩
  · rw [hbooks.drops]
    exact h.transient
  · rw [hbooks.maps]
    exact h.calm
  · exact h.positive k (hbooks.clock_le.trans hk)

structure Fades (env : Env) (c c' : VgCtrl) : Prop where
  cfg : c'.cfg = c.cfg
  writes : c.maps.writes ≤ c'.maps.writes
  clock : c.clock < c'.clock
  records : ∃ k, c.clock ≤ k ∧
    c'.drops.records = c.drops.records.filter fun r => inForce c.cfg r (env.wall k)
  quietSince : ∃ k, c.clock ≤ k ∧
    c'.quietSince = if c.quietSince = 0 then env.wall k else c.quietSince
  waits : c'.drops.records = [] →
    ∃ k, c.clock ≤ k ∧ env.wall k - c'.quietSince < c.cfg.clearSeconds

private theorem Subsides.fades (h : Subsides env s ts) (hlast : (s n).haveLastTick = true)
    (hs : (s n).state = .active) (hs' : (s (n + 1)).state = .active)
    (hcalm : ∀ k, (s n).maps.writes ≤ k → env.fault k = false) : Fades env (s n) (s (n + 1)) := by
  have hreach := h.reachable_at n
  obtain ⟨hmetrics, hdt⟩ := h.timely n
  cases hx : testedIn env (s n) (ts n) with
  | none => exact absurd ⟨hs, hmetrics, hlast, hdt hlast⟩ (testedIn_eq_none_iff.mp hx)
  | some x =>
    have hc := testedIn_calmed hx hreach.sound.drops_ok hreach.aged.ok (h.quiet n) (h.low n) hcalm
    have hnext : s (n + 1) = quietTest env x := (h.next n).trans (vgCtrlTick_tested hx).2.1
    rw [hnext] at hs' ⊢
    obtain ⟨k, hk, hkx, hrecords⟩ := hc.records
    rcases quietTest_calm hc.state hc.low fun k hk => hcalm k (hc.writes.trans hk) with
      hidle | ⟨hw, hlong⟩
    · exact absurd (hs'.symm.trans hidle) (by decide)
    · refine ⟨hw.cfg.trans hc.cfg, ?_, ?_, ⟨k, hk, ?_⟩, ⟨x.clock, by omega, ?_⟩, fun hnil => ?_⟩
      · rw [hw.maps]
        exact hc.writes
      · exact hk.trans_lt (hkx.trans_le hw.clock_le)
      · rw [hw.drops, hrecords]
      · rw [hw.quietSince, hc.quietSince]
      · rw [hw.drops] at hnil
        obtain ⟨l, hl, hlt⟩ := hlong (by rw [hc.drops_ok.count_eq, hnil]; rfl)
        exact ⟨l, by omega, hc.cfg ▸ hlt⟩

private theorem exists_expired (cfg : VgConfig) {l : List VgDropRec} (h : ∀ r ∈ l, r.reason ≠ .manual) :
    ∃ b, ∀ now, b ≤ now → ∀ r ∈ l, inForce cfg r now = false := by
  induction l with
  | nil => exact ⟨0, by simp⟩
  | cons r l ih =>
    obtain ⟨hr, hl⟩ := List.forall_mem_cons.mp h
    obtain ⟨b, hb⟩ := ih hl
    refine ⟨max b (max r.expires (r.inserted + cfg.banTime)), fun now hnow => ?_⟩
    obtain ⟨hb', hr'⟩ := max_le_iff.mp hnow
    refine List.forall_mem_cons.mpr ⟨?_, hb now hb'⟩
    rw [inForce]
    cases hreason : r.reason with
    | manual => exact absurd hreason hr
    | _ =>
      rw [decide_eq_false_iff_not]
      omega

structure Faded (env : Env) (s : ℕ → VgCtrl) (n : ℕ) : Prop where
  cfg : (s n).cfg = (s 0).cfg
  writes : (s 0).maps.writes ≤ (s n).maps.writes
  clock : (s 0).clock + n ≤ (s n).clock
  records : ∀ r ∈ (s n).drops.records, r ∈ (s 0).drops.records

theorem Subsides.faded (h : Subsides env s ts) (h₀ : (s 0).haveLastTick = true)
    (hs : ∀ n, (s n).state = .active) (n : ℕ) : Faded env s n ∧ Fades env (s n) (s (n + 1)) := by
  have hstep : ∀ {n}, Faded env s n → Fades env (s n) (s (n + 1)) := fun {n} hf =>
    h.fades (h.haveLastTick h₀ n) (hs n) (hs (n + 1)) fun k hk => h.calm k (hf.writes.trans hk)
  suffices hfaded : Faded env s n from ⟨hfaded, hstep hfaded⟩
  induction n with
  | zero => exact ⟨rfl, le_rfl, le_rfl, fun _ => id⟩
  | succ n ih =>
    have hf := hstep ih
    obtain ⟨k, -, hrecords⟩ := hf.records
    refine ⟨hf.cfg.trans ih.cfg, ih.writes.trans hf.writes, ?_, fun r hr => ih.records r ?_⟩
    · have hclock := ih.clock
      have hlt := hf.clock
      omega
    · rw [hrecords] at hr
      exact (List.mem_filter.mp hr).1

private theorem Subsides.quietSince_eq (h : Subsides env s ts) (h₀ : (s 0).haveLastTick = true)
    (hs : ∀ n, (s n).state = .active) (n : ℕ) :
    (s (n + 1)).quietSince = (s 1).quietSince ∧ (s 1).quietSince ≠ 0 := by
  have hfirst : (s 1).quietSince ≠ 0 := by
    obtain ⟨k, hk, hsince⟩ := (h.faded h₀ hs 0).2.quietSince
    rw [hsince]
    split_ifs with h0
    · exact h.positive k hk
    · exact h0
  refine ⟨?_, hfirst⟩
  induction n with
  | zero => rfl
  | succ n ih =>
    obtain ⟨k, -, hsince⟩ := (h.faded h₀ hs (n + 1)).2.quietSince
    rw [hsince, ih, if_neg hfirst]

theorem Subsides.exists_idle_of_last (h : Subsides env s ts) (h₀ : (s 0).haveLastTick = true) :
    ∃ n, (s n).state = .idle := by
  by_contra hnever
  have hs : ∀ n, (s n).state = .active := by
    intro n
    cases hn : (s n).state with
    | active => rfl
    | idle => exact absurd ⟨n, hn⟩ hnever
  -- a time at which all drops have run out and the quiet time is long enough
  obtain ⟨b, hb⟩ := exists_expired (s 0).cfg h.transient
  obtain ⟨m, hm⟩ := h.clock (max b ((s 1).quietSince + (s 0).cfg.clearSeconds))
  obtain ⟨hfaded, hfades⟩ := h.faded h₀ hs m
  have hlate : ∀ k, (s m).clock ≤ k →
      b ≤ env.wall k ∧ (s 1).quietSince + (s 0).cfg.clearSeconds ≤ env.wall k := fun k hk =>
    max_le_iff.mp (hm k (by have hclock := hfaded.clock; omega))
  have hnil : (s (m + 1)).drops.records = [] := by
    obtain ⟨k, hk, hrecords⟩ := hfades.records
    rw [hrecords, List.filter_eq_nil_iff]
    intro r hr
    rw [hfaded.cfg, hb _ (hlate k hk).1 r (hfaded.records r hr)]
    exact Bool.false_ne_true
  obtain ⟨k, hk, hshort⟩ := hfades.waits hnil
  have hlong := (hlate k hk).2
  rw [(h.quietSince_eq h₀ hs m).1, hfaded.cfg] at hshort
  omega

private theorem Subsides.exists_idle (h : Subsides env s ts) : ∃ n, (s n).state = .idle := by
  cases h₀ : (s 0).haveLastTick with
  | true => exact h.exists_idle_of_last h₀
  | false =>
    have hlast : (s 1).haveLastTick = true := by
      rw [h.first h₀]
      exact (measured_lastTick (s 0) (ts 0)).1
    obtain ⟨n, hn⟩ := (h.tail h₀).exists_idle_of_last hlast
    exact ⟨n + 1, hn⟩

/-- After an attack the gate goes back to idle with an empty list, and stays there. -/
theorem gate_stands_down (h : Subsides env s ts) :
    ∃ n, ∀ k, n ≤ k → (s k).state = .idle ∧ (s k).drops.records = [] := by
  obtain ⟨n, hn⟩ := h.exists_idle
  refine ⟨n, fun k hk => ?_⟩
  have hidle : (s k).state = .idle := by
    induction k, hk using Nat.le_induction with
    | base => exact hn
    | succ k _ ih => exact h.stays_idle ih
  refine ⟨hidle, ?_⟩
  by_contra hlisted
  have hcount : 0 < (s k).drops.count := by
    rw [(h.reachable_at k).sound.drops_ok.count_eq]
    exact List.length_pos_iff.mpr hlisted
  exact absurd (hidle.symm.trans ((h.reachable_at k).inForce.gate.listed hcount)) (by decide)

end Runs

def restTick (n : ℕ) : TickIn := ⟨⟨n + 1, 0⟩, some ⟨0, 0⟩, [], 0⟩

/-- The small host has ticked once and got a drop for a minute. -/
def restStart : VgCtrl :=
  step steadyEnv (step steadyEnv steadyStart (.tick ⟨⟨0, 0⟩, some ⟨0, 0⟩, [], 0⟩))
    (.dropTtl (sampleHost [198, 18, 0, 1]) 60)

def restRun : ℕ → VgCtrl := states (step steadyEnv) restStart fun n => .tick (restTick n)

/-- The samples of the resting host before tick `n`. -/
structure Rested (n : ℕ) (c : VgCtrl) : Prop where
  cfg : c.cfg = restStart.cfg
  haveLastTick : c.haveLastTick = true
  lastTick : c.lastTick = ⟨n, 0⟩
  lastM : c.lastM = ⟨0, 0⟩
  rxPps : c.rxPps = 0
  rxBps : c.rxBps = 0

theorem Rested.measured {n : ℕ} {c : VgCtrl} (h : Rested n c) :
    Rested (n + 1) (measured c (restTick n)) := by
  have hdt : tickDt c ⟨n + 1, 0⟩ = ({ c with lastTick := ⟨n + 1, 0⟩ }, 1) := by
    simp [tickDt, h.haveLastTick, h.lastTick, Timespec.until]
  have heq : VoidGate.measured c (restTick n) =
      updateRates { c with lastTick := ⟨n + 1, 0⟩ } ⟨0, 0⟩ 1 := by
    simp only [VoidGate.measured, restTick, hdt]
  rw [heq, updateRates]
  split_ifs
  · exact ⟨h.cfg, h.haveLastTick, rfl, rfl, by simp [h.lastM, increase], by simp [h.lastM, increase]⟩
  · exact ⟨h.cfg, h.haveLastTick, rfl, rfl, h.rxPps, h.rxBps⟩

theorem restRun_reachable (n : ℕ) : Reachable steadyEnv (restRun n) := by
  have hstart : Reachable steadyEnv steadyStart := ⟨_, _, _, _, _, steadyStart_eq, .start⟩
  induction n with
  | zero => exact (hstart.step (.tick _)).step (.dropTtl _ 60)
  | succ n ih => exact ih.step (.tick (restTick n))

theorem restRun_rested (n : ℕ) : Rested n (restRun n) := by
  induction n with
  | zero =>
    have hfacts : restStart.haveLastTick = true ∧ restStart.lastTick = ⟨0, 0⟩ ∧
        restStart.lastM = ⟨0, 0⟩ ∧ restStart.rxPps = 0 ∧ restStart.rxBps = 0 := by decide +kernel
    obtain ⟨hhave, hlast, hm, hpps, hbps⟩ := hfacts
    exact ⟨rfl, hhave, hlast, hm, hpps, hbps⟩
  | succ n ih =>
    have hm := ih.measured
    have hsame := vgCtrlTick_sameSamples steadyEnv (restRun n) (restTick n)
    have hcfg : (restRun (n + 1)).cfg = (restRun n).cfg :=
      (vgCtrlTick_trace (restRun_reachable n).sound.drops_ok (restTick n)).cfg_eq fun _ _ => id
    exact ⟨hcfg.trans ih.cfg, hsame.haveLastTick.trans hm.haveLastTick,
      hsame.lastTick.trans hm.lastTick, hsame.lastM.trans hm.lastM, hsame.rxPps.trans hm.rxPps,
      hsame.rxBps.trans hm.rxBps⟩

private theorem restRun_subsides : Subsides steadyEnv restRun restTick := by
  obtain ⟨htransient, hpps, hbps⟩ : (∀ r ∈ restStart.drops.records, r.reason ≠ .manual) ∧
      (0 : ℚ) < restStart.cfg.wakePps ∧ (0 : ℚ) < restStart.cfg.wakeMbps * 1000000 := by
    decide +kernel
  refine ⟨restRun_reachable 0, fun _ => rfl, fun n => ?_, fun n => ?_, fun n j r hr => ?_, htransient,
    fun _ _ => rfl, fun b => ⟨b.toNat, fun l hl => ?_⟩, fun k _ => ?_⟩
  · have hr := restRun_rested n
    refine ⟨rfl, fun _ => ?_⟩
    rw [hr.lastTick]
    simp [restTick, Timespec.until]
  · have hm := (restRun_rested n).measured
    rw [LowRates, hm.rxPps, hm.rxBps, hm.cfg]
    exact ⟨hpps, hbps⟩
  · simp [restTick] at hr
  · exact show b ≤ 1000000 + (l : ℤ) by omega
  · exact show 1000000 + (k : ℤ) ≠ 0 by omega

/-- The host is armed for its one drop, and goes back to idle after a while. -/
theorem gate_stands_down_rest : restStart.state = .active ∧ restStart.drops.count = 1 ∧
    ∃ n, ∀ k, n ≤ k → (restRun k).state = .idle ∧ (restRun k).drops.records = [] := by
  have hfacts : restStart.state = .active ∧ restStart.drops.count = 1 := by decide +kernel
  exact ⟨hfacts.1, hfacts.2, gate_stands_down restRun_subsides⟩

end VoidGate
