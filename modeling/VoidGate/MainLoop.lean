import Mathlib.Tactic.Linarith
import VoidGate.ConfigSpec
import VoidGate.HttpMetrics

/-!
# The main loop

One thread serves the control socket, the metrics endpoint and the ticks. Each round of
the loop polls for at most the time that is left to the next tick, serves whoever is
there, and makes the tick if it is due. Times are compared in milliseconds, by a division
that rounds towards zero, and the interval may change with a reload.
-/

namespace VoidGate

open Runs

/-- `elapsed_ms`. -/
def elapsedMs (a b : Timespec) : ℤ :=
  (a.tvSec - b.tvSec) * 1000 + (a.tvNsec - b.tvNsec).tdiv 1000000

/-- The timeout of `poll`; the cast to `int` keeps 32 bits. -/
def waitMs (idlePollMs elapsed : ℤ) : ℤ := max 0 (idlePollMs - elapsed.bmod (2 ^ 32))

/-- What `poll` says, with what the handlers meet. A descriptor that is not ready has no
connection, and neither has one whose `accept` fails. -/
inductive PollResult where
  | ready (ctl : Option (Outside × Conn)) (http : Option (Option XdpMetrics × Conn))
  | timeout
  | interrupted
  | failed

/-- What a round of the loop meets: `g_stop`, the clock before and after the poll and its handlers,
and a tick. -/
structure Round where
  stop : Bool
  now : Timespec
  poll : PollResult
  later : Timespec
  tick : TickIn

/-- The variables of the loop, and the replies so far. -/
structure MainLoop where
  ctrl : VgCtrl
  lastTick : Timespec
  running : Bool
  replies : List (List UInt8)

namespace MainLoop
variable (env : Env)

def serve (l : MainLoop) (ctl : Option (Outside × Conn)) (http : Option (Option XdpMetrics × Conn)) :
    MainLoop :=
  let l := match ctl with
    | none => l
    | some (o, conn) =>
      let r := vgCtlServerHandle env o l.ctrl conn
      { l with ctrl := r.1, replies := l.replies ++ r.2.toList }
  match http with
  | none => l
  | some (metrics, conn) =>
    { l with replies := l.replies ++ (vgHttpHandle metrics l.ctrl conn).toList }

def tickDue (l : MainLoop) (r : Round) : Bool :=
  match r.poll with
  | .ready _ _ => decide (l.ctrl.cfg.idlePollMs ≤ elapsedMs r.later l.lastTick)
  | _ => true

def endRound (l : MainLoop) (r : Round) : MainLoop :=
  if l.tickDue r then { l with ctrl := (vgCtrlTick env l.ctrl r.tick).1, lastTick := r.later } else l

/-- One round of the loop. `cfg` is the configuration of the control plane, so the interval is
the one after the handlers. -/
def round (l : MainLoop) (r : Round) : MainLoop :=
  if l.running = false then l
  else if r.stop then { l with running := false }
  else match r.poll with
    | .failed => { l with running := false }
    | .interrupted => l
    | .timeout => l.endRound env r
    | .ready ctl http => (l.serve env ctl http).endRound env r

/-- The state in which a round comes to its test, if it does. -/
def served (l : MainLoop) (r : Round) : Option MainLoop :=
  if l.running = false ∨ r.stop = true then none
  else match r.poll with
    | .failed => none
    | .interrupted => none
    | .timeout => some l
    | .ready ctl http => some (l.serve env ctl http)

/-- The round makes a tick. -/
def Ticks (l : MainLoop) (r : Round) : Prop := ∃ x, l.served env r = some x ∧ x.tickDue r = true

variable {env} {l x : MainLoop} {r : Round}

private theorem serve_reachable (h : Reachable env l.ctrl) (ctl : Option (Outside × Conn))
    (http : Option (Option XdpMetrics × Conn)) : Reachable env (l.serve env ctl http).ctrl := by
  have hctl : ∀ o conn, Reachable env (vgCtlServerHandle env o l.ctrl conn).1 :=
    fun o conn => h.vgCtlServerHandle env o conn
  rcases ctl with - | ⟨o, conn⟩ <;> rcases http with - | ⟨m, conn'⟩
  · exact h
  · exact h
  · exact hctl o conn
  · exact hctl o conn

private theorem serve_lastTick (ctl : Option (Outside × Conn)) (http : Option (Option XdpMetrics × Conn)) :
    (l.serve env ctl http).lastTick = l.lastTick := by
  rcases ctl with - | ⟨o, conn⟩ <;> rcases http with - | ⟨m, conn'⟩ <;> rfl

theorem served_spec (h : l.served env r = some x) :
    l.round env r = x.endRound env r ∧ x.lastTick = l.lastTick ∧
      (Reachable env l.ctrl → Reachable env x.ctrl) ∧ (r.poll = .timeout → x = l) := by
  rw [served] at h
  split_ifs at h with hrun
  rw [not_or] at hrun
  rw [round, if_neg hrun.1, if_neg hrun.2]
  cases hpoll : r.poll with
  | failed => simp [hpoll] at h
  | interrupted => simp [hpoll] at h
  | timeout =>
    obtain rfl : l = x := by simpa [hpoll] using h
    exact ⟨rfl, rfl, id, fun _ => rfl⟩
  | ready ctl http =>
    obtain rfl : l.serve env ctl http = x := by simpa [hpoll] using h
    refine ⟨rfl, serve_lastTick ctl http, fun hr => serve_reachable hr ctl http, ?_⟩
    rintro ⟨⟩

theorem served_none (h : l.served env r = none) :
    (l.round env r).ctrl = l.ctrl ∧ (l.round env r).lastTick = l.lastTick := by
  rw [round]
  split_ifs with hrun hstop
  · exact ⟨rfl, rfl⟩
  · exact ⟨rfl, rfl⟩
  rw [served, if_neg (not_or.mpr ⟨hrun, hstop⟩)] at h
  cases hpoll : r.poll with
  | failed => exact ⟨rfl, rfl⟩
  | interrupted => exact ⟨rfl, rfl⟩
  | timeout => simp [hpoll] at h
  | ready ctl http => simp [hpoll] at h

private theorem round_reachable (h : Reachable env l.ctrl) : Reachable env (l.round env r).ctrl := by
  cases hx : l.served env r with
  | none => exact (served_none hx).1 ▸ h
  | some x =>
    obtain ⟨hround, -, hreach, -⟩ := served_spec hx
    rw [hround, endRound]
    split_ifs
    · exact (hreach h).step (.tick r.tick)
    · exact hreach h

private theorem lastTick_of_ticks (h : l.Ticks env r) : (l.round env r).lastTick = r.later := by
  obtain ⟨x, hx, hdue⟩ := h
  rw [(served_spec hx).1, endRound, if_pos hdue]

private theorem lastTick_of_not_ticks (h : ¬ l.Ticks env r) : (l.round env r).lastTick = l.lastTick := by
  cases hx : l.served env r with
  | none => exact (served_none hx).2
  | some x =>
    obtain ⟨hround, hlast, -, -⟩ := served_spec hx
    rw [hround, endRound, if_neg fun hdue => h ⟨x, hx, hdue⟩]
    exact hlast

variable {rounds : ℕ → Round}

private theorem reachable_states (h : Reachable env l.ctrl) (n : ℕ) :
    Reachable env (states (round env) l rounds n).ctrl :=
  (reaches_states rounds n).invariant (I := fun x : MainLoop => Reachable env x.ctrl) h
    fun _ _ hx _ => round_reachable hx

private theorem lastTick_states {k n : ℕ} (hkn : k < n)
    (hk : (states (round env) l rounds k).Ticks env (rounds k))
    (hbetween : ∀ j, k < j → j < n → ¬ (states (round env) l rounds j).Ticks env (rounds j)) :
    (states (round env) l rounds n).lastTick = (rounds k).later := by
  induction n, hkn using Nat.le_induction with
  | base => exact lastTick_of_ticks hk
  | succ n hn ih =>
    rw [states, lastTick_of_not_ticks (hbetween n hn (Nat.lt_succ_self n))]
    exact ih fun j hkj hjn => hbetween j hkj (hjn.trans (Nat.lt_succ_self n))

end MainLoop

theorem elapsedMs_bounds (a b : Timespec) :
    1000 * b.until a - 1 < (elapsedMs a b : ℚ) ∧ (elapsedMs a b : ℚ) < 1000 * b.until a + 1 := by
  set x := a.tvNsec - b.tvNsec with hx
  have hdiv : (x : ℚ) = 1000000 * (x.tdiv 1000000 : ℤ) + (x.tmod 1000000 : ℤ) := by
    exact_mod_cast (Int.mul_tdiv_add_tmod x 1000000).symm
  have hlt : |(x.tmod 1000000 : ℚ)| < 1000000 := by
    have hmod : |x.tmod 1000000| < 1000000 := by
      rw [Int.abs_eq_natAbs, Int.natAbs_tmod]
      exact_mod_cast Nat.mod_lt _ (by decide)
    exact_mod_cast hmod
  obtain ⟨hlow, hhigh⟩ := abs_lt.mp hlt
  have huntil : 1000 * b.until a = ((a.tvSec - b.tvSec : ℤ) : ℚ) * 1000 + (x : ℚ) / 1000000 := by
    rw [Timespec.until, hx]
    ring
  have hms : (elapsedMs a b : ℚ) = ((a.tvSec - b.tvSec : ℤ) : ℚ) * 1000 + (x.tdiv 1000000 : ℤ) := by
    rw [elapsedMs]
    push_cast
    rfl
  rw [huntil, hms, hdiv]
  constructor <;> linarith

theorem vgConfigLoad_idlePollMs_pos {pton : InetPton} {file : ConfigFile} {n : VgConfig}
    (h : vgConfigLoad pton file = some n) : 0 < n.idlePollMs := by
  cases file with
  | missing =>
    cases h
    exact (by decide : (0 : ℤ) < 1000)
  | opened content readError =>
    rw [vgConfigLoad] at h
    split at h
    · cases h
    · rename_i m _
      split_ifs at h with _ hle
      · cases h
        exact (by decide : (0 : ℤ) < 1000)
      · cases h
        exact not_le.mp hle

theorem vgConfigAutoLocal_idlePollMs {nic : Option (List IfAddr)} {m n : VgConfig}
    (h : vgConfigAutoLocal nic m = some n) : n.idlePollMs = m.idlePollMs := by
  rw [vgConfigAutoLocal_some h]

private theorem reloadConfig_idlePollMs_pos {env : Env} {c : VgCtrl} {file : ConfigFile}
    {nic : Option (List IfAddr)} {n : VgConfig} (h : reloadConfig env c file nic = some n) :
    0 < n.idlePollMs := by
  rw [reloadConfig] at h
  split_ifs at h
  split at h
  · cases h
  · rename_i f hf
    have hpos := vgConfigLoad_idlePollMs_pos hf
    rw [vgConfigAutoLocal_idlePollMs h, overridden]
    split_ifs <;> exact hpos

private theorem Reachable.idlePollMs_pos {env : Env} {c : VgCtrl} (h : Reachable env c) :
    0 < c.cfg.idlePollMs := by
  refine h.invariant (I := fun c => 0 < c.cfg.idlePollMs) ?_ ?_
  · intro cfgPath ifaceOv file nic c₀ hstart
    obtain ⟨f, hf, hcfg, -⟩ := startUp_some hstart
    have hpos := vgConfigLoad_idlePollMs_pos hf
    rw [vgConfigAutoLocal_idlePollMs hcfg]
    exact hpos
  · intro c cmd hs hi
    refine step_invariant (I := fun c => 0 < c.cfg.idlePollMs) hs.drops_ok hi (fun x x' a _ hx ha _ hm => ?_) ?_
    · rw [hm.cfg_eq ha]
      exact hx
    · intro file nic n _ hn
      exact reloadConfig_idlePollMs_pos hn

/-- What is assumed about a round: the clock does not run backwards before the poll, and a poll that
times out has waited. -/
structure Round.Timed (l : MainLoop) (r : Round) : Prop where
  forward : 0 ≤ elapsedMs r.now l.lastTick
  waited : r.poll = .timeout →
    (waitMs l.ctrl.cfg.idlePollMs (elapsedMs r.now l.lastTick) : ℚ) ≤ 1000 * r.now.until r.later

namespace MainLoop
variable {env : Env} {l x : MainLoop} {r : Round}

private theorem le_waitMs {idlePollMs elapsed : ℤ} (h0 : 0 ≤ elapsed) :
    idlePollMs - elapsed ≤ waitMs idlePollMs elapsed := by
  have hcast : elapsed.bmod (2 ^ 32) ≤ elapsed := by
    rw [Int.bmod]
    split_ifs <;> omega
  rw [waitMs]
  exact (sub_le_sub_left hcast _).trans (le_max_right _ _)

/-- A tick is early by less than a millisecond: the wait is computed from a count that may
have been rounded up. -/
private theorem not_early (ht : r.Timed l) (hx : l.served env r = some x) (hdue : x.tickDue r = true) :
    (x.ctrl.cfg.idlePollMs : ℚ) - 1 < 1000 * l.lastTick.until r.later := by
  obtain ⟨-, hlast, -, htimeout⟩ := served_spec hx
  cases hpoll : r.poll with
  | failed => simp [served, hpoll] at hx
  | interrupted => simp [served, hpoll] at hx
  | timeout =>
    rw [htimeout hpoll]
    have hwait : (l.ctrl.cfg.idlePollMs : ℚ) - elapsedMs r.now l.lastTick ≤
        waitMs l.ctrl.cfg.idlePollMs (elapsedMs r.now l.lastTick) := by
      exact_mod_cast le_waitMs ht.forward
    have hpolled := ht.waited hpoll
    have hms := (elapsedMs_bounds r.now l.lastTick).2
    rw [← Timespec.until_add_until l.lastTick r.now r.later]
    linarith
  | ready ctl http =>
    have hle : (x.ctrl.cfg.idlePollMs : ℚ) ≤ elapsedMs r.later l.lastTick := by
      rw [tickDue, hpoll, hlast] at hdue
      exact_mod_cast of_decide_eq_true hdue
    have hms := (elapsedMs_bounds r.later l.lastTick).2
    linarith

/-- A round that goes without a tick has come before the interval was over, however long its
handlers took. -/
private theorem not_late (hx : l.served env r = some x) (hdue : x.tickDue r = false) :
    1000 * l.lastTick.until r.later < (x.ctrl.cfg.idlePollMs : ℚ) := by
  obtain ⟨-, hlast, -, -⟩ := served_spec hx
  cases hpoll : r.poll with
  | ready ctl http =>
    have hlt : (elapsedMs r.later l.lastTick : ℚ) + 1 ≤ x.ctrl.cfg.idlePollMs := by
      rw [tickDue, hpoll, hlast] at hdue
      exact_mod_cast not_le.mp (of_decide_eq_false hdue)
    have hms := (elapsedMs_bounds r.later l.lastTick).1
    linarith
  | _ => simp [tickDue, hpoll] at hdue

end MainLoop

/-- Whatever commands and scrapes come in between, and whatever a reload makes of the interval: two
ticks in a row are further apart than the interval less a millisecond, and a round that goes
without a tick ends before the interval is over. -/
theorem ticks_on_time {env : Env} {l : MainLoop} (hstart : Reachable env l.ctrl)
    {rounds : ℕ → Round} {k n : ℕ} (hkn : k < n)
    (hk : (states (MainLoop.round env) l rounds k).Ticks env (rounds k))
    (hbetween : ∀ j, k < j → j < n →
      ¬ (states (MainLoop.round env) l rounds j).Ticks env (rounds j))
    (htimed : (rounds n).Timed (states (MainLoop.round env) l rounds n)) {x : MainLoop}
    (hx : (states (MainLoop.round env) l rounds n).served env (rounds n) = some x) :
    0 < x.ctrl.cfg.idlePollMs ∧
      ((states (MainLoop.round env) l rounds n).Ticks env (rounds n) →
        (x.ctrl.cfg.idlePollMs : ℚ) - 1 < 1000 * (rounds k).later.until (rounds n).later) ∧
      (¬ (states (MainLoop.round env) l rounds n).Ticks env (rounds n) →
        1000 * (rounds k).later.until (rounds n).later < (x.ctrl.cfg.idlePollMs : ℚ)) := by
  have hreach := (MainLoop.served_spec hx).2.2.1 (MainLoop.reachable_states hstart n)
  rw [← MainLoop.lastTick_states hkn hk hbetween]
  refine ⟨hreach.idlePollMs_pos, ?_, fun hnot => ?_⟩
  · rintro ⟨y, hy, hdue⟩
    obtain rfl : x = y := Option.some_inj.mp (hx.symm.trans hy)
    exact MainLoop.not_early htimed hx hdue
  · refine MainLoop.not_late hx ?_
    cases hdue : x.tickDue (rounds n) with
    | true => exact absurd ⟨x, hx, hdue⟩ hnot
    | false => rfl

/-- Two timeouts with a scrape in between. -/
def sampleRounds (n : ℕ) : Round where
  stop := false
  now := [⟨0, 0⟩, ⟨1, 1000000⟩, ⟨1, 400000000⟩].getD n ⟨0, 0⟩
  poll := if n = 1 then .ready none (some (none, ⟨bytes "GET /metrics HTTP/1.1", []⟩)) else .timeout
  later := [⟨1, 1000000⟩, ⟨1, 400000000⟩, ⟨2, 1500000⟩].getD n ⟨0, 0⟩
  tick := ⟨⟨n, 0⟩, none, [], 1⟩

def sampleLoop : MainLoop := ⟨steadyStart, ⟨0, 0⟩, true, []⟩

theorem ticks_on_time_sample :
    let s := states (MainLoop.round steadyEnv) sampleLoop sampleRounds 2
    s.Ticks steadyEnv (sampleRounds 2) ∧ s.replies.length = 1 ∧ s.ctrl.cfg.idlePollMs = 1000 ∧
      (999 : ℚ) < 1000 * (sampleRounds 0).later.until (sampleRounds 2).later := by
  intro s
  have hfacts :
      ((states (MainLoop.round steadyEnv) sampleLoop sampleRounds 1).serve steadyEnv none
        (some (none, ⟨bytes "GET /metrics HTTP/1.1", []⟩))).tickDue (sampleRounds 1) = false ∧
      s.running = true ∧ s.lastTick = ⟨1, 1000000⟩ ∧ s.ctrl.cfg.idlePollMs = 1000 ∧
      s.replies.length = 1 := by
    decide +kernel
  obtain ⟨hscrape, hrun, hlast, hidle, hreplies⟩ := hfacts
  have hserved : s.served steadyEnv (sampleRounds 2) = some s := by
    simp [MainLoop.served, hrun, sampleRounds]
  have hticks : s.Ticks steadyEnv (sampleRounds 2) := ⟨s, hserved, rfl⟩
  have htimed : (sampleRounds 2).Timed s := by
    refine ⟨?_, fun _ => ?_⟩
    · rw [hlast]
      decide
    · rw [hlast, hidle, show waitMs 1000 (elapsedMs (sampleRounds 2).now ⟨1, 1000000⟩) = 601 by decide]
      norm_num [sampleRounds, Timespec.until]
  have htime := ticks_on_time (l := sampleLoop) ⟨_, _, _, _, _, steadyStart_eq, .start⟩
    (k := 0) (n := 2) (by decide) ⟨sampleLoop, rfl, rfl⟩ ?_ htimed hserved
  · refine ⟨hticks, hreplies, hidle, ?_⟩
    have hlt := htime.2.1 hticks
    rw [hidle] at hlt
    exact lt_of_eq_of_lt (by norm_num) hlt
  · rintro j h0 h2 ⟨x, hx, hdue⟩
    obtain rfl : j = 1 := by omega
    obtain rfl := Option.some_inj.mp hx
    rw [hscrape] at hdue
    cases hdue

end VoidGate
