import VoidGate.SnapshotFrames
import Mathlib.Tactic.Ring
import Mathlib.Tactic.Positivity

/-!
# The rates of the remotes

A tick divides what a remote sent since its snapshot by the time since the last tick.
The two spans agree as long as every snapshot that is subtracted was taken in the
tick before. A tick that cannot read the metrics, and a walk that ends early, leave
older snapshots behind, and the next visit then finds all that was sent in the
meantime and divides it by the last span only.
-/

namespace VoidGate

open Runs

variable {env : Env} {c c' : VgCtrl} {t : TickIn}

namespace Timespec

theorem until_add_until (a b d : Timespec) : a.until b + b.until d = a.until d := by
  simp only [Timespec.until]
  push_cast
  ring

end Timespec

namespace Judgement

/-- The time between the ticks of the two readings. -/
def elapsed (j : Judgement) : ℚ := j.prev.tick.until j.cur.tick

/-- Neither rate exceeds the increase over the time between the two readings. -/
structure Fair (j : Judgement) : Prop where
  pps : j.pps * j.elapsed ≤ increase j.prev.pkts j.cur.pkts
  bps : j.bps * j.elapsed ≤ increase j.prev.bytes j.cur.bytes * 8

/-- The average rates between the two readings are below both thresholds. -/
def TrulyBelow (j : Judgement) : Prop :=
  0 < j.elapsed ∧ increase j.prev.pkts j.cur.pkts / j.elapsed < j.thresholdPps ∧
    increase j.prev.bytes j.cur.bytes * 8 / j.elapsed < j.thresholdMbps * 1000000

instance (j : Judgement) : Decidable j.Fair :=
  decidable_of_iff (_ ∧ _) ⟨fun h => ⟨h.1, h.2⟩, fun h => ⟨h.pps, h.bps⟩⟩

instance (j : Judgement) : Decidable j.TrulyBelow := inferInstanceAs (Decidable (_ ∧ _))

theorem Fair.quiet {j : Judgement} (h : j.Fair) (hb : j.TrulyBelow) : quiet j = true := by
  obtain ⟨hpos, hpps, hbps⟩ := hb
  rw [VoidGate.quiet, decide_eq_true_eq]
  exact ⟨((le_div_iff₀ hpos).mpr h.pps).trans_lt hpps, ((le_div_iff₀ hpos).mpr h.bps).trans_lt hbps⟩

end Judgement

/-- The reading is from the tick at `p` or later, or the remote sent nothing since. -/
def Measured (p : Timespec) (r : Remote) (s : Reading) : Prop :=
  0 ≤ p.until s.tick ∨ (r.inPkts ≤ s.pkts ∧ r.inBytes ≤ s.bytes)

instance (p : Timespec) (r : Remote) (s : Reading) : Decidable (Measured p r s) :=
  inferInstanceAs (Decidable (_ ∨ _))

theorem increase_eq_zero_iff {prev cur : ℕ} : increase prev cur = 0 ↔ cur ≤ prev := by
  rw [increase]
  split_ifs <;> omega

theorem div_mul_le_self_iff {a : ℕ} {k dt e : ℚ} (hk : 0 < k) (hdt : 0 < dt) :
    a * k / dt * e ≤ a * k ↔ e ≤ dt ∨ a = 0 := by
  rw [div_mul_eq_mul_div, div_le_iff₀ hdt]
  rcases Nat.eq_zero_or_pos a with rfl | ha
  · simp
  · have hpos : 0 < (a : ℚ) * k := by positivity
    rw [mul_le_mul_iff_right₀ hpos, or_iff_left ha.ne']

/-- A comparison over the span of the last tick is fair exactly if the snapshot is no older than
that, or nothing was added to it. -/
private theorem judge_fair_iff (cfg : VgConfig) (s : Reading) (r : Remote) {p now : Timespec}
    (hdt : 0 < p.until now) :
    (judge cfg s r now (p.until now)).Fair ↔ Measured p r s := by
  have hspan : s.tick.until now ≤ p.until now ↔ 0 ≤ p.until s.tick := by
    rw [← p.until_add_until s.tick now]
    exact le_add_iff_nonneg_left _
  have hpps := @div_mul_le_self_iff (increase s.pkts r.inPkts) 1 _ (s.tick.until now) one_pos hdt
  have hbps := @div_mul_le_self_iff (increase s.bytes r.inBytes) 8 _ (s.tick.until now)
    (by norm_num) hdt
  simp only [mul_one, hspan, increase_eq_zero_iff] at hpps hbps
  constructor
  · intro h
    rcases hpps.mp h.pps with hp | h₁
    · exact .inl hp
    · exact (hbps.mp h.bps).imp_right fun h₂ => ⟨h₁, h₂⟩
  · rintro (hp | ⟨h₁, h₂⟩)
    · exact ⟨hpps.mpr (.inl hp), hbps.mpr (.inl hp)⟩
    · exact ⟨hpps.mpr (.inr h₁), hbps.mpr (.inr h₂)⟩

/-- What a visit of `r` in an armed gate does to the snapshots and to the log. -/
structure Visited (dt : ℚ) (r : Remote) (c c' : VgCtrl) : Prop where
  state : c'.state = .active
  lastTick : c'.lastTick = c.lastTick
  snaps_ok : c'.snaps.Ok
  own : ∀ s ∈ c'.snaps.last r.host, s = ⟨r.inPkts, r.inBytes, c.lastTick⟩
  others : ∀ x ≠ r.host, c'.snaps.last x = c.snaps.last x
  judged : c'.judged = ((c.snaps.last r.host).map (judge c.cfg · r c.lastTick dt)).toList ++ c.judged

/-- The remote has a snapshot and is not below both thresholds. -/
def overThreshold (c : VgCtrl) (dt : ℚ) (r : Remote) : Bool :=
  match c.snaps.last r.host with
  | none => false
  | some s => decide (0 < dt) && !quiet (judge c.cfg s r c.lastTick dt)

/-- The snapshots and the log after a visit of `r`. -/
structure VisitBooks (dt : ℚ) (r : Remote) (c : VgCtrl) (snaps : SnapTable)
    (judged : List Judgement) : Prop where
  snaps_ok : snaps.Ok
  own : ∀ s ∈ snaps.last r.host, s = ⟨r.inPkts, r.inBytes, c.lastTick⟩
  others : ∀ x ≠ r.host, snaps.last x = c.snaps.last x
  judged : 0 < dt →
    judged = ((c.snaps.last r.host).map (judge c.cfg · r c.lastTick dt)).toList ++ c.judged

/-- A visit writes the snapshot of its remote, and goes on to a drop over a threshold. -/
theorem policyOneRemote_eq (env : Env) (dt : ℚ) (hok : c.snaps.Ok) (r : Remote) :
    ∃ snaps judged, VisitBooks dt r c snaps judged ∧ policyOneRemote env dt c r =
      if overThreshold c dt r then
        policyDrop env { c with snaps := snaps, judged := judged } r.host.host
      else { c with snaps := snaps, judged := judged } := by
  rcases hok.visit r.host r.inPkts r.inBytes c.lastTick with
    ⟨hnone, hget⟩ | ⟨u, i, created, hget, hprev, hok', hlast⟩
  · refine ⟨c.snaps, c.judged, ⟨hok, by simp [hnone], fun _ _ => rfl, by simp [hnone]⟩, ?_⟩
    rw [policyOneRemote, hget, overThreshold, hnone]
    rfl
  · have hown : ∀ s ∈ (u.store i r.inPkts r.inBytes c.lastTick).last r.host,
        s = ⟨r.inPkts, r.inBytes, c.lastTick⟩ := by
      rw [hlast, Function.update_self]
      rintro s ⟨⟩
      rfl
    have hothers : ∀ x ≠ r.host,
        (u.store i r.inPkts r.inBytes c.lastTick).last x = c.snaps.last x := by
      intro x hx
      rw [hlast, Function.update_of_ne hx]
    simp only [policyOneRemote, hget]
    cases created with
    | true =>
      have hnone : c.snaps.last r.host = none := hprev
      refine ⟨_, c.judged, ⟨hok', hown, hothers, by simp [hnone]⟩, ?_⟩
      simp [overThreshold, hnone]
    | false =>
      have hsome : c.snaps.last r.host = some (u.pool i).reading := hprev
      by_cases hdt : dt ≤ 0
      · refine ⟨_, c.judged, ⟨hok', hown, hothers, fun h => absurd h (not_lt.mpr hdt)⟩, ?_⟩
        simp [overThreshold, hsome, hdt]
      · refine ⟨_, judge c.cfg (u.pool i).reading r c.lastTick dt :: c.judged,
          ⟨hok', hown, hothers, by simp [hsome]⟩, ?_⟩
        have hover : overThreshold c dt r =
            !quiet (judge c.cfg (u.pool i).reading r c.lastTick dt) := by
          rw [overThreshold, hsome]
          simp [not_le.mp hdt]
        rw [hover, Bool.false_or, if_neg (by simpa using hdt)]
        cases quiet (judge c.cfg (u.pool i).reading r c.lastTick dt) <;> rfl

theorem policyOneRemote_visited (env : Env) {dt : ℚ} (hdt : 0 < dt) (hs : c.state = .active)
    (hok : c.snaps.Ok) (r : Remote) : Visited dt r c (policyOneRemote env dt c r) := by
  obtain ⟨snaps, judged, hbooks, he⟩ := policyOneRemote_eq env dt hok r
  have hsame : ∀ x : VgCtrl, DropsOnly { c with snaps := snaps, judged := judged } x →
      Visited dt r c x := by
    rintro x ⟨maps, drops, clock, rfl⟩
    exact ⟨hs, rfl, hbooks.snaps_ok, hbooks.own, hbooks.others, hbooks.judged hdt⟩
  rw [he]
  split_ifs
  · exact hsame _ (policyDrop_dropsOnly env (by exact hs) r.host.host)
  · exact hsame _ (.refl _)

private theorem policyDrop_still (env : Env) (c : VgCtrl) (host : VgCidr) :
    Still c (policyDrop env c host) := by
  have hdrop : Still c (vgCtrlDrop env c host .policy).1 := dropAdd_still env c host .policy 0
  rw [policyDrop]
  split_ifs
  · rw [maybeAggregate]
    split
    · exact hdrop
    · split_ifs
      · exact hdrop.trans (dropAdd_still env _ _ .aggregate 0)
      · exact hdrop
  · exact hdrop

theorem policyOneRemote_loud (env : Env) (dt : ℚ) (c : VgCtrl) (r : Remote) :
    ((policyOneRemote env dt c r).drops = c.drops ∧ (policyOneRemote env dt c r).maps = c.maps) ∨
      ∃ j, (policyOneRemote env dt c r).judged = j :: c.judged ∧ j.host = r.host ∧
        quiet j = false := by
  obtain ⟨snaps, judged, he | ⟨⟨j, rfl, hhost, hquiet⟩, he⟩⟩ := policyOneRemote_cases env dt c r
  · rw [he]
    exact .inl ⟨rfl, rfl⟩
  · rw [he]
    exact .inr ⟨j, (policyDrop_still env _ _).judged, hhost, hquiet⟩

theorem Visited.fair_iff {r : Remote} {p : Timespec} (h : Visited (p.until c.lastTick) r c c')
    (hdt : 0 < p.until c.lastTick) : (∀ j ∈ c'.judged, j.Fair) ↔
      (∀ s ∈ c.snaps.last r.host, Measured p r s) ∧ ∀ j ∈ c.judged, j.Fair := by
  rw [h.judged]
  cases hl : c.snaps.last r.host with
  | none => simp
  | some s => simp [judge_fair_iff c.cfg s r hdt]

section Walk
variable {p now : Timespec} {rs : List Remote}

private theorem foldl_policyOneRemote_fair (hnow : c.lastTick = now) (hdt : 0 < p.until now)
    (hs : c.state = .active) (hok : c.snaps.Ok) (hfair : ∀ j ∈ c.judged, j.Fair)
    (hm : ∀ r ∈ rs, ∀ s ∈ c.snaps.last r.host, Measured p r s) :
    (rs.foldl (policyOneRemote env (p.until now)) c).snaps.Ok ∧
      ∀ j ∈ (rs.foldl (policyOneRemote env (p.until now)) c).judged, j.Fair := by
  induction rs generalizing c with
  | nil => exact ⟨hok, hfair⟩
  | cons r rs ih =>
    subst hnow
    have hv := policyOneRemote_visited env hdt hs hok r
    have hfair' := (hv.fair_iff hdt).mpr ⟨hm r (by simp), hfair⟩
    refine ih hv.lastTick hv.state hv.snaps_ok hfair' fun r' hr' s hs' => ?_
    by_cases hx : r'.host = r.host
    · rw [hx] at hs'
      obtain rfl := hv.own s hs'
      exact .inl hdt.le
    · rw [hv.others _ hx] at hs'
      exact hm r' (List.mem_cons_of_mem _ hr') s hs'

private theorem foldl_policyOneRemote_measured (hnow : c.lastTick = now) (hdt : 0 < p.until now)
    (hs : c.state = .active) (hok : c.snaps.Ok) (hd : (rs.map Remote.host).Nodup)
    (hfair : ∀ j ∈ (rs.foldl (policyOneRemote env (p.until now)) c).judged, j.Fair) :
    (∀ j ∈ c.judged, j.Fair) ∧ ∀ r ∈ rs, ∀ s ∈ c.snaps.last r.host, Measured p r s := by
  induction rs generalizing c with
  | nil => exact ⟨hfair, by simp⟩
  | cons r rs ih =>
    subst hnow
    have hv := policyOneRemote_visited env hdt hs hok r
    obtain ⟨hr, hd'⟩ := List.nodup_cons.mp hd
    obtain ⟨hfair', hm⟩ := ih hv.lastTick hv.state hv.snaps_ok hd' hfair
    obtain ⟨hown, hold⟩ := (hv.fair_iff hdt).mp hfair'
    refine ⟨hold, fun r' hr' => ?_⟩
    rcases List.mem_cons.mp hr' with rfl | hr'
    · exact hown
    · rw [← hv.others r'.host fun he => hr (he ▸ List.mem_map_of_mem hr')]
      exact hm r' hr'

end Walk

theorem SnapTable.Ok.nextGen {t : SnapTable} (h : t.Ok) : (nextGen t).Ok := by
  rw [VoidGate.nextGen]
  split_ifs
  · exact ⟨_, _, t.inv_reset.of_hosts rfl rfl fun _ => rfl⟩
  · obtain ⟨L, F, h⟩ := h
    exact ⟨L, F, h.of_hosts rfl rfl fun _ => rfl⟩

theorem SnapTable.Ok.snapPrune {t : SnapTable} (h : t.Ok) : t.snapPrune.Ok := by
  obtain ⟨L, F, h⟩ := h
  obtain ⟨L', F', h', -⟩ := h.snapPrune
  exact ⟨L', F', h'⟩

/-- The tick walks the remotes. -/
def Walks (c : VgCtrl) (t : TickIn) : Prop :=
  c.state = .active ∧ t.metrics.isSome ∧ c.haveLastTick ∧ 0 < c.lastTick.until t.mono

/-- Every snapshot the walk subtracts was taken in the preceding tick, unless its remote sent
nothing since. -/
def TickMeasured (c : VgCtrl) (t : TickIn) : Prop :=
  Walks c t → ∀ r ∈ t.remotes, ∀ s ∈ (nextGen c.snaps).last r.host, Measured c.lastTick r s

instance : Decidable (Walks c t) := inferInstanceAs (Decidable (_ ∧ _))

instance : Decidable (TickMeasured c t) := inferInstanceAs (Decidable (Walks c t → _))

def walkStart (c : VgCtrl) (t : TickIn) (m : VgMetrics) : VgCtrl :=
  { updateRates { c with lastTick := t.mono } m (c.lastTick.until t.mono) with
    snaps := nextGen c.snaps }

theorem walkStart_frame (h : Walks c t) (m : VgMetrics) :
    (walkStart c t m).lastTick = t.mono ∧ (walkStart c t m).state = .active ∧
      (walkStart c t m).judged = c.judged := by
  simp only [walkStart, updateRates]
  split_ifs <;> exact ⟨rfl, h.1, rfl⟩

/-- The state that a tick has reached when it has read the clock and the metrics. -/
def measured (c : VgCtrl) (t : TickIn) : VgCtrl :=
  match t.metrics with
  | none => (tickDt c t.mono).1
  | some m => updateRates (tickDt c t.mono).1 m (tickDt c t.mono).2

theorem measured_samePeriod (c : VgCtrl) (t : TickIn) : SamePeriod c (measured c t) := by
  rw [measured]
  split
  · exact tickDt_samePeriod c t.mono
  · exact (tickDt_samePeriod c t.mono).trans (updateRates_samePeriod _ _ _)

theorem measured_still (c : VgCtrl) (t : TickIn) : Still c (measured c t) := by
  rw [measured]
  split
  · exact tickDt_still c t.mono
  · exact (tickDt_still c t.mono).trans (updateRates_still _ _ _)

theorem measured_lastTick (c : VgCtrl) (t : TickIn) :
    (measured c t).haveLastTick = true ∧ (measured c t).lastTick = t.mono := by
  have htick : (tickDt c t.mono).1.haveLastTick = true ∧ (tickDt c t.mono).1.lastTick = t.mono := by
    rw [tickDt]
    split_ifs with h
    · exact ⟨h, rfl⟩
    · exact ⟨rfl, rfl⟩
  rw [measured]
  split
  · exact htick
  · simp only [updateRates]
    split_ifs <;> exact htick

/-- A tick that walks lifts drops afterwards and tests the rates of the interface. -/
theorem vgCtrlTick_walks (env : Env) (h : Walks c t) : (vgCtrlTick env c t).1 =
    quietTest env (expireDrops env
      (walkRemotes env (c.lastTick.until t.mono) (measured c t) t)) := by
  obtain ⟨hs, hm, hlast, hdt⟩ := h
  obtain ⟨m, hm⟩ := Option.isSome_iff_exists.mp hm
  have htick : tickDt c t.mono = ({ c with lastTick := t.mono }, c.lastTick.until t.mono) :=
    if_pos hlast
  have hstate := (measured_samePeriod c t).state.trans hs
  rw [measured, hm, htick] at hstate
  rw [vgCtrlTick, measured, hm, htick]
  dsimp only at hstate ⊢
  rw [if_neg hdt.not_ge, hstate]

private theorem walkRemotes_measured (env : Env) (h : Walks c t) : ∃ m, t.metrics = some m ∧
    walkRemotes env (c.lastTick.until t.mono) (measured c t) t =
      let w := t.remotes.foldl (policyOneRemote env (c.lastTick.until t.mono)) (walkStart c t m)
      if t.complete = 1 then { w with snaps := w.snaps.snapPrune } else w := by
  obtain ⟨-, hm, hlast, -⟩ := h
  obtain ⟨m, hm⟩ := Option.isSome_iff_exists.mp hm
  have htick : tickDt c t.mono = ({ c with lastTick := t.mono }, c.lastTick.until t.mono) :=
    if_pos hlast
  have hstart : { measured c t with snaps := nextGen c.snaps } = walkStart c t m := by
    rw [measured, hm, htick, walkStart]
  exact ⟨m, hm, by rw [walkRemotes, (measured_samePeriod c t).snaps, hstart]⟩

/-- Any other tick stops when it has measured the rates, or arms an idle gate at high ones. -/
theorem vgCtrlTick_rests (env : Env) (h : ¬ Walks c t) :
    (vgCtrlTick env c t).1 = measured c t ∨
      c.state = .idle ∧ t.metrics.isSome ∧ 0 < (tickDt c t.mono).2 ∧
        ((measured c t).cfg.wakePps < (measured c t).rxPps ∨
          (measured c t).cfg.wakeMbps * 1000000 < (measured c t).rxBps) ∧
        (vgCtrlTick env c t).1 = (vgCtrlArm env (measured c t)).1 := by
  have hstate := (measured_samePeriod c t).state
  rw [vgCtrlTick]
  cases hm : t.metrics with
  | none => exact .inl (by rw [measured, hm])
  | some m =>
    have hy : measured c t = updateRates (tickDt c t.mono).1 m (tickDt c t.mono).2 := by
      rw [measured, hm]
    dsimp only
    rw [← hy]
    by_cases hle : (tickDt c t.mono).2 ≤ 0
    · rw [if_pos hle]
      exact .inl rfl
    · rw [if_neg hle]
      cases hs : (measured c t).state with
      | idle =>
        dsimp only
        split_ifs with hwake
        · exact .inr ⟨hstate.symm.trans hs, rfl, not_le.mp hle, hwake, rfl⟩
        · exact .inl rfl
      | active =>
        -- a positive span in an armed gate: this tick would have walked
        rw [tickDt] at hle
        split_ifs at hle with hlast
        · exact absurd ⟨hstate.symm.trans hs, by simp [hm], hlast, not_le.mp hle⟩ h
        · exact absurd le_rfl hle

theorem vgCtrlTick_walks_still (env : Env) (h : Walks c t) : ∃ m,
    Still (t.remotes.foldl (policyOneRemote env (c.lastTick.until t.mono)) (walkStart c t m))
      (vgCtrlTick env c t).1 := by
  obtain ⟨m, -, hwalk⟩ := walkRemotes_measured env h
  refine ⟨m, ?_⟩
  rw [vgCtrlTick_walks env h, hwalk]
  refine Still.trans ?_ ((expireDrops_dropsOnly env _).still.trans (quietTest_still env _))
  dsimp only
  split_ifs
  · refine ⟨rfl, fun hok => ?_⟩
    dsimp only
    exact hok.snapPrune
  · exact .refl _

private theorem vgCtrlTick_still (env : Env) (h : ¬ Walks c t) : Still c (vgCtrlTick env c t).1 := by
  rcases vgCtrlTick_rests env h with he | ⟨-, -, -, -, he⟩
  · exact he ▸ measured_still c t
  · exact he ▸ (measured_still c t).trans (vgCtrlArm_still env _)

theorem step_rests {cmd : Cmd} (h : ∀ t, cmd = .tick t → ¬ Walks c t) :
    KeepsPeriod c (step env c cmd) := by
  by_cases ht : ∃ t, cmd = .tick t
  · obtain ⟨t, rfl⟩ := ht
    rcases vgCtrlTick_rests env (h t rfl) with he | ⟨-, -, -, -, he⟩
    · rw [step, he]
      exact (measured_samePeriod c t).keepsPeriod
    · rw [step, he]
      exact (measured_samePeriod c t).trans_keepsPeriod (vgCtrlArm_keepsPeriod env _)
  · exact step_keepsPeriod env c fun t he => ht ⟨t, he⟩

structure FairSoFar (c : VgCtrl) : Prop where
  snaps_ok : c.snaps.Ok
  fair : ∀ j ∈ c.judged, j.Fair

theorem Still.fairSoFar (h : Still c c') (hf : FairSoFar c) : FairSoFar c' :=
  ⟨h.snaps_ok hf.snaps_ok, h.judged ▸ hf.fair⟩

theorem FairSoFar.tick (h : FairSoFar c) (hm : TickMeasured c t) :
    FairSoFar (vgCtrlTick env c t).1 := by
  by_cases hw : Walks c t
  · obtain ⟨m, hstill⟩ := vgCtrlTick_walks_still env hw
    obtain ⟨hnow, hs, hj⟩ := walkStart_frame hw m
    obtain ⟨hok, hfair⟩ := foldl_policyOneRemote_fair hnow hw.2.2.2 hs h.snaps_ok.nextGen
      (hj ▸ h.fair) (hm hw)
    exact hstill.fairSoFar ⟨hok, hfair⟩
  · exact (vgCtrlTick_still env hw).fairSoFar h

theorem FairSoFar.tick_measured (h : FairSoFar c) (hd : (t.remotes.map Remote.host).Nodup)
    (hfair : ∀ j ∈ (vgCtrlTick env c t).1.judged, j.Fair) : TickMeasured c t := by
  intro hw
  obtain ⟨m, hstill⟩ := vgCtrlTick_walks_still env hw
  obtain ⟨hnow, hs, -⟩ := walkStart_frame hw m
  rw [hstill.judged] at hfair
  exact (foldl_policyOneRemote_measured hnow hw.2.2.2 hs h.snaps_ok.nextGen hd hfair).2

theorem FairSoFar.step {cmd : Cmd} (h : FairSoFar c) (hm : ∀ t, cmd = .tick t → TickMeasured c t) :
    FairSoFar (step env c cmd) := by
  cases cmd with
  | drop p => exact (dropAdd_still env c p.1 .manual 0).fairSoFar h
  | dropTtl p ttl =>
    have hclock : Still c { c with clock := c.clock + 1 } := ⟨rfl, id⟩
    exact (hclock.trans (dropAdd_still env _ p.1 .timed _)).fairSoFar h
  | undrop p => exact (vgCtrlUndrop_dropsOnly env c p.1).still.fairSoFar h
  | arm => exact (vgCtrlArm_still env c).fairSoFar h
  | disarm => exact (vgCtrlDisarm_still env c).fairSoFar h
  | reload file nic => exact (vgCtrlReload_still env c file nic).fairSoFar h
  | tick t => exact h.tick (hm t rfl)

theorem Initial.fairSoFar (h : Initial c) : FairSoFar c := by
  obtain ⟨cap, hs⟩ := h.snaps
  exact ⟨⟨_, _, hs ▸ SnapTable.inv_init cap⟩, by simp [h.judged]⟩

/-- A tick `n` seconds after boot whose walk, if it takes place, finds 192.0.2.7 at `pkts` and then
reaches its budget. -/
def tickAt (n pkts : ℕ) (readable : Bool) : TickIn where
  mono := ⟨n, 0⟩
  metrics := if readable then some ⟨0, 0⟩ else none
  remotes := [⟨.ofOctets .inet (octetsOf [192, 0, 2, 7]), pkts, 0⟩]
  complete := 0

/-- In every run whose ticks subtract only snapshots of the tick before, unless a remote sent
nothing since, no compared rate exceeds the average between its two readings, so that a remote
below both thresholds on average is found quiet; and a visit that finds its remote quiet drops
nothing. In each of these runs a tick that meets no remote twice keeps it so exactly if it is of
this kind. -/
theorem remote_rates_fair {c₀ c : VgCtrl} {cfgPath : List UInt8} {ifaceOv : Option (List UInt8)}
    {file : ConfigFile} {nic : Option (List IfAddr)}
    (hstart : startUp env cfgPath ifaceOv file nic = some c₀)
    (hrun : Reaches (step env) (fun c cmd => ∀ t, cmd = .tick t → TickMeasured c t) c₀ c) :
    (∀ j ∈ c.judged, j.Fair ∧ (j.TrulyBelow → quiet j = true)) ∧
      (∀ dt x r, ((policyOneRemote env dt x r).drops = x.drops ∧
          (policyOneRemote env dt x r).maps = x.maps) ∨
        ∃ j, (policyOneRemote env dt x r).judged = j :: x.judged ∧ j.host = r.host ∧
          quiet j = false) ∧
      ∀ t : TickIn, (t.remotes.map Remote.host).Nodup →
        ((∀ j ∈ (step env c (.tick t)).judged, j.Fair) ↔ TickMeasured c t) := by
  have h : FairSoFar c := hrun.invariant (startUp_initial hstart).1.fairSoFar fun _ _ hi hm =>
    hi.step hm
  refine ⟨fun j hj => ⟨h.fair j hj, (h.fair j hj).quiet⟩, policyOneRemote_loud env, fun t hd => ?_⟩
  exact ⟨h.tick_measured hd, fun hm => (h.tick hm).fair⟩

theorem remote_rates_fair_sample : ∃ c,
    Reaches (step steadyEnv) (fun c cmd => ∀ t, cmd = .tick t → TickMeasured c t) steadyStart c ∧
      (c.judged.map fun j => (j.pps, j.elapsed)) = [(600, 1)] ∧
      ∀ j ∈ c.judged, j.Fair ∧ (j.TrulyBelow → quiet j = true) := by
  have hok : ∀ (c : VgCtrl) (t : TickIn), TickMeasured c t →
      ∀ t', Cmd.tick t = .tick t' → TickMeasured c t' := by
    rintro c t h t' ⟨⟩
    exact h
  have hrun : Reaches (step steadyEnv) (fun c cmd => ∀ t, cmd = .tick t → TickMeasured c t)
      steadyStart _ :=
    (((Reaches.start.next .arm (by simp)).next (.tick (tickAt 0 0 true))
      (hok _ _ (by decide +kernel))).next (.tick (tickAt 1 0 true))
      (hok _ _ (by decide +kernel))).next (.tick (tickAt 2 600 true)) (hok _ _ (by decide +kernel))
  exact ⟨_, hrun, by decide +kernel, (remote_rates_fair steadyStart_eq hrun).1⟩

/-- The metrics of the tick at 100 s cannot be read. The next tick, a second later, finds 600
packets that arrived over 100 s and takes them for 600 packets per second: more than the 500
allowed, and the remote is dropped. -/
theorem failed_read_inflates_rate : ∃ c, Reachable steadyEnv c ∧
    (∃ j ∈ c.judged, ¬ j.Fair ∧ j.TrulyBelow ∧ j.pps = 600 ∧
      increase j.prev.pkts j.cur.pkts / j.elapsed = 6) ∧
    ∃ r ∈ c.drops.records, r.cidr = (sampleHost [192, 0, 2, 7]).1 ∧ r.reason = .policy := by
  have hrun : Reaches (step steadyEnv) (fun _ _ => True) steadyStart _ :=
    ((((Reaches.start.next .arm trivial).next (.tick (tickAt 0 0 true)) trivial).next
      (.tick (tickAt 1 0 true)) trivial).next (.tick (tickAt 100 0 false)) trivial).next
      (.tick (tickAt 101 600 true)) trivial
  exact ⟨_, ⟨_, _, _, _, _, steadyStart_eq, hrun⟩, by decide +kernel, by decide +kernel⟩

end VoidGate
