import VoidGate.DropCalls
import VoidGate.TrueTraffic

/-!
# When the gate wakes up

An idle gate is armed by a tick that finds the rate of the interface above the wake
threshold. The rate comes from two readings of counters that frames on all CPUs go on
changing. Between two ticks that both read the metrics it is what came in, whatever the
daemon did meanwhile, and the gate wakes exactly if that is too much.
-/

namespace VoidGate

open Runs PerCpu

/-- What an event brings in on any CPU. -/
def GateEvent.load (u : Quantity) : GateEvent → ℕ
  | .frame _ bytes _ => u.weigh bytes
  | _ => 0

/-- What came in between two moments of a run. -/
def arrived (u : Quantity) (es : ℕ → GateEvent) (m n : ℕ) : ℕ := ∑ k ∈ Finset.Ico m n, (es k).load u

/-- `rx_pkts` and `rx_bytes`. -/
def Quantity.rx : Quantity → XdpMetrics → UInt64
  | .pkts => XdpMetrics.rxPkts
  | .bytes => XdpMetrics.rxBytes

section Arrived
variable {env : Env} {possible : ℤ} {s : ℕ → Gateway} {es : ℕ → GateEvent}

private theorem Gateway.step_rx {g : Gateway} {e : GateEvent} (hok : g.Permits possible e) (u : Quantity) :
    total (cpuCount possible) u.rx (g.step env possible e).metrics =
      total (cpuCount possible) u.rx g.metrics + .ofNat (e.load u) := by
  rw [Gateway.step_metrics hok]
  congr 1
  cases e with
  | frame i bytes room =>
    have htally := (Arrival.tallied (a := ⟨g.cpu i, bytes, room⟩) (m := g.metrics i) rfl).2
    simp only [GateEvent.arrival, Option.toList_some, List.map_singleton, List.sum_singleton]
    cases u with
    | pkts => exact htally.rxPkts
    | bytes => exact htally.rxBytes
  | _ => rfl

theorem Gateway.Run.rx (h : Gateway.Run env possible s es) {m n : ℕ} (hmn : m ≤ n) (u : Quantity) :
    total (cpuCount possible) u.rx (s n).metrics =
      total (cpuCount possible) u.rx (s m).metrics + .ofNat (arrived u es m n) := by
  induction n, hmn using Nat.le_induction with
  | base => simp [arrived]
  | succ n hmn ih =>
    have hsucc : arrived u es m (n + 1) = arrived u es m n + (es n).load u :=
      Finset.sum_Ico_succ_top hmn _
    rw [h.next n, Gateway.step_rx (h.permits n), ih, hsucc, UInt64.ofNat_add, add_assoc]

theorem Gateway.readMetrics_eq (possible : ℤ) (g : Gateway) :
    g.readMetrics possible = some ⟨(total (cpuCount possible) (Quantity.rx .pkts) g.metrics).toNat,
      (total (cpuCount possible) (Quantity.rx .bytes) g.metrics).toNat⟩ := by
  obtain ⟨m, hread, htotal⟩ := vgMetricsRead_some possible g.metrics
  rw [readMetrics, hread, Option.map_some, ← htotal (f := Quantity.rx .pkts) rfl fun _ _ => rfl,
    ← htotal (f := Quantity.rx .bytes) rfl fun _ _ => rfl]
  rfl

private theorem Gateway.Run.increase_metrics (h : Gateway.Run env possible s es) {k n : ℕ} (hkn : k ≤ n)
    {m m' : VgMetrics} (hm : (s k).readMetrics possible = some m)
    (hm' : (s n).readMetrics possible = some m')
    (hpkts : m.rxPkts + arrived .pkts es k n < 2 ^ 64)
    (hbytes : m.rxBytes + arrived .bytes es k n < 2 ^ 64) :
    increase m.rxPkts m'.rxPkts = arrived .pkts es k n ∧
      increase m.rxBytes m'.rxBytes = arrived .bytes es k n := by
  rw [Gateway.readMetrics_eq] at hm hm'
  cases hm
  cases hm'
  exact ⟨increase_of_read (h.rx hkn .pkts) hpkts, increase_of_read (h.rx hkn .bytes) hbytes⟩

end Arrived

section Samples
variable {env : Env} {possible : ℤ} {g : Gateway} {e : GateEvent}

/-- Between two ticks the samples stay. -/
theorem Gateway.Tracks.sameSamples (h : g.Tracks env) (hok : g.Permits possible e)
    (hno : ∀ mono readable, e ≠ .tick mono readable) :
    SameSamples g.ctrl (g.step env possible e).ctrl := by
  have hrefl : SameSamples g.ctrl g.ctrl := (DropsOnly.refl g.ctrl).sameSamples
  cases e with
  | frame i bytes room => exact hrefl
  | command cmd => exact step_sameSamples env g.ctrl hok.2
  | tick mono readable => exact absurd rfl (hno mono readable)
  | visit x =>
    cases hcall : g.callback possible (.visit x) with
    | none =>
      rw [step_visit_of_none hcall]
      exact hrefl
    | some r =>
      obtain ⟨-, dt, hwalk, -, hstep⟩ := callback_some env hcall
      rw [hstep]
      exact (policyOneRemote_visitsOnly env dt (h.walking hwalk).state r).sameSamples
  | finish complete =>
    simp only [Gateway.step]
    split
    · exact hrefl
    · have hprune : SameSamples g.ctrl
          (if complete = 1 then { g.ctrl with snaps := g.ctrl.snaps.snapPrune } else g.ctrl) := by
        split_ifs <;> exact ⟨⟨rfl, rfl, rfl⟩, rfl, rfl, rfl⟩
      exact (hprune.trans (expireDrops_dropsOnly env _).sameSamples).trans
        (quietTest_sameSamples env _)

structure SampledAt (c : VgCtrl) (mono : Timespec) (m : VgMetrics) : Prop where
  haveLastTick : c.haveLastTick = true
  lastTick : c.lastTick = mono
  haveLastM : c.haveLastM = true
  lastM : c.lastM = m

theorem SameSamples.sampledAt {c c' : VgCtrl} {mono : Timespec} {m : VgMetrics}
    (h : SameSamples c c') (hc : SampledAt c mono m) : SampledAt c' mono m where
  haveLastTick := h.haveLastTick.trans hc.haveLastTick
  lastTick := h.lastTick.trans hc.lastTick
  haveLastM := h.haveLastM.trans hc.haveLastM
  lastM := h.lastM.trans hc.lastM

private theorem Gateway.step_tick_sampledAt {mono : Timespec} {m : VgMetrics}
    (hm : g.readMetrics possible = some m) :
    SampledAt (g.step env possible (.tick mono true)).ctrl mono m := by
  obtain ⟨hhave, hlast⟩ := measured_lastTick g.ctrl (g.tickIn possible mono true)
  have hmeasured : SampledAt (measured g.ctrl (g.tickIn possible mono true)) mono m := by
    refine ⟨hhave, hlast, ?_, ?_⟩ <;>
      rw [measured, show (g.tickIn possible mono true).metrics = some m from hm] <;> rfl
  simp only [Gateway.step]
  split_ifs
  · exact ⟨hmeasured.1, hmeasured.2, hmeasured.3, hmeasured.4⟩
  · exact (vgCtrlTick_sameSamples env _ _).sampledAt hmeasured

private theorem vgCtrlTick_wakes_iff {c : VgCtrl} {t : TickIn} {m m' : VgMetrics} {mono : Timespec}
    (hc : SampledAt c mono m) (hm : t.metrics = some m') (hs : c.state = .idle)
    (hdt : 0 < mono.until t.mono) :
    (vgCtrlTick env c t).1.state = .active ↔ env.fault c.maps.writes = false ∧
      (c.cfg.wakePps < increase m.rxPkts m'.rxPkts / mono.until t.mono ∨
        c.cfg.wakeMbps * 1000000 < increase m.rxBytes m'.rxBytes * 8 / mono.until t.mono) := by
  obtain ⟨hhave, rfl, hhaveM, rfl⟩ := hc
  simp only [vgCtrlTick, tickDt, hhave, if_true, hm, updateRates, hhaveM, Bool.true_and, hdt,
    decide_true, if_neg (not_le.mpr hdt), hs]
  split_ifs with hhigh
  · rw [vgCtrlArm_eq]
    split_ifs with hfails
    · have hfault : env.fault c.maps.writes = true := hfails.2
      simp [VgCtrl.armFailed, hfault]
    · have hfault : env.fault c.maps.writes = false := by
        by_contra hf
        exact hfails ⟨rfl, by simpa using hf⟩
      simp [hfault, hhigh]
  · simp [hhigh]

end Samples

section Wakes
variable {env : Env} {possible : ℤ} {s : ℕ → Gateway} {es : ℕ → GateEvent} {k n : ℕ}

/-- Event `n` is the first tick after the tick `k`. -/
structure NextTick (es : ℕ → GateEvent) (k n : ℕ) (a b : Timespec) : Prop where
  before : k < n
  first : es k = .tick a true
  second : es n = .tick b true
  between : ∀ l, k < l → l < n → ∀ mono readable, es l ≠ .tick mono readable

theorem NextTick.sampledAt {a b : Timespec} (ht : NextTick es k n a b)
    (h : Gateway.Run env possible s es) (h₀ : (s 0).Started env) {m : VgMetrics}
    (hm : (s k).readMetrics possible = some m) : SampledAt (s n).ctrl a m := by
  have hsampled : ∀ l, k + 1 ≤ l → l ≤ n → SampledAt (s l).ctrl a m := by
    intro l hkl
    induction l, hkl using Nat.le_induction with
    | base =>
      intro _
      rw [h.next k, ht.first]
      exact Gateway.step_tick_sampledAt hm
    | succ l hkl ih =>
      intro hl
      rw [h.next l]
      exact ((h.tracks h₀ l).sameSamples (h.permits l) (ht.between l hkl hl)).sampledAt
        (ih (Nat.le_of_succ_le hl))
  exact hsampled n ht.before le_rfl

/-- Of two ticks in a row that read the metrics, with time passing between them and no counter wrapping,
the second arms an idle gate exactly if more came in between them, on all CPUs, than a wake threshold
admits for the time between the ticks, and the write to the kernel succeeds. Rates and times are exact
rationals. -/
theorem wakes_iff_traffic (h : Gateway.Run env possible s es) (h₀ : (s 0).Started env)
    {a b : Timespec} (ht : NextTick es k n a b) (hidle : (s n).ctrl.state = .idle)
    (hdt : 0 < a.until b) {m : VgMetrics} (hm : (s k).readMetrics possible = some m)
    (hpkts : m.rxPkts + arrived .pkts es k n < 2 ^ 64)
    (hbytes : m.rxBytes + arrived .bytes es k n < 2 ^ 64) :
    (s (n + 1)).ctrl.state = .active ↔ env.fault (s n).ctrl.maps.writes = false ∧
      ((s n).ctrl.cfg.wakePps * a.until b < arrived .pkts es k n ∨
        (s n).ctrl.cfg.wakeMbps * 1000000 * a.until b < 8 * arrived .bytes es k n) := by
  have hsampled := ht.sampledAt h h₀ hm
  obtain ⟨m', hm'⟩ : ∃ m', (s n).readMetrics possible = some m' := ⟨_, (s n).readMetrics_eq possible⟩
  obtain ⟨hincp, hincb⟩ := h.increase_metrics ht.before.le hm hm' hpkts hbytes
  have hrests : ¬ Walks (s n).ctrl ((s n).tickIn possible b true) := fun hw =>
    absurd (hidle.symm.trans hw.1) (by decide)
  have hstep : (s (n + 1)).ctrl = (vgCtrlTick env (s n).ctrl ((s n).tickIn possible b true)).1 := by
    rw [h.next n, ht.second]
    simp only [Gateway.step, if_neg hrests]
  rw [hstep, vgCtrlTick_wakes_iff hsampled (t := (s n).tickIn possible b true) hm' hidle hdt, hincp,
    hincb]
  refine and_congr_right fun _ => or_congr (lt_div_iff₀ hdt) ?_
  rw [mul_comm (Nat.cast _) 8]
  exact lt_div_iff₀ hdt

/-- Three frames within a millisecond, on two CPUs. -/
def rushEvents : ℕ → GateEvent
  | 0 => .tick ⟨0, 0⟩ true
  | 4 => .tick ⟨0, 1000000⟩ true
  | n => .frame (n % 2) sampleFrame freeRoom

def rushRun : ℕ → Gateway := states (Gateway.step steadyEnv 2) sampleGateway rushEvents

private theorem rushRun_run : Gateway.Run steadyEnv 2 rushRun rushEvents where
  permits n := by
    have hcpu : n % 2 < cpuCount 2 := Nat.mod_lt n (by decide)
    rcases n with _ | _ | _ | _ | _ | n
    · exact show (rushRun 0).walk = none from rfl
    · exact hcpu
    · exact hcpu
    · exact hcpu
    · exact show (rushRun 4).walk = none by decide +kernel
    · exact hcpu
  next _ := rfl

theorem wakes_iff_traffic_rush : (rushRun 5).ctrl.state = .active ↔
    steadyEnv.fault (rushRun 4).ctrl.maps.writes = false ∧
      ((rushRun 4).ctrl.cfg.wakePps * Timespec.until ⟨0, 0⟩ ⟨0, 1000000⟩ < arrived .pkts rushEvents 0 4 ∨
        (rushRun 4).ctrl.cfg.wakeMbps * 1000000 * Timespec.until ⟨0, 0⟩ ⟨0, 1000000⟩ <
          8 * arrived .bytes rushEvents 0 4) := by
  have hnext : NextTick rushEvents 0 4 ⟨0, 0⟩ ⟨0, 1000000⟩ := by
    refine ⟨by decide, rfl, rfl, fun l hl hl' mono readable he => ?_⟩
    rcases l with _ | _ | _ | _ | l
    · omega
    · cases he
    · cases he
    · cases he
    · omega
  refine wakes_iff_traffic (m := ⟨0, 0⟩) rushRun_run ⟨rfl, _, _, _, _, steadyStart_eq⟩ hnext ?_ ?_ ?_
    ?_ ?_ <;> decide +kernel

end Wakes

end VoidGate
