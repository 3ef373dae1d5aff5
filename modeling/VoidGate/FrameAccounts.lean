import VoidGate.XdpVerdict
import Mathlib.Data.UInt

/-!
# What the counters count

Every frame leaves the XDP program by one of a few exits, and each exit bumps its own
counters. Over a run of frames and map writes the counters are sums over the frames,
modulo 2^64. The exit of an idle gate shares its helper with the verdict of an armed
one: a frame that is not even looked at is counted as passed.
-/

namespace VoidGate

inductive XdpExit where
  | idle
  | parseFail
  | nonIp
  | judged (p : Locals)

def xdpExit (k : Kernel) (frame : List UInt8) : XdpExit :=
  if k.cfg.armed = 0 then .idle
  else if frame.length < 14 then .parseFail
  else match skipVlans frame vgMaxVlans 14 (be16At frame 12) with
    | none => .parseFail
    | some (nh, ethProto) =>
      if ethProto = vgEthPIp then
        if frame.length < nh + 20 then .parseFail else .judged (v4Locals frame nh)
      else if ethProto = vgEthPIpv6 then
        if frame.length < nh + 40 then .parseFail else .judged (v6Locals frame nh)
      else .nonIp

namespace XdpState

/-- The frame is counted before anything else. -/
def received (s : XdpState) (frame : List UInt8) : XdpState :=
  s.bump fun m =>
    { m with rxPkts := m.rxPkts + 1, rxBytes := m.rxBytes + UInt64.ofNat frame.length }

def leave (s : XdpState) (frame : List UInt8) (room : HashRoom) : XdpExit → XdpState × Verdict
  | .idle => s.pass
  | .parseFail => s.parseFail
  | .nonIp => (s.bump fun m => { m with nonIp := m.nonIp + 1 }).pass
  | .judged p => s.enforce p (exempted s.kernel p) (UInt64.ofNat frame.length) room

end XdpState

theorem voidgateXdp_eq_leave (s : XdpState) (frame : List UInt8) (room : HashRoom) :
    voidgateXdp s frame room = (s.received frame).leave frame room (xdpExit s.kernel frame) := by
  simp only [voidgateXdp, xdpExit, XdpState.bump_kernel]
  by_cases harmed : s.kernel.cfg.armed = 0
  · simp [harmed, XdpState.leave, XdpState.received]
  by_cases hlen : frame.length < 14
  · simp [harmed, hlen, XdpState.leave, XdpState.received]
  simp only [harmed, hlen, if_false]
  cases skipVlans frame vgMaxVlans 14 (be16At frame 12) with
  | none => rfl
  | some r =>
    dsimp only
    split_ifs <;> simp only [XdpState.leave, XdpState.received, XdpState.bump_kernel,
      exempted_v4Locals, exempted_v6Locals]

structure Adds (passed dropped parseErr : ℕ) (m m' : XdpMetrics) : Prop where
  rxPkts : m'.rxPkts = m.rxPkts
  rxBytes : m'.rxBytes = m.rxBytes
  passed : m'.passed = m.passed + .ofNat passed
  dropped : m'.dropped = m.dropped + .ofNat dropped
  parseErr : m'.parseErr = m.parseErr + .ofNat parseErr

/-- The program leaves through `parse_fail`. -/
def XdpExit.rejects : XdpExit → Bool
  | .parseFail => true
  | _ => false

def XdpExit.errs : XdpExit → Bool
  | .parseFail => true
  | .judged p => p.parseErr
  | _ => false

section Metrics
variable {s : XdpState} {m : XdpMetrics}

theorem XdpState.bump_metrics (hm : s.metrics = some m) (f : XdpMetrics → XdpMetrics) :
    (s.bump f).metrics = some (f m) := by
  rw [bump, hm, Option.map_some]

private theorem XdpState.count_adds (hm : s.metrics = some m) (x y : IpAddr) (len : UInt64)
    (room : HashRoom) :
    ∃ m', (s.count x y len room).1.metrics = some m' ∧ Adds 1 0 0 m m' := by
  simp only [count, pass, bump, hm]
  split_ifs <;> exact ⟨_, rfl, rfl, rfl, rfl, by simp, by simp⟩

private theorem XdpState.enforce_cases (s : XdpState) (p : Locals) (exempt : Bool) (len : UInt64)
    (room : HashRoom) :
    let s₁ := if p.parseErr then s.bump fun m => { m with parseErr := m.parseErr + 1 } else s
    s.enforce p exempt len room =
        (s₁.bump fun m => { m with dropped := m.dropped + 1 }, .drop) ∨
      s.enforce p exempt len room = s₁.count p.saddr p.daddr len room := by
  simp only [enforce]
  generalize (if p.parseErr then s.bump fun m => { m with parseErr := m.parseErr + 1 } else s) = s₁
  split_ifs
  · exact .inl rfl
  · exact .inr rfl

private theorem XdpState.enforce_adds (hm : s.metrics = some m) (p : Locals) (exempt : Bool) (len : UInt64)
    (room : HashRoom) : ∃ m', (s.enforce p exempt len room).1.metrics = some m' ∧
      Adds (decide ((s.enforce p exempt len room).2 = .pass)).toNat
        (decide ((s.enforce p exempt len room).2 = .drop)).toNat p.parseErr.toNat m m' := by
  have herr : ∃ m₁, (if p.parseErr then s.bump fun m => { m with parseErr := m.parseErr + 1 }
      else s).metrics = some m₁ ∧ Adds 0 0 p.parseErr.toNat m m₁ := by
    cases p.parseErr with
    | true => exact ⟨_, bump_metrics hm _, rfl, rfl, by simp, by simp, rfl⟩
    | false => exact ⟨m, hm, rfl, rfl, by simp, by simp, by simp⟩
  obtain ⟨m₁, hm₁, h₁⟩ := herr
  rcases s.enforce_cases p exempt len room with he | he
  · rw [he]
    refine ⟨_, bump_metrics hm₁ _, h₁.rxPkts, h₁.rxBytes, h₁.passed, ?_, h₁.parseErr⟩
    simp [h₁.dropped]
  · obtain ⟨m', hm', h'⟩ := count_adds hm₁ p.saddr p.daddr len room
    rw [he, count_verdict]
    refine ⟨m', hm', h'.rxPkts.trans h₁.rxPkts, h'.rxBytes.trans h₁.rxBytes, ?_, ?_, ?_⟩
    · simp [h'.passed, h₁.passed]
    · simp [h'.dropped, h₁.dropped]
    · simp [h'.parseErr, h₁.parseErr]

theorem XdpState.leave_adds (hm : s.metrics = some m) (frame : List UInt8) (room : HashRoom)
    (e : XdpExit) : ∃ m', (s.leave frame room e).1.metrics = some m' ∧
      Adds (!e.rejects && decide ((s.leave frame room e).2 = .pass)).toNat
        (decide ((s.leave frame room e).2 = .drop)).toNat e.errs.toNat m m' := by
  cases e with
  | idle => exact ⟨_, bump_metrics hm _, rfl, rfl, rfl, by simp [leave], by simp [XdpExit.errs]⟩
  | parseFail =>
    exact ⟨_, bump_metrics hm _, rfl, rfl, by simp [XdpExit.rejects], by simp [leave], rfl⟩
  | nonIp =>
    exact ⟨_, bump_metrics (bump_metrics hm _) _, rfl, rfl, rfl, by simp [leave],
      by simp [XdpExit.errs]⟩
  | judged p => exact enforce_adds hm p _ _ room

end Metrics

/-- A frame that reaches the program, and the maps it finds. -/
structure Arrival where
  state : XdpState
  frame : List UInt8
  room : HashRoom

namespace Arrival

def armed (a : Arrival) : Bool := decide (a.state.kernel.cfg.armed ≠ 0)

def verdict (a : Arrival) : Verdict := (voidgateXdp a.state a.frame a.room).2

def after (a : Arrival) : XdpState := (voidgateXdp a.state a.frame a.room).1

def rejected (a : Arrival) : Bool := (xdpExit a.state.kernel a.frame).rejects

def errs (a : Arrival) : Bool := (xdpExit a.state.kernel a.frame).errs

def gain (a : Arrival) (f : XdpMetrics → UInt64) : UInt64 :=
  match a.state.metrics, a.after.metrics with
  | some m, some m' => f m' - f m
  | _, _ => 0

theorem gain_eq {a : Arrival} {m m' : XdpMetrics} (hm : a.state.metrics = some m)
    (hm' : a.after.metrics = some m') (f : XdpMetrics → UInt64) {n : UInt64}
    (h : f m' = f m + n) : a.gain f = n := by
  rw [gain, hm, hm']
  dsimp only
  rw [h, UInt64.add_comm, UInt64.add_sub_cancel]

structure Tallied (a : Arrival) : Prop where
  rxPkts : a.gain (·.rxPkts) = .ofNat 1
  rxBytes : a.gain (·.rxBytes) = .ofNat a.frame.length
  passed : a.gain (·.passed) = .ofNat (!a.rejected && decide (a.verdict = .pass)).toNat
  dropped : a.gain (·.dropped) = .ofNat (decide (a.verdict = .drop)).toNat
  parseErr : a.gain (·.parseErr) = .ofNat a.errs.toNat

theorem tallied {a : Arrival} {m : XdpMetrics} (hm : a.state.metrics = some m) :
    (∃ m', a.after.metrics = some m') ∧ a.Tallied := by
  have hrecv : (a.state.received a.frame).metrics = some _ := XdpState.bump_metrics hm _
  obtain ⟨m', hm', h⟩ := XdpState.leave_adds hrecv a.frame a.room (xdpExit a.state.kernel a.frame)
  rw [← voidgateXdp_eq_leave] at hm' h
  exact ⟨⟨m', hm'⟩, gain_eq hm hm' _ h.rxPkts, gain_eq hm hm' _ h.rxBytes, gain_eq hm hm' _ h.passed,
    gain_eq hm hm' _ h.dropped, gain_eq hm hm' _ h.parseErr⟩

end Arrival

/-- What happens to the program: a frame arrives, or the control plane writes to the maps. -/
inductive XdpEvent where
  | frame (bytes : List UInt8) (room : HashRoom)
  | write (k : Kernel)

def xdpStep (s : XdpState) : XdpEvent → XdpState
  | .frame bytes room => (voidgateXdp s bytes room).1
  | .write k => { s with kernel := k }

def xdpRun (s : XdpState) (es : List XdpEvent) : XdpState := es.foldl xdpStep s

/-- The frames of a run. -/
def arrivals (s : XdpState) : List XdpEvent → List Arrival
  | [] => []
  | .frame bytes room :: es => ⟨s, bytes, room⟩ :: arrivals (xdpStep s (.frame bytes room)) es
  | .write k :: es => arrivals (xdpStep s (.write k)) es

private theorem xdpRun_gains {s : XdpState} {m : XdpMetrics} (hm : s.metrics = some m)
    (es : List XdpEvent) : (∀ a ∈ arrivals s es, a.Tallied) ∧
      ∃ m', (xdpRun s es).metrics = some m' ∧
        ∀ f : XdpMetrics → UInt64, f m' = f m + ((arrivals s es).map (·.gain f)).sum := by
  induction es generalizing s m with
  | nil => exact ⟨by simp [arrivals], m, hm, by simp [arrivals]⟩
  | cons e es ih =>
    cases e with
    | write k => exact ih hm
    | frame bytes room =>
      obtain ⟨⟨m₁, hm₁⟩, htally⟩ := Arrival.tallied (a := ⟨s, bytes, room⟩) hm
      obtain ⟨hall, m', hm', hsum⟩ := ih hm₁
      refine ⟨List.forall_mem_cons.mpr ⟨htally, hall⟩, m', hm', fun f => ?_⟩
      have hgain : f m + Arrival.gain ⟨s, bytes, room⟩ f = f m₁ := by
        rw [Arrival.gain_eq hm hm₁ f (n := f m₁ - f m)] <;>
          rw [UInt64.add_comm, UInt64.sub_add_cancel]
      rw [hsum f, ← hgain, UInt64.add_assoc]
      rfl

section Sums
variable {α : Type*} {l : List α} {f : α → UInt64}

theorem sum_eq_ofNat {w : α → ℕ} (h : ∀ a ∈ l, f a = .ofNat (w a)) :
    (l.map f).sum = .ofNat (l.map w).sum := by
  induction l with
  | nil => rfl
  | cons a l ih =>
    obtain ⟨ha, hl⟩ := List.forall_mem_cons.mp h
    rw [List.map_cons, List.sum_cons, ha, ih hl, List.map_cons, List.sum_cons, UInt64.ofNat_add]

theorem sum_eq_countP {p : α → Bool} (h : ∀ a ∈ l, f a = .ofNat (p a).toNat) :
    (l.map f).sum = .ofNat (l.countP p) := by
  have hcount : ∀ l : List α, (l.map fun a => (p a).toNat).sum = l.countP p := by
    intro l
    induction l with
    | nil => rfl
    | cons a l ih =>
      rw [List.map_cons, List.sum_cons, ih, List.countP_cons, Nat.add_comm]
      cases p a <;> rfl
  rw [sum_eq_ofNat h, hcount]

end Sums

namespace Reference

/-- The Ethernet header, the VLAN tags and the fixed header of an IP packet are all there; behind
another EtherType there is none to look for. -/
def headersComplete (frame : List UInt8) : Bool :=
  decide (14 ≤ frame.length) &&
    match vlans 2 (be16At frame 12) (frame.drop 14) with
    | none => false
    | some (etherType, bytes) =>
      decide ((etherType = 0x0800 → 20 ≤ bytes.length) ∧ (etherType = 0x86dd → 40 ≤ bytes.length))

end Reference

namespace Arrival

theorem rejected_eq (a : Arrival) :
    a.rejected = (a.armed && !Reference.headersComplete a.frame) := by
  rw [rejected, xdpExit, armed, Reference.headersComplete]
  by_cases harmed : a.state.kernel.cfg.armed = 0
  · simp [harmed, XdpExit.rejects]
  by_cases hlen : a.frame.length < 14
  · simp [harmed, hlen, XdpExit.rejects]
  have hvlans := skipVlans_vlans a.frame 2 14 (be16At a.frame 12)
  rw [← hvlans]
  simp only [harmed, hlen, if_false, vgMaxVlans]
  cases skipVlans a.frame 2 14 (be16At a.frame 12) with
  | none => simp [harmed, XdpExit.rejects]
  | some r =>
    obtain ⟨nh, ethProto⟩ := r
    simp only [Option.map_some, List.length_drop, vgEthPIp, vgEthPIpv6]
    by_cases h4 : ethProto = 0x0800
    · by_cases hl : a.frame.length < nh + 20
      · simp [h4, hl, harmed, XdpExit.rejects, show ¬ 20 ≤ a.frame.length - nh by omega]
      · simp [h4, hl, harmed, XdpExit.rejects, show 20 ≤ a.frame.length - nh by omega,
          show 14 ≤ a.frame.length by omega]
    by_cases h6 : ethProto = 0x86dd
    · subst h6
      by_cases hl : a.frame.length < nh + 40
      · simp [hl, harmed, XdpExit.rejects, show ¬ 40 ≤ a.frame.length - nh by omega]
      · simp [hl, harmed, XdpExit.rejects, show 40 ≤ a.frame.length - nh by omega,
          show 14 ≤ a.frame.length by omega]
    · simp [h4, h6, XdpExit.rejects, show 14 ≤ a.frame.length by omega]

private theorem verdict_eq_pass_of_rejected {a : Arrival} (h : a.rejected = true) : a.verdict = .pass := by
  rw [verdict, voidgateXdp_eq_leave]
  rw [rejected] at h
  cases he : xdpExit a.state.kernel a.frame with
  | parseFail => rfl
  | _ => rw [he] at h; cases h

theorem verdict_eq_pass_of_idle {a : Arrival} (h : a.armed = false) : a.verdict = .pass := by
  cases hv : a.verdict with
  | pass => rfl
  | drop =>
    have hdrop := (voidgateXdp_drop_iff a.state a.frame a.room).mp hv
    simp [armed, hdrop.1] at h

theorem errs_of_rejected {a : Arrival} (h : a.rejected = true) : a.errs = true := by
  rw [rejected] at h
  rw [errs]
  cases he : xdpExit a.state.kernel a.frame with
  | parseFail => rfl
  | _ => rw [he] at h; cases h

end Arrival

/-- What the counters say about the frames since they were 0, whatever the control plane did. -/
structure Counted (as : List Arrival) (m : XdpMetrics) : Prop where
  rxPkts : m.rxPkts = .ofNat as.length
  rxBytes : m.rxBytes = .ofNat (as.map (·.frame.length)).sum
  dropped : m.dropped = .ofNat (as.countP fun a => decide (a.verdict = .drop))
  passedOrIdle : m.passed = .ofNat ((as.countP fun a =>
    a.armed && decide (a.verdict = .pass) && Reference.headersComplete a.frame) +
      as.countP fun a => !a.armed)
  unjudged : ((as.filter Arrival.armed).map fun a =>
    a.gain (·.rxPkts) - a.gain (·.passed) - a.gain (·.dropped)).sum =
      .ofNat (as.countP Arrival.rejected)
  parseErr : m.parseErr = .ofNat (as.countP Arrival.errs)
  rejected_le : as.countP Arrival.rejected ≤ as.countP Arrival.errs

/-- The accounts as documented: an idle gate counts received frames only. -/
structure Accounts (as : List Arrival) (m : XdpMetrics) : Prop extends Counted as m where
  passed : m.passed = .ofNat (as.countP fun a =>
    a.armed && decide (a.verdict = .pass) && Reference.headersComplete a.frame)
  idle : ∀ a ∈ as, a.armed = false → a.after.metrics = (a.state.received a.frame).metrics

def XdpMetrics.zero : XdpMetrics := ⟨0, 0, 0, 0, 0, 0, 0⟩

theorem countP_passed (as : List Arrival) :
    (as.countP fun a => !a.rejected && decide (a.verdict = .pass)) =
      (as.countP fun a =>
        a.armed && decide (a.verdict = .pass) && Reference.headersComplete a.frame) +
      as.countP fun a => !a.armed := by
  rw [List.countP_eq_countP_filter_add as _ Arrival.armed, List.countP_filter, List.countP_filter]
  congr 1
  · refine List.countP_congr fun a _ => ?_
    rw [a.rejected_eq]
    cases a.armed <;> simp [and_comm]
  · refine List.countP_congr fun a _ => ?_
    rw [a.rejected_eq]
    cases harmed : a.armed with
    | true => simp
    | false => simp [Arrival.verdict_eq_pass_of_idle harmed]

theorem Arrival.Tallied.unjudged {a : Arrival} (h : a.Tallied) :
    a.gain (·.rxPkts) - a.gain (·.passed) - a.gain (·.dropped) = .ofNat a.rejected.toNat := by
  rw [h.rxPkts, h.passed, h.dropped]
  cases hr : a.rejected with
  | true =>
    rw [verdict_eq_pass_of_rejected hr]
    rfl
  | false => cases a.verdict <;> rfl

private theorem counted_of_tallied {as : List Arrival} {m : XdpMetrics} (h : ∀ a ∈ as, a.Tallied)
    (hsum : ∀ f : XdpMetrics → UInt64, f m = f .zero + (as.map (·.gain f)).sum) :
    Counted as m := by
  have hfrom (f : XdpMetrics → UInt64) (h0 : f .zero = 0) : f m = (as.map (·.gain f)).sum := by
    rw [hsum f, h0, UInt64.zero_add]
  have hrejected : (as.filter Arrival.armed).countP Arrival.rejected =
      as.countP Arrival.rejected := by
    rw [List.countP_filter]
    refine List.countP_congr fun a _ => ?_
    rw [a.rejected_eq]
    cases a.armed <;> simp
  refine ⟨?_, ?_, ?_, ?_, ?_, ?_, ?_⟩
  · refine (hfrom (·.rxPkts) rfl).trans ((sum_eq_ofNat fun a ha => (h a ha).rxPkts).trans ?_)
    simp
  · exact (hfrom (·.rxBytes) rfl).trans (sum_eq_ofNat fun a ha => (h a ha).rxBytes)
  · exact (hfrom (·.dropped) rfl).trans (sum_eq_countP fun a ha => (h a ha).dropped)
  · rw [← countP_passed]
    exact (hfrom (·.passed) rfl).trans (sum_eq_countP fun a ha => (h a ha).passed)
  · rw [sum_eq_countP fun a ha => (h a (List.mem_of_mem_filter ha)).unjudged, hrejected]
  · exact (hfrom (·.parseErr) rfl).trans (sum_eq_countP fun a ha => (h a ha).parseErr)
  · exact List.countP_mono_left fun a _ => Arrival.errs_of_rejected

private theorem Arrival.Tallied.armed_of_received {a : Arrival} (h : a.Tallied)
    (hm : a.armed = false → a.after.metrics = (a.state.received a.frame).metrics) :
    a.armed = true := by
  by_contra hidle
  have hidle : a.armed = false := by simpa using hidle
  have hone : a.gain (·.passed) = 1 := by
    rw [h.passed, a.rejected_eq, hidle, verdict_eq_pass_of_idle hidle]
    rfl
  have hzero : a.gain (·.passed) = 0 := by
    rw [gain, hm hidle]
    cases hs : a.state.metrics with
    | none => rfl
    | some m =>
      rw [XdpState.received, XdpState.bump_metrics hs]
      exact UInt64.sub_self _
  rw [hone] at hzero
  exact absurd hzero (by decide)

/-- From zeroed counters, for all frames and all map writes in between: the counters of received
and dropped frames and of parse errors account for every frame, the counter of passed frames
includes those that met an idle gate, and the accounts are as documented exactly if there are none
of these. -/
theorem metrics_account_iff {s : XdpState} (hm : s.metrics = some .zero) (es : List XdpEvent) :
    ∃ m, (xdpRun s es).metrics = some m ∧ Counted (arrivals s es) m ∧
      (Accounts (arrivals s es) m ↔ ∀ a ∈ arrivals s es, a.armed = true) := by
  obtain ⟨htally, m, hm', hsum⟩ := xdpRun_gains hm es
  have hcounted := counted_of_tallied htally hsum
  refine ⟨m, hm', hcounted, fun h a ha => (htally a ha).armed_of_received (h.idle a ha), ?_⟩
  intro harmed
  have hnone : ((arrivals s es).countP fun a => !a.armed) = 0 :=
    List.countP_eq_zero.mpr fun a ha => by simp [harmed a ha]
  refine ⟨hcounted, ?_, fun a ha hidle => ?_⟩
  · rw [hcounted.passedOrIdle, hnone, Nat.add_zero]
  · rw [harmed a ha] at hidle
    cases hidle

/-- The armed sample gate with fresh counters, and the same gate idle. -/
def armedXdp : XdpState := { sampleXdp with metrics := some .zero }

def idleXdp : XdpState :=
  { armedXdp with kernel := { sampleXdp.kernel with cfg := { sampleXdp.kernel.cfg with armed := 0 } } }

theorem metrics_account_iff_sample : ∃ m,
    (xdpRun armedXdp [.frame sampleFrame ⟨true, true, fun _ => false⟩]).metrics = some m ∧
      m.dropped = 1 ∧
      Accounts (arrivals armedXdp [.frame sampleFrame ⟨true, true, fun _ => false⟩]) m := by
  obtain ⟨m, hm, hcounted, hiff⟩ := metrics_account_iff (s := armedXdp) rfl
    [.frame sampleFrame ⟨true, true, fun _ => false⟩]
  refine ⟨m, hm, ?_, hiff.mpr ?_⟩
  · rw [hcounted.dropped]
    decide +kernel
  · decide +kernel

/-- A frame that meets the idle gate is counted as passed, although the gate was never armed. -/
theorem idle_frame_counted_as_passed : idleXdp.metrics = some .zero ∧ ∃ m,
    (xdpRun idleXdp [.frame sampleFrame ⟨true, true, fun _ => false⟩]).metrics = some m ∧
      m.passed = 1 ∧
      ¬ Accounts (arrivals idleXdp [.frame sampleFrame ⟨true, true, fun _ => false⟩]) m := by
  refine ⟨rfl, _, rfl, rfl, fun h => ?_⟩
  have hpassed := h.passed
  revert hpassed
  decide +kernel

end VoidGate
