import VoidGate.FrameAccounts
import VoidGate.PerCpuCounters
import VoidGate.RemoteWalk
import VoidGate.SnapshotRuns

/-!
# The gateway

The control plane and the XDP program on all CPUs as one system. The daemon is a single
thread: it takes one command after another, and a tick that walks the remotes reads their
counters one by one. Frames come in on any CPU in between, also in the middle of such a
walk, and they meet the maps as the daemon has left them so far. A frame is taken as a
whole, and so are a command and the end of a tick.
-/

namespace VoidGate

open Runs PerCpu

/-- `vg_sum_percpu` for values of `size` bytes, whose words are added by `add`. -/
def sumPercpu {ν : Type} (size : ℕ) (add : ν → ν → ν) (zero : ν) (m : SumScratch)
    (found : Option (ℕ → ν)) : Option ν :=
  let ncpus := if m.ncpus ≤ 0 then 1 else m.ncpus.toNat
  match m.size with
  | none => none
  | some scratch =>
    if scratch < ncpus * size then none
    else found.map fun src => (List.range ncpus).foldl (fun dst cpu => add dst (src cpu)) zero

def XdpMetrics.add (a b : XdpMetrics) : XdpMetrics where
  rxPkts := a.rxPkts + b.rxPkts
  rxBytes := a.rxBytes + b.rxBytes
  passed := a.passed + b.passed
  dropped := a.dropped + b.dropped
  nonIp := a.nonIp + b.nonIp
  mapFull := a.mapFull + b.mapFull
  parseErr := a.parseErr + b.parseErr

theorem vgSumPercpu_eq (m : SumScratch) (found : Option (ℕ → HostCounters)) :
    vgSumPercpu m found = sumPercpu 16 HostCounters.add ⟨0, 0⟩ m found := rfl

/-- `vg_metrics_read`, given what the lookup in the array copied, if it succeeded. -/
def vgMetricsRead (m : SumScratch) (found : Option (ℕ → XdpMetrics)) : Option XdpMetrics :=
  sumPercpu 56 XdpMetrics.add .zero m found

/-- `sum_scratch_need`, with the sizes of `struct host_counters` and `struct vg_metrics`. -/
def sumScratchNeed (ncpus : ℕ) : ℕ := ncpus * (if 16 > 56 then 16 else 56)

private theorem sumScratchNeed_eq (ncpus : ℕ) : sumScratchNeed ncpus = ncpus * 56 := rfl

/-- What `vg_maps_open` sets up, given the answer of `libbpf_num_possible_cpus`. -/
def openScratch (possible : ℤ) : SumScratch :=
  let ncpus := if possible ≤ 0 then 1 else possible
  ⟨ncpus, some (sumScratchNeed ncpus.toNat)⟩

/-- The number of CPUs that are added up. -/
def cpuCount (possible : ℤ) : ℕ := if possible ≤ 0 then 1 else possible.toNat

theorem sumPercpu_openScratch {ν : Type} {size : ℕ} (hsize : size ≤ 56) (add : ν → ν → ν) (zero : ν)
    (possible : ℤ) (found : Option (ℕ → ν)) :
    sumPercpu size add zero (openScratch possible) found = found.map fun src =>
      (List.range (cpuCount possible)).foldl (fun dst cpu => add dst (src cpu)) zero := by
  have hcount : (if (openScratch possible).ncpus ≤ 0 then 1 else (openScratch possible).ncpus.toNat) =
      cpuCount possible := by
    simp only [openScratch, cpuCount]
    split_ifs <;> rfl
  have hneed : (openScratch possible).size = some (cpuCount possible * 56) := by
    simp only [openScratch, cpuCount, sumScratchNeed_eq]
    split_ifs <;> rfl
  have hfits : ¬ cpuCount possible * 56 < cpuCount possible * size :=
    Nat.not_lt.mpr (Nat.mul_le_mul_left _ hsize)
  simp only [sumPercpu, hcount, hneed, if_neg hfits]

/-- The daemon, with the `dt` of a tick in the middle of its walk, and the counter maps of the XDP
program. -/
structure Gateway where
  ctrl : VgCtrl
  walk : Option ℚ
  metrics : ℕ → XdpMetrics
  host : Table IpAddr HostCounters
  remote : Table IpAddr HostCounters

/-- What can happen next. A frame arrives on a CPU, or the daemon takes a command, begins a tick,
visits a remote, or comes to the end of its walk with the result of `vg_remote_foreach`. -/
inductive GateEvent where
  | frame (cpu : ℕ) (bytes : List UInt8) (room : HashRoom)
  | command (cmd : Cmd)
  | tick (mono : Timespec) (readable : Bool)
  | visit (host : IpAddr)
  | finish (complete : ℤ)

namespace Gateway

/-- The maps as a CPU sees them. -/
def cpu (g : Gateway) (i : ℕ) : XdpState where
  kernel := g.ctrl.maps.kernel
  metrics := some (g.metrics i)
  host := g.host.view i
  remote := g.remote.view i

/-- The XDP program has run on a CPU. -/
def receive (g : Gateway) (i : ℕ) (bytes : List UInt8) (room : HashRoom) : Gateway :=
  let s := (voidgateXdp (g.cpu i) bytes room).1
  { g with
    metrics := Function.update g.metrics i (s.metrics.getD (g.metrics i))
    host := g.host.writeBack ⟨0, 0⟩ i s.host
    remote := g.remote.writeBack ⟨0, 0⟩ i s.remote }

/-- The members of the metrics that a tick evaluates. -/
def readMetrics (possible : ℤ) (g : Gateway) : Option VgMetrics :=
  (vgMetricsRead (openScratch possible) (some g.metrics)).map fun s =>
    ⟨s.rxPkts.toNat, s.rxBytes.toNat⟩

/-- What a callback of the walk gets to see of a remote that has counters. -/
def readRemote (possible : ℤ) (g : Gateway) (x : IpAddr) : Option Remote :=
  (vgSumPercpu (openScratch possible) (g.remote x)).map fun s =>
    ⟨x, s.inPkts.toNat, s.inBytes.toNat⟩

/-- What a tick has read before it comes to the remotes. -/
def tickIn (possible : ℤ) (g : Gateway) (mono : Timespec) (readable : Bool) : TickIn :=
  ⟨mono, if readable then g.readMetrics possible else none, [], 0⟩

def step (env : Env) (possible : ℤ) (g : Gateway) : GateEvent → Gateway
  | .frame cpu bytes room => g.receive cpu bytes room
  | .command cmd => { g with ctrl := VoidGate.step env g.ctrl cmd }
  | .tick mono readable =>
    let t := g.tickIn possible mono readable
    if Walks g.ctrl t then
      { g with
        ctrl := { measured g.ctrl t with snaps := nextGen (measured g.ctrl t).snaps }
        walk := some (g.ctrl.lastTick.until mono) }
    else { g with ctrl := (vgCtrlTick env g.ctrl t).1 }
  | .visit x =>
    match g.walk, g.readRemote possible x with
    | some dt, some r => { g with ctrl := policyOneRemote env dt g.ctrl r }
    | _, _ => g
  | .finish complete =>
    match g.walk with
    | none => g
    | some _ =>
      let c := if complete = 1 then { g.ctrl with snaps := g.ctrl.snaps.snapPrune } else g.ctrl
      { g with ctrl := quietTest env (expireDrops env c), walk := none }

/-- Frames come in on the CPUs there are, and a command or a tick has to wait for the end of a
walk. -/
def Permits (possible : ℤ) (g : Gateway) : GateEvent → Prop
  | .frame cpu _ _ => cpu < cpuCount possible
  | .command cmd => g.walk = none ∧ ∀ t, cmd ≠ .tick t
  | .tick _ _ => g.walk = none
  | .visit _ => True
  | .finish _ => True

/-- The daemon has just started, whatever the counters say. -/
def Started (env : Env) (g : Gateway) : Prop :=
  g.walk = none ∧ ∃ cfgPath ifaceOv file nic, startUp env cfgPath ifaceOv file nic = some g.ctrl

end Gateway

section Daemon
variable {env : Env} {possible : ℤ} {g g₀ : Gateway}

/-- Between two inputs the control plane is in a reachable state. In the middle of a walk it has
made the visits so far of a tick that began in such a state. -/
def Gateway.Tracks (env : Env) (g : Gateway) : Prop :=
  match g.walk with
  | none => Reachable env g.ctrl
  | some dt => ∃ c t, Reachable env c ∧ Walks c t ∧ dt = c.lastTick.until t.mono ∧
      g.ctrl = visitIn env c t t.remotes.length

theorem Gateway.Tracks.of_none (h : g.Tracks env) (hw : g.walk = none) : Reachable env g.ctrl := by
  rw [Tracks, hw] at h
  exact h

theorem Gateway.Tracks.of_some {dt : ℚ} (h : g.Tracks env) (hw : g.walk = some dt) :
    ∃ c t, Reachable env c ∧ Walks c t ∧ dt = c.lastTick.until t.mono ∧
      g.ctrl = visitIn env c t t.remotes.length := by
  rw [Tracks, hw] at h
  exact h

theorem Reachable.step {c : VgCtrl} (h : Reachable env c) (cmd : Cmd) :
    Reachable env (VoidGate.step env c cmd) := by
  obtain ⟨cfgPath, ifaceOv, file, nic, c₀, hstart, hrun⟩ := h
  exact ⟨cfgPath, ifaceOv, file, nic, c₀, hstart, hrun.next cmd trivial⟩

private theorem visitIn_append (env : Env) (c : VgCtrl) (t : TickIn) (r : Remote) :
    visitIn env c { t with remotes := t.remotes ++ [r] } (t.remotes ++ [r]).length =
      policyOneRemote env (c.lastTick.until t.mono) (visitIn env c t t.remotes.length) r := by
  rw [visitIn, visitIn, List.take_length, List.take_length, List.foldl_append]
  rfl

theorem vgCtrlTick_visitIn (env : Env) {c : VgCtrl} {t : TickIn} (hw : Walks c t) (complete : ℤ) :
    (vgCtrlTick env c { t with complete := complete }).1 =
      quietTest env (expireDrops env
        (if complete = 1 then
          { visitIn env c t t.remotes.length with
            snaps := (visitIn env c t t.remotes.length).snaps.snapPrune }
        else visitIn env c t t.remotes.length)) := by
  rw [vgCtrlTick_walks env (t := { t with complete := complete }) hw]
  exact congrArg _ (congrArg _ (walkRemotes_visitIn env c _))

theorem Gateway.Tracks.step (h : g.Tracks env) {e : GateEvent} (hok : g.Permits possible e) :
    (g.step env possible e).Tracks env := by
  cases e with
  | frame cpu bytes room => exact h
  | command cmd =>
    rw [Gateway.step, Tracks, hok.1]
    exact (h.of_none hok.1).step cmd
  | tick mono readable =>
    have hreach := h.of_none hok
    simp only [Gateway.step]
    split_ifs with hw
    · exact ⟨g.ctrl, g.tickIn possible mono readable, hreach, hw, rfl, rfl⟩
    · rw [Tracks, show g.walk = none from hok]
      exact hreach.step (.tick _)
  | visit x =>
    simp only [Gateway.step]
    split
    · rename_i dt r hwalk _
      obtain ⟨c, t, hreach, hw, hdt, hctrl⟩ := h.of_some hwalk
      rw [Tracks, hwalk]
      refine ⟨c, { t with remotes := t.remotes ++ [r] }, hreach, hw, hdt, ?_⟩
      rw [visitIn_append, ← hctrl, hdt]
    · exact h
  | finish complete =>
    simp only [Gateway.step]
    split
    · exact h
    · rename_i dt hwalk
      obtain ⟨c, t, hreach, hw, -, hctrl⟩ := h.of_some hwalk
      rw [Tracks]
      dsimp only
      rw [hctrl, ← vgCtrlTick_visitIn env hw complete]
      exact hreach.step (.tick _)

/-- Whatever comes in between, the control plane does what it would do on its own. -/
theorem Gateway.tracks (h₀ : g₀.Started env)
    (h : Reaches (Gateway.step env possible) (Gateway.Permits possible) g₀ g) : g.Tracks env := by
  refine h.invariant (I := Gateway.Tracks env) ?_ fun g e hg hok => hg.step hok
  obtain ⟨hwalk, cfgPath, ifaceOv, file, nic, hstart⟩ := h₀
  rw [Tracks, hwalk]
  exact ⟨cfgPath, ifaceOv, file, nic, g₀.ctrl, hstart, .start⟩

private theorem vgCtrlTick_of_not_walks (env : Env) {c : VgCtrl} {t : TickIn} (h : ¬ Walks c t)
    (remotes : List Remote) (complete : ℤ) :
    vgCtrlTick env c { t with remotes := remotes, complete := complete } = vgCtrlTick env c t := by
  have hstate := (measured_samePeriod c t).state
  simp only [vgCtrlTick]
  cases hm : t.metrics with
  | none => rfl
  | some m =>
    rw [measured, hm] at hstate
    dsimp only at hstate ⊢
    by_cases hdt : (tickDt c t.mono).2 ≤ 0
    · rw [if_pos hdt, if_pos hdt]
    · rw [if_neg hdt, if_neg hdt, hstate]
      cases hs : c.state with
      | idle => rfl
      | active =>
        rw [tickDt] at hdt
        split_ifs at hdt with hlast
        · exact absurd ⟨hs, by simp [hm], hlast, not_le.mp hdt⟩ h
        · exact absurd le_rfl hdt

private theorem Gateway.foldl_visit {dt : ℚ} (hwalk : g.walk = some dt) (rs : List Remote)
    (hread : ∀ r ∈ rs, g.readRemote possible r.host = some r) :
    (rs.map fun r => GateEvent.visit r.host).foldl (Gateway.step env possible) g =
      { g with ctrl := rs.foldl (policyOneRemote env dt) g.ctrl } := by
  induction rs generalizing g with
  | nil => rfl
  | cons r rs ih =>
    obtain ⟨hr, hrs⟩ := List.forall_mem_cons.mp hread
    have hstep : g.step env possible (.visit r.host) =
        { g with ctrl := policyOneRemote env dt g.ctrl r } := by
      rw [Gateway.step, hwalk, hr]
    rw [List.map_cons, List.foldl_cons, hstep, List.foldl_cons]
    exact ih hwalk hrs

private theorem Gateway.foldl_visit_of_none (hwalk : g.walk = none) (rs : List Remote) :
    (rs.map fun r => GateEvent.visit r.host).foldl (Gateway.step env possible) g = g := by
  induction rs with
  | nil => rfl
  | cons r rs ih =>
    have hstep : g.step env possible (.visit r.host) = g := by
      rw [Gateway.step, hwalk]
    rw [List.map_cons, List.foldl_cons, hstep, ih]

theorem Gateway.readRemote_of_callFor {ksz : ℕ} {family : Family}
    {found : Vector UInt8 ksz → Option (ℕ → HostCounters)}
    (hfound : ∀ key, found key = g.remote (.ofOctets family (store zeroed key)))
    {key : Vector UInt8 ksz} {r : RemoteCall}
    (hr : callFor family (openScratch possible) found key = some r) :
    g.readRemote possible r.remote.host = some r.remote := by
  obtain ⟨sum, hsum, rfl⟩ := Option.map_eq_some_iff.mp hr
  rw [hfound] at hsum
  change (vgSumPercpu (openScratch possible)
    (g.remote (.ofOctets family (store zeroed key)))).map _ = _
  rw [hsum]
  rfl

def tickEvents (t : TickIn) (readable : Bool) : List GateEvent :=
  .tick t.mono readable :: (t.remotes.map fun r => .visit r.host) ++ [.finish t.complete]

/-- `vg_ctrl_tick` with the walk of `vg_remote_foreach` over maps that no frame changes meanwhile is
the tick of the gateway with a visit for every callback. -/
theorem Gateway.tick_eq_tickOver (hwalk : g.walk = none) {v4 : RemoteMap 4} {v6 : RemoteMap 16}
    {keys4 : List (Vector UInt8 4)} {keys6 : List (Vector UInt8 16)}
    {found4 : Vector UInt8 4 → Option (ℕ → HostCounters)}
    {found6 : Vector UInt8 16 → Option (ℕ → HostCounters)}
    (h4 : v4.Still keys4 found4) (h6 : v6.Still keys6 found6)
    (hfound4 : ∀ key, found4 key = g.remote (.ofOctets .inet (store zeroed key)))
    (hfound6 : ∀ key, found6 key = g.remote (.ofOctets .inet6 (store zeroed key)))
    (mono : Timespec) (readable : Bool) :
    let t := tickOver g.ctrl.cfg (openScratch possible) (some v4) (some v6) mono
      (if readable then g.readMetrics possible else none)
    (tickEvents t readable).foldl (Gateway.step env possible) g =
      { g with ctrl := (vgCtrlTick env g.ctrl t).1 } := by
  intro t
  have hread : ∀ r ∈ t.remotes, g.readRemote possible r.host = some r := by
    intro r hr
    simp only [t, tickOver, vgRemoteForeach_still h4 h6 (walkBudget_pos _)] at hr
    obtain ⟨call, hcall, rfl⟩ := List.mem_map.mp hr
    rcases List.mem_append.mp hcall with hcall | hcall
    · obtain ⟨key, -, hkey⟩ := List.mem_filterMap.mp hcall
      exact readRemote_of_callFor hfound4 hkey
    · obtain ⟨key, -, hkey⟩ := List.mem_filterMap.mp hcall
      exact readRemote_of_callFor hfound6 hkey
  rw [tickEvents, List.cons_append, List.foldl_cons, List.foldl_append, List.foldl_cons,
    List.foldl_nil]
  by_cases hw : Walks g.ctrl t
  · have hstart : g.step env possible (.tick t.mono readable) =
        { g with ctrl := visitIn env g.ctrl t 0, walk := some (g.ctrl.lastTick.until mono) } :=
      if_pos (c := Walks g.ctrl (g.tickIn possible mono readable)) hw
    have hmade : t.remotes.foldl (policyOneRemote env (g.ctrl.lastTick.until mono))
        (visitIn env g.ctrl t 0) = visitIn env g.ctrl t t.remotes.length := by
      rw [visitIn, visitIn, List.take_length]
      rfl
    rw [hstart, foldl_visit rfl t.remotes (by exact hread), Gateway.step]
    dsimp only
    rw [hmade, ← vgCtrlTick_visitIn env hw t.complete, hwalk]
  · have hstart : g.step env possible (.tick t.mono readable) =
        { g with ctrl := (vgCtrlTick env g.ctrl (g.tickIn possible mono readable)).1 } :=
      if_neg (c := Walks g.ctrl (g.tickIn possible mono readable)) hw
    have hrest : vgCtrlTick env g.ctrl t = vgCtrlTick env g.ctrl (g.tickIn possible mono readable) :=
      vgCtrlTick_of_not_walks env (t := g.tickIn possible mono readable) hw t.remotes t.complete
    rw [hstart, foldl_visit_of_none (by exact hwalk), Gateway.step, hrest]
    dsimp only
    rw [hwalk]

end Daemon

end VoidGate
