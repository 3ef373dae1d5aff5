import VoidGate.SnapTable
import Mathlib.Algebra.Order.Field.Rat

/-!
# The control plane

`policy.c`: arming and disarming, the drop list with its kernel side, the walk over
the remote counters, expiry, and the periodic tick. A call returns the new state
and whether it succeeded. Counters and clocks are exact numbers, and rates are
rationals. The state also counts the readings of `time(NULL)` made so far and logs
every rate that was compared with the thresholds; the program keeps neither.
-/

namespace VoidGate

inductive VgState where
  | idle
  | active
  deriving DecidableEq

/-- The members of `struct vg_metrics` that a tick evaluates. -/
structure VgMetrics where
  rxPkts : ℕ
  rxBytes : ℕ
  deriving DecidableEq

/-- One callback of `vg_remote_foreach`. -/
structure Remote where
  host : IpAddr
  inPkts : ℕ
  inBytes : ℕ
  deriving DecidableEq

/-- A comparison made by `policy_one_remote`: the two readings, the rates, and the thresholds. -/
structure Judgement where
  host : IpAddr
  prev : Reading
  cur : Reading
  pps : ℚ
  bps : ℚ
  thresholdPps : ℕ
  thresholdMbps : ℕ
  deriving DecidableEq

/-- `struct vg_ctrl`. -/
structure VgCtrl where
  state : VgState
  cfg : VgConfig
  maps : VgMaps
  cfgPath : CStr 256
  ifaceOverride : CStr 32
  lastM : VgMetrics
  haveLastM : Bool
  lastTick : Timespec
  haveLastTick : Bool
  rxPps : ℚ
  rxBps : ℚ
  quietSince : ℤ
  drops : DropTable
  snaps : SnapTable
  clock : ℕ
  judged : List Judgement

/-- The loop that doubles `drop_nbuckets`, in 32-bit arithmetic. It ends within 33 rounds or
never. -/
def growBuckets : ℕ → ℕ → ℕ → Option ℕ
  | 0, _, _ => none
  | k + 1, nbuckets, cap =>
    if nbuckets < cap then growBuckets k ((nbuckets <<< 1) % 2 ^ 32) cap else some nbuckets

def vgDropMapMax : ℕ := 65536
def vgRemoteMapMax : ℕ := 262144

/-- `drop_pool_cap`. -/
def dropPoolCap (cfg : VgConfig) : ℕ :=
  2 * (if cfg.dropMapSize ≠ 0 then cfg.dropMapSize else vgDropMapMax) % 2 ^ 32

def snapCap (cfg : VgConfig) : ℕ :=
  (if cfg.remoteMapSize ≠ 0 then cfg.remoteMapSize * 2 else vgRemoteMapMax * 2) % 2 ^ 32

section Calls
variable (env : Env)

/-- `vg_ctrl_init`; `none` is the return value -1, or a bucket count that is never found. -/
def vgCtrlInit (cfg : VgConfig) (maps : VgMaps) (cfgPath : List UInt8)
    (ifaceOv : Option (List UInt8)) : Option VgCtrl :=
  match growBuckets 33 1024 (dropPoolCap cfg) with
  | none => none
  | some nbuckets =>
    if env.calloc (dropPoolCap cfg) && env.calloc nbuckets && env.calloc (snapCap cfg) then
      some
        { state := .idle
          cfg := cfg
          maps := maps
          cfgPath := snprintf 256 cfgPath
          ifaceOverride := snprintf 32 (ifaceOv.getD [])
          lastM := ⟨0, 0⟩
          haveLastM := false
          lastTick := ⟨0, 0⟩
          haveLastTick := false
          rxPps := 0
          rxBps := 0
          quietSince := 0
          drops := .init (dropPoolCap cfg) nbuckets
          snaps := .init (snapCap cfg)
          clock := 0
          judged := [] }
    else none

def vgCtrlArm (c : VgCtrl) : VgCtrl × Bool :=
  if c.state = .active then (c, true)
  else
    let w := vgCfgCommit env c.maps 1 c.cfg
    let c := { c with snaps := c.snaps.snapResetPool, quietSince := 0, maps := w.1 }
    if w.2 then ({ c with state := .active }, true) else (c, false)

def vgCtrlDisarm (c : VgCtrl) : VgCtrl × Bool :=
  let w := vgCfgCommit env (vgDropFlush env c.maps) 0 c.cfg
  let c := { c with drops := c.drops.dropsReset, maps := w.1 }
  if w.2 then ({ c with state := .idle, quietSince := 0 }, true) else (c, false)

/-- Lift record `i`: the kernel entry first, so that a failed delete keeps the record. -/
def dropRemove (c : VgCtrl) (i : ℕ) : VgCtrl × Bool :=
  let w := vgDropDel env c.maps (c.drops.pool i).cidr
  if w.2 = .error then ({ c with maps := w.1 }, false)
  else ({ c with maps := w.1, drops := c.drops.lift i }, true)

/-- The branch of `drop_add` for a prefix that is not listed. -/
def dropNew (c : VgCtrl) (p : VgCidr) (reason : Reason) (expires now : ℤ) : VgCtrl × Bool :=
  match c.drops.dropAlloc with
  | (_, none) => (c, false)
  | (t, some i) =>
    let w := vgDropAdd env c.maps p reason now
    if w.2 then ({ c with maps := w.1, drops := t.list i ⟨p, reason, now, expires⟩ }, true)
    else ({ c with maps := w.1, drops := t.giveBack i }, false)

/-- A timed drop of a policy or aggregate record: the ban it already has counts as its deadline. -/
def rebase (cfg : VgConfig) (r : VgDropRec) (reason : Reason) : VgDropRec :=
  if reason = .timed ∧ r.reason ≠ .timed then { r with expires := r.inserted + cfg.banTime } else r

/-- A listed record after its prefix was dropped again: manual and timed drops take it over. -/
def redropped (cfg : VgConfig) (r : VgDropRec) (reason : Reason) (expires now : ℤ) : VgDropRec :=
  let r := rebase cfg r reason
  let expires := if reason = .timed ∧ expires < r.expires then r.expires else expires
  if reason = .manual ∨ reason = .timed then { r with reason, inserted := now, expires } else r

/-- The branch of `drop_add` for the prefix of record `i`. -/
def dropAgain (c : VgCtrl) (i : ℕ) (p : VgCidr) (reason : Reason) (expires now : ℤ) :
    VgCtrl × Bool :=
  let r := c.drops.pool i
  if reason = .timed ∧ r.reason = .manual then (c, true)
  else
    let w := vgDropAdd env c.maps p reason now
    let r' := if w.2 then redropped c.cfg r reason expires now
      -- `r->expires` is written before the call that failed
      else rebase c.cfg r reason
    ({ c with maps := w.1, drops := c.drops.setRec i r' }, w.2)

/-- What `drop_add` does in an armed gate. -/
def dropListed (c : VgCtrl) (p : VgCidr) (reason : Reason) (expires now : ℤ) : VgCtrl × Bool :=
  match c.drops.dropsFind p with
  | none => dropNew env c p reason expires now
  | some i => dropAgain env c i p reason expires now

/-- `drop_add` after its reading of the clock. -/
def dropAt (c : VgCtrl) (p : VgCidr) (reason : Reason) (expires now : ℤ) : VgCtrl × Bool :=
  if vgCidrIsProtected c.cfg p then (c, false)
  else
    -- arming an armed gate does nothing
    let a := vgCtrlArm env c
    if a.2 then dropListed env a.1 p reason expires now else (a.1, false)

def dropAdd (c : VgCtrl) (p : VgCidr) (reason : Reason) (expires : ℤ) : VgCtrl × Bool :=
  dropAt env { c with clock := c.clock + 1 } p reason expires (env.wall c.clock)

def vgCtrlDrop (c : VgCtrl) (p : VgCidr) (reason : Reason) : VgCtrl × Bool :=
  dropAdd env c p reason 0

def vgCtrlDropTtl (c : VgCtrl) (p : VgCidr) (ttl : ℕ) : VgCtrl × Bool :=
  dropAdd env { c with clock := c.clock + 1 } p .timed (env.wall c.clock + ttl)

def vgCtrlUndrop (c : VgCtrl) (p : VgCidr) : VgCtrl × Bool :=
  match c.drops.dropsFind p with
  | some i => dropRemove env c i
  | none =>
    let w := vgDropDel env c.maps p
    ({ c with maps := w.1 }, w.2 != .error)

/-- `vg_list_for_each_safe` over `drop_all`: the successor is read before the body runs. -/
def forEachSafe (body : VgCtrl → ℕ → VgCtrl) : ℕ → VgCtrl → ListNode → VgCtrl
  | 0, c, _ => c
  | k + 1, c, l => match DropTable.entry l with
    | none => c
    | some i => forEachSafe body k (body c i) (c.drops.lists.next l)

def forEachDrop (body : VgCtrl → ℕ → VgCtrl) (c : VgCtrl) : VgCtrl :=
  forEachSafe body c.drops.used c (c.drops.lists.next .dropAll)

/-- The body of the loop of `vg_ctrl_prune_protected`. -/
def pruneOne (c : VgCtrl) (i : ℕ) : VgCtrl :=
  if vgCidrIsProtected c.cfg (c.drops.pool i).cidr then (dropRemove env c i).1 else c

def vgCtrlPruneProtected (c : VgCtrl) : VgCtrl := forEachDrop (pruneOne env) c

/-- A drop that stays in force at the time `now`. -/
def inForce (cfg : VgConfig) (r : VgDropRec) (now : ℤ) : Bool :=
  match r.reason with
  | .manual => true
  | .timed => decide (now < r.expires)
  | _ => decide (now - r.inserted < cfg.banTime)

/-- The body of the loop of `expire_drops`. -/
def expireOne (now : ℤ) (c : VgCtrl) (i : ℕ) : VgCtrl :=
  if inForce c.cfg (c.drops.pool i) now then c else (dropRemove env c i).1

def expireDrops (c : VgCtrl) : VgCtrl :=
  forEachDrop (expireOne env (env.wall c.clock)) { c with clock := c.clock + 1 }

/-- The enclosing /24 or /64. -/
def aggregateNet (host : VgCidr) : Option VgCidr :=
  match host.family with
  | .inet => vgCidrV4Slash24 host
  | .inet6 => vgCidrV6Slash64 host

/-- How many listed drops inside `net` did not come from outside. -/
def aggregateCount (c : VgCtrl) (net : VgCidr) : ℕ :=
  c.drops.records.countP fun r => r.reason != .timed && vgCidrContains net r.cidr

def maybeAggregate (c : VgCtrl) (host : VgCidr) : VgCtrl :=
  match aggregateNet host with
  | none => c
  | some net =>
    if c.cfg.aggregateK ≤ aggregateCount c net then (vgCtrlDrop env c net .aggregate).1 else c

/-- The increase of a counter, 0 if it went down. -/
def increase (prev cur : ℕ) : ℕ := if prev ≤ cur then cur - prev else 0

/-- The rates over `dt` seconds of a remote that has a snapshot, as exact rationals where the source
divides doubles. -/
def judge (cfg : VgConfig) (prev : Reading) (r : Remote) (now : Timespec) (dt : ℚ) :
    Judgement where
  host := r.host
  prev := prev
  cur := ⟨r.inPkts, r.inBytes, now⟩
  pps := increase prev.pkts r.inPkts / dt
  bps := increase prev.bytes r.inBytes * 8 / dt
  thresholdPps := cfg.thresholdPps
  thresholdMbps := cfg.thresholdMbps

/-- Below both thresholds. The rates are exact rationals where the source compares doubles, so the two can
differ where rounding carries a rate across a threshold. -/
def quiet (j : Judgement) : Bool :=
  decide (j.pps < j.thresholdPps ∧ j.bps < j.thresholdMbps * 1000000)

def policyOneRemote (dt : ℚ) (c : VgCtrl) (r : Remote) : VgCtrl :=
  match c.snaps.snapGet r.host with
  | (_, none) => c
  | (t, some (i, created)) =>
    let j := judge c.cfg (t.pool i).reading r c.lastTick dt
    let c := { c with snaps := t.store i r.inPkts r.inBytes c.lastTick }
    if created || dt ≤ 0 then c
    else
      let c := { c with judged := j :: c.judged }
      if quiet j then c
      else
        let d := vgCtrlDrop env c r.host.host .policy
        if d.2 then maybeAggregate env d.1 r.host.host else d.1

/-- What a tick meets outside: the monotonic clock, the metrics if they can be read, and the
walk over the remotes with its return code. -/
structure TickIn where
  mono : Timespec
  metrics : Option VgMetrics
  remotes : List Remote
  complete : ℤ
  deriving DecidableEq

/-- The next generation; on a wrap the pool starts over. -/
def nextGen (t : SnapTable) : SnapTable :=
  if (t.gen + 1) % 2 ^ 32 = 0 then { t.snapResetPool with gen := 1 }
  else { t with gen := (t.gen + 1) % 2 ^ 32 }

def walkRemotes (dt : ℚ) (c : VgCtrl) (t : TickIn) : VgCtrl :=
  let c := t.remotes.foldl (policyOneRemote env dt) { c with snaps := nextGen c.snaps }
  if t.complete = 1 then { c with snaps := c.snaps.snapPrune } else c

/-- Seconds from `a` to `b`, as an exact rational. -/
def Timespec.until (a b : Timespec) : ℚ :=
  (b.tvSec - a.tvSec : ℤ) + (b.tvNsec - a.tvNsec : ℤ) / 1000000000

/-- The span since the last tick is an exact rational where `tick_dt` computes a double. -/
def tickDt (c : VgCtrl) (now : Timespec) : VgCtrl × ℚ :=
  if c.haveLastTick then ({ c with lastTick := now }, c.lastTick.until now)
  else ({ c with lastTick := now, haveLastTick := true }, 0)

/-- The rates of the interface since the last reading of the metrics, as exact rationals where
`vg_ctrl_tick` divides doubles. -/
def updateRates (c : VgCtrl) (m : VgMetrics) (dt : ℚ) : VgCtrl :=
  let c := if c.haveLastM && 0 < dt then
      { c with
        rxPps := increase c.lastM.rxPkts m.rxPkts / dt
        rxBps := increase c.lastM.rxBytes m.rxBytes * 8 / dt }
    else c
  { c with lastM := m, haveLastM := true }

/-- Start the quiet time unless it is already running. -/
def quietStart (c : VgCtrl) : VgCtrl :=
  if c.quietSince = 0 then { c with quietSince := env.wall c.clock, clock := c.clock + 1 } else c

/-- The end of an active tick: disarm after a quiet time without drops. -/
def quietTest (c : VgCtrl) : VgCtrl :=
  if c.rxPps < c.cfg.wakePps ∧ c.rxBps < c.cfg.wakeMbps * 1000000 then
    let c := quietStart env c
    if c.drops.count = 0 then
      let now := env.wall c.clock
      let c := { c with clock := c.clock + 1 }
      if c.cfg.clearSeconds ≤ now - c.quietSince then (vgCtrlDisarm env c).1 else c
    else c
  else { c with quietSince := 0 }

def vgCtrlTick (c : VgCtrl) (t : TickIn) : VgCtrl × Bool :=
  let (c, dt) := tickDt c t.mono
  match t.metrics with
  | none => (c, false)
  | some m =>
    let c := updateRates c m dt
    if dt ≤ 0 then (c, true)
    else match c.state with
      | .idle =>
        if c.cfg.wakePps < c.rxPps ∨ c.cfg.wakeMbps * 1000000 < c.rxBps then
          ((vgCtrlArm env c).1, true)
        else (c, true)
      | .active => (quietTest env (expireDrops env (walkRemotes env dt c t)), true)

end Calls

end VoidGate
