import VoidGate.CtlServer
import VoidGate.Decimals
import VoidGate.Xdp

/-!
# The control protocol

One connection of the control socket: the loop that reads a request into a buffer
of 256 bytes, the table of commands, and the handlers with the texts they answer.
The bytes of a client arrive in pieces, and a call of `read` may be interrupted or
fail; both are decided by the connection.
-/

namespace VoidGate

open Runs

/-- What the next call of `read` meets: a signal, an error, or at most so many bytes more than
one. -/
inductive ReadEvent where
  | eintr
  | error
  | upTo (more : ℕ)
  deriving DecidableEq

/-- A connection: the bytes the client has sent before it stopped writing, and how they arrive.
After the listed events `read` returns as much as it can. -/
structure Conn where
  stream : List UInt8
  reads : List ReadEvent

inductive ReadResult where
  | eintr
  | error
  | bytes (chunk : List UInt8)

/-- `read` into a buffer with this much room. -/
def Conn.read (conn : Conn) (room : ℕ) : ReadResult × Conn :=
  match conn.reads with
  | [] => (.bytes (conn.stream.take room), ⟨conn.stream.drop room, []⟩)
  | .eintr :: rest => (.eintr, ⟨conn.stream, rest⟩)
  | .error :: rest => (.error, ⟨conn.stream, rest⟩)
  | .upTo more :: rest =>
    (.bytes (conn.stream.take (min room (more + 1))),
      ⟨conn.stream.drop (min room (more + 1)), rest⟩)

/-- How the read loop of `vg_ctl_server_handle` ends: it returns, it goes to `send_reply` with an
error, or it leaves a request in the buffer. -/
inductive Request where
  | hangUp
  | refused (reply : List UInt8)
  | line (req : List UInt8)
  deriving DecidableEq

def badCommand : List UInt8 := bytes "error: bad command\n"
def commandTooLong : List UInt8 := bytes "error: command too long\n"

theorem Conn.read_eintr {conn conn' : Conn} {room : ℕ} (h : conn.read room = (.eintr, conn')) :
    conn'.stream = conn.stream ∧ conn.reads = .eintr :: conn'.reads := by
  rw [Conn.read] at h
  split at h <;> cases h
  rename_i hr
  exact ⟨rfl, hr⟩

theorem Conn.read_error {conn conn' : Conn} {room : ℕ} (h : conn.read room = (.error, conn')) :
    .error ∈ conn.reads := by
  rw [Conn.read] at h
  split at h <;> cases h
  rename_i hr
  exact hr ▸ List.mem_cons_self

/-- A read returns a first part of the stream that fits, and nothing only at the end. -/
theorem Conn.read_bytes {conn conn' : Conn} {room : ℕ} {chunk : List UInt8}
    (h : conn.read room = (.bytes chunk, conn')) : conn.stream = chunk ++ conn'.stream ∧
      chunk.length ≤ room ∧ conn'.reads = conn.reads.tail ∧
      (chunk = [] → 0 < room → conn.stream = []) := by
  rw [Conn.read] at h
  split at h <;> cases h
  · rename_i hr
    refine ⟨(List.take_append_drop _ _).symm, List.length_take_le _ _, by simp [hr], ?_⟩
    intro hnil hroom
    rcases List.take_eq_nil_iff.mp hnil with h0 | h0
    · omega
    · exact h0
  · rename_i more rest hr
    refine ⟨(List.take_append_drop _ _).symm, ?_, by simp [hr], ?_⟩
    · exact (List.length_take_le _ _).trans (Nat.min_le_left _ _)
    · intro hnil hroom
      rcases List.take_eq_nil_iff.mp hnil with h0 | h0
      · omega
      · exact h0

/-- The read loop with `req` in the buffer. -/
def readRequest (conn : Conn) (req : List UInt8) : Request :=
  match _h : conn.read (255 - req.length) with
  | (.eintr, conn') => readRequest conn' req
  | (.error, _) => .hangUp
  | (.bytes chunk, conn') =>
    if _hend : chunk = [] then
      if req = [] then .hangUp else .line req
    else
      -- only the new bytes are searched, and only up to the newline
      let part := chunk.takeWhile (· != 10)
      if 0 ∈ part then .refused badCommand
      else if 10 ∈ chunk then .line (req ++ part)
      else if (req ++ part).length = 255 then .refused commandTooLong
      else readRequest conn' (req ++ part)
termination_by conn.stream.length + conn.reads.length
decreasing_by
  · obtain ⟨hs, hr⟩ := Conn.read_eintr _h
    rw [hs, hr, List.length_cons]
    omega
  · obtain ⟨hs, -, hr, -⟩ := Conn.read_bytes _h
    have hpos := List.length_pos_iff.mpr _hend
    rw [hs, hr, List.length_append, List.length_tail]
    omega

/-- What a command meets outside the daemon. `time` numbers the readings of the clock that the
listing makes, one for each line. -/
structure Outside where
  file : ConfigFile
  nic : Option (List IfAddr)
  metrics : Option XdpMetrics
  inetNtop : Family → Octets → List UInt8
  time : ℕ → ℤ

/-- `char reply[8192]`. -/
def replySize : ℕ := 8192

/-- `snprintf(reply, reply_size, ...)`. -/
def printReply (text : List UInt8) : List UInt8 := text.take (replySize - 1)

def okReply : List UInt8 := bytes "ok\n"

/-- `%ld`. -/
def intText (z : ℤ) : List UInt8 :=
  if z < 0 then 45 :: Decimals.text z.natAbs else Decimals.text z.natAbs

/-- `%.0f`: the nearest integer, and the even one of two. -/
def roundText (q : ℚ) : List UInt8 :=
  let f := q.floor
  intText (if q - f < 1 / 2 ∨ (q - f = 1 / 2 ∧ f % 2 = 0) then f else f + 1)

def stateText (c : VgCtrl) : List UInt8 :=
  if c.state = .active then bytes "active" else bytes "idle"

def ctlStatus (c : VgCtrl) : List UInt8 :=
  printReply (bytes "state=" ++ stateText c ++
    bytes " armed=" ++ (if c.state = .active then bytes "1" else bytes "0") ++
    bytes " rx_pps=" ++ roundText c.rxPps ++ bytes " rx_bps=" ++ roundText c.rxBps ++
    bytes " prefixes=" ++ Decimals.text c.drops.count ++
    bytes " iface=" ++ c.cfg.interface.val ++ bytes "\n")

def ctlStats (o : Outside) (c : VgCtrl) : List UInt8 :=
  match o.metrics with
  | none => printReply (bytes "error reading metrics\n")
  | some m =>
    printReply (bytes "rx_pkts=" ++ Decimals.text m.rxPkts.toNat ++
      bytes " rx_bytes=" ++ Decimals.text m.rxBytes.toNat ++
      bytes " passed=" ++ Decimals.text m.passed.toNat ++
      bytes " dropped=" ++ Decimals.text m.dropped.toNat ++
      bytes " non_ip=" ++ Decimals.text m.nonIp.toNat ++
      bytes " map_full=" ++ Decimals.text m.mapFull.toNat ++
      bytes " parse_err=" ++ Decimals.text m.parseErr.toNat ++
      bytes "\nrx_pps=" ++ roundText c.rxPps ++ bytes " rx_bps=" ++ roundText c.rxBps ++
      bytes " state=" ++ stateText c ++
      bytes " prefixes=" ++ Decimals.text c.drops.count ++ bytes "\n")

/-- `vg_cidr_to_str` into `char p[80]`. -/
def vgCidrToStr (o : Outside) (p : VgCidr) : List UInt8 :=
  (o.inetNtop p.family p.addr ++ 47 :: Decimals.text p.prefixlen).take 79

/-- The line of the `i`-th record of the listing. -/
def dropLine (o : Outside) (i : ℕ) (r : VgDropRec) : List UInt8 :=
  vgCidrToStr o r.cidr ++ bytes " reason=" ++ Decimals.text r.reason.num ++
    bytes " age=" ++ intText (o.time i - r.inserted) ++ bytes "\n"

/-- The loop of `ctl_drops`; `used` also counts what a line had to leave out. -/
def ctlDropsLoop (o : Outside) : List VgDropRec → ℕ → ℕ → List UInt8 → List UInt8
  | [], _, _, reply => reply
  | r :: rs, i, used, reply =>
    if used + 80 < replySize then
      ctlDropsLoop o rs (i + 1) (used + (dropLine o i r).length)
        (reply ++ (dropLine o i r).take (replySize - used - 1))
    else reply

def ctlDrops (o : Outside) (c : VgCtrl) : List UInt8 :=
  if c.drops.count = 0 then printReply (bytes "(none)\n")
  else ctlDropsLoop o c.drops.records 0 0 []

/-- A command that answers ok or an error. -/
def answer (error : List UInt8) (r : VgCtrl × Bool) : VgCtrl × List UInt8 :=
  (r.1, printReply (if r.2 then okReply else error))

section Calls
variable (env : Env) {c : VgCtrl} {o : Outside}

def ctlArm (c : VgCtrl) : VgCtrl × List UInt8 :=
  answer (bytes "error: arm failed\n") (vgCtrlArm env c)

def ctlDisarm (c : VgCtrl) : VgCtrl × List UInt8 :=
  answer (bytes "error: disarm failed\n") (vgCtrlDisarm env c)

/-- `VG_MAX_DROP_TTL`: one year. -/
def vgMaxDropTtl : ℕ := 31536000

/-- `parse_ttl`. The bound keeps the 32-bit value from wrapping. -/
def parseTtl (s : List UInt8) : Option ℕ :=
  if (bytes "ttl=").isPrefixOf s then
    match Decimals.readBounded vgMaxDropTtl (s.drop 4) 0 with
    | none => none
    | some v => if v < 1 ∨ vgMaxDropTtl < v then none else some v
  else none

def ctlDrop (c : VgCtrl) (args : List UInt8) : VgCtrl × List UInt8 :=
  match vgParseCidrLen env.inetPton (args.takeWhile (· != 32)) with
  | none => (c, printReply (bytes "error: bad cidr\n"))
  | some p =>
    let ttl := if 32 ∈ args then parseTtl ((args.dropWhile (· != 32)).drop 1) else some 0
    match ttl with
    | none => (c, printReply (bytes "error: bad ttl\n"))
    | some ttl =>
      answer (bytes "error: refused or map update failed\n")
        (if ttl ≠ 0 then vgCtrlDropTtl env c p ttl else vgCtrlDrop env c p .manual)

def ctlUndrop (c : VgCtrl) (args : List UInt8) : VgCtrl × List UInt8 :=
  match vgParseCidr env.inetPton args with
  | none => (c, printReply (bytes "error: bad cidr\n"))
  | some p => answer (bytes "error: map update failed\n") (vgCtrlUndrop env c p)

def ctlReload (o : Outside) (c : VgCtrl) : VgCtrl × List UInt8 :=
  answer (bytes "error: reload failed\n") (vgCtrlReload env c o.file o.nic)

/-- `vg_ctl_command_t`; `takesArgs` is its member `prefix`. -/
structure VgCtlCommand where
  name : List UInt8
  takesArgs : Bool
  handler : VgCtrl → List UInt8 → VgCtrl × List UInt8

def vgCtlCommands (o : Outside) : List VgCtlCommand :=
  [⟨bytes "status", false, fun c _ => (c, ctlStatus c)⟩,
    ⟨bytes "stats", false, fun c _ => (c, ctlStats o c)⟩,
    ⟨bytes "drops", false, fun c _ => (c, ctlDrops o c)⟩,
    ⟨bytes "arm", false, fun c _ => ctlArm env c⟩,
    ⟨bytes "disarm", false, fun c _ => ctlDisarm env c⟩,
    ⟨bytes "drop ", true, ctlDrop env⟩,
    ⟨bytes "undrop ", true, ctlUndrop env⟩,
    ⟨bytes "reload", false, fun c _ => ctlReload env o c⟩]

def VgCtlCommand.Matches (cmd : VgCtlCommand) (req : List UInt8) : Bool :=
  if cmd.takesArgs then cmd.name.isPrefixOf req else req == cmd.name

/-- The loop over the table: the first command whose name fits. -/
def dispatch (o : Outside) (c : VgCtrl) (req : List UInt8) : VgCtrl × List UInt8 :=
  match (vgCtlCommands env o).find? (·.Matches req) with
  | none => (c, printReply (bytes "error: unknown command\n"))
  | some cmd => cmd.handler c (if cmd.takesArgs then req.drop cmd.name.length else [])

/-- What follows the read loop: the new state, and the reply unless the connection is dropped
without one. -/
def respond (o : Outside) (c : VgCtrl) : Request → VgCtrl × Option (List UInt8)
  | .hangUp => (c, none)
  | .refused reply => (c, some (printReply reply))
  | .line req => ((dispatch env o c req).1, some (dispatch env o c req).2)

def vgCtlServerHandle (o : Outside) (c : VgCtrl) (conn : Conn) : VgCtrl × Option (List UInt8) :=
  respond env o c (readRequest conn [])

private theorem ctlDrop_step (args : List UInt8) :
    (ctlDrop env c args).1 = c ∨ ∃ cmd, (ctlDrop env c args).1 = step env c cmd := by
  rw [ctlDrop]
  split
  · exact .inl rfl
  · rename_i p hp
    have hmasked := masked_vgParseCidrLen hp
    dsimp only
    split
    · exact .inl rfl
    · rename_i ttl _
      by_cases httl : ttl ≠ 0
      · rw [if_pos httl]
        exact .inr ⟨.dropTtl ⟨p, hmasked⟩ ttl, rfl⟩
      · rw [if_neg httl]
        exact .inr ⟨.drop ⟨p, hmasked⟩, rfl⟩

private theorem ctlUndrop_step (args : List UInt8) :
    (ctlUndrop env c args).1 = c ∨ ∃ cmd, (ctlUndrop env c args).1 = step env c cmd := by
  rw [ctlUndrop]
  split
  · exact .inl rfl
  · rename_i p hp
    exact .inr ⟨.undrop ⟨p, masked_vgParseCidrLen hp⟩, rfl⟩

private theorem dispatch_step (req : List UInt8) :
    (dispatch env o c req).1 = c ∨ ∃ cmd, (dispatch env o c req).1 = step env c cmd := by
  rw [dispatch]
  split
  · exact .inl rfl
  · rename_i cmd hfind
    have hmem := List.mem_of_find?_eq_some hfind
    simp only [vgCtlCommands, List.mem_cons, List.not_mem_nil, or_false] at hmem
    rcases hmem with rfl | rfl | rfl | rfl | rfl | rfl | rfl | rfl
    · exact .inl rfl
    · exact .inl rfl
    · exact .inl rfl
    · exact .inr ⟨.arm, rfl⟩
    · exact .inr ⟨.disarm, rfl⟩
    · exact ctlDrop_step env _
    · exact ctlUndrop_step env _
    · exact .inr ⟨.reload o.file o.nic, rfl⟩

/-- A connection takes the daemon from a state of a run to a state of a run. -/
theorem Reachable.vgCtlServerHandle (h : Reachable env c) (o : Outside) (conn : Conn) :
    Reachable env (vgCtlServerHandle env o c conn).1 := by
  rw [VoidGate.vgCtlServerHandle]
  cases readRequest conn [] with
  | hangUp => exact h
  | refused reply => exact h
  | line req =>
    rcases dispatch_step env (o := o) (c := c) req with heq | ⟨cmd, heq⟩
    · rw [respond, heq]
      exact h
    · obtain ⟨cfgPath, ifaceOv, file, nic, c₀, hstart, hrun⟩ := h
      rw [respond, heq]
      exact ⟨cfgPath, ifaceOv, file, nic, c₀, hstart, hrun.next cmd trivial⟩

end Calls

/-- What the small host meets outside. -/
def steadyOutside : Outside where
  file := .missing
  nic := sampleNic
  metrics := none
  inetNtop _ _ := []
  time _ := 1000000

end VoidGate
