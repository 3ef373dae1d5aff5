import VoidGate.Config
import VoidGate.Decimals
import VoidGate.LockFiles

/-!
# Starts and stops of the daemon

The processes that run `voidgate` with one pid file: any number of starts, each with
the daemon it becomes, and any number of `-s stop`. An event is one system call of one
process, or the end of a process, so a list of events is an interleaving; an event that
does not fit the place where its process is changes nothing.
-/

namespace VoidGate

open LockFiles

/-- A `pid_t` that names a process. -/
abbrev Pid := { n : ℕ // 0 < n ∧ n < 2 ^ 31 }

/-- Where a start is in `main`, after the last system call that others can notice. -/
inductive Stage where
  | idle
  | opened
  | locked
  -- the control socket answered: the pid file is removed and the process dies
  | refusing
  | refused
  | checked
  -- `vg_ctl_server_listen`
  | sockCleared
  | bound
  | ready
  -- `write_pidfile`; if it fails the pid file is removed and the process dies
  | truncated
  | writeFailed
  | writeCleared
  | running
  -- the end of `main`
  | sockClosed
  | sockRemoved
  | unlinked
  | gone
  deriving DecidableEq

/-- The process that `daemon_start` leaves waiting for the readiness of its child. -/
inductive Parent where
  | none
  | waiting (pid : Pid)
  | exited
  deriving DecidableEq

/-- One start: `inode` is the file behind `pid_fd`, and `ctl` says that the control socket
listens. -/
structure Start where
  stage : Stage
  pid : Pid
  inode : ℕ
  ctl : Bool
  parent : Parent
  deriving DecidableEq

/-- Where `daemon_stop` is. `buf` is what it has read; `holders` are the processes that had the
locked file open when its own `flock` failed. -/
inductive StopStage where
  | idle
  | opened (i : ℕ)
  | read (i : ℕ) (buf : List UInt8)
  | stale (i : ℕ)
  | staleClosed
  | busy (buf : List UInt8) (holders : List Pid)
  | closed (buf : List UInt8) (holders : List Pid)
  | waiting
  | missing
  | done
  deriving DecidableEq

/-- A SIGTERM of `daemon_stop`, with the processes that held the lock. -/
structure Signal where
  target : ℤ
  holders : List Pid

/-- The file system, the locks, the control socket and the processes. `path` is the file that the
pid file's name refers to, `sockPath` the start whose socket the socket's name refers to. -/
structure World where
  path : Option ℕ
  fresh : ℕ
  content : ℕ → List UInt8
  locks : LockTable ℕ ℕ ℕ
  sockPath : Option ℕ
  starts : ℕ → Start
  stops : ℕ → StopStage
  sent : List Signal

/-- The system calls of a start, with what the kernel decides. -/
inductive Call where
  | openFile (pid : Pid)
  | flock
  | connect (noSocket : Bool)
  | unlinkPid
  | fork (pid : Pid)
  | unlinkSock
  | bind (ok : Bool)
  | listen (ok : Bool)
  | ftruncate (ok : Bool)
  | pwrite (written : ℕ)
  | closeSock
  | closePid
  deriving DecidableEq

/-- What `kill` says about a process. -/
inductive KillResult where
  | ok
  | esrch
  | error
  deriving DecidableEq

/-- The system calls of `daemon_stop`. -/
inductive StopCall where
  | openFile
  | read (ok : Bool)
  | flock
  | close
  | unlink
  | kill (r : KillResult)
  | timeout
  deriving DecidableEq

inductive Event where
  | start (k : ℕ) (call : Call)
  | crash (k : ℕ)
  | parentExit (k : ℕ)
  | stop (j : ℕ) (call : StopCall)
  | stopCrash (j : ℕ)
  deriving DecidableEq

/-- `"%ld\n"`. -/
def pidText (pid : Pid) : List UInt8 := Decimals.text pid.1 ++ bytes "\n"

/-- `strtol(s, NULL, 10)`. -/
def strtol (s : List UInt8) : ℤ :=
  let t := s.dropWhile isspace
  let neg := t.head? == some 45
  let t := if neg || t.head? == some 43 then t.tail else t
  let v : ℤ := decimal (t.takeWhile isdigit)
  if neg then max (-v) (-2 ^ 63) else min v (2 ^ 63 - 1)

/-- `(pid_t) v`. -/
def toPidT (v : ℤ) : ℤ := (v + 2 ^ 31) % 2 ^ 32 - 2 ^ 31

namespace World
variable (w : World)

def setStart (k : ℕ) (p : Start) : World := { w with starts := Function.update w.starts k p }

def setStop (j : ℕ) (q : StopStage) : World := { w with stops := Function.update w.stops j q }

/-- A file gets a new content. -/
def write (i : ℕ) (bs : List UInt8) : World :=
  { w with content := Function.update w.content i bs }

/-- `vg_ctl_server_alive` when it gets a socket of its own. -/
def answers : Bool :=
  match w.sockPath with
  | none => false
  | some k => (w.starts k).ctl

/-- The open file of a start is closed for good: with the last process that shares it. -/
def dropLock (k : ℕ) (p : Start) : World :=
  match p.parent with
  | .waiting _ => w
  | _ => { w with locks := w.locks.releaseExclusive p.inode k }

/-- The processes that have the exclusively locked file `i` open. -/
def lockPids (i : ℕ) : List Pid :=
  match w.locks.exclusive i with
  | none => []
  | some k =>
    let p := w.starts k
    (if p.stage = .gone then [] else [p.pid]) ++
      match p.parent with
      | .waiting pid => [pid]
      | _ => []

/-- One system call of start `k`. -/
def startCall (k : ℕ) (call : Call) : World :=
  let p := w.starts k
  match p.stage, call with
  -- pid_lock
  | .idle, .openFile pid =>
    match w.path with
    | some i => w.setStart k { p with stage := .opened, pid := pid, inode := i }
    | none =>
      { w.write w.fresh [] with path := some w.fresh, fresh := w.fresh + 1 }.setStart k
        { p with stage := .opened, pid := pid, inode := w.fresh }
  | .opened, .flock =>
    match w.locks.tryExclusive p.inode k with
    | some t => { w with locks := t }.setStart k { p with stage := .locked }
    | none => w.setStart k { p with stage := .gone }
  -- vg_ctl_server_alive
  | .locked, .connect noSocket =>
    if !noSocket && w.answers then w.setStart k { p with stage := .refusing }
    else w.setStart k { p with stage := .checked }
  | .refusing, .unlinkPid => { w with path := none }.setStart k { p with stage := .refused }
  -- daemon_start: the daemon is the child
  | .checked, .fork pid =>
    if p.parent = .none then w.setStart k { p with pid := pid, parent := .waiting p.pid } else w
  -- vg_ctl_server_listen; without a socket the daemon goes on
  | .checked, .unlinkSock => { w with sockPath := none }.setStart k { p with stage := .sockCleared }
  | .sockCleared, .bind ok =>
    if ok && w.sockPath.isNone then
      { w with sockPath := some k }.setStart k { p with stage := .bound }
    else w.setStart k { p with stage := .ready }
  | .bound, .listen ok => w.setStart k { p with stage := .ready, ctl := ok }
  -- write_pidfile
  | .ready, .ftruncate ok =>
    if ok then (w.write p.inode []).setStart k { p with stage := .truncated }
    else w.setStart k { p with stage := .writeFailed }
  | .truncated, .pwrite n =>
    let w' := w.write p.inode ((pidText p.pid).take n ++ (w.content p.inode).drop n)
    if (pidText p.pid).length ≤ n then w'.setStart k { p with stage := .running }
    else w'.setStart k { p with stage := .writeFailed }
  | .writeFailed, .unlinkPid => { w with path := none }.setStart k { p with stage := .writeCleared }
  -- the end of main
  | .running, .closeSock =>
    if p.ctl then w.setStart k { p with stage := .sockClosed, ctl := false }
    else w.setStart k { p with stage := .sockRemoved }
  | .sockClosed, .unlinkSock =>
    { w with sockPath := none }.setStart k { p with stage := .sockRemoved }
  | .sockRemoved, .unlinkPid => { w with path := none }.setStart k { p with stage := .unlinked }
  | .unlinked, .closePid => (w.dropLock k p).setStart k { p with stage := .gone }
  | _, _ => w

/-- Start `k` is killed, or ends in `vg_die`. -/
def crash (k : ℕ) : World :=
  let p := w.starts k
  (w.dropLock k p).setStart k { p with stage := .gone, ctl := false }

/-- The parent of daemon `k` is done. -/
def parentExit (k : ℕ) : World :=
  let p := w.starts k
  match p.parent with
  | .waiting _ =>
    let p' := { p with parent := .exited }
    if p.stage = .gone then (w.dropLock k p').setStart k p' else w.setStart k p'
  | _ => w

/-- One system call of `daemon_stop` number `j`. -/
def stopCall (j : ℕ) (call : StopCall) : World :=
  match w.stops j, call with
  | .idle, .openFile =>
    match w.path with
    | some i => w.setStop j (.opened i)
    | none => w.setStop j .done
  | .opened i, .read ok => w.setStop j (.read i (if ok then (w.content i).take 31 else []))
  | .read i buf, .flock =>
    match w.locks.tryShared i j with
    | some t => { w with locks := t }.setStop j (.stale i)
    | none => w.setStop j (.busy buf (w.lockPids i))
  | .stale i, .close => { w with locks := w.locks.releaseShared i j }.setStop j .staleClosed
  | .staleClosed, .unlink => { w with path := none }.setStop j .done
  | .busy buf holders, .close => w.setStop j (.closed buf holders)
  | .closed buf holders, .kill r =>
    if buf = [] ∨ strtol buf ≤ 0 then w.setStop j .done
    else
      let w' := { w with sent := ⟨toPidT (strtol buf), holders⟩ :: w.sent }
      match r with
      | .ok => w'.setStop j .waiting
      | .esrch => w'.setStop j .missing
      | .error => w'.setStop j .done
  -- the loop that waits for the process to end
  | .waiting, .kill .ok => w
  | .waiting, .kill .esrch => w.setStop j .missing
  | .waiting, .kill .error => w.setStop j .done
  | .waiting, .timeout => w.setStop j .done
  | .missing, .unlink => { w with path := none }.setStop j .done
  | _, _ => w

/-- `daemon_stop` number `j` is killed. -/
def stopCrash (j : ℕ) : World :=
  match w.stops j with
  | .stale i => { w with locks := w.locks.releaseShared i j }.setStop j .done
  | _ => w.setStop j .done

def step : Event → World
  | .start k call => w.startCall k call
  | .crash k => w.crash k
  | .parentExit k => w.parentExit k
  | .stop j call => w.stopCall j call
  | .stopCrash j => w.stopCrash j

section Frames
variable {w} {k : ℕ}

/-- A lock is given back, or it stays with the parent. -/
theorem dropLock_cases (p : Start) : w.dropLock k p = w ∨
    w.dropLock k p = { w with locks := w.locks.releaseExclusive p.inode k } := by
  rw [dropLock]
  split
  · exact .inl rfl
  · exact .inr rfl

@[simp] theorem dropLock_starts (p : Start) : (w.dropLock k p).starts = w.starts := by
  rcases w.dropLock_cases p with h | h <;> rw [h]

@[simp] theorem dropLock_sent (p : Start) : (w.dropLock k p).sent = w.sent := by
  rcases w.dropLock_cases p with h | h <;> rw [h]

end Frames

end World

/-- The stages that follow each other without a word to the pid file: a start that gets no lock, the
refusal, the control socket on the way in and out, and a write that fails. -/
inductive Stage.Next : Stage → Stage → Prop
  | noLock : Next .opened .gone
  | refuse : Next .locked .refusing
  | clearSock : Next .checked .sockCleared
  | bind : Next .sockCleared .bound
  | noSock : Next .sockCleared .ready
  | listen : Next .bound .ready
  | noTruncate : Next .ready .writeFailed
  | closeSock : Next .running .sockClosed
  | noCtl : Next .running .sockRemoved
  | removeSock : Next .sockClosed .sockRemoved

/-- The stages around the removal of the pid file's name: of a start that is refused, of one that
cannot write the file, and at the end of main. -/
inductive Stage.Removes : Stage → Stage → Prop
  | refused : Removes .refusing .refused
  | failed : Removes .writeFailed .writeCleared
  | done : Removes .sockRemoved .unlinked

/-- What a system call makes of the world. -/
inductive StartStep (w : World) (k : ℕ) : Call → World → Prop
  | stay {call : Call} : StartStep w k call w
  | openNamed {pid : Pid} {i : ℕ} (hstage : (w.starts k).stage = .idle) (hpath : w.path = some i) :
      StartStep w k (.openFile pid)
        (w.setStart k { w.starts k with stage := .opened, pid := pid, inode := i })
  | openNew {pid : Pid} (hstage : (w.starts k).stage = .idle) (hpath : w.path = none) :
      StartStep w k (.openFile pid)
        ({ w.write w.fresh [] with path := some w.fresh, fresh := w.fresh + 1 }.setStart k
          { w.starts k with stage := .opened, pid := pid, inode := w.fresh })
  | acquire {t : LockTable ℕ ℕ ℕ} (hstage : (w.starts k).stage = .opened)
      (ht : w.locks.tryExclusive (w.starts k).inode k = some t) :
      StartStep w k .flock ({ w with locks := t }.setStart k { w.starts k with stage := .locked })
  | enter {noSocket : Bool} (hstage : (w.starts k).stage = .locked)
      (hpass : noSocket = true ∨ w.answers = false) :
      StartStep w k (.connect noSocket) (w.setStart k { w.starts k with stage := .checked })
  | fork {pid : Pid} (hstage : (w.starts k).stage = .checked) :
      StartStep w k (.fork pid)
        (w.setStart k { w.starts k with pid := pid, parent := .waiting (w.starts k).pid })
  | next {call : Call} {s s' : Stage} (hstage : (w.starts k).stage = s) (hnext : s.Next s')
      (sock : Option ℕ) (ctl : Bool) :
      StartStep w k call
        ({ w with sockPath := sock }.setStart k { w.starts k with stage := s', ctl := ctl })
  | truncate {ok : Bool} (hstage : (w.starts k).stage = .ready) :
      StartStep w k (.ftruncate ok)
        ((w.write (w.starts k).inode []).setStart k { w.starts k with stage := .truncated })
  | pwrite {n : ℕ} (hstage : (w.starts k).stage = .truncated) :
      StartStep w k (.pwrite n)
        ((w.write (w.starts k).inode
            ((pidText (w.starts k).pid).take n ++ (w.content (w.starts k).inode).drop n)).setStart k
          { w.starts k with
            stage := if (pidText (w.starts k).pid).length ≤ n then .running else .writeFailed })
  | remove {s s' : Stage} (hstage : (w.starts k).stage = s) (hremoves : s.Removes s') :
      StartStep w k .unlinkPid
        ({ w with path := none }.setStart k { w.starts k with stage := s' })
  | close (hstage : (w.starts k).stage = .unlinked) :
      StartStep w k .closePid
        ((w.dropLock k (w.starts k)).setStart k { w.starts k with stage := .gone })

/-- The cases of `startCall`, once for all that is proved about it. -/
theorem startCall_step (w : World) (k : ℕ) (call : Call) :
    StartStep w k call (w.startCall k call) := by
  unfold World.startCall
  dsimp only
  split
  · rename_i pid hstage
    split
    · rename_i i hpath
      exact .openNamed hstage hpath
    · rename_i hpath
      exact .openNew hstage hpath
  · rename_i hstage
    split
    · rename_i t ht
      exact .acquire hstage ht
    · exact .next hstage .noLock _ _
  · rename_i noSocket hstage
    split
    · exact .next hstage .refuse _ _
    · rename_i hpass
      exact .enter hstage (by simpa [or_iff_not_imp_left] using hpass)
  · rename_i hstage
    exact .remove hstage .refused
  · rename_i pid hstage
    split
    · exact .fork hstage
    · exact .stay
  · rename_i hstage
    exact .next hstage .clearSock _ _
  · rename_i ok hstage
    split
    · exact .next hstage .bind _ _
    · exact .next hstage .noSock _ _
  · rename_i ok hstage
    exact .next hstage .listen _ _
  · rename_i ok hstage
    split
    · exact .truncate hstage
    · exact .next hstage .noTruncate _ _
  · rename_i n hstage
    have hstep := @StartStep.pwrite w k n hstage
    split
    · rwa [if_pos ‹_›] at hstep
    · rwa [if_neg ‹_›] at hstep
  · rename_i hstage
    exact .remove hstage .failed
  · rename_i hstage
    split
    · exact .next hstage .closeSock _ _
    · exact .next hstage .noCtl _ _
  · rename_i hstage
    exact .next hstage .removeSock _ _
  · rename_i hstage
    exact .remove hstage .done
  · rename_i hstage
    exact .close hstage
  · exact .stay

/-- A start leaves the others alone. -/
theorem StartStep.starts {w w' : World} {k k' : ℕ} {call : Call} (h : StartStep w k call w')
    (hk : k' ≠ k) : w'.starts k' = w.starts k' := by
  cases h <;> simp [World.setStart, World.write, Function.update_of_ne hk]

/-- Before the first start: no process and no lock. There may be a pid file, left by a daemon that
crashed. -/
structure World.Initial (w : World) : Prop where
  starts : ∀ k, (w.starts k).stage = .idle ∧ (w.starts k).parent = .none ∧ (w.starts k).ctl = false
  stops : ∀ j, w.stops j = .idle
  locks : w.locks = .free
  path : ∀ i, w.path = some i → i < w.fresh
  sent : w.sent = []

/-- A host on which no daemon has ever run. -/
def World.clean : World where
  path := none
  fresh := 0
  content _ := []
  locks := .free
  sockPath := none
  starts _ := ⟨.idle, ⟨1, by decide⟩, 0, false, .none⟩
  stops _ := .idle
  sent := []

theorem World.clean_initial : World.clean.Initial :=
  ⟨fun _ => ⟨rfl, rfl, rfl⟩, fun _ => rfl, rfl, fun _ h => (nomatch h), rfl⟩

end VoidGate
