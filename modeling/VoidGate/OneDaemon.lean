import VoidGate.DaemonProcesses
import VoidGate.Runs

/-!
# One daemon at a time

The pid file is a lock file: a start may go on once it has the lock of the file behind
the name and nobody answers on the control socket. The lock belongs to the file, and a
daemon that ends, a start that is refused and `-s stop` all remove the name. Exclusion
holds in the runs that keep name and lock together, and in a run that does not, two
daemons are at work.
-/

namespace VoidGate

open LockFiles Runs

/-- Past `pid_lock` and the control-socket check, and not yet past the final unlink and close. -/
def Stage.serving : Stage → Bool
  | .checked | .sockCleared | .bound | .ready | .truncated | .writeFailed | .writeCleared => true
  | .running | .sockClosed | .sockRemoved | .unlinked => true
  | _ => false

def Stage.leaving (s : Stage) : Bool := s == .writeCleared || s == .unlinked

/-- What a start has to do with the lock file. -/
def Start.phase (p : Start) : Phase ℕ :=
  match p.stage with
  | .idle | .opened | .gone => .out
  | .locked | .refusing => .keeps p.inode false
  | .refused => .leaves p.inode false
  | .writeCleared | .unlinked => .leaves p.inode true
  | _ => .keeps p.inode true

/-- The pid file as a lock file. -/
def World.view (w : World) : LockFile ℕ ℕ :=
  ⟨w.path, w.locks.exclusive, fun k => (w.starts k).phase⟩

theorem Start.inside_of_serving {p : Start} (h : p.stage.serving = true) : p.phase.Inside := by
  cases hs : p.stage <;> simp_all [Start.phase, Phase.Inside, Stage.serving]

private theorem Start.leaving_of_phase {p : Start} (h : p.phase.Leaving) : p.stage.leaving = true := by
  cases hs : p.stage <;> simp_all [Start.phase, Phase.Leaving, Stage.leaving]

/-- The events that keep name and lock together: a start locks the file that the name refers to,
the name of a locked file is removed by the owner of the lock only, and no start gets past the
socket check while a process that has removed the name has not ended. -/
def Orderly (w : World) : Event → Prop
  | .start k .flock => (w.locks.tryExclusive (w.starts k).inode k).isSome →
    w.path = some (w.starts k).inode
  | .start _ (.connect noSocket) => noSocket = true ∨ w.answers = false →
    ∀ k', (w.starts k').stage.leaving = false
  | .start k .unlinkPid =>
    ∀ i, w.path = some i → w.locks.exclusive i = none ∨ w.locks.exclusive i = some k
  | .stop _ .unlink => ∀ i, w.path = some i → w.locks.exclusive i = none
  | _ => True

section
variable {w : World} {k : ℕ}

theorem view_setStart (w : World) (k : ℕ) (p : Start) :
    (w.setStart k p).view = { w.view with phase := Function.update w.view.phase k p.phase } := by
  simp only [World.view, World.setStart, LockFile.mk.injEq, true_and]
  funext k'
  exact Function.apply_update (fun _ => Start.phase) w.starts k p k'

theorem view_setStart_same {p : Start} (h : p.phase = (w.starts k).phase) :
    (w.setStart k p).view = w.view := by
  rw [view_setStart, h]
  exact congrArg (LockFile.mk _ _) (Function.update_eq_self k w.view.phase)

theorem step_leave {p p' : Start} (hout : p'.phase = .out) :
    Step w.view (.leave k) ((w.dropLock k p).setStart k p').view := by
  rw [view_setStart, hout]
  rcases w.dropLock_cases p with h | h <;> rw [h]
  · exact ⟨rfl, rfl, fun i => .inl rfl⟩
  · exact ⟨rfl, rfl, fun i => (w.locks.releaseExclusive_cases p.inode k i).imp_right And.left⟩

theorem phase_eq {p : Start} {s : Stage} (h : p.stage = s) : p.phase = { p with stage := s }.phase := by
  rw [← h]

private theorem phase_of_removes {p : Start} {s s' : Stage} (hp : p.stage = s) (h : s.Removes s') :
    ∃ b, p.phase = .keeps p.inode b ∧ { p with stage := s' }.phase = .leaves p.inode b := by
  cases h with
  | refused => exact ⟨false, phase_eq hp, rfl⟩
  | failed => exact ⟨true, phase_eq hp, rfl⟩
  | done => exact ⟨true, phase_eq hp, rfl⟩

private theorem startStep_view {w' : World} {call : Call} (h : StartStep w k call w') : w'.view = w.view ∨
    ∃ a, Step w.view a w'.view ∧ (Orderly w (.start k call) → Permitted w.view a) := by
  cases h with
  | stay => exact .inl rfl
  | openNamed hstage hpath => exact .inl (view_setStart_same (phase_eq hstage).symm)
  | openNew hstage hpath =>
    exact .inr ⟨.create w.fresh, ⟨hpath, view_setStart_same (phase_eq hstage).symm⟩,
      fun _ => trivial⟩
  | acquire hstage ht =>
    obtain ⟨hfree, ht'⟩ := LockTable.tryExclusive_some ht
    refine .inr ⟨.acquire k (w.starts k).inode, ⟨phase_eq hstage, hfree, ?_⟩, fun ho => ?_⟩
    · rw [view_setStart]
      simp only [World.view, ht']
      rfl
    · exact ho (by rw [ht]; rfl)
  | enter hstage hpass =>
    refine .inr ⟨.enter k (w.starts k).inode, ⟨phase_eq hstage, view_setStart _ _ _⟩, fun ho => ?_⟩
    intro k' hk'
    have hnone := ho hpass k'
    rw [Start.leaving_of_phase hk'] at hnone
    cases hnone
  | fork hstage => exact .inl (view_setStart_same rfl)
  | next hstage hnext sock ctl =>
    refine .inl (view_setStart_same ?_)
    cases hnext <;> exact (phase_eq hstage).symm
  | truncate hstage => exact .inl (view_setStart_same (phase_eq hstage).symm)
  | pwrite hstage =>
    refine .inl (view_setStart_same ?_)
    split_ifs <;> exact (phase_eq hstage).symm
  | remove hstage hremoves =>
    obtain ⟨b, hkeeps, hleaves⟩ := phase_of_removes hstage hremoves
    refine .inr ⟨.remove k (w.starts k).inode b, ⟨hkeeps, ?_⟩, fun ho => ho⟩
    rw [view_setStart, hleaves]
    rfl
  | close hstage => exact .inr ⟨.leave k, step_leave rfl, fun _ => trivial⟩

private theorem parentExit_view : (w.parentExit k).view = w.view ∨
    Step w.view (.leave k) (w.parentExit k).view := by
  unfold World.parentExit
  dsimp only
  split
  · split_ifs with hgone
    · exact .inr (step_leave (phase_eq hgone))
    · exact .inl (view_setStart_same rfl)
  · exact .inl rfl

private theorem stopCall_view (j : ℕ) (call : StopCall) : (w.stopCall j call).view = w.view ∨
    call = .unlink ∧ Step w.view .unlink (w.stopCall j call).view := by
  unfold World.stopCall
  split
  · split <;> exact .inl rfl
  · exact .inl rfl
  · split
    · rename_i t ht
      exact .inl (congrArg (LockFile.mk w.path · w.view.phase) (LockTable.tryShared_some ht).2)
    · exact .inl rfl
  · exact .inl rfl
  · exact .inr ⟨rfl, rfl⟩
  · exact .inl rfl
  · split_ifs
    · exact .inl rfl
    · dsimp only
      split <;> exact .inl rfl
  · exact .inl rfl
  · exact .inl rfl
  · exact .inl rfl
  · exact .inl rfl
  · exact .inr ⟨rfl, rfl⟩
  · exact .inl rfl

/-- An event does nothing to the lock file, or it is an action of the protocol, and an orderly
event is an action that the protocol permits. -/
theorem step_view (e : Event) : (w.step e).view = w.view ∨
    ∃ a, Step w.view a (w.step e).view ∧ (Orderly w e → Permitted w.view a) := by
  cases e with
  | start k call => exact startStep_view (startCall_step w k call)
  | crash k => exact .inr ⟨.leave k, step_leave rfl, fun _ => trivial⟩
  | parentExit k => exact parentExit_view.imp_right fun h => ⟨.leave k, h, fun _ => trivial⟩
  | stop j call =>
    rcases stopCall_view j call with h | ⟨rfl, h⟩
    · exact .inl h
    · exact .inr ⟨.unlink, h, fun ho => ho⟩
  | stopCrash j =>
    refine .inl ?_
    simp only [World.step, World.stopCrash]
    split <;> rfl

theorem World.Initial.phase (h : w.Initial) (k : ℕ) : (w.starts k).phase = .out :=
  phase_eq (h.starts k).1

theorem World.Initial.exclusive (h : w.Initial) : Exclusive w.view := by
  refine ⟨?_, ?_, ?_⟩
  · intro k i hfile
    rw [show w.view.phase k = .out from h.phase k] at hfile
    cases hfile
  · intro k i b hkeeps
    cases (h.phase k).symm.trans hkeeps
  · intro k k' hleaving _
    rw [show w.view.phase k = .out from h.phase k] at hleaving
    exact hleaving.elim

end

/-- In every run of starts, stops, ends and crashes that keeps name and lock together, at most one
process serves. -/
theorem one_daemon {w₀ w : World} (h₀ : w₀.Initial) (h : Reaches World.step Orderly w₀ w) :
    ∀ k k', (w.starts k).stage.serving = true → (w.starts k').stage.serving = true → k = k' := by
  intro k k' hk hk'
  have hex : Exclusive w.view := by
    refine h.invariant (I := fun w => Exclusive w.view) h₀.exclusive ?_
    intro w e hw ho
    rcases step_view (w := w) e with heq | ⟨a, hstep, hperm⟩
    · rwa [heq]
    · exact hw.step hstep (hperm ho)
  exact hex.inside_unique (Start.inside_of_serving hk) (Start.inside_of_serving hk')

/-- The pid of the first daemon. -/
def firstPid : Pid := ⟨100, by decide⟩

def secondPid : Pid := ⟨firstPid.val + 1, by decide⟩

/-- The system calls of a start up to the socket check. -/
def startUpCalls (k : ℕ) (pid : Pid) : List Event :=
  [.start k (.openFile pid), .start k .flock, .start k (.connect false)]

/-- From the socket check to the main loop. -/
def serveCalls (k : ℕ) : List Event :=
  [.start k .unlinkSock, .start k (.bind true), .start k (.listen true),
    .start k (.ftruncate true), .start k (.pwrite 32)]

def firstStart : World := (startUpCalls 0 firstPid).foldl World.step World.clean

/-- Nobody is about to end when the first start has its lock. -/
theorem firstLocked_leaving (k : ℕ) :
    ((((World.clean.step (.start 0 (.openFile firstPid))).step (.start 0 .flock)).starts k).stage.leaving) =
      false := by
  by_cases hk : k = 0
  · subst hk
    rfl
  · simp only [World.step]
    rw [(startCall_step _ _ _).starts hk, (startCall_step _ _ _).starts hk]
    rfl

private theorem firstStart_orderly : Reaches World.step Orderly World.clean firstStart := by
  have hstart : Reaches World.step Orderly World.clean World.clean := .start
  have hlocked := (hstart.next (.start 0 (.openFile firstPid)) trivial).next
    (.start 0 .flock) fun _ => rfl
  exact hlocked.next (.start 0 (.connect false)) fun _ => firstLocked_leaving

/-- It goes on to its main loop, and another start opens the pid file. -/
def secondOpens : World :=
  (serveCalls 0 ++ [Event.start 1 (.openFile secondPid)]).foldl World.step firstStart

/-- The other start finds the file locked and ends. -/
theorem one_daemon_secondRefused :
    Reaches World.step Orderly World.clean (secondOpens.step (.start 1 .flock)) ∧
      ((secondOpens.step (.start 1 .flock)).starts 0).stage = .running ∧
      ((secondOpens.step (.start 1 .flock)).starts 1).stage = .gone ∧
      ∀ k, ((secondOpens.step (.start 1 .flock)).starts k).stage.serving = true → 0 = k := by
  have hopens : Reaches World.step Orderly World.clean secondOpens :=
    firstStart_orderly.foldl _ (by simp [serveCalls, Orderly])
  have hrun := hopens.next (.start 1 .flock) fun hfree => by
    revert hfree
    decide +kernel
  have hrunning : ((secondOpens.step (.start 1 .flock)).starts 0).stage = .running := by
    decide +kernel
  refine ⟨hrun, hrunning, by decide +kernel, fun k hk => ?_⟩
  exact one_daemon World.clean_initial hrun 0 k (by rw [hrunning]; rfl) hk

/-- Daemon 0 ends while start 1 has the pid file open and not yet locked. Start 1 locks the removed
file, and start 2 makes a new one. -/
def twoDaemonsRun : List Event :=
  startUpCalls 0 firstPid ++ serveCalls 0 ++
    [.start 1 (.openFile ⟨101, by decide⟩), .start 0 .closeSock, .start 0 .unlinkSock,
      .start 0 .unlinkPid, .start 0 .closePid, .start 1 .flock, .start 1 (.connect false)] ++
    startUpCalls 2 ⟨102, by decide⟩ ++ serveCalls 1 ++ serveCalls 2

theorem two_daemons : ∃ w, Reaches World.step (fun _ _ => True) World.clean w ∧
    (w.starts 1).stage = .running ∧ (w.starts 2).stage = .running :=
  ⟨_, Reaches.start.foldl twoDaemonsRun fun _ _ _ => trivial, by decide +kernel, by decide +kernel⟩

end VoidGate
