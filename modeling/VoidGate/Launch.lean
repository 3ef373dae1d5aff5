import VoidGate.InterfaceOwner
import VoidGate.StopSignal

/-!
# The readiness of a daemon

`voidgate -d` forks, and the parent waits at a pipe for the pid of its child. The child
writes it when it has written the pid file, just before its main loop; a child that dies
closes the pipe without a word. Where name and lock of the pid file stay together, what
the parent tells its caller is true under every interleaving with other starts, with
stops, crashes and interrupted reads.
-/

namespace VoidGate

open LockFiles Runs

/-- The pipe of one start: the daemon has not written yet, has written its pid, or could not. It closes
its end after the attempt. -/
inductive ReadyPipe where
  | silent
  | told (pid : Pid)
  | failed
  deriving DecidableEq

/-- The host with the pipes of the starts. `verdict` is how the parent of a daemon has ended after its
read: with the pid it has read and status 0, or in `vg_die`. -/
structure Launch where
  host : Host
  pipe : ℕ → ReadyPipe
  verdict : ℕ → Option (Option Pid)

inductive LaunchEvent where
  | host (e : HostEvent)
  | report (k : ℕ) (ok : Bool)
  | readReady (k : ℕ) (interrupted : Bool)

namespace Launch
variable (conf : ℕ → XdpConf) (l : Launch)

def start (k : ℕ) : Start := l.host.world.starts k

def reported (k : ℕ) : Bool := (l.start k).parent == .none || l.pipe k != .silent

/-- A daemon leaves its main loop, and takes off its program, only after the attempt. -/
def fits : HostEvent → Bool
  | .call (.start k .closeSock) => l.reported k
  | .bpfXdpDetach k _ => (l.start k).stage != .running || l.reported k
  | _ => true

def waiting (k : ℕ) : Bool :=
  match (l.start k).parent with
  | .waiting _ => true
  | _ => false

/-- The end of the parent of daemon `k`. -/
def parentEnds (k : ℕ) (v : Option Pid) : Launch :=
  { l with
    host := { l.host with world := l.host.world.step (.parentExit k) }
    verdict := Function.update l.verdict k (some v) }

/-- What the parent's `read` returns: nothing as long as the daemon has its end of an empty pipe. -/
def readReady (k : ℕ) : Launch :=
  match l.pipe k with
  | .told pid => l.parentEnds k (some pid)
  | .failed => l.parentEnds k none
  | .silent => if (l.start k).stage = .gone then l.parentEnds k none else l

def step : LaunchEvent → Launch
  | .host e => if l.fits e then { l with host := l.host.step conf e } else l
  | .report k ok =>
    if (l.start k).stage = .running ∧ l.reported k = false then
      -- without a reader the write fails, since SIGPIPE is ignored
      let r := if ok && l.waiting k then .told (l.start k).pid else .failed
      { l with pipe := Function.update l.pipe k r }
    else l
  | .readReady k interrupted => if l.waiting k && !interrupted then l.readReady k else l

/-- Name and lock of the pid file are kept together. -/
def Orderly : LaunchEvent → Prop
  | .host e => l.host.Orderly e
  | _ => True

/-- Before the first start. -/
structure Initial : Prop where
  host : l.host.Initial conf
  pipe : ∀ k, l.pipe k = .silent
  verdict : ∀ k, l.verdict k = none

/-- Daemon `k` is in its main loop. A failed report makes it leave at once. -/
def Serves (k : ℕ) : Prop :=
  (l.start k).stage = .running ∧ ((l.start k).parent = .none ∨ ∃ pid, l.pipe k = .told pid)

end Launch

structure Start.Onward (p p' : Start) : Prop where
  settled : p.stage.settled = true → p'.stage.settled = true ∧ p'.pid = p.pid
  gone : p.stage = .gone → p'.stage = .gone
  parent : p.parent ≠ .none → p'.parent ≠ .none

section
variable {w : World} {k : ℕ}

theorem Start.Onward.refl (p : Start) : p.Onward p := ⟨fun h => ⟨h, rfl⟩, id, id⟩

private theorem onward_setStart (w₁ : World) {s s' : Stage} (hp : (w.starts k).stage = s) (hs : s ≠ .gone)
    (hsettled : s.settled = true → s'.settled = true) (ctl : Bool) :
    (w.starts k).Onward ((w₁.setStart k { w.starts k with stage := s', ctl := ctl }).starts k) := by
  rw [World.setStart_self]
  exact ⟨fun h => ⟨hsettled (hp ▸ h), rfl⟩, fun h => absurd (hp.symm.trans h) hs, id⟩

private theorem startStep_onward {call : Call} {w' : World} (h : StartStep w k call w') :
    (w.starts k).Onward (w'.starts k) := by
  cases h with
  | stay => exact .refl _
  | openNamed hstage => constructor <;> simp [hstage, Stage.settled, Stage.written]
  | openNew hstage => constructor <;> simp [hstage, Stage.settled, Stage.written]
  | fork hstage => constructor <;> simp [hstage, Stage.settled, Stage.written]
  | acquire hstage => exact onward_setStart _ hstage (by decide) (by decide) _
  | enter hstage => exact onward_setStart _ hstage (by decide) (by decide) _
  | next hstage hnext sock ctl =>
    refine onward_setStart _ hstage ?_ ?_ ctl <;> cases hnext <;> decide
  | truncate hstage => exact onward_setStart _ hstage (by decide) (by decide) _
  | pwrite hstage => exact onward_setStart _ hstage (by decide) (fun h => by cases h) _
  | remove hstage hremoves =>
    refine onward_setStart _ hstage ?_ ?_ _ <;> cases hremoves <;> decide
  | close hstage => exact onward_setStart _ hstage (by decide) (by decide) _

@[simp] theorem World.setStart_of_ne (w : World) {k' : ℕ} (hk : k' ≠ k) (p : Start) :
    (w.setStart k p).starts k' = w.starts k' := Function.update_of_ne hk _ _

private theorem crash_onward (k' : ℕ) : (w.starts k').Onward ((w.crash k).starts k') := by
  by_cases hk : k' = k
  · subst hk
    rw [World.crash, World.setStart_self]
    exact ⟨fun _ => ⟨rfl, rfl⟩, fun _ => rfl, id⟩
  · rw [World.crash, World.setStart_of_ne _ hk, World.dropLock_starts]
    exact .refl _

theorem parentExit_onward (k' : ℕ) : (w.starts k').Onward ((w.parentExit k).starts k') := by
  have hset : ∀ w₁ : World, w₁.starts = w.starts → (w.starts k').Onward
      ((w₁.setStart k { w.starts k with parent := .exited }).starts k') := by
    intro w₁ hw
    by_cases hk : k' = k
    · subst hk
      rw [World.setStart_self]
      exact ⟨fun h => ⟨h, rfl⟩, id, by simp⟩
    · rw [World.setStart_of_ne _ hk, hw]
      exact .refl _
  unfold World.parentExit
  dsimp only
  split
  · split_ifs
    · exact hset _ (World.dropLock_starts _)
    · exact hset w rfl
  · exact .refl _

private theorem step_onward (w : World) (e : Event) (k : ℕ) : (w.starts k).Onward ((w.step e).starts k) := by
  cases e with
  | start k' call =>
    by_cases hk : k = k'
    · subst hk
      exact startStep_onward (startCall_step w k call)
    · rw [World.step, (startCall_step w k' call).starts hk]
      exact .refl _
  | crash k' => exact crash_onward k
  | parentExit k' => exact parentExit_onward k
  | stop j call =>
    rw [World.step, (stopCall_frame w j call).1]
    exact .refl _
  | stopCrash j =>
    rw [World.step, (stopCrash_frame w j).1]
    exact .refl _

private theorem hostStep_onward (conf : ℕ → XdpConf) (h : Host) (e : HostEvent) (k : ℕ) :
    (h.world.starts k).Onward ((h.step conf e).world.starts k) := by
  cases e with
  | call e =>
    rw [Host.step]
    split_ifs
    · exact step_onward h.world e k
    · exact .refl _
  | bpfXdpAttach k' ok =>
    rw [Host.step, Host.bpfXdpAttach]
    split
    · split_ifs <;> exact .refl _
    · exact .refl _
  | bpfXdpDetach k' ok =>
    rw [Host.step, Host.bpfXdpDetach]
    split_ifs
    · split <;> exact .refl _
    · exact .refl _

end

structure Told (p : Start) (pipe : ReadyPipe) (v : Option (Option Pid)) : Prop where
  pid : ∀ pid, pipe = .told pid → p.pid = pid ∧ p.stage.settled = true
  forked : pipe ≠ .silent → p.parent ≠ .none
  good : ∀ pid, v = some (some pid) → pipe = .told pid
  bad : v = some none → pipe = .failed ∨ p.stage = .gone

namespace Told
variable {p p' : Start} {pipe : ReadyPipe} {v : Option (Option Pid)}

theorem onward (h : Told p pipe v) (hp : p.Onward p') : Told p' pipe v where
  pid pid hpipe := by
    obtain ⟨hpid, hsettled⟩ := h.pid pid hpipe
    obtain ⟨hsettled', hpid'⟩ := hp.settled hsettled
    exact ⟨hpid'.trans hpid, hsettled'⟩
  forked hpipe := hp.parent (h.forked hpipe)
  good := h.good
  bad hv := (h.bad hv).imp_right hp.gone

theorem report (h : Told p .silent v) (hrun : p.stage = .running) (hparent : p.parent ≠ .none)
    {r : ReadyPipe} (hr : r = .told p.pid ∨ r = .failed) : Told p r v where
  pid pid hpipe := by
    rcases hr with rfl | rfl <;> cases hpipe
    exact ⟨rfl, by rw [hrun]; rfl⟩
  forked _ := hparent
  good pid hv := by cases h.good pid hv
  bad hv := by
    rcases h.bad hv with hpipe | hgone
    · cases hpipe
    · cases hrun.symm.trans hgone

theorem verdict (h : Told p pipe v) {pid : Option Pid}
    (hread : ∀ n, pid = some n → pipe = .told n)
    (hend : pid = none → pipe = .failed ∨ p.stage = .gone) : Told p pipe (some pid) where
  pid := h.pid
  forked := h.forked
  good n hn := hread n (Option.some.inj hn)
  bad hn := hend (Option.some.inj hn)

end Told

def Launch.Truth (l : Launch) : Prop := ∀ k, Told (l.start k) (l.pipe k) (l.verdict k)

section Truth
variable {conf : ℕ → XdpConf} {l : Launch}

theorem Launch.Truth.parentEnds (h : l.Truth) {k : ℕ} {pid : Option Pid}
    (hread : ∀ n, pid = some n → l.pipe k = .told n)
    (hend : pid = none → l.pipe k = .failed ∨ (l.start k).stage = .gone) :
    (l.parentEnds k pid).Truth := by
  intro k'
  have honward : (l.start k').Onward ((l.parentEnds k pid).start k') := parentExit_onward k'
  by_cases hk : k' = k
  · subst hk
    have hverdict : (l.parentEnds k' pid).verdict k' = some pid := Function.update_self _ _ _
    rw [hverdict]
    exact ((h k').verdict hread hend).onward honward
  · have hverdict : (l.parentEnds k pid).verdict k' = l.verdict k' := Function.update_of_ne hk _ _
    rw [hverdict]
    exact (h k').onward honward

theorem Launch.Truth.report (h : l.Truth) {k : ℕ} (hrun : (l.start k).stage = .running)
    (hsilent : l.reported k = false) {r : ReadyPipe} (hr : r = .told (l.start k).pid ∨ r = .failed) :
    Launch.Truth { l with pipe := Function.update l.pipe k r } := by
  obtain ⟨hparent, hpipe⟩ : (l.start k).parent ≠ .none ∧ l.pipe k = .silent := by
    simpa [Launch.reported] using hsilent
  intro k'
  dsimp only
  by_cases hk : k' = k
  · subst hk
    rw [Function.update_self]
    exact (hpipe ▸ h k').report hrun hparent hr
  · rw [Function.update_of_ne hk]
    exact h k'

theorem Launch.Truth.step (h : l.Truth) (e : LaunchEvent) : (l.step conf e).Truth := by
  cases e with
  | host e =>
    rw [Launch.step]
    split_ifs
    · exact fun k => (h k).onward (hostStep_onward conf l.host e k)
    · exact h
  | report k ok =>
    rw [Launch.step]
    split_ifs with hrun hok
    · exact h.report hrun.1 hrun.2 (.inl rfl)
    · exact h.report hrun.1 hrun.2 (.inr rfl)
    · exact h
  | readReady k interrupted =>
    rw [Launch.step]
    split_ifs
    · rw [Launch.readReady]
      split
      · rename_i pid hpipe
        exact h.parentEnds (by simp [hpipe]) (by simp)
      · rename_i hpipe
        exact h.parentEnds (by simp) fun _ => .inl hpipe
      · split_ifs with hgone
        · exact h.parentEnds (by simp) fun _ => .inr hgone
        · exact h
    · exact h

private theorem Launch.pipe_readReady (l : Launch) (k : ℕ) : (l.readReady k).pipe = l.pipe := by
  rw [Launch.readReady]
  split
  · rfl
  · rfl
  · split_ifs <;> rfl

private theorem Launch.serves_of_told {e : LaunchEvent} {k : ℕ} {pid : Pid} (hbefore : l.pipe k ≠ .told pid)
    (hafter : (l.step conf e).pipe k = .told pid) :
    (l.step conf e).Serves k ∧ ((l.step conf e).start k).pid = pid := by
  cases e with
  | host e =>
    rw [Launch.step] at hafter
    split_ifs at hafter <;> exact absurd hafter hbefore
  | readReady k' interrupted =>
    rw [Launch.step] at hafter
    split_ifs at hafter
    · rw [Launch.pipe_readReady] at hafter
      exact absurd hafter hbefore
    · exact absurd hafter hbefore
  | report k' ok =>
    have hserves : ∀ l', l' = l.step conf (.report k' ok) → l'.Serves k ∧ (l'.start k).pid = pid := by
      rintro l' hl
      rw [← hl] at hafter
      rw [Launch.step] at hl
      split_ifs at hl with hrun hok
      · subst hl
        by_cases hk : k = k'
        · subst hk
          have hpid : (l.start k).pid = pid := by simpa using hafter
          exact ⟨⟨hrun.1, .inr ⟨pid, hafter⟩⟩, hpid⟩
        · exact absurd ((Function.update_of_ne hk _ _).symm.trans hafter) hbefore
      · subst hl
        by_cases hk : k = k'
        · subst hk
          simp at hafter
        · exact absurd ((Function.update_of_ne hk _ _).symm.trans hafter) hbefore
      · exact absurd (hl ▸ hafter) hbefore
    exact hserves _ rfl

private theorem Launch.owned_step (ho : Owned conf l.host) {e : LaunchEvent} (he : l.Orderly e) :
    Owned conf (l.step conf e).host := by
  have hexit : ∀ k v, Owned conf (l.parentEnds k v).host := fun k v => ho.call trivial rfl
  cases e with
  | host e =>
    rw [Launch.step]
    split_ifs
    · exact ho.step he
    · exact ho
  | report k ok =>
    rw [Launch.step]
    split_ifs <;> exact ho
  | readReady k interrupted =>
    rw [Launch.step]
    split_ifs
    · rw [Launch.readReady]
      split
      · exact hexit _ _
      · exact hexit _ _
      · split_ifs
        · exact hexit _ _
        · exact ho
    · exact ho

private theorem Owned.at_work {h : Host} (ho : Owned conf h) {k : ℕ}
    (hsettled : (h.world.starts k).stage.settled = true) : (h.world.starts k).stage = .gone ∨
      (h.xdp k).isDetached = true ∨
      (h.world.starts k).stage = .running ∧ (∃ f, h.nic (conf k).ifindex = some (some k, f)) ∧
        h.world.locks.exclusive (h.world.starts k).inode = some k ∧
        ∀ k', (h.world.starts k').stage.serving = true → k' = k := by
  have hfits := ho.fits k
  cases hs : (h.world.starts k).stage with
  | gone => exact .inl rfl
  | running =>
    have hserving : (h.world.starts k).stage.serving = true := by rw [hs]; rfl
    rw [hs] at hfits
    rcases hfits with hattached | hdetached
    · obtain ⟨f, hf⟩ := AttachState.isAttached_iff.mp hattached
      have hfile : (h.world.view.phase k).file = some (h.world.starts k).inode := by
        simp [World.view, Start.phase, hs, Phase.file]
      exact .inr (.inr ⟨rfl, ⟨f, ho.program k f hserving hf⟩, ho.exclusive.held k _ hfile,
        fun k' hk' => ho.serving_unique hk' hserving⟩)
    · exact .inr (.inl hdetached)
  | sockClosed => exact .inr (.inl (by rwa [hs] at hfits))
  | sockRemoved => exact .inr (.inl (by rwa [hs] at hfits))
  | unlinked => exact .inr (.inl (by rwa [hs] at hfits))
  | _ => simp [hs, Stage.settled, Stage.written] at hsettled

end Truth

def leftoverLaunch : Launch := ⟨leftoverHost, fun _ => .silent, fun _ => none⟩

/-- The first start with `-d` after a crash, from the fork on. Its parent is interrupted once. -/
def forkEvents : List LaunchEvent :=
  [.host (.call (.start 0 (.fork secondPid))), .host (.bpfXdpAttach 0 true),
    .host (.bpfXdpAttach 0 true)] ++ (serveCalls 0).map (.host ∘ .call) ++
    [.readReady 0 true, .report 0 true, .readReady 0 false]

def forkRun : Launch :=
  forkEvents.foldl (Launch.step autoConf)
    (((startUpCalls 0 firstPid).map (LaunchEvent.host ∘ .call)).foldl (Launch.step autoConf)
      leftoverLaunch)

private theorem forkRun_orderly :
    Reaches (Launch.step autoConf) Launch.Orderly leftoverLaunch forkRun := by
  have hstart : Reaches (Launch.step autoConf) Launch.Orderly leftoverLaunch leftoverLaunch := .start
  have hlocked := (hstart.next (.host (.call (.start 0 (.openFile firstPid)))) trivial).next
    (.host (.call (.start 0 .flock))) fun _ => rfl
  have hchecked := hlocked.next (.host (.call (.start 0 (.connect false)))) fun _ =>
    firstLocked_leaving
  exact hchecked.foldl forkEvents
    (by simp [forkEvents, serveCalls, Launch.Orderly, Host.Orderly, VoidGate.Orderly])

end VoidGate
