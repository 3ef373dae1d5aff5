import VoidGate.OneDaemon

/-!
# The interface and the socket belong to the daemon

An XDP program stays on its interface when the process that attached it dies, attaching
replaces what is there, and detaching takes off whatever is there in the same mode. The
socket's name is removed and made again in the same way. The host adds the interfaces to
the world of processes; where name and lock of the pid file are kept together, nobody
takes the interface or the socket away from the daemon that serves.
-/

namespace VoidGate

open LockFiles Runs

/-- `XDP_FLAGS_SKB_MODE` and `XDP_FLAGS_DRV_MODE`. -/
inductive XdpFlags where
  | skb
  | drv
  deriving DecidableEq

/-- What `vg_xdp_attach` reads of the configuration of a start. -/
structure XdpConf where
  ifindex : ℕ
  xdpMode : List UInt8

/-- The modes that `vg_xdp_attach` tries. -/
def XdpConf.tries (conf : XdpConf) : List XdpFlags :=
  if conf.xdpMode = bytes "skb" then [.skb]
  else if conf.xdpMode = bytes "native" then [.drv]
  else [.drv, .skb]

/-- Where a start is with its program: it has the modes yet to try, its program is attached, or it
has called `bpf_xdp_detach`. -/
inductive AttachState where
  | trying (tries : List XdpFlags)
  | attached (flags : XdpFlags)
  | detached (ok : Bool)
  deriving DecidableEq

def AttachState.isAttached : AttachState → Bool
  | .attached _ => true
  | _ => false

def AttachState.isDetached : AttachState → Bool
  | .detached _ => true
  | _ => false

@[simp] theorem AttachState.isAttached_iff {x : AttachState} : x.isAttached = true ↔ ∃ f, x = .attached f := by
  cases x <;> simp [isAttached]

/-- `nic` holds the program on an interface: its owner, if it is a start of this run, and its
mode. -/
structure Host where
  world : World
  xdp : ℕ → AttachState
  nic : ℕ → Option (Option ℕ × XdpFlags)

inductive HostEvent where
  | call (e : Event)
  | bpfXdpAttach (k : ℕ) (ok : Bool)
  | bpfXdpDetach (k : ℕ) (ok : Bool)

namespace Host
variable (conf : ℕ → XdpConf) (h : Host)

/-- The place of the socket calls of `main` among those for the interface: the daemon forks before
`vg_xdp_attach`, listens after it, and closes its socket after `vg_maps_close`. -/
def reached : Event → Bool
  | .start k (.fork _) => h.xdp k == .trying (conf k).tries
  | .start k .unlinkSock => (h.world.starts k).stage != .checked || (h.xdp k).isAttached
  | .start k .closeSock => (h.xdp k).isDetached
  | _ => true

/-- Two programs on an interface have to be in one mode. -/
def accepts (i : ℕ) (f : XdpFlags) : Bool :=
  match h.nic i with
  | none => true
  | some (_, g) => g == f

def bpfXdpAttach (k : ℕ) (ok : Bool) : Host :=
  match (h.world.starts k).stage, h.xdp k with
  | .checked, .trying (f :: rest) =>
    if ok && h.accepts (conf k).ifindex f then
      { h with
        xdp := Function.update h.xdp k (.attached f)
        nic := Function.update h.nic (conf k).ifindex (some (some k, f)) }
    else { h with xdp := Function.update h.xdp k (.trying rest) }
  | _, _ => h

/-- In `vg_maps_close`: at the end of `main`, and when `vg_ctrl_init` fails. -/
def bpfXdpDetach (k : ℕ) (ok : Bool) : Host :=
  if (h.world.starts k).stage = .checked ∨ (h.world.starts k).stage = .running then
    match h.xdp k with
    | .attached f =>
      { h with
        xdp := Function.update h.xdp k (.detached ok)
        nic := if ok && h.accepts (conf k).ifindex f then
          Function.update h.nic (conf k).ifindex none else h.nic }
    | _ => h
  else h

def step : HostEvent → Host
  | .call e => if h.reached conf e then { h with world := h.world.step e } else h
  | .bpfXdpAttach k ok => h.bpfXdpAttach conf k ok
  | .bpfXdpDetach k ok => h.bpfXdpDetach conf k ok

/-- Name and lock of the pid file are kept together. -/
def Orderly : HostEvent → Prop
  | .call e => VoidGate.Orderly h.world e
  | _ => True

/-- Before the first start. There may be programs on the interfaces, left by daemons that crashed. -/
structure Initial : Prop where
  world : h.world.Initial
  xdp : ∀ k, h.xdp k = .trying (conf k).tries
  nic : ∀ i k f, h.nic i ≠ some (some k, f)

end Host

inductive Stage.Plain : Stage → Stage → Prop
  | openFile : Plain .idle .opened
  | lock : Plain .opened .locked
  | noLock : Plain .opened .gone
  | refuse : Plain .locked .refusing
  | refused : Plain .refusing .refused
  | enter : Plain .locked .checked
  | noSock : Plain .sockCleared .ready
  | truncate : Plain .ready .truncated
  | noTruncate : Plain .ready .writeFailed
  | write : Plain .truncated .running
  | noWrite : Plain .truncated .writeFailed
  | failed : Plain .writeFailed .writeCleared
  | remove : Plain .sockRemoved .unlinked
  | close : Plain .unlinked .gone

/-- What a call of start `k` makes of its stage, of its listening socket and of the socket's name. -/
inductive SockStep (k : ℕ) : Call → Stage → Bool → Option ℕ → Stage → Bool → Option ℕ → Prop
  | stay {call : Call} {s : Stage} {ctl : Bool} {q : Option ℕ} : SockStep k call s ctl q s ctl q
  | plain {call : Call} {s s' : Stage} {ctl : Bool} {q : Option ℕ} (hs : s.Plain s') :
      SockStep k call s ctl q s' ctl q
  | clear {ctl : Bool} {q : Option ℕ} : SockStep k .unlinkSock .checked ctl q .sockCleared ctl none
  | bind {ctl ok : Bool} : SockStep k (.bind ok) .sockCleared ctl none .bound ctl (some k)
  | listen {ctl ok : Bool} {q : Option ℕ} : SockStep k (.listen ok) .bound ctl q .ready ok q
  | closeSock {q : Option ℕ} : SockStep k .closeSock .running true q .sockClosed false q
  | noCtl {q : Option ℕ} : SockStep k .closeSock .running false q .sockRemoved false q
  | removeSock {ctl : Bool} {q : Option ℕ} :
      SockStep k .unlinkSock .sockClosed ctl q .sockRemoved ctl none

@[simp] theorem dropLock_sockPath (w : World) (k : ℕ) (p : Start) :
    (w.dropLock k p).sockPath = w.sockPath := by
  rcases w.dropLock_cases p with hw | hw <;> rw [hw]

private theorem startCall_sockStep (w : World) (k : ℕ) (call : Call) :
    SockStep k call (w.starts k).stage (w.starts k).ctl w.sockPath
      ((w.startCall k call).starts k).stage ((w.startCall k call).starts k).ctl
      (w.startCall k call).sockPath := by
  unfold World.startCall
  dsimp only
  split
  · rename_i hstage
    rw [hstage]
    split <;> simpa [World.setStart, World.write] using SockStep.plain .openFile
  · rename_i hstage
    rw [hstage]
    split
    · simpa [World.setStart] using SockStep.plain .lock
    · simpa [World.setStart] using SockStep.plain .noLock
  · rename_i hstage
    rw [hstage]
    split_ifs
    · simpa [World.setStart] using SockStep.plain .refuse
    · simpa [World.setStart] using SockStep.plain .enter
  · rename_i hstage
    rw [hstage]
    simpa [World.setStart] using SockStep.plain .refused
  · rename_i hstage
    split_ifs
    · simpa [World.setStart] using SockStep.stay
    · exact .stay
  · rename_i hstage
    rw [hstage]
    simpa [World.setStart] using SockStep.clear
  · rename_i ok hstage
    rw [hstage]
    split_ifs with hfree
    · obtain ⟨-, hnone⟩ := Bool.and_eq_true_iff.mp hfree
      rw [Option.isNone_iff_eq_none.mp hnone]
      simpa [World.setStart] using SockStep.bind
    · simpa [World.setStart] using SockStep.plain .noSock
  · rename_i ok hstage
    rw [hstage]
    simpa [World.setStart] using SockStep.listen
  · rename_i hstage
    rw [hstage]
    split_ifs
    · simpa [World.setStart, World.write] using SockStep.plain .truncate
    · simpa [World.setStart] using SockStep.plain .noTruncate
  · rename_i hstage
    rw [hstage]
    split_ifs
    · simpa [World.setStart, World.write] using SockStep.plain .write
    · simpa [World.setStart, World.write] using SockStep.plain .noWrite
  · rename_i hstage
    rw [hstage]
    simpa [World.setStart] using SockStep.plain .failed
  · rename_i hstage
    rw [hstage]
    split_ifs with hctl
    · simpa [World.setStart, hctl] using SockStep.closeSock
    · simpa [World.setStart, hctl] using SockStep.noCtl
  · rename_i hstage
    rw [hstage]
    simpa [World.setStart] using SockStep.removeSock
  · rename_i hstage
    rw [hstage]
    simpa [World.setStart] using SockStep.plain .remove
  · rename_i hstage
    rw [hstage]
    simpa [World.setStart, dropLock_sockPath] using SockStep.plain .close
  · exact .stay

theorem stopCall_frame (w : World) (j : ℕ) (call : StopCall) :
    (w.stopCall j call).starts = w.starts ∧ (w.stopCall j call).sockPath = w.sockPath := by
  unfold World.stopCall
  split <;> try split
  all_goals first | exact ⟨rfl, rfl⟩ | skip
  · split <;> exact ⟨rfl, rfl⟩

theorem stopCrash_frame (w : World) (j : ℕ) :
    (w.stopCrash j).starts = w.starts ∧ (w.stopCrash j).sockPath = w.sockPath := by
  unfold World.stopCrash
  split <;> exact ⟨rfl, rfl⟩

private theorem parentExit_frame (w : World) (k : ℕ) : (w.parentExit k).sockPath = w.sockPath ∧
    ∀ k', ((w.parentExit k).starts k').stage = (w.starts k').stage ∧
      ((w.parentExit k).starts k').ctl = (w.starts k').ctl := by
  have hset : ∀ (w' : World) (p : Start), w'.starts = w.starts → p.stage = (w.starts k).stage →
      p.ctl = (w.starts k).ctl → ∀ k', ((w'.setStart k p).starts k').stage = (w.starts k').stage ∧
        ((w'.setStart k p).starts k').ctl = (w.starts k').ctl := by
    intro w' p hw hstage hctl k'
    by_cases hk : k' = k
    · subst hk
      simp [World.setStart, hstage, hctl]
    · simp [World.setStart, hk, hw]
  unfold World.parentExit
  dsimp only
  split
  · split_ifs
    · exact ⟨dropLock_sockPath _ _ _, hset _ _ (World.dropLock_starts _) rfl rfl⟩
    · exact ⟨rfl, hset _ _ rfl rfl rfl⟩
  · exact ⟨rfl, fun _ => ⟨rfl, rfl⟩⟩

def Stage.listening : Stage → Bool
  | .ready | .truncated | .writeFailed | .writeCleared | .running => true
  | _ => false

def Stage.Fits (tries : List XdpFlags) (x : AttachState) : Stage → Prop
  | .idle | .opened | .locked | .refusing | .refused => x = .trying tries
  | .sockCleared | .bound | .ready | .truncated | .writeFailed | .writeCleared => x.isAttached = true
  | .running => x.isAttached = true ∨ x.isDetached = true
  | .sockClosed | .sockRemoved | .unlinked => x.isDetached = true
  | .checked | .gone => True

namespace SockStep
variable {k : ℕ} {call : Call} {s s' : Stage} {ctl ctl' : Bool} {q q' : Option ℕ}

theorem serving (h : SockStep k call s ctl q s' ctl' q') (hs : s'.serving = true) :
    s.serving = true ∨ s = .locked := by
  cases h with
  | stay => exact .inl hs
  | plain hp =>
    cases hp with
    | enter => exact .inr rfl
    | openFile => cases hs
    | lock => cases hs
    | noLock => cases hs
    | refuse => cases hs
    | refused => cases hs
    | close => cases hs
    | _ => exact .inl rfl
  | _ => exact .inl rfl

theorem fits {tries : List XdpFlags} {x : AttachState} (h : SockStep k call s ctl q s' ctl' q')
    (hx : s.Fits tries x) (hclear : call = .unlinkSock → s = .checked → x.isAttached = true)
    (hclose : call = .closeSock → x.isDetached = true) : s'.Fits tries x := by
  cases h with
  | stay => exact hx
  | plain hp =>
    cases hp with
    | enter => trivial
    | noLock => trivial
    | close => trivial
    | write => exact .inl hx
    | _ => exact hx
  | clear => exact hclear rfl rfl
  | bind => exact hx
  | listen => exact hx
  | closeSock => exact hclose rfl
  | noCtl => exact hclose rfl
  | removeSock => exact hx

theorem listening (h : SockStep k call s ctl q s' ctl' q') (hl : ctl = true → s.listening = true)
    (hctl : ctl' = true) : s'.listening = true := by
  cases h with
  | stay => exact hl hctl
  | plain hp => cases hp <;> first | rfl | exact hl hctl
  | clear => exact hl hctl
  | bind => exact hl hctl
  | listen => rfl
  | closeSock => cases hctl
  | noCtl => cases hctl
  | removeSock => exact hl hctl

/-- The name is the start's own from `bind` on. -/
theorem socket (h : SockStep k call s ctl q s' ctl' q') (hl : ctl = true → s.listening = true)
    (hq : s = .bound ∨ ctl = true → q = some k) (hs : s' = .bound ∨ ctl' = true) : q' = some k := by
  cases h with
  | stay => exact hq hs
  | plain hp =>
    refine hq (.inr ?_)
    rcases hs with rfl | hctl
    · cases hp
    · exact hctl
  | bind => rfl
  | listen => exact hq (.inl rfl)
  | clear =>
    rcases hs with hs | hctl
    · cases hs
    · cases hl hctl
  | closeSock => simp at hs
  | noCtl => simp at hs
  | removeSock =>
    rcases hs with hs | hctl
    · cases hs
    · cases hl hctl

private theorem sockPath_eq (h : SockStep k call s ctl q s' ctl' q') : q' = q ∨ s.serving = true := by
  cases h with
  | clear => exact .inr rfl
  | bind => exact .inr rfl
  | removeSock => exact .inr rfl
  | _ => exact .inl rfl

end SockStep

structure Owned (conf : ℕ → XdpConf) (h : Host) : Prop where
  exclusive : Exclusive h.world.view
  fits : ∀ k, (h.world.starts k).stage.Fits (conf k).tries (h.xdp k)
  listening : ∀ k, (h.world.starts k).ctl = true → (h.world.starts k).stage.listening = true
  socket : ∀ k, (h.world.starts k).stage = .bound ∨ (h.world.starts k).ctl = true →
    h.world.sockPath = some k
  program : ∀ k f, (h.world.starts k).stage.serving = true → h.xdp k = .attached f →
    h.nic (conf k).ifindex = some (some k, f)
  left : ∀ i k f, h.nic i = some (some k, f) →
    i = (conf k).ifindex ∧ (h.xdp k = .attached f ∨ h.xdp k = .detached false)

namespace Owned
variable {conf : ℕ → XdpConf} {h : Host}

theorem serving_unique (ho : Owned conf h) {k k' : ℕ}
    (hk : (h.world.starts k).stage.serving = true)
    (hk' : (h.world.starts k').stage.serving = true) : k = k' :=
  ho.exclusive.inside_unique (Start.inside_of_serving hk) (Start.inside_of_serving hk')

private theorem serving_of_socket (ho : Owned conf h) {k : ℕ}
    (hk : (h.world.starts k).stage = .bound ∨ (h.world.starts k).ctl = true) :
    (h.world.starts k).stage.serving = true := by
  rcases hk with hk | hk
  · rw [hk]
    rfl
  · have hl := ho.listening k hk
    cases hs : (h.world.starts k).stage <;> simp_all [Stage.listening, Stage.serving]

theorem exclusive_step (ho : Owned conf h) {e : Event} (he : VoidGate.Orderly h.world e) :
    Exclusive (h.world.step e).view := by
  rcases step_view (w := h.world) e with heq | ⟨a, hstep, hperm⟩
  · rw [heq]
    exact ho.exclusive
  · exact ho.exclusive.step hstep (hperm he)

/-- A call of one start. -/
theorem start (ho : Owned conf h) {k : ℕ} {call : Call}
    (he : VoidGate.Orderly h.world (.start k call)) (hr : h.reached conf (.start k call) = true) :
    Owned conf { h with world := h.world.step (.start k call) } := by
  have hstep := startCall_sockStep h.world k call
  have hframe : ∀ k', k' ≠ k → (h.world.startCall k call).starts k' = h.world.starts k' :=
    fun k' hk => (startCall_step h.world k call).starts hk
  refine ⟨ho.exclusive_step he, fun k' => ?_, fun k' => ?_, fun k' => ?_, fun k' => ?_, ho.left⟩
  · by_cases hk : k' = k
    · subst hk
      refine hstep.fits (ho.fits k') ?_ ?_
      · rintro rfl hchecked
        simpa [Host.reached, hchecked] using hr
      · rintro rfl
        exact hr
    · simpa only [World.step, hframe k' hk] using ho.fits k'
  · by_cases hk : k' = k
    · subst hk
      exact hstep.listening (ho.listening k')
    · simpa only [World.step, hframe k' hk] using ho.listening k'
  · by_cases hk : k' = k
    · subst hk
      exact hstep.socket (ho.listening k') (ho.socket k')
    · simp only [World.step, hframe k' hk]
      intro hsock
      -- the name of another daemon's socket is touched by nobody
      rcases hstep.sockPath_eq with heq | hserving
      · rw [heq]
        exact ho.socket k' hsock
      · exact absurd (ho.serving_unique (ho.serving_of_socket hsock) hserving) hk
  · by_cases hk : k' = k
    · subst hk
      intro f hs hx
      rcases hstep.serving hs with hs | hlocked
      · exact ho.program k' f hs hx
      · have htrying := ho.fits k'
        rw [hlocked, hx] at htrying
        cases htrying
    · simpa only [World.step, hframe k' hk] using ho.program k'

/-- An event that leaves the starts where they are, or ends one of them. -/
theorem others (ho : Owned conf h) {w : World} (hex : Exclusive w.view)
    (hsock : w.sockPath = h.world.sockPath)
    (hstarts : ∀ k, ((w.starts k).stage = (h.world.starts k).stage ∧
      (w.starts k).ctl = (h.world.starts k).ctl) ∨
      ((w.starts k).stage = .gone ∧ (w.starts k).ctl = false)) : Owned conf { h with world := w } := by
  refine ⟨hex, fun k => ?_, fun k => ?_, fun k => ?_, fun k => ?_, ho.left⟩
  · rcases hstarts k with ⟨hstage, -⟩ | ⟨hstage, -⟩
    · simpa only [hstage] using ho.fits k
    · simp only [hstage]
      trivial
  · rcases hstarts k with ⟨hstage, hctl⟩ | ⟨-, hctl⟩
    · simpa only [hstage, hctl] using ho.listening k
    · simp [hctl]
  · rcases hstarts k with ⟨hstage, hctl⟩ | ⟨hstage, hctl⟩
    · simpa only [hsock, hstage, hctl] using ho.socket k
    · simp [hstage, hctl]
  · rcases hstarts k with ⟨hstage, -⟩ | ⟨hstage, -⟩
    · simpa only [hstage] using ho.program k
    · simp [hstage, Stage.serving]

theorem call (ho : Owned conf h) {e : Event} (he : VoidGate.Orderly h.world e)
    (hr : h.reached conf e = true) : Owned conf { h with world := h.world.step e } := by
  have hex := ho.exclusive_step he
  cases e with
  | start k call => exact ho.start he hr
  | crash k =>
    refine ho.others hex (dropLock_sockPath _ _ _) fun k' => ?_
    by_cases hk : k' = k
    · subst hk
      exact .inr (by simp [World.step, World.crash, World.setStart])
    · exact .inl (by simp [World.step, World.crash, World.setStart, hk])
  | parentExit k =>
    obtain ⟨hsock, hstarts⟩ := parentExit_frame h.world k
    exact ho.others hex hsock fun k' => .inl (hstarts k')
  | stop j call =>
    obtain ⟨hstarts, hsock⟩ := stopCall_frame h.world j call
    refine ho.others hex hsock fun k' => .inl ?_
    simp only [World.step, hstarts, and_self]
  | stopCrash j =>
    obtain ⟨hstarts, hsock⟩ := stopCrash_frame h.world j
    refine ho.others hex hsock fun k' => .inl ?_
    simp only [World.step, hstarts, and_self]

theorem setXdp (ho : Owned conf h) {k : ℕ} (hserving : (h.world.starts k).stage.serving = true)
    {x : AttachState} (hfits : (h.world.starts k).stage.Fits (conf k).tries x)
    {nic : ℕ → Option (Option ℕ × XdpFlags)}
    (hprogram : ∀ f, x = .attached f → nic (conf k).ifindex = some (some k, f))
    (hleft : ∀ i k' f, nic i = some (some k', f) → (k' ≠ k ∧ h.nic i = some (some k', f)) ∨
      (k' = k ∧ i = (conf k).ifindex ∧ (x = .attached f ∨ x = .detached false))) :
    Owned conf { h with xdp := Function.update h.xdp k x, nic := nic } := by
  refine ⟨ho.exclusive, fun k' => ?_, ho.listening, ho.socket, fun k' f hs => ?_, fun i k' f hnic => ?_⟩
  · dsimp only
    by_cases hk : k' = k
    · subst hk
      rw [Function.update_self]
      exact hfits
    · rw [Function.update_of_ne hk]
      exact ho.fits k'
  · obtain rfl := ho.serving_unique hserving hs
    dsimp only
    rw [Function.update_self]
    exact hprogram f
  · dsimp only
    rcases hleft i k' f hnic with ⟨hk, hnic⟩ | ⟨rfl, hx⟩
    · rw [Function.update_of_ne hk]
      exact ho.left i k' f hnic
    · rw [Function.update_self]
      exact hx

theorem bpfXdpAttach (ho : Owned conf h) (k : ℕ) (ok : Bool) :
    Owned conf (h.bpfXdpAttach conf k ok) := by
  unfold Host.bpfXdpAttach
  split
  · rename_i f rest hstage hx
    have hserving : (h.world.starts k).stage.serving = true := by
      rw [hstage]
      rfl
    have hfits : ∀ x, (h.world.starts k).stage.Fits (conf k).tries x := by
      rw [hstage]
      exact fun _ => trivial
    have hnone : ∀ i g, h.nic i ≠ some (some k, g) := by
      intro i g hnic
      simpa [hx] using (ho.left i k g hnic).2
    split_ifs with haccept
    · refine ho.setXdp hserving (hfits _) ?_ fun i k' g hnic => ?_
      · rintro g ⟨⟩
        exact Function.update_self _ _ _
      · by_cases hi : i = (conf k).ifindex
        · rw [hi, Function.update_self] at hnic
          cases hnic
          exact .inr ⟨rfl, hi, .inl rfl⟩
        · rw [Function.update_of_ne hi] at hnic
          exact .inl ⟨fun hk => hnone i g (hk ▸ hnic), hnic⟩
    · refine ho.setXdp hserving (hfits _) (fun g hg => by cases hg) fun i k' g hnic => ?_
      exact .inl ⟨fun hk => hnone i g (hk ▸ hnic), hnic⟩
  · exact ho

theorem bpfXdpDetach (ho : Owned conf h) (k : ℕ) (ok : Bool) :
    Owned conf (h.bpfXdpDetach conf k ok) := by
  unfold Host.bpfXdpDetach
  split_ifs with hstage
  · split
    · rename_i f hx
      have hserving : (h.world.starts k).stage.serving = true := by
        rcases hstage with hstage | hstage <;> rw [hstage] <;> rfl
      have hfits : (h.world.starts k).stage.Fits (conf k).tries (.detached ok) := by
        rcases hstage with hstage | hstage <;> rw [hstage]
        · trivial
        · exact .inr rfl
      have haccept : h.accepts (conf k).ifindex f = true := by
        simp [Host.accepts, ho.program k f hserving hx]
      rw [haccept, Bool.and_true]
      have hkept : ∀ i r, (if ok = true then Function.update h.nic (conf k).ifindex none else h.nic) i =
          some r → h.nic i = some r ∧ (ok = true → i ≠ (conf k).ifindex) := by
        intro i r hr
        split_ifs at hr with hok
        · by_cases hi : i = (conf k).ifindex
          · rw [hi, Function.update_self] at hr
            cases hr
          · rw [Function.update_of_ne hi] at hr
            exact ⟨hr, fun _ => hi⟩
        · exact ⟨hr, fun h => absurd h hok⟩
      refine ho.setXdp hserving hfits (fun g hg => by cases hg) fun i k' g hnic => ?_
      obtain ⟨hbefore, hok⟩ := hkept i _ hnic
      by_cases hk : k' = k
      · subst hk
        have hi := (ho.left i k' g hbefore).1
        have hfalse : ok = false := by simpa [hi] using hok
        exact .inr ⟨rfl, hi, .inr (by rw [hfalse])⟩
      · exact .inl ⟨hk, hbefore⟩
    · exact ho
  · exact ho

theorem step (ho : Owned conf h) {e : HostEvent} (he : h.Orderly e) : Owned conf (h.step conf e) := by
  cases e with
  | call e =>
    rw [Host.step]
    split_ifs with hr
    · exact ho.call he hr
    · exact ho
  | bpfXdpAttach k ok => exact ho.bpfXdpAttach k ok
  | bpfXdpDetach k ok => exact ho.bpfXdpDetach k ok

end Owned

theorem Host.Initial.owned {conf : ℕ → XdpConf} {h : Host} (hi : h.Initial conf) : Owned conf h := by
  refine ⟨hi.world.exclusive, fun k => ?_, fun k hctl => ?_, fun k hsock => ?_, fun k f _ hx => ?_,
    fun i k f hnic => absurd hnic (hi.nic i k f)⟩
  · rw [(hi.world.starts k).1]
    exact hi.xdp k
  · rw [(hi.world.starts k).2.2] at hctl
    cases hctl
  · simp [hi.world.starts k] at hsock
  · rw [hi.xdp k] at hx
    cases hx

private theorem Owned.attach_cases {conf : ℕ → XdpConf} {h : Host} (ho : Owned conf h) {k : ℕ}
    (hs : (h.world.starts k).stage.serving = true) :
    ((h.world.starts k).stage = .checked ∧ ∃ tries, h.xdp k = .trying tries) ∨
      (∃ f, h.xdp k = .attached f ∧ h.nic (conf k).ifindex = some (some k, f)) ∨
      ∃ ok, h.xdp k = .detached ok := by
  cases hx : h.xdp k with
  | attached f => exact .inr (.inl ⟨f, rfl, ho.program k f hs hx⟩)
  | detached ok => exact .inr (.inr ⟨ok, rfl⟩)
  | trying tries =>
    have hfits := ho.fits k
    rw [hx] at hfits
    refine .inl ⟨?_, tries, rfl⟩
    cases hstage : (h.world.starts k).stage <;>
      simp_all [Stage.Fits, Stage.serving, AttachState.isAttached, AttachState.isDetached]

/-- Past the detach, on the way out at the end of `main`. -/
def Stage.closing : Stage → Bool
  | .sockClosed | .sockRemoved | .unlinked => true
  | _ => false

/-- In every run of starts, stops, ends and crashes that keeps name and lock of the pid file together.
From the socket check on a daemon is yet to attach its program, or has it on its interface, or has
called `bpf_xdp_detach`; and the socket's name refers to the socket it listens on. A daemon on its way
out at the end of `main` has left no program of its own behind, unless the kernel refused to take it
off; one that cannot write its pid file leaves its program on the interface. -/
theorem daemon_keeps_interface {conf : ℕ → XdpConf} {h₀ h : Host} (hi : h₀.Initial conf)
    (hrun : Reaches (Host.step conf) Host.Orderly h₀ h) :
    (∀ k, (h.world.starts k).stage.serving = true →
      ((h.world.starts k).stage = .checked ∧ ∃ tries, h.xdp k = .trying tries) ∨
        (∃ f, h.xdp k = .attached f ∧ h.nic (conf k).ifindex = some (some k, f)) ∨
        ∃ ok, h.xdp k = .detached ok) ∧
    (∀ k, (h.world.starts k).ctl = true → h.world.sockPath = some k) ∧
    (∀ k, (h.world.starts k).stage.closing = true → (∃ ok, h.xdp k = .detached ok) ∧
      ∀ i f, h.nic i = some (some k, f) → h.xdp k = .detached false) ∧
    ∀ k, (h.world.starts k).stage = .writeFailed ∨ (h.world.starts k).stage = .writeCleared →
      ∃ f, h.xdp k = .attached f ∧ h.nic (conf k).ifindex = some (some k, f) := by
  have ho : Owned conf h :=
    hrun.invariant (I := Owned conf) hi.owned fun _ _ ho he => ho.step he
  refine ⟨fun k => ho.attach_cases, fun k hctl => ho.socket k (.inr hctl), fun k hclosing => ?_,
    fun k hfailed => ?_⟩
  · obtain ⟨ok, hx⟩ : ∃ ok, h.xdp k = .detached ok := by
      have hfits := ho.fits k
      cases hs : (h.world.starts k).stage <;> cases hx : h.xdp k <;>
        simp_all [Stage.closing, Stage.Fits, AttachState.isDetached]
    refine ⟨⟨ok, hx⟩, fun i f hnic => ?_⟩
    rcases (ho.left i k f hnic).2 with hattached | hdetached
    · cases hx.symm.trans hattached
    · exact hdetached
  · obtain ⟨hserving, hattached⟩ : (h.world.starts k).stage.serving = true ∧
        (h.xdp k).isAttached = true := by
      have hfits := ho.fits k
      rcases hfailed with hs | hs <;> rw [hs] at hfits ⊢ <;> exact ⟨rfl, hfits⟩
    obtain ⟨f, hf⟩ := AttachState.isAttached_iff.mp hattached
    exact ⟨f, hf, ho.program k f hserving hf⟩

def leftoverHost : Host where
  world := .clean
  xdp _ := .trying [.drv, .skb]
  nic _ := some (none, .skb)

def autoConf (_ : ℕ) : XdpConf := ⟨2, bytes "auto"⟩

def takeOverStart : Host :=
  ((startUpCalls 0 firstPid).map HostEvent.call).foldl (Host.step autoConf) leftoverHost

def takeOverEvents : List HostEvent :=
  [.bpfXdpAttach 0 true, .bpfXdpAttach 0 true] ++ (serveCalls 0).map HostEvent.call ++
    [.call (.start 1 (.openFile secondPid))]

/-- The other start finds the pid file locked. -/
def takeOverRun : Host :=
  (takeOverEvents.foldl (Host.step autoConf) takeOverStart).step autoConf (.call (.start 1 .flock))

private theorem takeOverRun_orderly :
    Reaches (Host.step autoConf) Host.Orderly leftoverHost takeOverRun := by
  have hstart : Reaches (Host.step autoConf) Host.Orderly leftoverHost leftoverHost := .start
  have hlocked := (hstart.next (.call (.start 0 (.openFile firstPid))) trivial).next
    (.call (.start 0 .flock)) fun _ => rfl
  have hchecked := hlocked.next (.call (.start 0 (.connect false))) fun _ => firstLocked_leaving
  refine (hchecked.foldl takeOverEvents ?_).next (.call (.start 1 .flock)) ?_
  · simp [takeOverEvents, serveCalls, Host.Orderly, VoidGate.Orderly]
  · intro hfree
    revert hfree
    decide +kernel

theorem daemon_keeps_interface_takeOver : (takeOverRun.world.starts 0).stage = .running ∧
    (∃ f, takeOverRun.xdp 0 = .attached f ∧ takeOverRun.nic 2 = some (some 0, f)) ∧
      takeOverRun.world.sockPath = some 0 := by
  have hfacts : (takeOverRun.world.starts 0).stage = .running ∧
      (takeOverRun.xdp 0).isDetached = false ∧ (takeOverRun.world.starts 0).ctl = true := by
    decide +kernel
  obtain ⟨hrunning, hattached, hctl⟩ := hfacts
  have hinit : leftoverHost.Initial autoConf := by
    refine ⟨World.clean_initial, fun _ => rfl, fun i k f h => ?_⟩
    cases h
  obtain ⟨hprogram, hsocket, -⟩ := daemon_keeps_interface hinit takeOverRun_orderly
  refine ⟨hrunning, ?_, hsocket 0 hctl⟩
  rcases hprogram 0 (by rw [hrunning]; rfl) with ⟨hchecked, -⟩ | hon | ⟨ok, hdetached⟩
  · cases hrunning.symm.trans hchecked
  · exact hon
  · rw [hdetached] at hattached
    cases hattached

end VoidGate
