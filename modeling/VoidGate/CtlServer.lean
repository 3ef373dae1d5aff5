import VoidGate.ListCalls
import VoidGate.Runs

/-!
# The daemon

Start-up, the reload of the configuration, and the commands of `ctl_server.c` as
steps of one machine together with the periodic tick. What a command meets outside
(the config file, the addresses of the interface, the remote counters) is part of
the input.
-/

namespace VoidGate

open Runs

/-- The settings that `vg_ctrl_reload` saves in buffers of the same size and restores. -/
def pinned (running n : VgConfig) : VgConfig :=
  { n with
    interface := snprintf 32 running.interface.val
    xdpMode := snprintf 16 running.xdpMode.val
    logFile := snprintf 256 running.logFile.val
    pidFile := snprintf 256 running.pidFile.val
    ctlSocketGroup := snprintf 64 running.ctlSocketGroup.val
    remoteMapSize := running.remoteMapSize
    dropMapSize := running.dropMapSize }

/-- `-i` takes the place of the interface in the file. -/
def overridden (ifaceOverride : CStr 32) (n : VgConfig) : VgConfig :=
  if ifaceOverride.val = [] then n else { n with interface := snprintf 32 ifaceOverride.val }

section Calls
variable (env : Env)

/-- The configuration a reload would switch to, up to the swap `*c->cfg = n`. -/
def reloadConfig (c : VgCtrl) (file : ConfigFile) (nic : Option (List IfAddr)) : Option VgConfig :=
  if c.cfgPath.val = [] then none
  else match vgConfigLoad env.inetPton file with
    | none => none
    | some n => vgConfigAutoLocal nic (overridden c.ifaceOverride (pinned c.cfg n))

def armedFlag (c : VgCtrl) : ℕ := if c.state = .active then 1 else 0

/-- The second half of `vg_ctrl_reload`, after the swap. -/
def reloadApply (c : VgCtrl) : VgCtrl × Bool :=
  let c := vgCtrlPruneProtected env c
  let w := vgCfgCommit env c.maps (armedFlag c) c.cfg
  let c := { c with maps := w.1 }
  if w.2 then
    ({ c with maps := vgPopulateLocal env (vgPopulateAllow env c.maps c.cfg) c.cfg }, true)
  else (c, false)

def vgCtrlReload (c : VgCtrl) (file : ConfigFile) (nic : Option (List IfAddr)) : VgCtrl × Bool :=
  match reloadConfig env c file nic with
  | none => (c, false)
  | some n => reloadApply env { c with cfg := n }

/-- The part of `main` before the loop. -/
def startUp (cfgPath : List UInt8) (ifaceOv : Option (List UInt8)) (file : ConfigFile)
    (nic : Option (List IfAddr)) : Option VgCtrl :=
  match vgConfigLoad env.inetPton file with
  | none => none
  | some cfg =>
    let cfg := match ifaceOv with
      | none => cfg
      | some iface => { cfg with interface := snprintf 32 iface }
    match vgConfigAutoLocal nic cfg with
    | none => none
    | some cfg =>
      let m := vgPopulateLocal env (vgPopulateAllow env ⟨.fresh, 0, []⟩ cfg) cfg
      let w := vgCfgCommit env m 0 cfg
      if w.2 then vgCtrlInit env cfg w.1 cfgPath ifaceOv else none

/-- A prefix as the parser hands it to a command. -/
abbrev MaskedCidr := { p : VgCidr // p.Masked }

/-- The commands that change the state, and the tick. -/
inductive Cmd where
  | drop (p : MaskedCidr)
  | dropTtl (p : MaskedCidr) (ttl : ℕ)
  | undrop (p : MaskedCidr)
  | arm
  | disarm
  | reload (file : ConfigFile) (nic : Option (List IfAddr))
  | tick (t : TickIn)

def step (c : VgCtrl) : Cmd → VgCtrl
  | .drop p => (vgCtrlDrop env c p.1 .manual).1
  | .dropTtl p ttl => (vgCtrlDropTtl env c p.1 ttl).1
  | .undrop p => (vgCtrlUndrop env c p.1).1
  | .arm => (vgCtrlArm env c).1
  | .disarm => (vgCtrlDisarm env c).1
  | .reload file nic => (vgCtrlReload env c file nic).1
  | .tick t => (vgCtrlTick env c t).1

/-- Some run of the daemon, from a start-up on, is in state `c`. -/
def Reachable (c : VgCtrl) : Prop :=
  ∃ cfgPath ifaceOv file nic c₀, startUp env cfgPath ifaceOv file nic = some c₀ ∧
    Reaches (step env) (fun _ _ => True) c₀ c

end Calls

/-- The actions of a reload after the swap: lifts of what the running configuration protects, and
the writes of the other maps. -/
def ReloadAct (c : VgCtrl) : Act → Prop
  | .lift i => vgCidrIsProtected c.cfg (c.drops.pool i).cidr = true
  | .commit => True
  | .populate => True
  | _ => False

/-- The actions of a command that is taken in state `c₀`. -/
def CmdAct (env : Env) (c₀ : VgCtrl) : Cmd → VgCtrl → Act → Prop
  | .drop p => DropAct p.1 .manual
  | .dropTtl p _ => DropAct p.1 .timed
  | .undrop p => UndropAct p.1
  | .arm => fun _ a => a = .arm
  | .disarm => fun _ a => a = .disarm
  | .reload _ _ => fun c a => ReloadAct c a ∨ ∃ n, a = .setCfg n
  | .tick _ => TickAct env c₀.clock

variable {env : Env} {c : VgCtrl}

theorem reloadApply_trace (h : c.drops.Ok) : Trace env ReloadAct c (reloadApply env c).1 := by
  have hprune : Trace env ReloadAct c (vgCtrlPruneProtected env c) := by
    refine (vgCtrlPruneProtected_trace h).mono fun c a ha => ?_
    cases a with
    | lift i => exact ha
    | _ => exact ha.elim
  have hcommit := hprune.trans (Micro.commit.trace (by trivial))
  simp only [reloadApply]
  split_ifs
  · exact hcommit.trans (Micro.populate.trace (by trivial))
  · exact hcommit

theorem vgCtrlReload_trace (h : c.drops.Ok) (file : ConfigFile) (nic : Option (List IfAddr)) :
    Trace env (CmdAct env c (.reload file nic)) c (vgCtrlReload env c file nic).1 := by
  rw [vgCtrlReload]
  cases hn : reloadConfig env c file nic with
  | none => exact .refl
  | some n =>
    have hswap : Trace env (CmdAct env c (.reload file nic)) c { c with cfg := n } :=
      Micro.setCfg.trace (.inr ⟨n, rfl⟩)
    have hd : ({ c with cfg := n } : VgCtrl).drops.Ok := h
    exact hswap.trans ((reloadApply_trace hd).mono fun _ _ ha => .inl ha)

theorem step_trace (h : c.drops.Ok) (cmd : Cmd) :
    Trace env (CmdAct env c cmd) c (step env c cmd) := by
  cases cmd with
  | drop p => exact dropAdd_trace env c p.1 .manual 0
  | dropTtl p ttl => exact vgCtrlDropTtl_trace env c p.1 ttl
  | undrop p => exact vgCtrlUndrop_trace h p.1
  | arm => exact vgCtrlArm_trace rfl
  | disarm => exact Micro.disarm.trace rfl
  | reload file nic => exact vgCtrlReload_trace h file nic
  | tick t => exact vgCtrlTick_trace h t

/-- The prefixes an action drops or deletes have no host bits. -/
def Act.Masked : Act → Prop
  | .drop p _ => p.Masked
  | .stray p => p.Masked
  | _ => True

/-- The prefixes that commands and ticks drop or undrop have no host bits. -/
theorem CmdAct.masked {c₀ : VgCtrl} {cmd : Cmd} {a : Act} (h : CmdAct env c₀ cmd c a) :
    a.Masked := by
  cases a with
  | drop p reason =>
    cases cmd with
    | drop p' => exact h.1 ▸ p'.2
    | dropTtl p' ttl => exact h.1 ▸ p'.2
    | tick t => exact h.1
    | reload file nic => simp [CmdAct, ReloadAct] at h
    | _ => cases h
  | stray p =>
    cases cmd with
    | undrop p' =>
      have hp : p = p'.1 := h
      exact hp ▸ p'.2
    | reload file nic => simp [CmdAct, ReloadAct] at h
    | _ => cases h
  | _ => trivial

theorem states_tick {cmds : ℕ → Cmd} {n : ℕ} {t : TickIn} (h : cmds n = .tick t) :
    states (step env) c cmds (n + 1) = (vgCtrlTick env (states (step env) c cmds n) t).1 := by
  rw [states, h, step]

/-- A property that every action but the swap of the configuration preserves survives a command,
if it survives the swap that the command makes. -/
theorem step_invariant {I : VgCtrl → Prop} {cmd : Cmd} (hok : c.drops.Ok) (h : I c)
    (hact : ∀ x x' a, x.drops.Ok → I x → (∀ n, a ≠ .setCfg n) → a.Masked → Micro env a x x' → I x')
    (hswap : ∀ file nic n, cmd = .reload file nic → reloadConfig env c file nic = some n →
      I { c with cfg := n }) : I (step env c cmd) := by
  have hrun : ∀ {ok : VgCtrl → Act → Prop} {x x' : VgCtrl}, Trace env ok x x' → x.drops.Ok → I x →
      (∀ y n, ¬ ok y (.setCfg n)) → (∀ y a, ok y a → a.Masked) → I x' := by
    intro ok x x' ht hx hi hset hmask
    refine (ht.invariant (I := fun y => y.drops.Ok ∧ I y) ⟨hx, hi⟩ fun y y' a hy ha hm => ?_).2
    refine ⟨hm.drops_ok hy.1, hact y y' a hy.1 hy.2 (fun n he => ?_) (hmask y a ha) hm⟩
    exact hset y n (he ▸ ha)
  cases cmd with
  | reload file nic =>
    rw [step, vgCtrlReload]
    cases hn : reloadConfig env c file nic with
    | none => exact h
    | some n =>
      refine hrun (reloadApply_trace hok) hok (hswap file nic n rfl hn) (fun _ _ ha => ha) ?_
      intro y a ha
      cases a with
      | drop p reason => exact ha.elim
      | stray p => exact ha.elim
      | _ => trivial
  | _ => exact hrun (step_trace hok _) hok h (fun _ _ ha => by cases ha) fun _ _ ha => ha.masked

/-- The state `vg_ctrl_init` leaves behind. -/
structure Initial (c : VgCtrl) : Prop where
  state : c.state = .idle
  drops_ok : c.drops.Ok
  records : c.drops.records = []
  snaps : ∃ cap, c.snaps = .init cap
  judged : c.judged = []
  rates : c.rxPps = 0 ∧ c.rxBps = 0

theorem growBuckets_ge {k nbuckets cap r : ℕ} (h : growBuckets k nbuckets cap = some r) :
    cap ≤ r := by
  induction k generalizing nbuckets with
  | zero => cases h
  | succ k ih =>
    rw [growBuckets] at h
    split_ifs at h with hlt
    · exact ih h
    · cases h
      omega

private theorem growBuckets_pos {k nbuckets cap r : ℕ} (h : growBuckets k nbuckets cap = some r)
    (hn : 0 < nbuckets) : 0 < r := by
  have hcap := growBuckets_ge h
  cases k with
  | zero => cases h
  | succ k =>
    rw [growBuckets] at h
    split_ifs at h with hlt
    · omega
    · cases h
      exact hn

theorem vgCtrlInit_initial {cfg : VgConfig} {maps : VgMaps} {cfgPath : List UInt8}
    {ifaceOv : Option (List UInt8)} (h : vgCtrlInit env cfg maps cfgPath ifaceOv = some c) :
    Initial c ∧ c.cfg = cfg ∧ c.maps = maps ∧ c.ifaceOverride = snprintf 32 (ifaceOv.getD []) := by
  rw [vgCtrlInit] at h
  split at h
  · cases h
  · rename_i nbuckets hg
    split_ifs at h
    cases h
    have hok := @DropTable.ok_init (dropPoolCap cfg) _ (growBuckets_pos hg (by decide))
    exact ⟨⟨rfl, hok.1, hok.2, ⟨_, rfl⟩, rfl, rfl, rfl⟩, rfl, rfl, rfl⟩

def startMaps (env : Env) (cfg : VgConfig) : VgMaps :=
  vgPopulateLocal env (vgPopulateAllow env ⟨.fresh, 0, []⟩ cfg) cfg

/-- What a start-up that succeeds has done. -/
theorem startUp_some {cfgPath : List UInt8} {ifaceOv : Option (List UInt8)} {file : ConfigFile}
    {nic : Option (List IfAddr)} (h : startUp env cfgPath ifaceOv file nic = some c) :
    ∃ f, vgConfigLoad env.inetPton file = some f ∧
      vgConfigAutoLocal nic { f with interface := (ifaceOv.map (snprintf 32)).getD f.interface } =
        some c.cfg ∧
      Initial c ∧ c.ifaceOverride = snprintf 32 (ifaceOv.getD []) ∧
      c.maps = (startMaps env c.cfg).wrote
        { (startMaps env c.cfg).kernel with cfg := cfgEntry 0 c.cfg } := by
  simp only [startUp] at h
  split at h
  · cases h
  · rename_i f hf
    split at h
    · cases h
    · rename_i cfg hcfg
      split_ifs at h with hw
      obtain ⟨hinit, rfl, hmaps, hov⟩ := vgCtrlInit_initial h
      refine ⟨f, hf, ?_, hinit, hov, ?_⟩
      · rw [← hcfg]
        cases ifaceOv <;> rfl
      · rw [hmaps, ← startMaps, vgCfgCommit_eq]
        rw [← startMaps, vgCfgCommit_eq] at hw
        have hfault : env.fault (startMaps env c.cfg).writes = false := by simpa using hw
        rw [if_neg (by simp [hfault])]

/-- The daemon starts disarmed, with an empty list and empty drop maps. -/
theorem startUp_initial {cfgPath : List UInt8} {ifaceOv : Option (List UInt8)} {file : ConfigFile}
    {nic : Option (List IfAddr)} (h : startUp env cfgPath ifaceOv file nic = some c) :
    Initial c ∧ c.maps.kernel.cfg.armed = 0 ∧
      ∀ f, c.maps.kernel.lpm (.drop f) = .empty := by
  obtain ⟨-, -, -, hinit, -, hmaps⟩ := startUp_some h
  obtain ⟨-, hdrop⟩ := vgPopulate_frame env ⟨.fresh, 0, []⟩ c.cfg
  rw [hmaps]
  exact ⟨hinit, rfl, fun f => hdrop f⟩

theorem step_drops_ok (h : c.drops.Ok) (cmd : Cmd) : (step env c cmd).drops.Ok :=
  (step_trace h cmd).drops_ok h

/-- The pointers are sound and every listed prefix is masked. -/
structure Sound (c : VgCtrl) : Prop where
  drops_ok : c.drops.Ok
  masked : ∀ p ∈ c.drops.prefixes, p.Masked

/-- Equal keys of masked prefixes: the listed prefix is the one asked for. -/
theorem Sound.eq_of_key (h : Sound c) {r : VgDropRec} (hr : r ∈ c.drops.records) {p : VgCidr}
    (hp : p.Masked) (hk : r.cidr.key = p.key) : r.cidr = p :=
  (h.masked _ (List.mem_map_of_mem hr)).eq_of_key hp hk

theorem Sound.mem_prefixes_iff (h : Sound c) {p : VgCidr} (hp : p.Masked) :
    p ∈ c.drops.prefixes ↔ ∃ r ∈ c.drops.records, r.cidr.key = p.key := by
  constructor
  · intro hm
    obtain ⟨r, hr, rfl⟩ := List.mem_map.mp hm
    exact ⟨r, hr, rfl⟩
  · rintro ⟨r, hr, hk⟩
    rw [← h.eq_of_key hr hp hk]
    exact List.mem_map_of_mem hr

theorem Micro.sound {c' : VgCtrl} {a : Act} (hm : Micro env a c c') (h : Sound c)
    (ha : a.Masked) : Sound c' := by
  refine ⟨hm.drops_ok h.drops_ok, fun q hq => ?_⟩
  rcases hm.mem_prefixes h.drops_ok hq with hq | ⟨⟨reason, rfl⟩, -⟩
  · exact h.masked q hq
  · exact ha

theorem step_sound (h : Sound c) (cmd : Cmd) : Sound (step env c cmd) := by
  exact (step_trace h.drops_ok cmd).invariant (I := Sound) h fun c c' a hi ha hm =>
    hm.sound hi ha.masked

theorem Initial.sound (h : Initial c) : Sound c :=
  ⟨h.drops_ok, by simp [DropTable.prefixes, h.records]⟩

theorem Reachable.sound (h : Reachable env c) : Sound c := by
  obtain ⟨cfgPath, ifaceOv, file, nic, c₀, hstart, hrun⟩ := h
  exact hrun.invariant (startUp_initial hstart).1.sound fun c cmd hi _ => step_sound hi cmd

/-- The rule for invariants of the daemon. -/
theorem Reachable.invariant {I : VgCtrl → Prop} (h : Reachable env c)
    (start : ∀ {cfgPath ifaceOv file nic c₀}, startUp env cfgPath ifaceOv file nic = some c₀ → I c₀)
    (next : ∀ c cmd, Sound c → I c → I (step env c cmd)) : I c := by
  obtain ⟨cfgPath, ifaceOv, file, nic, c₀, hstart, hrun⟩ := h
  refine (hrun.invariant (I := fun x => Sound x ∧ I x)
    ⟨(startUp_initial hstart).1.sound, start hstart⟩ fun x cmd hx _ => ?_).2
  exact ⟨step_sound hx.1 cmd, next x cmd hx.1 hx.2⟩

def octetsOf (l : List UInt8) : Octets := Vector.ofFn fun i => l.getD i.val 0

def samplePton : InetPton := fun f s =>
  ([(Family.inet, bytes "169.254.169.254", [169, 254, 169, 254]),
    (.inet, bytes "127.0.0.0", [127, 0, 0, 0]),
    (.inet6, bytes "::1", [0, 0, 0, 0, 0, 0, 0, 0, 0, 0, 0, 0, 0, 0, 0, 1]),
    (.inet6, bytes "fe80::", [0xfe, 0x80]),
    (.inet6, bytes "ff02::", [0xff, 0x02])].find? fun e => e.1 == f && e.2.1 == s).map
    fun e => octetsOf e.2.2

/-- A small host. `inet_pton` knows the texts of the default configuration, and the clock advances by one
second per reading. -/
def sampleEnv (fault : ℕ → Bool) : Env where
  fault := fault
  wall n := 1000000 + n
  slot _ _ := 0
  inetPton := samplePton
  calloc _ := true

/-- `eth0` has the address 10.0.0.5. -/
def sampleNic : Option (List IfAddr) :=
  some [⟨some (bytes "eth0"), some (.inet, octetsOf [10, 0, 0, 5])⟩]

/-- The host after start-up without a config file. -/
def sampleStart (fault : ℕ → Bool) : Option VgCtrl :=
  startUp (sampleEnv fault) (bytes "/etc/voidgate/voidgate.conf") none .missing sampleNic

/-- The small host when every map write succeeds. -/
def steadyEnv : Env := sampleEnv fun _ => false

def steadyStart : VgCtrl := (sampleStart fun _ => false).get (by decide +kernel)

theorem steadyStart_eq : startUp steadyEnv (bytes "/etc/voidgate/voidgate.conf") none .missing
    sampleNic = some steadyStart := (Option.some_get _).symm

/-- The small host when its tenth map write fails; start-up takes seven and a first drop two. -/
def flakyEnv : Env := sampleEnv (· == 9)

def flakyStart : VgCtrl := (sampleStart (· == 9)).get (by decide +kernel)

theorem flakyStart_eq : startUp flakyEnv (bytes "/etc/voidgate/voidgate.conf") none .missing
    sampleNic = some flakyStart := (Option.some_get _).symm

/-- One IPv4 host as a prefix. -/
def sampleHost (l : List UInt8) : MaskedCidr :=
  ⟨(IpAddr.ofOctets .inet (octetsOf l)).host, IpAddr.masked_host _⟩

end VoidGate
