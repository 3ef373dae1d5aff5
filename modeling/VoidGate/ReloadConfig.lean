import VoidGate.ConfigSpec
import VoidGate.ReloadFailure

/-!
# What a successful reload applies

A reload that reports success runs the configuration of the file it read, with the
settings that need a restart kept from start-up. The loader shared with start-up
takes a file that cannot be opened for an empty one, so the same report may also
mean that the defaults have replaced the running configuration.
-/

namespace VoidGate

open Runs

variable {env : Env} {c₀ c : VgCtrl}

structure SamePinned (a b : VgConfig) : Prop where
  interface : a.interface = b.interface
  xdpMode : a.xdpMode = b.xdpMode
  logFile : a.logFile = b.logFile
  pidFile : a.pidFile = b.pidFile
  ctlSocketGroup : a.ctlSocketGroup = b.ctlSocketGroup
  remoteMapSize : a.remoteMapSize = b.remoteMapSize
  dropMapSize : a.dropMapSize = b.dropMapSize

/-- The configuration of a file `f` in a daemon that was started with `start`. -/
def appliedConfig (start f : VgConfig) (nic : Option (List IfAddr)) : VgConfig :=
  { f with
    interface := start.interface
    xdpMode := start.xdpMode
    logFile := start.logFile
    pidFile := start.pidFile
    ctlSocketGroup := start.ctlSocketGroup
    remoteMapSize := start.remoteMapSize
    dropMapSize := start.dropMapSize
    localCidr := if f.autoLocal then
        ((nic.getD []).filterMap (ownAddr start.interface.val)).take vgMaxCidrList
      else f.localCidr }

structure FromStart (c₀ c : VgCtrl) : Prop where
  pinned : SamePinned c.cfg c₀.cfg
  override : c.ifaceOverride = c₀.ifaceOverride

private theorem startUp_override {cfgPath : List UInt8} {ifaceOv : Option (List UInt8)}
    {file : ConfigFile} {nic : Option (List IfAddr)}
    (h : startUp env cfgPath ifaceOv file nic = some c₀) :
    c₀.ifaceOverride.val ≠ [] → snprintf 32 c₀.ifaceOverride.val = c₀.cfg.interface := by
  obtain ⟨f, -, hcfg, -, hov, -⟩ := startUp_some h
  rw [hov, snprintf_val, vgConfigAutoLocal_some hcfg]
  cases ifaceOv with
  | none => exact fun hne => absurd rfl hne
  | some iface => exact fun _ => rfl

theorem reloadConfig_some {file : ConfigFile} {nic : Option (List IfAddr)} {n : VgConfig}
    (hfrom : FromStart c₀ c)
    (hov : c₀.ifaceOverride.val ≠ [] → snprintf 32 c₀.ifaceOverride.val = c₀.cfg.interface)
    (h : reloadConfig env c file nic = some n) :
    ∃ f, vgConfigLoad env.inetPton file = some f ∧ n = appliedConfig c₀.cfg f nic := by
  rw [reloadConfig] at h
  split_ifs at h with hpath
  split at h
  · cases h
  · rename_i f hf
    refine ⟨f, hf, ?_⟩
    have hover : overridden c.ifaceOverride (pinned c.cfg f) =
        { f with
          interface := c₀.cfg.interface
          xdpMode := c₀.cfg.xdpMode
          logFile := c₀.cfg.logFile
          pidFile := c₀.cfg.pidFile
          ctlSocketGroup := c₀.cfg.ctlSocketGroup
          remoteMapSize := c₀.cfg.remoteMapSize
          dropMapSize := c₀.cfg.dropMapSize } := by
      obtain ⟨⟨hi, hx, hl, hp, hg, hr, hd⟩, hoverride⟩ := hfrom
      rw [overridden, pinned, hoverride]
      split_ifs with hempty
      · simp [hi, hx, hl, hp, hg, hr, hd]
      · simp [hov hempty, hx, hl, hp, hg, hr, hd]
    rw [vgConfigAutoLocal_some h, hover]
    rfl

theorem SamePinned.refl (a : VgConfig) : SamePinned a a := ⟨rfl, rfl, rfl, rfl, rfl, rfl, rfl⟩

private theorem samePinned_appliedConfig (start f : VgConfig) (nic : Option (List IfAddr)) :
    SamePinned (appliedConfig start f nic) start := ⟨rfl, rfl, rfl, rfl, rfl, rfl, rfl⟩

theorem vgCtrlReload_cfg (hok : c.drops.Ok) (file : ConfigFile) (nic : Option (List IfAddr)) :
    (vgCtrlReload env c file nic).1.cfg = (reloadConfig env c file nic).getD c.cfg := by
  rw [vgCtrlReload]
  cases reloadConfig env c file nic with
  | none => rfl
  | some n =>
    have htrace : Trace env ReloadAct (c.swapped n) (reloadApply env (c.swapped n)).1 :=
      reloadApply_trace hok
    exact htrace.cfg_eq fun _ _ h => h

private theorem step_fromStart (hok : c.drops.Ok)
    (hov : c₀.ifaceOverride.val ≠ [] → snprintf 32 c₀.ifaceOverride.val = c₀.cfg.interface)
    (h : FromStart c₀ c) (cmd : Cmd) : FromStart c₀ (step env c cmd) := by
  refine step_invariant hok h (fun x x' a hx hi ha _ hm => ?_) fun file nic n _ hn => ?_
  · exact ⟨hm.cfg_eq ha ▸ hi.pinned, hm.commandLine_eq.2.trans hi.override⟩
  · obtain ⟨f, -, rfl⟩ := reloadConfig_some h hov hn
    exact ⟨samePinned_appliedConfig _ _ _, h.override⟩

/-- The ports and allowed networks of some file, and local networks of the file or of the
interface. -/
structure Loaded (pton : InetPton) (n f : VgConfig) : Prop where
  load : ∃ file, vgConfigLoad pton file = some f
  ports : n.allowPorts = f.allowPorts
  allow : n.allowCidr = f.allowCidr
  localNets : n.localCidr = f.localCidr ∨ ∀ q ∈ n.localCidr, ∃ x : IpAddr, q = x.host

private theorem ownAddr_host {nic : List UInt8} {p : IfAddr} {q : VgCidr} (h : ownAddr nic p = some q) :
    ∃ x : IpAddr, q = x.host := by
  rw [ownAddr] at h
  split_ifs at h
  obtain ⟨a, -, ha⟩ := Option.bind_eq_some_iff.mp h
  split_ifs at ha
  cases ha
  exact ⟨_, rfl⟩

theorem Loaded.of_autoLocal {pton : InetPton} {file : ConfigFile} {nic : Option (List IfAddr)}
    {f g n : VgConfig} (hf : vgConfigLoad pton file = some f) (hg : f.SameLists g)
    (hn : vgConfigAutoLocal nic g = some n) : Loaded pton n f := by
  obtain ⟨hports, hlocal, hallow, -⟩ := hg
  rw [vgConfigAutoLocal_some hn]
  refine ⟨⟨file, hf⟩, hports, hallow, ?_⟩
  by_cases hauto : g.autoLocal = true
  · refine .inr fun q hq => ?_
    rw [if_pos hauto] at hq
    obtain ⟨p, -, hp⟩ := List.mem_filterMap.mp (List.mem_of_mem_take hq)
    exact ownAddr_host hp
  · exact .inl (by rw [if_neg hauto, hlocal])

theorem reloadConfig_loaded {file : ConfigFile} {nic : Option (List IfAddr)} {n : VgConfig}
    (h : reloadConfig env c file nic = some n) : ∃ f, Loaded env.inetPton n f := by
  rw [reloadConfig] at h
  split_ifs at h
  split at h
  · cases h
  · rename_i f hf
    refine ⟨f, .of_autoLocal hf ?_ h⟩
    rw [overridden]
    split_ifs <;> exact ⟨rfl, rfl, rfl, rfl⟩

theorem startUp_loaded {cfgPath : List UInt8} {ifaceOv : Option (List UInt8)} {file : ConfigFile}
    {nic : Option (List IfAddr)} (h : startUp env cfgPath ifaceOv file nic = some c) :
    ∃ f, Loaded env.inetPton c.cfg f := by
  obtain ⟨f, hf, hcfg, -⟩ := startUp_some h
  exact ⟨f, .of_autoLocal hf (by exact ⟨rfl, rfl, rfl, rfl⟩) hcfg⟩

theorem Loaded.portsOk {pton : InetPton} {n f : VgConfig} (h : Loaded pton n f) : n.PortsOk := by
  obtain ⟨file, hf⟩ := h.load
  rw [VgConfig.PortsOk, h.ports]
  exact vgConfigLoad_portsOk hf

theorem Loaded.netsMasked {pton : InetPton} {n f : VgConfig} (h : Loaded pton n f) :
    n.NetsMasked := by
  obtain ⟨file, hf⟩ := h.load
  have hmask := vgConfigLoad_netsMasked hf
  intro q hq
  rcases List.mem_append.mp hq with hq | hq
  · rcases h.localNets with he | hhost
    · exact hmask q (List.mem_append_left _ (he ▸ hq))
    · obtain ⟨x, rfl⟩ := hhost q hq
      exact x.masked_host
  · exact hmask q (List.mem_append_right _ (h.allow ▸ hq))

/-- In every state of every run and for every state of the config path: a reload that reports
success has read the file to its end and runs its settings, with the pinned ones from start-up,
exactly when the path could be opened or the reload fails anyway. -/
theorem successful_reload_applies_file_iff {cfgPath : List UInt8} {ifaceOv : Option (List UInt8)}
    {file₀ : ConfigFile} {nic₀ : Option (List IfAddr)}
    (hstart : startUp env cfgPath ifaceOv file₀ nic₀ = some c₀)
    (hrun : Reaches (step env) (fun _ _ => True) c₀ c) (file : ConfigFile)
    (nic : Option (List IfAddr)) :
    ((vgCtrlReload env c file nic).2 = true → ∃ content, file = .opened content false ∧
        (vgCtrlReload env c file nic).1.cfg =
          appliedConfig c₀.cfg (fileConfig env.inetPton content) nic) ↔
      (file = .missing → ∀ n, reloadConfig env c file nic = some n →
        env.fault (commitAt c n) = true) := by
  have hov := startUp_override hstart
  have hinv : c.drops.Ok ∧ FromStart c₀ c := by
    refine hrun.invariant (I := fun c => c.drops.Ok ∧ FromStart c₀ c)
      ⟨(startUp_initial hstart).1.drops_ok, .refl _, rfl⟩ fun c cmd hi _ => ?_
    exact ⟨step_drops_ok hi.1 cmd, step_fromStart hi.1 hov hi.2 cmd⟩
  obtain ⟨hok, hfrom⟩ := hinv
  have hcfg := @vgCtrlReload_cfg env c hok file nic
  have hres : (vgCtrlReload env c file nic).2 = true ↔
      ∃ n, reloadConfig env c file nic = some n ∧ env.fault (commitAt c n) = false := by
    rw [vgCtrlReload]
    cases reloadConfig env c file nic with
    | none => simp
    | some n =>
      have happly := (@reloadApply_result env c hok n).1
      constructor
      · exact fun h => ⟨n, rfl, happly.mp h⟩
      · rintro ⟨n', hn', hf⟩
        cases hn'
        exact happly.mpr hf
  rw [hres]
  constructor
  · rintro hprop rfl n hn
    by_contra hf
    obtain ⟨content, hfile, -⟩ := hprop ⟨n, hn, by simpa using hf⟩
    cases hfile
  · rintro hcond ⟨n, hn, hf⟩
    obtain ⟨f, hload, rfl⟩ := reloadConfig_some hfrom hov hn
    cases file with
    | missing =>
      rw [hcond rfl _ hn] at hf
      cases hf
    | opened content readError =>
      obtain ⟨rfl, rfl⟩ := vgConfigLoad_opened hload
      refine ⟨content, rfl, ?_⟩
      rw [hcfg, hn, Option.getD_some]

/-- A config file that allows another port than the default. -/
def tunedFile : ConfigFile := .opened (bytes "# web only\nallow_ports = 443\n") false

def tunedStart : VgCtrl :=
  (startUp steadyEnv (bytes "/etc/voidgate/voidgate.conf") none tunedFile sampleNic).get
    (by decide +kernel)

theorem tunedStart_eq : startUp steadyEnv (bytes "/etc/voidgate/voidgate.conf") none tunedFile
    sampleNic = some tunedStart := (Option.some_get _).symm

/-- A reload of the file that the daemon was started with. -/
theorem successful_reload_applies_file_sample :
    (vgCtrlReload steadyEnv tunedStart tunedFile sampleNic).2 = true ∧
      ∃ content, tunedFile = .opened content false ∧
        (vgCtrlReload steadyEnv tunedStart tunedFile sampleNic).1.cfg =
          appliedConfig tunedStart.cfg (fileConfig samplePton content) sampleNic := by
  have hres : (vgCtrlReload steadyEnv tunedStart tunedFile sampleNic).2 = true := by decide +kernel
  exact ⟨hres, (successful_reload_applies_file_iff tunedStart_eq .start tunedFile sampleNic).mpr
    (fun h => by cases h) hres⟩

/-- The config file has gone away: the reload reports success, and port 443 is no longer allowed
by the daemon or by the kernel. -/
theorem reload_without_file_restores_defaults : ∃ c, Reachable steadyEnv c ∧
    (vgCtrlReload steadyEnv c .missing sampleNic).2 = true ∧
    c.cfg.allowPorts = [443] ∧
    (vgCtrlReload steadyEnv c .missing sampleNic).1.cfg.allowPorts = [22] ∧
    (vgCtrlReload steadyEnv c .missing sampleNic).1.maps.kernel.cfg.allowPorts.toList =
      [22, 0, 0, 0, 0, 0, 0, 0] := by
  refine ⟨tunedStart, ⟨_, _, _, _, _, tunedStart_eq, .start⟩, ?_⟩
  decide +kernel

end VoidGate
