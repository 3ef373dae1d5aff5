import VoidGate.ReloadConfig
import VoidGate.XdpVerdict

/-!
# The allowed ports over runs

The ports of the running configuration come from a file the parser accepted, and the
kernel has them from a commit. So no run ever puts port 0 below the port count of the
array entry.
-/

namespace VoidGate

variable {env : Env} {c : VgCtrl}

/-- The ports of the daemon and of the kernel are never 0. -/
structure SafePorts (c : VgCtrl) : Prop where
  cfg : c.cfg.PortsOk
  kernel : c.maps.kernel.cfg.Writable

theorem vgCfgCommit_writable {m : VgMaps} (armed : ℕ) {cfg : VgConfig} (hcfg : cfg.PortsOk)
    (hm : m.kernel.cfg.Writable) : (vgCfgCommit env m armed cfg).1.kernel.cfg.Writable := by
  rw [vgCfgCommit_eq]
  cases env.fault m.writes with
  | true => exact hm
  | false => exact cfgEntry_writable armed hcfg

theorem Micro.safePorts {c' : VgCtrl} {a : Act} (hm : Micro env a c c') (ha : ∀ n, a ≠ .setCfg n)
    (hok : c.drops.Ok) (h : SafePorts c) : SafePorts c' := by
  refine ⟨by rw [hm.cfg_eq ha]; exact h.cfg, ?_⟩
  cases hm with
  | books hb =>
    rw [hb.maps]
    exact h.kernel
  | arm hs =>
    have he := vgCtrlArm_idle env hs
    rw [he]
    exact vgCfgCommit_writable 1 h.cfg h.kernel
  | drop hs hp =>
    rw [(dropListed_outcome hok _ _ _ _).2.kernel_cfg]
    exact h.kernel
  | lift hi =>
    rw [dropRemove_kernel_cfg]
    exact h.kernel
  | stray hf =>
    rw [vgDropDel_kernel_cfg]
    exact h.kernel
  | disarm =>
    rw [vgCtrlDisarm_eq]
    refine vgCfgCommit_writable 0 h.cfg ?_
    rw [(vgDropFlush_frame env c.maps).1]
    exact h.kernel
  | setCfg => exact absurd rfl (ha _)
  | commit => exact vgCfgCommit_writable _ h.cfg h.kernel
  | populate =>
    rw [(vgPopulate_frame env c.maps c.cfg).1]
    exact h.kernel

private theorem step_safePorts (hok : c.drops.Ok) (h : SafePorts c) (cmd : Cmd) :
    SafePorts (step env c cmd) := by
  refine step_invariant hok h (fun x x' a hx hi ha _ hm => hm.safePorts ha hx hi) ?_
  intro file nic n _ hn
  obtain ⟨f, hf⟩ := reloadConfig_loaded hn
  exact ⟨hf.portsOk, h.kernel⟩

private theorem startUp_safePorts {cfgPath : List UInt8} {ifaceOv : Option (List UInt8)}
    {file : ConfigFile} {nic : Option (List IfAddr)}
    (h : startUp env cfgPath ifaceOv file nic = some c) : SafePorts c := by
  obtain ⟨-, -, -, -, -, hmaps⟩ := startUp_some h
  obtain ⟨f, hf⟩ := startUp_loaded h
  refine ⟨hf.portsOk, ?_⟩
  rw [hmaps]
  exact cfgEntry_writable 0 hf.portsOk

theorem Reachable.safePorts (h : Reachable env c) : SafePorts c :=
  h.invariant startUp_safePorts fun _ cmd hs hi => step_safePorts hs.drops_ok hi cmd

end VoidGate
