import VoidGate.ReloadPrune

/-!
# Failed reloads

A reload that stops before the swap of the configuration changes nothing. After the
swap there is one way left to fail, the commit of the array entry, and by then the
running configuration has been replaced and the drop list pruned. A failed commit
therefore leaves everything as it was only if there was nothing to replace and
nothing could be pruned.
-/

namespace VoidGate

open Runs

variable {env : Env} {c : VgCtrl}

private theorem dropDels_fault (env : Env) (m : VgMaps) (ps : List VgCidr)
    (hf : ∀ j < ps.length, env.fault (m.writes + j) = true) :
    (dropDels env m ps).kernel = m.kernel := by
  induction ps generalizing m with
  | nil => rfl
  | cons p ps ih =>
    have hfirst : env.fault m.writes = true := hf 0 (by simp)
    rw [dropDels, List.foldl_cons, ← dropDels, ih _ fun j hj => ?_, vgDropDel_fault _ hfirst]
    have hj' := hf (j + 1) (by simpa using hj)
    simpa [vgDropDel, Nat.add_assoc, Nat.add_comm 1 j] using hj'

/-- The state once a reload has switched to `n` and before it has done anything else. -/
def VgCtrl.swapped (c : VgCtrl) (n : VgConfig) : VgCtrl := { c with cfg := n }

/-- The number of the write with which a reload to `n` commits the array entry: it comes after
one delete for every listed drop that `n` protects. -/
def commitAt (c : VgCtrl) (n : VgConfig) : ℕ := c.maps.writes + (c.swapped n).exposed.length

theorem prune_swapped (h : c.drops.Ok) (n : VgConfig) :
    ∃ d, vgCtrlPruneProtected env (c.swapped n) =
        { c.swapped n with maps := dropDels env c.maps (c.swapped n).exposed, drops := d } ∧
      d.records = survivors env n c.maps.writes c.drops.records ∧
      (dropDels env c.maps (c.swapped n).exposed).writes = commitAt c n := by
  have hd : (c.swapped n).drops.Ok := h
  obtain ⟨d, heq, -, hrec⟩ := @vgCtrlPruneProtected_eq env (c.swapped n) hd
  exact ⟨d, heq, hrec, dropDels_writes env c.maps _⟩

/-- After the swap a reload succeeds exactly when its commit does, and a failed one leaves the
new configuration and the pruned list behind. -/
theorem reloadApply_result (h : c.drops.Ok) (n : VgConfig) :
    ((reloadApply env (c.swapped n)).2 = true ↔ env.fault (commitAt c n) = false) ∧
      (env.fault (commitAt c n) = true →
        (reloadApply env (c.swapped n)).1.cfg = n ∧
        (reloadApply env (c.swapped n)).1.drops.records =
          survivors env n c.maps.writes c.drops.records ∧
        (reloadApply env (c.swapped n)).1.maps.kernel =
          (dropDels env c.maps (c.swapped n).exposed).kernel) := by
  obtain ⟨d, heq, hrec, hwrites⟩ := @prune_swapped env c h n
  simp only [reloadApply, heq, vgCfgCommit_eq, hwrites]
  cases hf : env.fault (commitAt c n) with
  | false => simp
  | true =>
    simp only [Bool.not_true, Bool.false_eq_true, if_false, reduceCtorEq, forall_const, if_true]
    exact ⟨trivial, rfl, hrec, rfl⟩

/-- Configuration, drop list and kernel maps are as before. -/
structure SameGate (c c' : VgCtrl) : Prop where
  cfg : c'.cfg = c.cfg
  records : c'.drops.records = c.drops.records
  kernel : c'.maps.kernel = c.maps.kernel

/-- In every reachable state and for every config file: a reload that fails changes nothing
exactly when it stops before the swap, or its commit does not fail, or the configuration is the
running one and every delete of the prune fails as well. -/
theorem failed_reload_changes_nothing_iff (h : Reachable env c) (file : ConfigFile)
    (nic : Option (List IfAddr)) :
    ((vgCtrlReload env c file nic).2 = false → SameGate c (vgCtrlReload env c file nic).1) ↔
      ∀ n, reloadConfig env c file nic = some n → env.fault (commitAt c n) = true →
        n = c.cfg ∧ ∀ j < (c.swapped n).exposed.length, env.fault (c.maps.writes + j) = true := by
  rw [vgCtrlReload]
  cases hn : reloadConfig env c file nic with
  | none => simp [SameGate.mk]
  | some n =>
    obtain ⟨hok, hfail⟩ := @reloadApply_result env c h.sound.drops_ok n
    have hsurv := survivors_eq_self_iff env n c.maps.writes c.drops.records
    simp only [Option.some.injEq, forall_eq']
    constructor
    · intro hsame hf
      obtain ⟨hcfg, hrec, -⟩ := hfail hf
      have hres : (reloadApply env (c.swapped n)).2 = false := by
        simpa [hf] using hok
      have hs := hsame hres
      exact ⟨hcfg.symm.trans hs.cfg, hsurv.mp (hrec.symm.trans hs.records)⟩
    · intro hcond hres
      have hf : env.fault (commitAt c n) = true := by
        have hres' : (reloadApply env (c.swapped n)).2 = false := hres
        simpa [hres'] using hok
      obtain ⟨hcfg, hrec, hker⟩ := hfail hf
      obtain ⟨rfl, hall⟩ := hcond hf
      exact ⟨hcfg, hrec.trans (hsurv.mpr hall), hker.trans (dropDels_fault env c.maps _ hall)⟩

/-- The small host when its eighth map write fails, the first one after start-up. -/
def brittleEnv : Env := sampleEnv (· == 7)

def brittleStart : VgCtrl := (sampleStart (· == 7)).get (by decide +kernel)

private theorem brittleStart_eq : startUp brittleEnv (bytes "/etc/voidgate/voidgate.conf") none .missing
    sampleNic = some brittleStart := (Option.some_get _).symm

/-- A reload of the configuration that is already running, whose commit fails. -/
theorem failed_reload_changes_nothing_sample : Reachable brittleEnv brittleStart ∧
    (vgCtrlReload brittleEnv brittleStart .missing sampleNic).2 = false ∧
    SameGate brittleStart (vgCtrlReload brittleEnv brittleStart .missing sampleNic).1 := by
  have hreach : Reachable brittleEnv brittleStart := ⟨_, _, _, _, _, brittleStart_eq, .start⟩
  have hcfg : reloadConfig brittleEnv brittleStart .missing sampleNic = some brittleStart.cfg := by
    decide +kernel
  have hnone : (brittleStart.swapped brittleStart.cfg).exposed = [] := by decide +kernel
  have hres : (vgCtrlReload brittleEnv brittleStart .missing sampleNic).2 = false := by
    decide +kernel
  refine ⟨hreach, hres, (failed_reload_changes_nothing_iff hreach .missing sampleNic).mpr ?_ hres⟩
  intro n hn _
  obtain rfl : brittleStart.cfg = n := by simpa [hcfg] using hn
  simp [hnone]

/-- The small host when its eleventh map write fails. -/
def unluckyEnv : Env := sampleEnv (· == 10)

def unluckyStart : VgCtrl := (sampleStart (· == 10)).get (by decide +kernel)

private theorem unluckyStart_eq : startUp unluckyEnv (bytes "/etc/voidgate/voidgate.conf") none .missing
    sampleNic = some unluckyStart := (Option.some_get _).symm

/-- The interface has changed its address to 198.18.0.1. -/
def movedNic : Option (List IfAddr) :=
  some [⟨some (bytes "eth0"), some (.inet, octetsOf [198, 18, 0, 1])⟩]

/-- A host drops 198.18.0.1 and then gets this address itself. The reload lifts the drop, fails
to commit, and reports an error; the drop is gone from the list and from the kernel, and the
daemon protects the new address while the kernel's local map still has the old one. -/
theorem failed_reload_replaces_config : ∃ c, Reachable unluckyEnv c ∧
    (vgCtrlReload unluckyEnv c (.opened [] false) movedNic).2 = false ∧
    c.drops.prefixes = [(sampleHost [198, 18, 0, 1]).1] ∧
    (vgCtrlReload unluckyEnv c (.opened [] false) movedNic).1.drops.prefixes = [] ∧
    c.cfg.localCidr = [(sampleHost [10, 0, 0, 5]).1] ∧
    (vgCtrlReload unluckyEnv c (.opened [] false) movedNic).1.cfg.localCidr =
      [(sampleHost [198, 18, 0, 1]).1] ∧
    ((vgCtrlReload unluckyEnv c (.opened [] false) movedNic).1.maps.kernel.lpm
      (.localNets .inet)).keys = [(sampleHost [10, 0, 0, 5]).1] := by
  have hrun : Reaches (step unluckyEnv) (fun _ _ => True) unluckyStart _ :=
    Reaches.start.next (.drop (sampleHost [198, 18, 0, 1])) trivial
  refine ⟨_, ⟨_, _, _, _, _, unluckyStart_eq, hrun⟩, ?_⟩
  decide +kernel

end VoidGate
