import VoidGate.ReloadFailure
import VoidGate.MapHistories

/-!
# The phases of a reload

Once the configuration is swapped a reload writes in three phases: it deletes the
drops that have become protected and commits the new array entry, rebuilds the allow
maps, and rebuilds the local maps. Each content on the way is described by what its
phase cannot have changed.
-/

namespace VoidGate

variable {env : Env} {c : VgCtrl}

/-- A map content that occurs while a reload switches to `n`: before the commit, while the allow
maps are rebuilt, or while the local maps are. -/
inductive Phase (c : VgCtrl) (n : VgConfig) (pruned filled k : Kernel) : Prop
  | prune (cfg : k.cfg = c.maps.kernel.cfg)
      (allow : ∀ f, k.lpm (.allow f) = c.maps.kernel.lpm (.allow f))
      (localNets : ∀ f, k.lpm (.localNets f) = c.maps.kernel.lpm (.localNets f))
  | allow (cfg : k.cfg = cfgEntry (armedFlag c) n)
      (drop : ∀ f, k.lpm (.drop f) = pruned.lpm (.drop f))
      (localNets : ∀ f, k.lpm (.localNets f) = c.maps.kernel.lpm (.localNets f))
  | localNets (cfg : k.cfg = cfgEntry (armedFlag c) n)
      (drop : ∀ f, k.lpm (.drop f) = pruned.lpm (.drop f))
      (allow : ∀ f, k.lpm (.allow f) = filled.lpm (.allow f))

/-- The maps when the prune is done and the new array entry is committed. -/
def committed (env : Env) (c : VgCtrl) (n : VgConfig) : VgMaps :=
  let m := dropDels env c.maps (c.swapped n).exposed
  m.wrote { m.kernel with cfg := cfgEntry (armedFlag c) n }

/-- The maps when the allow maps are filled again. -/
def allowFilled (env : Env) (c : VgCtrl) (n : VgConfig) : VgMaps :=
  populate env .allow (flushBoth env .allow (committed env c n)) n.allowCidr

theorem reloadApply_committed (h : c.drops.Ok) {n : VgConfig}
    (hcommit : env.fault (commitAt c n) = false) :
    (reloadApply env (c.swapped n)).1.maps =
        populate env .localNets (flushBoth env .localNets (allowFilled env c n)) n.localCidr ∧
      (reloadApply env (c.swapped n)).1.drops.records =
        survivors env n c.maps.writes c.drops.records ∧
      (reloadApply env (c.swapped n)).1.cfg = n := by
  obtain ⟨d, heq, hrec, hwrites⟩ := @prune_swapped env c h n
  simp only [reloadApply, heq, vgCfgCommit_eq, hwrites, hcommit]
  exact ⟨rfl, hrec, rfl⟩

theorem Phase.of_committed {n : VgConfig} {k : Kernel} (hcfg : k.cfg = (committed env c n).kernel.cfg)
    (hlpm : ∀ fd, fd ∉ Set.range MapFd.allow → k.lpm fd = (committed env c n).kernel.lpm fd) :
    Phase c n (committed env c n).kernel (allowFilled env c n).kernel k := by
  obtain ⟨-, hpruned⟩ := (writes_dropDels env c.maps (c.swapped n).exposed).frame
  refine .allow hcfg (fun f => hlpm _ (by simp)) fun f => ?_
  exact (hlpm _ (by simp)).trans (hpruned _ (by simp))

private theorem Phase.of_allowFilled {n : VgConfig} {k : Kernel}
    (hcfg : k.cfg = (allowFilled env c n).kernel.cfg)
    (hlpm : ∀ fd, fd ∉ Set.range MapFd.localNets → k.lpm fd = (allowFilled env c n).kernel.lpm fd) :
    Phase c n (committed env c n).kernel (allowFilled env c n).kernel k := by
  have hfill := (writes_flushBoth env .allow (committed env c n)).trans
    (writes_populate env .allow _ n.allowCidr)
  refine .localNets (hcfg.trans hfill.frame.1) (fun f => ?_) fun f => hlpm _ (by simp)
  exact (hlpm _ (by simp)).trans (hfill.frame.2 _ (by simp))

/-- Every content that a reload without failed writes goes through belongs to a phase, and the
bottom of each of the two flushes is among them. -/
theorem reload_phases (h : c.drops.Ok) {n : VgConfig}
    (hok : ∀ j, c.maps.writes ≤ j → env.fault j = false) : ∃ added,
      (reloadApply env (c.swapped n)).1.maps.contents = added ++ c.maps.contents ∧
      (∀ k ∈ added, Phase c n (committed env c n).kernel (allowFilled env c n).kernel k) ∧
      (flushBoth env .allow (committed env c n)).kernel ∈ added ∧
      (flushBoth env .localNets (allowFilled env c n)).kernel ∈ added := by
  obtain ⟨a₁, hc₁, hf₁, -⟩ := (writes_dropDels env c.maps (c.swapped n).exposed).history
  obtain ⟨a₂, hc₂, hf₂, hbottom, hfilled⟩ := (writes_flushBoth env .allow
    (committed env c n)).history_through (writes_populate env .allow _ n.allowCidr)
  obtain ⟨a₃, hc₃, hf₃, hbottom', -⟩ := (writes_flushBoth env .localNets
    (allowFilled env c n)).history_through (writes_populate env .localNets _ n.localCidr)
  -- a content that is that of the commit or comes after it is among those up to the first rebuild
  have hmem {k : Kernel} (hk : k = (committed env c n).kernel ∨ k ∈ a₂) :
      k ∈ a₂ ++ (committed env c n).kernel :: a₁ := by
    rcases hk with rfl | hk
    · exact List.mem_append_right a₂ List.mem_cons_self
    · exact List.mem_append_left _ hk
  refine ⟨a₃ ++ (a₂ ++ (committed env c n).kernel :: a₁), ?_, ?_, ?_, ?_⟩
  · have hcommit : (committed env c n).contents =
        (committed env c n).kernel :: (a₁ ++ c.maps.contents) := by
      simp [committed, hc₁]
    rw [(reloadApply_committed h (hok _ (Nat.le_add_right _ _))).1, hc₃, allowFilled, hc₂, hcommit]
    simp
  · intro k hk
    simp only [List.mem_append, List.mem_cons] at hk
    rcases hk with hk | hk | rfl | hk
    · exact .of_allowFilled (hf₃ k hk).1 (hf₃ k hk).2
    · exact .of_committed (hf₂ k hk).1 (hf₂ k hk).2
    · exact .of_committed rfl fun _ _ => rfl
    · obtain ⟨hcfg, hlpm⟩ := hf₁ k (.inr hk)
      exact .prune hcfg (fun f => hlpm _ (by simp)) fun f => hlpm _ (by simp)
  · exact List.mem_append_right a₃ (hmem hbottom)
  · rcases hbottom' with he | hm
    · rw [he]
      exact List.mem_append_right a₃ (hmem hfilled)
    · exact List.mem_append_left _ hm

end VoidGate
