import VoidGate.Sweeps

/-!
# The prune of a reload

After the swap of the configuration a reload sweeps the listed drops that the new
configuration protects off the list. A record stays listed exactly when it is not
protected or its delete failed.
-/

namespace VoidGate

variable {env : Env} {c : VgCtrl}

/-- The listed prefixes that the running configuration protects. -/
def VgCtrl.exposed (c : VgCtrl) : List VgCidr :=
  c.drops.prefixes.filter (vgCidrIsProtected c.cfg)

/-- The records that are left when the deletes start with write number `w`. -/
def survivors (env : Env) (cfg : VgConfig) (w : ℕ) (rs : List VgDropRec) : List VgDropRec :=
  keptFrom env.fault (fun r => vgCidrIsProtected cfg r.cidr) w rs

/-- The prune deletes the protected prefixes from the kernel and keeps the records that are not
protected or whose delete failed. -/
theorem vgCtrlPruneProtected_eq (h : c.drops.Ok) : ∃ d, vgCtrlPruneProtected env c =
      { c with
        maps := dropDels env c.maps c.exposed
        drops := d } ∧
    d.Ok ∧ d.records = survivors env c.cfg c.maps.writes c.drops.records := by
  obtain ⟨L, F, hinv⟩ := h
  obtain ⟨heq, hpool, hinv'⟩ : Swept env _ c [] L F (vgCtrlPruneProtected env c) :=
    forEachDrop_sweepOne (fun cfg r => vgCidrIsProtected cfg r.cidr) hinv
  have hexposed : c.exposed = ((L.map c.drops.pool).filter
      fun r => vgCidrIsProtected c.cfg r.cidr).map VgDropRec.cidr := by
    rw [VgCtrl.exposed, DropTable.prefixes, hinv.records_eq, List.filter_map]
    rfl
  refine ⟨_, hexposed ▸ heq, ⟨_, _, hinv'⟩, ?_⟩
  rw [hinv'.records_eq, hinv.records_eq, hpool, survivors, List.nil_append, ← map_keptFrom]

theorem survivors_of_ok (env : Env) (cfg : VgConfig) (w : ℕ) (rs : List VgDropRec)
    (hok : ∀ j, w ≤ j → env.fault j = false) :
    survivors env cfg w rs = rs.filter fun r => !vgCidrIsProtected cfg r.cidr := by
  rw [survivors, (keptFrom_eq_filter fun j _ _ => hok (w + j) (Nat.le_add_right _ _)).1]
  simp

theorem length_filter_protected (cfg : VgConfig) (rs : List VgDropRec) :
    ((rs.map VgDropRec.cidr).filter (vgCidrIsProtected cfg)).length =
      (rs.filter fun r => vgCidrIsProtected cfg r.cidr).length := by
  rw [List.filter_map, List.length_map]
  rfl

theorem survivors_unprotected_iff (env : Env) (cfg : VgConfig) (w : ℕ) (rs : List VgDropRec) :
    (∀ r ∈ survivors env cfg w rs, vgCidrIsProtected cfg r.cidr = false) ↔
      ∀ j < ((rs.map VgDropRec.cidr).filter (vgCidrIsProtected cfg)).length,
        env.fault (w + j) = false := by
  rw [length_filter_protected]
  exact keptFrom_not_due_iff

theorem survivors_eq_self_iff (env : Env) (cfg : VgConfig) (w : ℕ) (rs : List VgDropRec) :
    survivors env cfg w rs = rs ↔
      ∀ j < ((rs.map VgDropRec.cidr).filter (vgCidrIsProtected cfg)).length,
        env.fault (w + j) = true := by
  rw [length_filter_protected]
  exact keptFrom_eq_self_iff

end VoidGate
