import VoidGate.CallTraces

/-!
# One call of `drop_add`

What comes before the list in a drop: the reading of the clock, the refusal of what is
protected, and the arming of an idle gate.
-/

namespace VoidGate

variable {env : Env} {c : VgCtrl} {p : VgCidr} {reason : Reason} {expires now : ℤ}

/-- The gate once it is armed: an idle one has committed the array entry and starts over with its
snapshots. -/
def VgCtrl.armed (c : VgCtrl) : VgCtrl :=
  if c.state = .active then c
  else { c with
    snaps := c.snaps.snapResetPool
    quietSince := 0
    maps := c.maps.wrote { c.maps.kernel with cfg := cfgEntry 1 c.cfg }
    state := .active }

def VgCtrl.armFailed (c : VgCtrl) : VgCtrl :=
  { c with
    snaps := c.snaps.snapResetPool
    quietSince := 0
    maps := c.maps.wrote c.maps.kernel }

/-- The commit of an idle gate fails. -/
def ArmFails (env : Env) (c : VgCtrl) : Prop := c.state = .idle ∧ env.fault c.maps.writes = true

instance (env : Env) (c : VgCtrl) : Decidable (ArmFails env c) :=
  inferInstanceAs (Decidable (_ ∧ _))

theorem vgCtrlArm_eq (env : Env) (c : VgCtrl) : vgCtrlArm env c =
    if ArmFails env c then (c.armFailed, false) else (c.armed, true) := by
  cases hs : c.state with
  | active =>
    have hno : ¬ ArmFails env c := fun h => by simp [h.1] at hs
    rw [vgCtrlArm, if_pos hs, if_neg hno, VgCtrl.armed, if_pos hs]
  | idle =>
    have hidle : c.state ≠ .active := by simp [hs]
    rw [vgCtrlArm, if_neg hidle, vgCfgCommit]
    cases hf : env.fault c.maps.writes with
    | true =>
      rw [if_pos (show ArmFails env c from ⟨hs, hf⟩)]
      rfl
    | false =>
      rw [if_neg fun h : ArmFails env c => by simp [h.2] at hf, VgCtrl.armed, if_neg hidle]
      rfl

@[simp] theorem VgCtrl.armed_drops (c : VgCtrl) : c.armed.drops = c.drops := by
  rw [armed]
  split_ifs <;> rfl

@[simp] theorem VgCtrl.armed_cfg (c : VgCtrl) : c.armed.cfg = c.cfg := by
  rw [armed]
  split_ifs <;> rfl

@[simp] theorem VgCtrl.armed_clock (c : VgCtrl) : c.armed.clock = c.clock := by
  rw [armed]
  split_ifs <;> rfl

@[simp] theorem VgCtrl.armed_lpm (c : VgCtrl) : c.armed.maps.kernel.lpm = c.maps.kernel.lpm := by
  rw [armed]
  split_ifs <;> rfl

@[simp] theorem VgCtrl.armed_state (c : VgCtrl) : c.armed.state = .active := by
  rw [armed]
  split_ifs with h
  · exact h
  · rfl

@[simp] theorem VgCtrl.armed_writes (c : VgCtrl) :
    c.armed.maps.writes = c.maps.writes + if c.state = .active then 0 else 1 := by
  rw [armed]
  split_ifs <;> rfl

theorem VgCtrl.armed_of_active (h : c.state = .active) : c.armed = c := if_pos h

/-- The state after a reading of the clock. -/
def VgCtrl.ticked (c : VgCtrl) : VgCtrl := { c with clock := c.clock + 1 }

private theorem dropAt_eq (env : Env) (c : VgCtrl) (p : VgCidr) (reason : Reason) (expires now : ℤ) :
    dropAt env c p reason expires now =
      if vgCidrIsProtected c.cfg p then (c, false)
      else if ArmFails env c then (c.armFailed, false)
      else dropListed env c.armed p reason expires now := by
  rw [dropAt, vgCtrlArm_eq]
  cases vgCidrIsProtected c.cfg p with
  | true => rfl
  | false =>
    by_cases hf : ArmFails env c
    · simp [hf]
    · simp [hf]

theorem dropAdd_eq (env : Env) (c : VgCtrl) (p : VgCidr) (reason : Reason) (expires : ℤ) :
    dropAdd env c p reason expires =
      if vgCidrIsProtected c.cfg p then (c.ticked, false)
      else if ArmFails env c then (c.ticked.armFailed, false)
      else dropListed env c.ticked.armed p reason expires (env.wall c.clock) :=
  dropAt_eq env c.ticked p reason expires (env.wall c.clock)

@[simp] theorem dropAdd_clock (env : Env) (c : VgCtrl) (p : VgCidr) (reason : Reason) (expires : ℤ) :
    (dropAdd env c p reason expires).1.clock = c.clock + 1 := by
  rw [dropAdd_eq]
  split_ifs
  · rfl
  · rfl
  · obtain ⟨maps, drops, he⟩ :=
      dropListed_frame env c.ticked.armed p reason expires (env.wall c.clock)
    rw [he]
    exact VgCtrl.armed_clock _

end VoidGate
