import VoidGate.Actions

/-!
# Calls as sequences of actions

Each call of the control plane is taken apart into actions, with the condition
under which it takes each of them. The loops over `drop_all` visit exactly the
records that were listed at their start.
-/

namespace VoidGate

open RingLists

variable {env : Env} {ok : VgCtrl → Act → Prop} {c : VgCtrl}

theorem forEachSafe_eq_foldl {body : VgCtrl → ℕ → VgCtrl}
    (hbody : ∀ c i, (body c i).drops = c.drops ∨ (body c i).drops = c.drops.lift i)
    {k : ℕ} {past rest F : List ℕ} {l : ListNode} (h : c.drops.Inv [] (past ++ rest) F)
    (hl : l = (rest.map ListNode.all).headD .dropAll) (hk : rest.length ≤ k) :
    forEachSafe body k c l = rest.foldl body c := by
  induction rest generalizing c k past F l with
  | nil =>
    obtain rfl : l = .dropAll := hl
    cases k <;> rfl
  | cons i rest ih =>
    obtain rfl : l = .all i := hl
    obtain ⟨k, rfl⟩ : ∃ k', k = k' + 1 := ⟨k - 1, by simp at hk; omega⟩
    have hring : Path c.drops.lists .dropAll (past.map .all ++ .all i :: rest.map .all) .dropAll := by
      simpa using h.allRing.path
    have hnext := (path_append.mp hring).2.next_eq
    have hdn := h.listed_nodup
    have hip : i ∉ past := fun hm => (List.nodup_append.mp hdn).2.2 i hm i (by simp) rfl
    have hk' : rest.length ≤ k := Nat.le_of_succ_le_succ hk
    simp only [forEachSafe, DropTable.entry, List.foldl_cons]
    rcases hbody c i with hb | hb
    · have h' : (body c i).drops.Inv [] ((past ++ [i]) ++ rest) F := by simpa [hb] using h
      exact ih h' hnext hk'
    · have h' := h.lift (i := i) (by simp)
      rw [List.erase_append_right _ hip, List.erase_cons_head, ← hb] at h'
      exact ih h' hnext hk'

theorem forEachDrop_eq_foldl {body : VgCtrl → ℕ → VgCtrl} (hok : c.drops.Ok)
    (hbody : ∀ c i, (body c i).drops = c.drops ∨ (body c i).drops = c.drops.lift i) :
    forEachDrop body c = c.drops.listed.foldl body c := by
  obtain ⟨L, F, h⟩ := hok
  have hL : c.drops.Inv [] ([] ++ L) F := h
  rw [forEachDrop, h.listed_eq]
  exact forEachSafe_eq_foldl hbody hL h.allRing.path.next_eq h.listed_length_le

theorem dropRemove_drops (env : Env) (c : VgCtrl) (i : ℕ) :
    (dropRemove env c i).1.drops = c.drops ∨ (dropRemove env c i).1.drops = c.drops.lift i := by
  rcases dropRemove_cases env c i with ⟨-, he⟩ | ⟨-, he⟩
  · exact .inl (by rw [he])
  · exact .inr (by rw [he])

/-- A loop whose body lifts its record or does nothing is a sequence of lifts. The property `I`
of the states in between is there to justify them. -/
theorem forEachDrop_trace {body : VgCtrl → ℕ → VgCtrl} {I : VgCtrl → Prop} (hok : c.drops.Ok)
    (hI : I c) (hkeep : ∀ c i, I c → I (dropRemove env c i).1)
    (hbody : ∀ c i, body c i = c ∨ body c i = (dropRemove env c i).1)
    (hlift : ∀ c i, I c → body c i ≠ c → ok c (.lift i)) :
    Trace env ok c (forEachDrop body c) := by
  have hdrops : ∀ c i, (body c i).drops = c.drops ∨ (body c i).drops = c.drops.lift i := by
    intro c i
    rcases hbody c i with he | he
    · exact .inl (by rw [he])
    · exact he ▸ dropRemove_drops env c i
  rw [forEachDrop_eq_foldl hok hdrops]
  obtain ⟨L, F, h⟩ := hok
  rw [h.listed_eq]
  -- the records still to be visited are listed, whatever was lifted before them
  suffices ∀ rest L F : List ℕ, c.drops.Inv [] L F → I c → rest.Nodup → (∀ i ∈ rest, i ∈ L) →
      Trace env ok c (rest.foldl body c) from this L L F h hI h.listed_nodup fun _ hi => hi
  intro rest
  clear h hI
  induction rest generalizing c with
  | nil => exact fun _ _ _ _ _ _ => .refl
  | cons i rest ih =>
    intro L F h hI hd hmem
    obtain ⟨hi, hd'⟩ := List.nodup_cons.mp hd
    have hiL : i ∈ L := hmem i (by simp)
    rw [List.foldl_cons]
    by_cases hid : body c i = c
    · rw [hid]
      exact ih L F h hI hd' fun j hj => hmem j (List.mem_cons_of_mem _ hj)
    · have he := (hbody c i).resolve_left hid
      have hstep : Trace env ok c (body c i) := by
        rw [he]
        exact (Micro.lift (by rwa [h.listed_eq])).trace (hlift c i hI hid)
      have hI' : I (body c i) := he ▸ hkeep c i hI
      refine hstep.trans ?_
      rcases hdrops c i with hsame | hlifted
      · exact ih L F (by rwa [hsame]) hI' hd' fun j hj => hmem j (List.mem_cons_of_mem _ hj)
      · refine ih (L.erase i) (F ++ [i]) (by rw [hlifted]; exact h.lift hiL) hI' hd' fun j hj => ?_
        refine h.listed_nodup.mem_erase_iff.mpr ⟨fun he => hi (he ▸ hj), ?_⟩
        exact hmem j (List.mem_cons_of_mem _ hj)

/-- The actions of a drop of `p`. -/
def DropAct (p : VgCidr) (reason : Reason) (_ : VgCtrl) : Act → Prop
  | .books => True
  | .arm => True
  | .drop p' reason' => p' = p ∧ reason' = reason
  | _ => False

/-- The actions of an undrop of `p`. -/
def UndropAct (p : VgCidr) (c : VgCtrl) : Act → Prop
  | .lift i => (c.drops.pool i).cidr.key = p.key
  | .stray p' => p' = p
  | _ => False

def PruneAct (c : VgCtrl) : Act → Prop
  | .lift i => vgCidrIsProtected c.cfg (c.drops.pool i).cidr = true
  | _ => False

/-- The actions of a visit of `host`. -/
def VisitAct (host : VgCidr) (_ : VgCtrl) : Act → Prop
  | .books => True
  | .arm => True
  | .drop p reason =>
    (p = host ∧ reason = .policy) ∨ (aggregateNet host = some p ∧ reason = .aggregate)
  | _ => False

/-- The actions of a tick whose first clock reading has the number `lo`: records are lifted when
a reading of this tick is past their time, and a disarm finds the list empty. -/
def TickAct (env : Env) (lo : ℕ) (c : VgCtrl) : Act → Prop
  | .books => True
  | .arm => True
  | .drop p reason => p.Masked ∧ (reason = .policy ∨ reason = .aggregate)
  | .lift i => ∃ k, lo ≤ k ∧ k < c.clock ∧ inForce c.cfg (c.drops.pool i) (env.wall k) = false
  | .disarm => c.drops.count = 0
  | _ => False

theorem vgCtrlArm_trace (hok : ok c .arm) : Trace env ok c (vgCtrlArm env c).1 := by
  cases hs : c.state with
  | active =>
    rw [vgCtrlArm, if_pos hs]
    exact .refl
  | idle => exact (Micro.arm hs).trace hok

private theorem vgCtrlArm_ok (h : (vgCtrlArm env c).2 = true) :
    (vgCtrlArm env c).1.state = .active ∧ (vgCtrlArm env c).1.cfg = c.cfg := by
  cases hs : c.state with
  | active =>
    rw [vgCtrlArm, if_pos hs]
    exact ⟨hs, rfl⟩
  | idle =>
    have he := vgCtrlArm_idle env hs
    rw [he] at h ⊢
    exact ⟨if_pos h, rfl⟩

private theorem dropAt_trace (env : Env) (c : VgCtrl) (p : VgCidr) (reason : Reason) (expires now : ℤ) :
    Trace env (DropAct p reason) c (dropAt env c p reason expires now).1 := by
  have harm : Trace env (DropAct p reason) c (vgCtrlArm env c).1 := vgCtrlArm_trace trivial
  simp only [dropAt]
  split_ifs with hp ha
  · exact .refl
  · obtain ⟨hs, hcfg⟩ := vgCtrlArm_ok ha
    rw [Bool.not_eq_true, ← hcfg] at hp
    exact harm.trans ((Micro.drop hs hp).trace ⟨rfl, rfl⟩)
  · exact harm

theorem dropAdd_trace (env : Env) (c : VgCtrl) (p : VgCidr) (reason : Reason) (expires : ℤ) :
    Trace env (DropAct p reason) c (dropAdd env c p reason expires).1 := by
  have hclock : Trace env (DropAct p reason) c { c with clock := c.clock + 1 } :=
    .books ⟨rfl, rfl, rfl, rfl, rfl, rfl, Nat.le_succ _⟩ trivial
  exact hclock.trans (dropAt_trace env _ p reason expires _)

theorem vgCtrlDropTtl_trace (env : Env) (c : VgCtrl) (p : VgCidr) (ttl : ℕ) :
    Trace env (DropAct p .timed) c (vgCtrlDropTtl env c p ttl).1 := by
  have hclock : Trace env (DropAct p .timed) c { c with clock := c.clock + 1 } :=
    .books ⟨rfl, rfl, rfl, rfl, rfl, rfl, Nat.le_succ _⟩ trivial
  exact hclock.trans (dropAdd_trace env _ p .timed _)

theorem vgCtrlUndrop_trace (h : c.drops.Ok) (p : VgCidr) :
    Trace env (UndropAct p) c (vgCtrlUndrop env c p).1 := by
  rw [vgCtrlUndrop]
  cases hf : c.drops.dropsFind p with
  | none => exact (Micro.stray hf).trace rfl
  | some i =>
    obtain ⟨hi, -, hk⟩ := h.dropsFind_some hf
    exact (Micro.lift hi).trace hk

theorem vgCtrlPruneProtected_trace (h : c.drops.Ok) :
    Trace env PruneAct c (vgCtrlPruneProtected env c) := by
  refine forEachDrop_trace (I := fun _ => True) h trivial (fun _ _ _ => trivial) ?_ ?_
  · intro c i
    rw [pruneOne]
    split_ifs
    · exact .inr rfl
    · exact .inl rfl
  · intro c i _ hne
    rw [pruneOne] at hne
    by_contra hp
    exact hne (if_neg hp)

private theorem dropRemove_clock (env : Env) (c : VgCtrl) (i : ℕ) :
    (dropRemove env c i).1.clock = c.clock := by
  rcases dropRemove_cases env c i with ⟨-, he⟩ | ⟨-, he⟩ <;> rw [he]

theorem expireDrops_lifts (h : c.drops.Ok) (hbooks : ok c .books)
    (hlift : ∀ x i, c.clock < x.clock →
      inForce x.cfg (x.drops.pool i) (env.wall c.clock) = false → ok x (.lift i)) :
    Trace env ok c (expireDrops env c) := by
  have hclock : Trace env ok c { c with clock := c.clock + 1 } :=
    .books ⟨rfl, rfl, rfl, rfl, rfl, rfl, Nat.le_succ _⟩ hbooks
  refine hclock.trans ?_
  refine forEachDrop_trace (I := fun x => c.clock < x.clock) h (Nat.lt_succ_self _) ?_ ?_ ?_
  · exact fun x i hx => by rwa [dropRemove_clock]
  · intro x i
    rw [expireOne]
    split_ifs
    · exact .inl rfl
    · exact .inr rfl
  · intro x i hx hne
    refine hlift x i hx ?_
    rw [expireOne] at hne
    by_contra hf
    exact hne (if_pos (by simpa using hf))

theorem expireDrops_trace (h : c.drops.Ok) {lo : ℕ} (hlo : lo ≤ c.clock) :
    Trace env (TickAct env lo) c (expireDrops env c) :=
  expireDrops_lifts h trivial fun _ _ hx hf => ⟨c.clock, hlo, hx, hf⟩

theorem aggregateNet_masked {host net : VgCidr} (hh : host.Masked)
    (h : aggregateNet host = some net) : net.Masked := by
  rw [aggregateNet] at h
  split at h
  · exact masked_vgCidrV4Slash24 hh h
  · exact masked_vgCidrV6Slash64 hh h

/-- A drop made by a visit. -/
theorem visitDrop_trace (env : Env) (c : VgCtrl) {host p : VgCidr} {reason : Reason}
    (hd : VisitAct host c (.drop p reason)) :
    Trace env (VisitAct host) c (vgCtrlDrop env c p reason).1 := by
  refine (dropAdd_trace env c p reason 0).mono fun c a ha => ?_
  cases a with
  | books => trivial
  | arm => trivial
  | drop p' reason' =>
    obtain ⟨rfl, rfl⟩ := ha
    exact hd
  | _ => exact ha.elim

theorem quietStart_books (env : Env) (c : VgCtrl) : Books c (quietStart env c) := by
  rw [quietStart]
  split_ifs
  · exact ⟨rfl, rfl, rfl, rfl, rfl, rfl, Nat.le_succ _⟩
  · exact ⟨rfl, rfl, rfl, rfl, rfl, rfl, le_rfl⟩

theorem tickDt_books (c : VgCtrl) (now : Timespec) : Books c (tickDt c now).1 := by
  rw [tickDt]
  split_ifs <;> exact ⟨rfl, rfl, rfl, rfl, rfl, rfl, le_rfl⟩

theorem updateRates_books (c : VgCtrl) (m : VgMetrics) (dt : ℚ) : Books c (updateRates c m dt) := by
  simp only [updateRates]
  split_ifs <;> exact ⟨rfl, rfl, rfl, rfl, rfl, rfl, le_rfl⟩

end VoidGate
