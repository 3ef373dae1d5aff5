import VoidGate.DropCapacity
import VoidGate.RemoteRates

/-!
# The entries of the drop maps

The entry that `vg_drop_add` writes under a prefix has the reason and the time of the
drop, like the record of the prefix. A drop of a listed prefix always writes the entry,
but only a manual or a timed one also writes the record.
-/

namespace VoidGate

variable {env : Env} {c c' : VgCtrl} {p q : VgCidr} {reason : Reason} {expires now : ℤ}
  {v : MapValue}

/-- Every listed drop has an entry under its prefix, with its reason and its insert time in 32
bits. -/
def EntriesMirror (c : VgCtrl) : Prop :=
  ∀ r ∈ c.drops.records, (r.cidr, .dropEntry r.reason (stamp r.inserted)) ∈
    (c.maps.kernel.lpm (.drop r.cidr.family)).entries

/-- A drop for this reason leaves no record that differs from the entry it writes: it writes the
record too, or there is none, or one of the same reason and time. -/
def WritesAlike (t : DropTable) (p : VgCidr) (reason : Reason) (now : ℤ) : Prop :=
  ∀ r ∈ t.records, r.cidr.key = p.key →
    reason = .manual ∨ reason = .timed ∨ (r.reason = reason ∧ stamp r.inserted = stamp now)

/-- The condition on a call; a timed drop always meets it. -/
def KeepsEntry (env : Env) (c : VgCtrl) : ListCall → Prop
  | .drop p reason => WritesAlike c.drops p reason (env.wall c.clock)
  | _ => True

inductive GateStep (env : Env) (ok : VgCtrl → ListCall → Prop) : VgCtrl → VgCtrl → Prop where
  | call {c c' : VgCtrl} {call : ListCall} (masked : call.Masked) (permitted : ok c call)
      (h : CallStep env call c c') : GateStep env ok c c'
  | reload {c : VgCtrl} (file : ConfigFile) (nic : Option (List IfAddr)) :
      GateStep env ok c (vgCtrlReload env c file nic).1

def GateRun (env : Env) (ok : VgCtrl → ListCall → Prop) : VgCtrl → VgCtrl → Prop :=
  Relation.ReflTransGen (GateStep env ok)

theorem mem_entries_dropUpdated {k : Kernel} (hp : p.Masked) (hq : q.Masked) :
    (q, v) ∈ ((dropUpdated env k p reason now).lpm (.drop q.family)).entries ↔
      if q = p then v = .dropEntry reason (stamp now)
      else (q, v) ∈ (k.lpm (.drop q.family)).entries := by
  rw [dropUpdated]
  by_cases hf : q.family = p.family
  · rw [hf, Kernel.setLpm_self, Lpm.mem_update, Prod.mk.injEq, ← Bool.not_eq_true,
      sameKey_masked_iff hp hq hf.symm]
    by_cases he : q = p
    · simp [he]
    · simp [he, Ne.symm he]
  · have hne : q ≠ p := fun he => hf (by rw [he])
    rw [Kernel.setLpm_ne _ _ (by simpa using hf), if_neg hne]

theorem mem_entries_dropDel {m : VgMaps} (hp : p.Masked) (hq : q.Masked) (hne : q ≠ p)
    (h : (q, v) ∈ (m.kernel.lpm (.drop q.family)).entries) :
    (q, v) ∈ ((vgDropDel env m p).1.kernel.lpm (.drop q.family)).entries := by
  rw [vgDropDel, lpmDelete_kernel]
  split_ifs
  · exact h
  · by_cases hf : q.family = p.family
    · rw [hf] at h ⊢
      rw [Kernel.setLpm_self, Lpm.mem_erase, ← Bool.not_eq_true, sameKey_masked_iff hp hq hf.symm]
      exact ⟨h, Ne.symm hne⟩
    · rwa [Kernel.setLpm_ne _ _ (by simpa using hf)]

private theorem DropOutcome.entriesMirror (hout : DropOutcome env c p reason expires now c')
    (hs : Sound c) (hs' : Sound c') (hp : p.Masked) (h : EntriesMirror c)
    (halike : WritesAlike c.drops p reason now) : EntriesMirror c' := by
  intro x hx
  have hmask : x.cidr.Masked := hs'.masked _ (List.mem_map_of_mem hx)
  cases hout with
  | kept hr hk =>
    rw [hk]
    exact h x (hr ▸ hx)
  | listed hnew hr hk =>
    rw [hk, mem_entries_dropUpdated hp hmask]
    rw [hr] at hx
    rcases List.mem_append.mp hx with hx | hx
    · rw [if_neg fun he => hnew x hx (by rw [he])]
      exact h x hx
    · obtain rfl := List.mem_singleton.mp hx
      rw [if_pos rfl]
  | rewritten r r' hmem hkey hcidr _ hr hk =>
    obtain rfl : r.cidr = p := hs.eq_of_key hmem hp hkey
    rw [hr] at hx
    obtain ⟨y, hy, rfl⟩ := List.mem_map.mp hx
    by_cases hyk : y.cidr.key = r.cidr.key
    · rw [if_pos hyk, hcidr] at hmask ⊢
      rcases hk with ⟨hk, rfl⟩ | ⟨hk, rfl⟩
      · rw [hk, rebase_reason, rebase_inserted]
        exact h r hmem
      · rw [hk, mem_entries_dropUpdated hp hmask, if_pos rfl, redropped_reason, redropped_inserted]
        split_ifs with htakes
        · rfl
        · obtain ⟨hreason, hstamp⟩ := (or_assoc.mpr (halike r hmem rfl)).resolve_left htakes
          rw [hreason, hstamp]
    · rw [if_neg hyk] at hmask ⊢
      have hne : y.cidr ≠ r.cidr := fun he => hyk (by rw [he])
      rcases hk with ⟨hk, -⟩ | ⟨hk, -⟩
      · rw [hk]
        exact h y hy
      · rw [hk, mem_entries_dropUpdated hp hmask, if_neg hne]
        exact h y hy

private theorem DropCase.writesAlike {out : VgCtrl × Bool} (hcase : DropCase env c p reason expires now out)
    (hs : Sound c) (hp : p.Masked) (hok : out.2 = true) (h : EntriesMirror out.1) :
    WritesAlike c.drops p reason now := by
  intro r hr hkey
  cases hcase with
  | full fresh _ _ => exact absurd hkey (fresh r hr)
  | refused _ fresh _ _ _ _ => exact absurd hkey (fresh r hr)
  | listed _ fresh _ _ _ _ => exact absurd hkey (fresh r hr)
  | manual _ _ _ htimed _ => exact .inr (.inl htimed)
  | again d x hmem hkey' hnot _ _ hrec =>
    have hf : env.fault c.maps.writes = false := by simpa using hok
    obtain rfl : x = r := hs.drops_ok.eq_of_key hmem hr (hkey'.trans hkey.symm)
    obtain rfl : x.cidr = p := hs.eq_of_key hr hp hkey
    have hx : redropped c.cfg x reason expires now ∈ d.records := by
      rw [hrec]
      refine List.mem_map.mpr ⟨x, hr, ?_⟩
      simp [hf]
    have hentry := h _ hx
    dsimp only at hentry
    rw [redropped_cidr, vgDropAdd_eq, hf] at hentry
    have hentry' := (mem_entries_dropUpdated hp hp).mp hentry
    rw [if_pos rfl, MapValue.dropEntry.injEq, redropped_reason, redropped_inserted] at hentry'
    by_cases htakes : reason = .manual ∨ reason = .timed
    · exact htakes.imp id .inl
    · rw [if_neg htakes, if_neg htakes] at hentry'
      exact .inr (.inr hentry')

structure Recorded (c : VgCtrl) : Prop extends Sound c where
  mirror : EntriesMirror c

theorem Micro.recorded {a : Act} (hm : Micro env a c c') (ha : a.Masked)
    (hno : ∀ p reason, a ≠ .drop p reason) (h : Recorded c) : Recorded c' := by
  refine ⟨hm.sound h.toSound ha, ?_⟩
  have hmask : ∀ r ∈ c.drops.records, r.cidr.Masked := fun r hr =>
    h.masked _ (List.mem_map_of_mem hr)
  cases hm with
  | books hb =>
    intro r hr
    rw [hb.maps]
    exact h.mirror r (hb.drops ▸ hr)
  | arm hs =>
    have he := vgCtrlArm_idle env hs
    rw [he, vgCfgCommit_eq]
    exact h.mirror
  | drop => exact absurd rfl (hno _ _)
  | @lift _ i hi =>
    have hp := hmask _ (DropTable.pool_mem_records hi)
    rcases dropRemove_cases env c i with ⟨hf, he⟩ | ⟨-, he⟩
    · rw [he]
      intro r hr
      rw [vgDropDel_fault _ hf]
      exact h.mirror r hr
    · rw [he]
      intro r hr
      obtain ⟨hr, hk⟩ := List.mem_filter.mp ((h.drops_ok.lift hi).2 ▸ hr)
      refine mem_entries_dropDel hp (hmask r hr) (fun he => ?_) (h.mirror r hr)
      exact of_decide_eq_true hk (by rw [he])
  | @stray _ q hf =>
    intro r hr
    refine mem_entries_dropDel ha (hmask r hr) (fun he => ?_) (h.mirror r hr)
    exact h.drops_ok.dropsFind_none hf r hr (by rw [he])
  | disarm =>
    intro r hr
    rw [vgCtrlDisarm_eq, h.drops_ok.reset.2] at hr
    cases hr
  | setCfg => exact h.mirror
  | commit =>
    intro r hr
    rw [vgCfgCommit_eq]
    exact h.mirror r hr
  | populate =>
    intro r hr
    rw [(vgPopulate_frame env c.maps c.cfg).2]
    exact h.mirror r hr

theorem Trace.recorded {ok : VgCtrl → Act → Prop} (ht : Trace env ok c c')
    (hok : ∀ x a, ok x a → a.Masked ∧ ∀ p reason, a ≠ .drop p reason) (h : Recorded c) :
    Recorded c' :=
  ht.invariant h fun x _ a hi ha hm => hm.recorded (hok x a ha).1 (hok x a ha).2 hi

theorem Recorded.of_eq (h : Recorded c) (hdrops : c'.drops = c.drops)
    (hlpm : c'.maps.kernel.lpm = c.maps.kernel.lpm) : Recorded c' := by
  refine ⟨⟨hdrops ▸ h.drops_ok, hdrops ▸ h.masked⟩, fun r hr => ?_⟩
  rw [hlpm]
  exact h.mirror r (hdrops ▸ hr)

theorem dropAdd_sound (h : Sound c) (hp : p.Masked) : Sound (dropAdd env c p reason expires).1 := by
  refine (dropAdd_trace env c p reason expires).invariant (I := Sound) h fun x x' a hx ha hm => ?_
  refine hm.sound hx ?_
  cases a with
  | drop q reason' => exact ha.1 ▸ hp
  | stray q => exact ha.elim
  | _ => trivial

/-- A drop that writes alike keeps the entries, and one that succeeds keeps them only so. -/
theorem Recorded.dropAdd (h : Recorded c) (hp : p.Masked) :
    (WritesAlike c.drops p reason (env.wall c.clock) →
      Recorded (dropAdd env c p reason expires).1) ∧
    ((dropAdd env c p reason expires).2 = true →
      EntriesMirror (dropAdd env c p reason expires).1 →
      WritesAlike c.drops p reason (env.wall c.clock)) := by
  have hsound : Sound (VoidGate.dropAdd env c p reason expires).1 := dropAdd_sound h.toSound hp
  have harmed : Recorded c.ticked.armed := h.of_eq (VgCtrl.armed_drops _) (VgCtrl.armed_lpm _)
  have hdrops : c.ticked.armed.drops = c.drops := VgCtrl.armed_drops _
  rw [dropAdd_eq] at hsound ⊢
  split_ifs at hsound ⊢
  · exact ⟨fun _ => h.of_eq rfl rfl, fun hok => by cases hok⟩
  · exact ⟨fun _ => h.of_eq rfl rfl, fun hok => by cases hok⟩
  · rw [← hdrops]
    refine ⟨fun halike => ⟨hsound, ?_⟩, fun hok hmirror => ?_⟩
    · exact (dropListed_outcome harmed.drops_ok _ _ _ _).2.entriesMirror harmed.toSound hsound hp
        harmed.mirror halike
    · exact (dropListed_case harmed.drops_ok _ _ _ _).writesAlike harmed.toSound hp hok hmirror

private theorem writesAlike_timed (t : DropTable) (p : VgCidr) (now : ℤ) : WritesAlike t p .timed now :=
  fun _ _ _ => .inr (.inl rfl)

theorem CallStep.recorded {call : ListCall} (hstep : CallStep env call c c') (hmask : call.Masked)
    (hkeep : KeepsEntry env c call) (h : Recorded c) : Recorded c' := by
  by_cases hd : ∃ p reason, call.Drops p reason
  · obtain ⟨p, reason, rfl | ⟨ttl, rfl, rfl⟩⟩ := hd
    · cases hstep
      exact (h.dropAdd hmask).1 hkeep
    · cases hstep
      have hticked : Recorded c.ticked := h.of_eq rfl rfl
      exact (hticked.dropAdd hmask).1 (writesAlike_timed _ _ _)
  · refine (hstep.trace h.drops_ok).recorded (fun x a ha => ⟨?_, fun p reason he => ?_⟩) h
    · cases a with
      | drop p reason => exact absurd ⟨p, reason, ha⟩ hd
      | stray p =>
        obtain rfl : call = .undrop p := ha
        exact hmask
      | _ => trivial
    · rw [he] at ha
      exact hd ⟨p, reason, ha⟩

private theorem vgCtrlReload_recorded (h : Recorded c) (file : ConfigFile) (nic : Option (List IfAddr)) :
    Recorded (vgCtrlReload env c file nic).1 := by
  refine (vgCtrlReload_trace h.drops_ok file nic).recorded (fun x a ha => ⟨ha.masked, ?_⟩) h
  rintro p reason rfl
  simp [CmdAct, ReloadAct] at ha

theorem GateRun.recorded (hrun : GateRun env (KeepsEntry env) c c') (h : Recorded c) :
    Recorded c' := by
  induction hrun with
  | refl => exact h
  | tail _ hstep ih =>
    cases hstep with
    | call hmask hkeep hcall => exact hcall.recorded hmask hkeep ih
    | reload file nic => exact vgCtrlReload_recorded ih file nic

theorem TickCall.masked {call : ListCall} (h : TickCall c call) : call.Masked := by
  cases call with
  | drop p reason => exact h.1
  | dropTtl p ttl => exact h.elim
  | undrop p => exact h.elim
  | _ => trivial

private theorem step_gateRun (env : Env) (c : VgCtrl) (cmd : Cmd) :
    GateRun env (fun _ _ => True) c (step env c cmd) := by
  have hcall : ∀ {x : VgCtrl} {call : ListCall}, CallStep env call c x → call.Masked →
      GateRun env (fun _ _ => True) c x := fun hstep hmask => .single (.call hmask trivial hstep)
  cases cmd with
  | drop p => exact hcall CallStep.drop p.2
  | dropTtl p ttl => exact hcall CallStep.dropTtl p.2
  | undrop p => exact hcall CallStep.undrop p.2
  | arm => exact hcall CallStep.arm trivial
  | disarm => exact hcall CallStep.disarm trivial
  | reload file nic => exact .single (.reload file nic)
  | tick t =>
    refine Relation.ReflTransGen.mono (fun x x' ⟨call, ht, hstep⟩ => ?_) _ _
      (vgCtrlTick_calls env c t)
    exact .call ht.masked trivial hstep

/-- In every run whose policy and aggregate drops meet no record that differs from what they write,
and whatever writes fail, the entry of each listed drop has its reason and its insert time. Every
command is made of such calls, and a drop that succeeds keeps it so exactly if it is of this
kind. -/
theorem entries_mirror_records {c₀ c : VgCtrl} {cfgPath : List UInt8}
    {ifaceOv : Option (List UInt8)} {file : ConfigFile} {nic : Option (List IfAddr)}
    (hstart : startUp env cfgPath ifaceOv file nic = some c₀)
    (hrun : GateRun env (KeepsEntry env) c₀ c) :
    EntriesMirror c ∧ (∀ cmd, GateRun env (fun _ _ => True) c (step env c cmd)) ∧
      ∀ p reason, p.Masked → (vgCtrlDrop env c p reason).2 = true →
        (EntriesMirror (vgCtrlDrop env c p reason).1 ↔ KeepsEntry env c (.drop p reason)) := by
  obtain ⟨hinit, -⟩ := startUp_initial hstart
  have h₀ : Recorded c₀ := ⟨hinit.sound, fun r hr => by rw [hinit.records] at hr; cases hr⟩
  have h := hrun.recorded h₀
  refine ⟨h.mirror, step_gateRun env c, fun p reason hp hok => ?_⟩
  exact ⟨(h.dropAdd hp).2 hok, fun hkeep => ((h.dropAdd hp).1 hkeep).mirror⟩

/-- A policy drop of a host and then a manual one, which takes over both. -/
theorem entries_mirror_records_sample : ∃ c,
    GateRun steadyEnv (KeepsEntry steadyEnv) steadyStart c ∧
      c.drops.records.map (fun r => (r.reason, r.inserted)) = [(.manual, 1000001)] ∧
      EntriesMirror c := by
  have hnil : steadyStart.drops.records = [] := (startUp_initial steadyStart_eq).1.records
  have hnew : KeepsEntry steadyEnv steadyStart (.drop (sampleHost [198, 18, 0, 1]).1 .policy) := by
    intro r hr
    rw [hnil] at hr
    cases hr
  have hmanual : KeepsEntry steadyEnv
      (vgCtrlDrop steadyEnv steadyStart (sampleHost [198, 18, 0, 1]).1 .policy).1
      (.drop (sampleHost [198, 18, 0, 1]).1 .manual) := fun _ _ _ => .inl rfl
  have hmask : (sampleHost [198, 18, 0, 1]).1.Masked := (sampleHost [198, 18, 0, 1]).2
  have hrun : GateRun steadyEnv (KeepsEntry steadyEnv) steadyStart _ :=
    (Relation.ReflTransGen.single (GateStep.call (by exact hmask) hnew CallStep.drop)).tail
      (GateStep.call (by exact hmask) hmanual CallStep.drop)
  exact ⟨_, hrun, by decide +kernel, (entries_mirror_records steadyStart_eq hrun).1⟩

/-- A host is dropped by hand and floods: the policy drops it again. Its record is still manual,
of the first second, and its entry says policy. -/
theorem redrop_rewrites_entry : ∃ c, Reachable steadyEnv c ∧
    c.drops.records.map (fun r => (r.reason, r.inserted)) = [(.manual, 1000000)] ∧
    (c.maps.kernel.lpm (.drop .inet)).entries =
      [((sampleHost [192, 0, 2, 7]).1, .dropEntry .policy 1000003)] ∧ ¬ EntriesMirror c := by
  have hrun : Runs.Reaches (step steadyEnv) (fun _ _ => True) steadyStart _ :=
    (((Runs.Reaches.start.next (.drop (sampleHost [192, 0, 2, 7])) trivial).next
      (.tick (tickAt 0 0 true)) trivial).next (.tick (tickAt 1 0 true)) trivial).next
      (.tick (tickAt 2 600 true)) trivial
  refine ⟨_, ⟨_, _, _, _, _, steadyStart_eq, hrun⟩, by decide +kernel, by decide +kernel, ?_⟩
  rw [EntriesMirror]
  decide +kernel

end VoidGate
