import VoidGate.CtlServer

/-!
# Agreement with the kernel

Two relations between the controller and the maps that the data plane reads, over
runs in which any kernel write may fail: the `armed` flag follows the state of the
gate, and the drop maps hold exactly the listed prefixes. The second one needs the
deletes of a disarm to succeed, because a disarm forgets the list whatever they do.
-/

namespace VoidGate

open Runs

variable {env : Env} {c c' : VgCtrl}

/-- The kernel is armed exactly when the gate is active, and drops are listed only then. -/
structure GateAgrees (c : VgCtrl) : Prop where
  armed : c.maps.kernel.cfg.armed = 1 ↔ c.state = .active
  listed : 0 < c.drops.count → c.state = .active

@[simp] theorem dropRemove_kernel_cfg (env : Env) (c : VgCtrl) (i : ℕ) :
    (dropRemove env c i).1.maps.kernel.cfg = c.maps.kernel.cfg := by
  have hdel := vgDropDel_kernel_cfg env c.maps (c.drops.pool i).cidr
  rcases dropRemove_cases env c i with ⟨-, he⟩ | ⟨-, he⟩ <;> rw [he] <;> exact hdel

theorem DropOutcome.kernel_cfg {p : VgCidr} {reason : Reason} {expires now : ℤ}
    (h : DropOutcome env c p reason expires now c') :
    c'.maps.kernel.cfg = c.maps.kernel.cfg := by
  cases h with
  | kept _ hk => rw [hk]
  | listed _ _ hk =>
    rw [hk]
    rfl
  | rewritten _ _ _ _ _ _ _ hk =>
    rcases hk with ⟨hk, -⟩ | ⟨hk, -⟩
    · rw [hk]
    · rw [hk]
      rfl

theorem GateAgrees.arm (h : GateAgrees c) (hs : c.state = .idle) : GateAgrees (vgCtrlArm env c).1 := by
  have he := vgCtrlArm_idle env hs
  rw [he, vgCfgCommit_eq]
  cases hf : env.fault c.maps.writes with
  | true =>
    refine ⟨?_, fun hc => ?_⟩
    · simpa [hf, hs] using h.armed
    · simpa [hs] using h.listed hc
  | false => exact ⟨by simp [cfgEntry], fun _ => by simp⟩

/-- A disarm whose commit fails leaves the flag and the state, without drops. -/
theorem GateAgrees.disarm (h : GateAgrees c) : GateAgrees (vgCtrlDisarm env c).1 := by
  obtain ⟨hcfg, -⟩ := vgDropFlush_frame env c.maps
  have hcount : ¬ 0 < c.drops.dropsReset.count := by simp [DropTable.dropsReset]
  rw [vgCtrlDisarm_eq, vgCfgCommit_eq]
  cases hf : env.fault (vgDropFlush env c.maps).writes with
  | true =>
    refine ⟨?_, fun hc => absurd hc hcount⟩
    simpa [hf, hcfg] using h.armed
  | false => exact ⟨by simp [cfgEntry], fun hc => absurd hc hcount⟩

theorem Micro.gateAgrees {a : Act} (hm : Micro env a c c') (hok : c.drops.Ok)
    (h : GateAgrees c) : GateAgrees c' := by
  cases hm with
  | books hb =>
    constructor
    · rw [hb.maps, hb.state]
      exact h.armed
    · rw [hb.drops, hb.state]
      exact h.listed
  | arm hs => exact h.arm hs
  | @drop _ p reason expires now hs hp =>
    obtain ⟨maps, drops, he⟩ := dropListed_frame env c p reason expires now
    have hout : DropOutcome env c p reason expires now _ := (dropListed_outcome hok _ _ _ _).2
    have hstate : (dropListed env c p reason expires now).1.state = c.state := by rw [he]
    refine ⟨?_, fun _ => hstate.trans hs⟩
    rw [hout.kernel_cfg, hstate]
    exact h.armed
  | @lift _ i hi =>
    have hcfg := dropRemove_kernel_cfg env c i
    rcases dropRemove_cases env c i with ⟨-, he⟩ | ⟨-, he⟩
    · rw [he] at hcfg ⊢
      exact ⟨hcfg ▸ h.armed, h.listed⟩
    · rw [he] at hcfg ⊢
      refine ⟨hcfg ▸ h.armed, fun hc => h.listed ?_⟩
      simp only [DropTable.lift] at hc
      omega
  | stray hf =>
    refine ⟨?_, h.listed⟩
    rw [vgDropDel_kernel_cfg]
    exact h.armed
  | disarm => exact h.disarm
  | setCfg => exact ⟨h.armed, h.listed⟩
  | commit =>
    refine ⟨?_, h.listed⟩
    rw [vgCfgCommit_eq]
    cases hf : env.fault c.maps.writes with
    | true => simpa [hf] using h.armed
    | false => cases hs : c.state <;> simp [cfgEntry]
  | populate =>
    refine ⟨?_, h.listed⟩
    rw [(vgPopulate_frame env c.maps c.cfg).1]
    exact h.armed

/-- From start-up on, under any interleaving of commands and ticks and any failures, the kernel
is armed exactly in the active state, and listed drops are always enforced. -/
theorem armed_iff_active {c : VgCtrl} (h : Reachable env c) :
    (c.maps.kernel.cfg.armed = 1 ↔ c.state = .active) ∧ (0 < c.drops.count → c.state = .active) := by
  have hinv : GateAgrees c := by
    refine h.invariant (fun hstart => ?_) fun c cmd hs hi => ?_
    · obtain ⟨hinit, harmed, -⟩ := startUp_initial hstart
      refine ⟨by simp [harmed, hinit.state], fun hc => ?_⟩
      rw [hinit.drops_ok.count_eq, hinit.records] at hc
      simp at hc
    · refine step_invariant hs.drops_ok hi (fun x x' a hx hg _ _ hm => hm.gateAgrees hx hg) ?_
      intro file nic n _ _
      exact ⟨hi.armed, hi.listed⟩
  exact ⟨hinv.armed, hinv.listed⟩

/-- A drop whose undrop failed: the gate stays armed. -/
theorem armed_iff_active_sample : ∃ c, Reachable flakyEnv c ∧ 0 < c.drops.count ∧
    c.maps.kernel.cfg.armed = 1 := by
  have hrun : Reaches (step flakyEnv) (fun _ _ => True) flakyStart _ :=
    (Reaches.start.next (.drop (sampleHost [198, 18, 0, 1])) trivial).next
      (.undrop (sampleHost [198, 18, 0, 1])) trivial
  have hreach : Reachable flakyEnv _ := ⟨_, _, _, _, _, flakyStart_eq, hrun⟩
  have hcount : 0 < (step flakyEnv (step flakyEnv flakyStart (.drop (sampleHost [198, 18, 0, 1])))
      (.undrop (sampleHost [198, 18, 0, 1]))).drops.count := by decide +kernel
  obtain ⟨harmed, hlisted⟩ := armed_iff_active hreach
  exact ⟨_, hreach, hcount, harmed.mpr (hlisted hcount)⟩

/-- `drop_v4` and `drop_v6` hold exactly the listed prefixes of their family. -/
def Tracked (c : VgCtrl) : Prop :=
  ∀ f p, p ∈ (c.maps.kernel.lpm (.drop f)).keys ↔ p.family = f ∧ p ∈ c.drops.prefixes

/-- No delete of a flush started in state `c` fails. -/
def FlushOk (env : Env) (c : VgCtrl) : Prop :=
  ∀ j < (c.maps.kernel.lpm (.drop .inet)).entries.length +
    (c.maps.kernel.lpm (.drop .inet6)).entries.length, env.fault (c.maps.writes + j) = false

/-- The invariant behind `Tracked`. -/
structure Mirrored (c : VgCtrl) : Prop extends Sound c where
  tracked : Tracked c

theorem Mirrored.keys_masked (h : Mirrored c) (f : Family) :
    ∀ q ∈ (c.maps.kernel.lpm (.drop f)).keys, q.Masked ∧ q.family = f := by
  intro q hq
  obtain ⟨hf, hm⟩ := (h.tracked f q).mp hq
  exact ⟨h.masked q hm, hf⟩

theorem mem_keys_dropUpdated {k : Kernel} (hk : ∀ f, ∀ q ∈ (k.lpm (.drop f)).keys,
    q.Masked ∧ q.family = f) {p : VgCidr} (hp : p.Masked) {reason : Reason} {now : ℤ} (f : Family)
    (q : VgCidr) : q ∈ ((dropUpdated env k p reason now).lpm (.drop f)).keys ↔
      (p.family = f ∧ q = p) ∨ q ∈ (k.lpm (.drop f)).keys := by
  rw [dropUpdated]
  by_cases hf : p.family = f
  · subst hf
    rw [Kernel.setLpm_self, Lpm.mem_keys_update (hk _) hp rfl]
    simp
  · rw [Kernel.setLpm_ne _ _ (by simpa using fun h => hf h.symm)]
    simp [hf]

theorem mem_keys_dropDel {m : VgMaps} (hk : ∀ f, ∀ q ∈ (m.kernel.lpm (.drop f)).keys,
    q.Masked ∧ q.family = f) {p : VgCidr} (hp : p.Masked) (hok : env.fault m.writes = false)
    (f : Family) (q : VgCidr) : q ∈ ((vgDropDel env m p).1.kernel.lpm (.drop f)).keys ↔
      q ∈ (m.kernel.lpm (.drop f)).keys ∧ q ≠ p := by
  rw [vgDropDel, lpmDelete_kernel, hok, if_neg (by simp)]
  by_cases hf : p.family = f
  · subst hf
    rw [Kernel.setLpm_self, Lpm.mem_keys_erase (hk _) hp rfl]
  · rw [Kernel.setLpm_ne _ _ (by simpa using fun h => hf h.symm), iff_self_and]
    rintro hq rfl
    exact hf (hk f q hq).2

theorem vgDropDel_fault {m : VgMaps} (p : VgCidr) (hf : env.fault m.writes = true) :
    (vgDropDel env m p).1.kernel = m.kernel := by
  rw [vgDropDel, lpmDelete_kernel, if_pos hf]

theorem DropOutcome.tracked {p : VgCidr} {reason : Reason} {expires now : ℤ}
    (hout : DropOutcome env c p reason expires now c') (hp : p.Masked) (h : Mirrored c) :
    Tracked c' := by
  intro f q
  cases hout with
  | kept hr hk =>
    rw [DropTable.prefixes, hr, hk]
    exact h.tracked f q
  | listed hnew hr hk =>
    have hpre : c'.drops.prefixes = c.drops.prefixes ++ [p] := by simp [DropTable.prefixes, hr]
    rw [hk, mem_keys_dropUpdated h.keys_masked hp, h.tracked f q, hpre]
    simp only [List.mem_append, List.mem_singleton]
    constructor
    · rintro (⟨hf, rfl⟩ | ⟨hf, hm⟩)
      · exact ⟨hf, .inr rfl⟩
      · exact ⟨hf, .inl hm⟩
    · rintro ⟨hf, hm | rfl⟩
      · exact .inr ⟨hf, hm⟩
      · exact .inl ⟨hf, rfl⟩
  | rewritten r r' hmem hkey hcidr _ hr hk =>
    obtain rfl : r.cidr = p := h.eq_of_key hmem hp hkey
    have hpre : c'.drops.prefixes = c.drops.prefixes := by
      rw [DropTable.prefixes, hr, h.drops_ok.prefixes_rewrite hmem hcidr]
    rw [hpre, ← h.tracked f q]
    rcases hk with ⟨hk, -⟩ | ⟨hk, -⟩
    · rw [hk]
    · rw [hk, mem_keys_dropUpdated h.keys_masked hp]
      refine or_iff_right_of_imp ?_
      rintro ⟨hf, rfl⟩
      exact (h.tracked f r.cidr).mpr ⟨hf, List.mem_map_of_mem hmem⟩

def TrackedAct (env : Env) (c : VgCtrl) : Act → Prop
  | .drop p _ => p.Masked
  | .stray p => p.Masked
  | .disarm => FlushOk env c
  | _ => True

theorem vgDropFlush_empty_iff (env : Env) (c : VgCtrl) :
    (∀ f, ((vgDropFlush env c.maps).kernel.lpm (.drop f)).keys = []) ↔ FlushOk env c := by
  obtain ⟨-, hl₁⟩ := flushLpm_frame env c.maps (.drop .inet)
  obtain ⟨-, hl₂⟩ := flushLpm_frame env (flushLpm env c.maps (.drop .inet)) (.drop .inet6)
  have h4 : ((vgDropFlush env c.maps).kernel.lpm (.drop .inet)).keys = [] ↔
      ∀ j < (c.maps.kernel.lpm (.drop .inet)).entries.length,
        env.fault (c.maps.writes + j) = false := by
    rw [Lpm.keys, List.map_eq_nil_iff, vgDropFlush, hl₂ _ (by simp), flushLpm_empty_iff]
  have h6 : ((vgDropFlush env c.maps).kernel.lpm (.drop .inet6)).keys = [] ↔
      ∀ j < (c.maps.kernel.lpm (.drop .inet6)).entries.length,
        env.fault (c.maps.writes + (c.maps.kernel.lpm (.drop .inet)).entries.length + j) = false := by
    rw [Lpm.keys, List.map_eq_nil_iff, vgDropFlush, flushLpm_empty_iff, hl₁ _ (by simp),
      flushLpm_writes]
  constructor
  · intro hempty j hj
    by_cases hlt : j < (c.maps.kernel.lpm (.drop .inet)).entries.length
    · exact h4.mp (hempty .inet) j hlt
    · have hj' := h6.mp (hempty .inet6)
        (j - (c.maps.kernel.lpm (.drop .inet)).entries.length) (by omega)
      rwa [Nat.add_assoc, Nat.add_sub_cancel' (Nat.not_lt.mp hlt)] at hj'
  · intro h f
    cases f with
    | inet => exact h4.mpr fun j hj => h j (by omega)
    | inet6 =>
      refine h6.mpr fun j hj => ?_
      rw [Nat.add_assoc]
      exact h _ (by omega)

theorem TrackedAct.masked {a : Act} (ha : TrackedAct env c a) : a.Masked := by
  cases a with
  | drop p reason => exact ha
  | stray p => exact ha
  | _ => trivial

theorem Sound.mem_prefixes_lift (h : Sound c) {i : ℕ} (hi : i ∈ c.drops.listed) {p : VgCidr} :
    p ∈ (c.drops.lift i).prefixes ↔ p ∈ c.drops.prefixes ∧ p ≠ (c.drops.pool i).cidr := by
  have hmask := h.masked _ (List.mem_map_of_mem (DropTable.pool_mem_records hi))
  rw [DropTable.prefixes, (h.drops_ok.lift hi).2]
  simp only [List.mem_map, List.mem_filter, decide_eq_true_eq, DropTable.prefixes]
  constructor
  · rintro ⟨r, ⟨hr, hk⟩, rfl⟩
    exact ⟨⟨r, hr, rfl⟩, fun he => hk (by rw [he])⟩
  · rintro ⟨⟨r, hr, rfl⟩, hne⟩
    exact ⟨r, ⟨hr, fun hk => hne (h.eq_of_key hr hmask hk)⟩, rfl⟩

theorem Micro.mirrored {a : Act} (hm : Micro env a c c') (ha : TrackedAct env c a)
    (h : Mirrored c) : Mirrored c' := by
  have hsound : Sound c' := hm.sound h.toSound ha.masked
  refine ⟨hsound, fun f p => ?_⟩
  cases hm with
  | books hb =>
    rw [hb.maps, hb.drops]
    exact h.tracked f p
  | arm hs =>
    have he := vgCtrlArm_idle env hs
    rw [he, vgCfgCommit_eq]
    exact h.tracked f p
  | drop hs hp => exact (dropListed_outcome h.drops_ok _ _ _ _).2.tracked ha h f p
  | @lift _ i hi =>
    have hmask := h.masked _ (List.mem_map_of_mem (DropTable.pool_mem_records hi))
    rcases dropRemove_cases env c i with ⟨hf, he⟩ | ⟨hf, he⟩
    · rw [he, vgDropDel_fault _ hf]
      exact h.tracked f p
    · rw [he, mem_keys_dropDel h.keys_masked hmask hf, h.tracked f p, h.mem_prefixes_lift hi]
      tauto
  | @stray _ q hf =>
    cases hfault : env.fault c.maps.writes with
    | true =>
      rw [vgDropDel_fault _ hfault]
      exact h.tracked f p
    | false =>
      rw [mem_keys_dropDel h.keys_masked ha hfault, h.tracked f p, and_iff_left_iff_imp]
      rintro ⟨-, hp⟩ rfl
      obtain ⟨r, hr, rfl⟩ := List.mem_map.mp hp
      exact h.drops_ok.dropsFind_none hf r hr rfl
  | disarm =>
    rw [vgCtrlDisarm_eq, vgCfgCommit_eq]
    simp [DropTable.prefixes, h.drops_ok.reset.2, (vgDropFlush_empty_iff env c).mpr ha f]
  | setCfg => exact h.tracked f p
  | commit =>
    rw [vgCfgCommit_eq]
    exact h.tracked f p
  | populate =>
    rw [(vgPopulate_frame env c.maps c.cfg).2 f]
    exact h.tracked f p

theorem Mirrored.flushOk_of_count (h : Mirrored c) (hc : c.drops.count = 0) : FlushOk env c := by
  rw [h.drops_ok.count_eq, List.length_eq_zero_iff] at hc
  have hempty : ∀ f, (c.maps.kernel.lpm (.drop f)).entries = [] := by
    intro f
    have hkeys : (c.maps.kernel.lpm (.drop f)).keys = [] := by
      rw [List.eq_nil_iff_forall_not_mem]
      intro p hp
      have hmem := ((h.tracked f p).mp hp).2
      simp [DropTable.prefixes, hc] at hmem
    simpa [Lpm.keys] using hkeys
  intro j hj
  simp [hempty] at hj

theorem step_mirrored (h : Mirrored c) (cmd : Cmd) (hcmd : cmd = .disarm → FlushOk env c) :
    Mirrored (step env c cmd) := by
  by_cases hd : cmd = .disarm
  · subst hd
    exact Micro.disarm.mirrored (hcmd rfl) h
  · refine (step_trace h.drops_ok cmd).invariant (I := Mirrored) h fun c' _ a hi ha hm => ?_
    refine hm.mirrored ?_ hi
    have hmask := ha.masked
    cases a with
    | drop p reason => exact hmask
    | stray p => exact hmask
    | disarm =>
      cases cmd with
      | tick t => exact hi.flushOk_of_count ha
      | disarm => exact absurd rfl hd
      | reload file nic => simp [CmdAct, ReloadAct] at ha
      | _ => cases ha
    | _ => trivial

theorem mirrored_of_startUp {cfgPath : List UInt8} {ifaceOv : Option (List UInt8)}
    {file : ConfigFile} {nic : Option (List IfAddr)}
    (h : startUp env cfgPath ifaceOv file nic = some c) : Mirrored c := by
  obtain ⟨hinit, -, hdrop⟩ := startUp_initial h
  refine ⟨hinit.sound, fun f p => ?_⟩
  simp [DropTable.prefixes, hinit.records, hdrop f, Lpm.keys_empty]

private theorem Mirrored.disarm_tracked_iff (h : Mirrored c) :
    Tracked (step env c .disarm) ↔ FlushOk env c := by
  refine ⟨fun ht => ?_, fun hf => (step_mirrored h .disarm fun _ => hf).tracked⟩
  have hrec := h.drops_ok.reset.2
  refine (vgDropFlush_empty_iff env c).mp fun f => List.eq_nil_iff_forall_not_mem.mpr fun p hp => ?_
  have hmem := (ht f p).mp
  simp only [step, vgCtrlDisarm_eq, vgCfgCommit_eq, VgMaps.wrote_kernel] at hmem
  simpa [DropTable.prefixes, hrec] using (hmem hp).2

/-- In every run whose disarm commands flush without a failed delete, and whatever else fails,
the drop maps hold exactly the listed prefixes after every command and tick; and in every such
state a disarm keeps it so exactly when its own flush meets no failed delete. -/
theorem drops_tracked {c₀ c : VgCtrl} {cfgPath : List UInt8} {ifaceOv : Option (List UInt8)}
    {file : ConfigFile} {nic : Option (List IfAddr)}
    (hstart : startUp env cfgPath ifaceOv file nic = some c₀)
    (hrun : Reaches (step env) (fun c cmd => cmd = .disarm → FlushOk env c) c₀ c) :
    Tracked c ∧ (Tracked (step env c .disarm) ↔ FlushOk env c) := by
  have h : Mirrored c := hrun.invariant (mirrored_of_startUp hstart) fun c cmd hi hcmd =>
    step_mirrored hi cmd hcmd
  exact ⟨h.tracked, h.disarm_tracked_iff⟩

/-- The write that fails is the delete of an undrop: the prefix stays listed and dropped. -/
theorem drops_tracked_sample : ∃ c,
    Reaches (step flakyEnv) (fun c cmd => cmd = .disarm → FlushOk flakyEnv c) flakyStart c ∧
      c.drops.count = 1 ∧ Tracked c := by
  have hrun : Reaches (step flakyEnv) (fun c cmd => cmd = .disarm → FlushOk flakyEnv c)
      flakyStart _ :=
    (Reaches.start.next (.drop (sampleHost [198, 18, 0, 1])) (by simp)).next
      (.undrop (sampleHost [198, 18, 0, 1])) (by simp)
  refine ⟨_, hrun, ?_, (drops_tracked flakyStart_eq hrun).1⟩
  decide +kernel

/-- The write that fails is the delete of a disarm: the gate forgets the prefix while the kernel
keeps it, so that a later arm drops it unlisted. -/
theorem disarm_forgets_failed_delete : ∃ c, Reachable flakyEnv c ∧ c.drops.prefixes = [] ∧
    (sampleHost [198, 18, 0, 1]).1 ∈ (c.maps.kernel.lpm (.drop .inet)).keys ∧ ¬ Tracked c := by
  have hrun : Reaches (step flakyEnv) (fun _ _ => True) flakyStart _ :=
    (Reaches.start.next (.drop (sampleHost [198, 18, 0, 1])) trivial).next .disarm trivial
  have hlist : (step flakyEnv (step flakyEnv flakyStart (.drop (sampleHost [198, 18, 0, 1])))
      .disarm).drops.prefixes = [] := by decide +kernel
  have hkey : (sampleHost [198, 18, 0, 1]).1 ∈ ((step flakyEnv (step flakyEnv flakyStart
      (.drop (sampleHost [198, 18, 0, 1]))) .disarm).maps.kernel.lpm (.drop .inet)).keys := by
    decide +kernel
  refine ⟨_, ⟨_, _, _, _, _, flakyStart_eq, hrun⟩, hlist, hkey, fun ht => ?_⟩
  have hmem := ((ht .inet _).mp hkey).2
  rw [hlist] at hmem
  simp at hmem

end VoidGate
