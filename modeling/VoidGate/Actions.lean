import VoidGate.Policy
import Mathlib.Logic.Relation

/-!
# Atomic actions

Every call of the control plane is a sequence of a few kinds of actions: bookkeeping,
arming, one drop in an armed gate, lifting one record, disarming, and the parts of a
reload. A property that every action preserves is preserved by every call, and the
condition under which a call takes an action is part of its trace.
-/

namespace VoidGate

open RingLists

/-- Bookkeeping: nothing changed but snapshots, clocks, rates and logs. -/
structure Books (c c' : VgCtrl) : Prop where
  state : c'.state = c.state
  cfg : c'.cfg = c.cfg
  maps : c'.maps = c.maps
  drops : c'.drops = c.drops
  cfgPath : c'.cfgPath = c.cfgPath
  ifaceOverride : c'.ifaceOverride = c.ifaceOverride
  clock_le : c.clock ≤ c'.clock

inductive Act where
  | books
  | arm
  | drop (p : VgCidr) (reason : Reason)
  | lift (i : ℕ)
  | stray (p : VgCidr)
  | disarm
  | setCfg (n : VgConfig)
  | commit
  | populate

/-- What each action does. -/
inductive Micro (env : Env) : Act → VgCtrl → VgCtrl → Prop where
  | books {c c' : VgCtrl} (h : Books c c') : Micro env .books c c'
  | arm {c : VgCtrl} (h : c.state = .idle) : Micro env .arm c (vgCtrlArm env c).1
  | drop {c : VgCtrl} {p : VgCidr} {reason : Reason} {expires now : ℤ} (h : c.state = .active)
      (hp : vgCidrIsProtected c.cfg p = false) :
      Micro env (.drop p reason) c (dropListed env c p reason expires now).1
  | lift {c : VgCtrl} {i : ℕ} (h : i ∈ c.drops.listed) : Micro env (.lift i) c (dropRemove env c i).1
  | stray {c : VgCtrl} {p : VgCidr} (h : c.drops.dropsFind p = none) :
      Micro env (.stray p) c { c with maps := (vgDropDel env c.maps p).1 }
  | disarm {c : VgCtrl} : Micro env .disarm c (vgCtrlDisarm env c).1
  | setCfg {c : VgCtrl} {n : VgConfig} : Micro env (.setCfg n) c { c with cfg := n }
  | commit {c : VgCtrl} : Micro env .commit c
      { c with maps := (vgCfgCommit env c.maps (if c.state = .active then 1 else 0) c.cfg).1 }
  | populate {c : VgCtrl} : Micro env .populate c
      { c with maps := vgPopulateLocal env (vgPopulateAllow env c.maps c.cfg) c.cfg }

/-- A sequence of actions, each of them permitted where it is taken. -/
def Trace (env : Env) (ok : VgCtrl → Act → Prop) : VgCtrl → VgCtrl → Prop :=
  Relation.ReflTransGen fun c c' => ∃ a, ok c a ∧ Micro env a c c'

variable {env : Env} {ok ok' : VgCtrl → Act → Prop} {c c' : VgCtrl}

theorem Trace.refl : Trace env ok c c := Relation.ReflTransGen.refl

theorem Micro.trace {a : Act} (h : Micro env a c c') (ha : ok c a) : Trace env ok c c' :=
  Relation.ReflTransGen.single ⟨a, ha, h⟩

theorem Trace.books (h : Books c c') (hok : ok c .books) : Trace env ok c c' :=
  (Micro.books h).trace hok

theorem Trace.trans {c'' : VgCtrl} (h : Trace env ok c c') (h' : Trace env ok c' c'') :
    Trace env ok c c'' := Relation.ReflTransGen.trans h h'

theorem Trace.mono (h : Trace env ok c c') (himp : ∀ c a, ok c a → ok' c a) :
    Trace env ok' c c' :=
  Relation.ReflTransGen.mono (fun c _ ⟨a, ha, hm⟩ => ⟨a, himp c a ha, hm⟩) _ _ h

/-- The rule for invariants. -/
theorem Trace.invariant {I : VgCtrl → Prop} (h : Trace env ok c c') (start : I c)
    (next : ∀ c c' a, I c → ok c a → Micro env a c c' → I c') : I c' := by
  induction h with
  | refl => exact start
  | tail _ hstep ih =>
    obtain ⟨a, ha, hm⟩ := hstep
    exact next _ _ a ih ha hm

@[simp] theorem rebase_cidr (cfg : VgConfig) (r : VgDropRec) (reason : Reason) :
    (rebase cfg r reason).cidr = r.cidr := by
  rw [rebase]
  split_ifs <;> rfl

@[simp] theorem redropped_cidr (cfg : VgConfig) (r : VgDropRec) (reason : Reason)
    (expires now : ℤ) : (redropped cfg r reason expires now).cidr = r.cidr := by
  simp only [redropped]
  split_ifs <;> simp

@[simp] theorem rebase_reason (cfg : VgConfig) (r : VgDropRec) (reason : Reason) :
    (rebase cfg r reason).reason = r.reason := by
  rw [rebase]
  split_ifs <;> rfl

@[simp] theorem rebase_inserted (cfg : VgConfig) (r : VgDropRec) (reason : Reason) :
    (rebase cfg r reason).inserted = r.inserted := by
  rw [rebase]
  split_ifs <;> rfl

theorem redropped_reason (cfg : VgConfig) (r : VgDropRec) (reason : Reason) (expires now : ℤ) :
    (redropped cfg r reason expires now).reason =
      if reason = .manual ∨ reason = .timed then reason else r.reason := by
  simp only [redropped]
  split_ifs <;> simp only [rebase_reason]

theorem redropped_inserted (cfg : VgConfig) (r : VgDropRec) (reason : Reason) (expires now : ℤ) :
    (redropped cfg r reason expires now).inserted =
      if reason = .manual ∨ reason = .timed then now else r.inserted := by
  simp only [redropped]
  split_ifs <;> simp only [rebase_inserted]

/-- A drop touches nothing but the list and the maps. -/
theorem dropListed_frame (env : Env) (c : VgCtrl) (p : VgCidr) (reason : Reason)
    (expires now : ℤ) : ∃ maps drops,
      (dropListed env c p reason expires now).1 = { c with maps := maps, drops := drops } := by
  rw [dropListed]
  split
  · rw [dropNew]
    split
    · exact ⟨c.maps, c.drops, rfl⟩
    · dsimp only
      split_ifs <;> exact ⟨_, _, rfl⟩
  · rw [dropAgain]
    dsimp only
    split_ifs
    · exact ⟨c.maps, c.drops, rfl⟩
    all_goals exact ⟨_, _, rfl⟩

private theorem DropTable.dropAlloc_cap (t : DropTable) : t.dropAlloc.1.cap = t.cap := by
  rw [dropAlloc]
  split_ifs <;> rfl

/-- What dropping `p` comes to in an armed gate. In the cases that reach the kernel, the maps are
those that `vg_drop_add` leaves behind. -/
inductive DropCase (env : Env) (c : VgCtrl) (p : VgCidr) (reason : Reason) (expires now : ℤ) :
    VgCtrl × Bool → Prop where
  | full (fresh : ∀ r ∈ c.drops.records, r.cidr.key ≠ p.key)
      (alloc : c.drops.dropAlloc.2 = none) (full : c.drops.records.length = c.drops.cap) :
      DropCase env c p reason expires now (c, false)
  | refused (d : DropTable) (fresh : ∀ r ∈ c.drops.records, r.cidr.key ≠ p.key)
      (fault : env.fault c.maps.writes = true) (ok : d.Ok) (cap : d.cap = c.drops.cap)
      (records : d.records = c.drops.records) :
      DropCase env c p reason expires now
        ({ c with maps := (vgDropAdd env c.maps p reason now).1, drops := d }, false)
  | listed (d : DropTable) (fresh : ∀ r ∈ c.drops.records, r.cidr.key ≠ p.key)
      (fault : env.fault c.maps.writes = false) (ok : d.Ok) (cap : d.cap = c.drops.cap)
      (records : d.records = c.drops.records ++ [⟨p, reason, now, expires⟩]) :
      DropCase env c p reason expires now
        ({ c with maps := (vgDropAdd env c.maps p reason now).1, drops := d }, true)
  | manual (r : VgDropRec) (mem : r ∈ c.drops.records) (key : r.cidr.key = p.key)
      (timed : reason = .timed) (manual : r.reason = .manual) :
      DropCase env c p reason expires now (c, true)
  | again (d : DropTable) (r : VgDropRec) (mem : r ∈ c.drops.records) (key : r.cidr.key = p.key)
      (notManual : ¬ (reason = .timed ∧ r.reason = .manual)) (ok : d.Ok)
      (cap : d.cap = c.drops.cap)
      (records : d.records = c.drops.records.map fun x =>
        if x.cidr.key = p.key then
          if env.fault c.maps.writes then rebase c.cfg r reason
          else redropped c.cfg r reason expires now
        else x) :
      DropCase env c p reason expires now
        ({ c with maps := (vgDropAdd env c.maps p reason now).1, drops := d },
          !env.fault c.maps.writes)

theorem dropListed_case (h : c.drops.Ok) (p : VgCidr) (reason : Reason) (expires now : ℤ) :
    DropCase env c p reason expires now (dropListed env c p reason expires now) := by
  have hadd := vgDropAdd_eq env c.maps p reason now
  rw [dropListed]
  cases hf : c.drops.dropsFind p with
  | none =>
    have hnew := h.dropsFind_none hf
    simp only [dropNew]
    rcases ha : c.drops.dropAlloc with ⟨t, _ | i⟩
    · obtain ⟨L, F, hinv⟩ := h
      have hfull := (hinv.alloc_none (by rw [ha])).2
      rw [← hinv.listed_eq, ← List.length_map (f := c.drops.pool)] at hfull
      exact .full hnew (by rw [ha]) hfull
    · have hcap := c.drops.dropAlloc_cap
      rw [ha] at hcap
      cases hw : env.fault c.maps.writes with
      | true =>
        obtain ⟨hok, hrec⟩ := h.giveBack ha
        have hfalse : (vgDropAdd env c.maps p reason now).2 = false := by rw [hadd, hw]; rfl
        dsimp only
        rw [hfalse, if_neg (by decide)]
        exact .refused _ hnew hw hok hcap hrec
      | false =>
        obtain ⟨hok, hrec⟩ := h.list (r := ⟨p, reason, now, expires⟩) ha hnew
        have htrue : (vgDropAdd env c.maps p reason now).2 = true := by rw [hadd, hw]; rfl
        dsimp only
        rw [htrue, if_pos rfl]
        exact .listed _ hnew hw hok hcap hrec
  | some i =>
    obtain ⟨hi, hmem, hkey⟩ := h.dropsFind_some hf
    simp only [dropAgain]
    by_cases hm : reason = .timed ∧ (c.drops.pool i).reason = .manual
    · rw [if_pos hm]
      exact .manual _ hmem hkey hm.1 hm.2
    · have hrec : (if (vgDropAdd env c.maps p reason now).2 = true
            then redropped c.cfg (c.drops.pool i) reason expires now
            else rebase c.cfg (c.drops.pool i) reason) =
          if env.fault c.maps.writes = true then rebase c.cfg (c.drops.pool i) reason
            else redropped c.cfg (c.drops.pool i) reason expires now := by
        rw [hadd]
        cases env.fault c.maps.writes <;> rfl
      have hcidr : (if env.fault c.maps.writes = true then rebase c.cfg (c.drops.pool i) reason
          else redropped c.cfg (c.drops.pool i) reason expires now).cidr = (c.drops.pool i).cidr := by
        split_ifs
        · exact rebase_cidr ..
        · exact redropped_cidr ..
      obtain ⟨hok, hset⟩ := h.setRec hi hcidr
      rw [hcidr, hkey] at hset
      have hflag : (vgDropAdd env c.maps p reason now).2 = !env.fault c.maps.writes := by rw [hadd]
      rw [if_neg hm, hrec, hflag]
      exact .again _ _ hmem hkey hm hok rfl hset

/-- What `drop_add` did to the list and to the kernel maps. -/
inductive DropOutcome (env : Env) (c : VgCtrl) (p : VgCidr) (reason : Reason) (expires now : ℤ)
    (c' : VgCtrl) : Prop where
  | kept (records : c'.drops.records = c.drops.records)
      (kernel : c'.maps.kernel = c.maps.kernel)
  | listed (fresh : ∀ r ∈ c.drops.records, r.cidr.key ≠ p.key)
      (records : c'.drops.records = c.drops.records ++ [⟨p, reason, now, expires⟩])
      (kernel : c'.maps.kernel = dropUpdated env c.maps.kernel p reason now)
  | rewritten (r r' : VgDropRec) (mem : r ∈ c.drops.records) (key : r.cidr.key = p.key)
      (cidr : r'.cidr = r.cidr) (manual : ¬ (reason = .timed ∧ r.reason = .manual))
      (records : c'.drops.records =
        c.drops.records.map fun x => if x.cidr.key = r.cidr.key then r' else x)
      (kernel : (c'.maps.kernel = c.maps.kernel ∧ r' = rebase c.cfg r reason) ∨
        (c'.maps.kernel = dropUpdated env c.maps.kernel p reason now ∧
          r' = redropped c.cfg r reason expires now))

theorem dropListed_outcome (h : c.drops.Ok) (p : VgCidr) (reason : Reason) (expires now : ℤ) :
    (dropListed env c p reason expires now).1.drops.Ok ∧
      DropOutcome env c p reason expires now (dropListed env c p reason expires now).1 := by
  have hadd := vgDropAdd_eq env c.maps p reason now
  have hcase : DropCase env c p reason expires now (dropListed env c p reason expires now) :=
    dropListed_case h p reason expires now
  revert hcase
  generalize dropListed env c p reason expires now = r
  rintro (⟨_, _, _⟩ | ⟨d, fresh, hf, hok, -, hrec⟩ | ⟨d, fresh, hf, hok, -, hrec⟩ | ⟨_, _, _, _, _⟩ |
    ⟨d, r, hmem, hkey, hm, hok, -, hrec⟩)
  · exact ⟨h, .kept rfl rfl⟩
  · exact ⟨hok, .kept hrec (by rw [hadd, hf]; rfl)⟩
  · exact ⟨hok, .listed fresh hrec (by rw [hadd, hf]; rfl)⟩
  · exact ⟨h, .kept rfl rfl⟩
  · refine ⟨hok, ?_⟩
    rw [← hkey] at hrec
    cases hf : env.fault c.maps.writes with
    | true =>
      refine .rewritten r (rebase c.cfg r reason) hmem hkey (rebase_cidr ..) hm ?_ (.inl ⟨?_, rfl⟩)
      · simpa [hf] using hrec
      · rw [hadd, hf]
        rfl
    | false =>
      refine .rewritten r (redropped c.cfg r reason expires now) hmem hkey (redropped_cidr ..) hm ?_
        (.inr ⟨?_, rfl⟩)
      · simpa [hf] using hrec
      · rw [hadd, hf]
        rfl

/-- Arming an idle gate: the commit decides, and on a failure only the snapshots are gone. -/
theorem vgCtrlArm_idle (env : Env) {c : VgCtrl} (h : c.state = .idle) :
    vgCtrlArm env c = ({ c with
      snaps := c.snaps.snapResetPool
      quietSince := 0
      maps := (vgCfgCommit env c.maps 1 c.cfg).1
      state := if (vgCfgCommit env c.maps 1 c.cfg).2 then .active else .idle },
      (vgCfgCommit env c.maps 1 c.cfg).2) := by
  rw [vgCtrlArm, if_neg (by simp [h])]
  cases hw : (vgCfgCommit env c.maps 1 c.cfg).2 <;> simp [hw, h]

/-- Lifting a listed record: either the delete failed and nothing else changed, or the entry is
gone from the kernel and the record from the list. -/
theorem dropRemove_cases (env : Env) (c : VgCtrl) (i : ℕ) :
    ((env.fault c.maps.writes = true ∧ (dropRemove env c i).1 =
        { c with maps := (vgDropDel env c.maps (c.drops.pool i).cidr).1 }) ∨
      (env.fault c.maps.writes = false ∧ (dropRemove env c i).1 =
        { c with
          maps := (vgDropDel env c.maps (c.drops.pool i).cidr).1
          drops := c.drops.lift i })) := by
  simp only [dropRemove]
  have hiff := vgDropDel_error_iff env c.maps (c.drops.pool i).cidr
  by_cases hf : env.fault c.maps.writes = true
  · refine .inl ⟨hf, ?_⟩
    rw [if_pos (hiff.mpr hf)]
  · refine .inr ⟨by simpa using hf, ?_⟩
    rw [if_neg fun he => hf (hiff.mp he)]

theorem vgCtrlDisarm_eq (env : Env) (c : VgCtrl) : (vgCtrlDisarm env c).1 =
    { c with
      drops := c.drops.dropsReset
      maps := (vgCfgCommit env (vgDropFlush env c.maps) 0 c.cfg).1
      state := if (vgCfgCommit env (vgDropFlush env c.maps) 0 c.cfg).2 then .idle else c.state
      quietSince := if (vgCfgCommit env (vgDropFlush env c.maps) 0 c.cfg).2 then 0
        else c.quietSince } := by
  simp only [vgCtrlDisarm]
  cases hw : (vgCfgCommit env (vgDropFlush env c.maps) 0 c.cfg).2 <;> simp

/-- Every action keeps the pointers of the drop list sound. -/
theorem Micro.drops_ok {a : Act} (h : Micro env a c c') (hok : c.drops.Ok) : c'.drops.Ok := by
  cases h with
  | books h => exact h.drops ▸ hok
  | arm h =>
    have he := vgCtrlArm_idle env h
    rw [he]
    exact hok
  | drop h hp => exact (dropListed_outcome hok _ _ _ _).1
  | @lift _ i hi =>
    rcases dropRemove_cases env c i with ⟨-, he⟩ | ⟨-, he⟩
    · rw [he]
      exact hok
    · rw [he]
      exact (hok.lift hi).1
  | stray h => exact hok
  | disarm =>
    rw [vgCtrlDisarm_eq]
    exact hok.reset.1
  | setCfg => exact hok
  | commit => exact hok
  | populate => exact hok

theorem Micro.clock_le {a : Act} (h : Micro env a c c') : c.clock ≤ c'.clock := by
  cases h with
  | books h => exact h.clock_le
  | arm h =>
    have he := vgCtrlArm_idle env h
    simp [he]
  | @drop _ p reason expires now h hp =>
    obtain ⟨maps, drops, he⟩ := dropListed_frame env c p reason expires now
    simp [he]
  | @lift _ i hi => rcases dropRemove_cases env c i with ⟨-, he⟩ | ⟨-, he⟩ <;> simp [he]
  | stray h => exact le_rfl
  | disarm => simp [vgCtrlDisarm_eq]
  | setCfg => exact le_rfl
  | commit => exact le_rfl
  | populate => exact le_rfl

theorem Trace.drops_ok (h : Trace env ok c c') (hok : c.drops.Ok) : c'.drops.Ok :=
  h.invariant hok fun _ _ _ hi _ hm => hm.drops_ok hi

theorem Trace.clock_le (h : Trace env ok c c') : c.clock ≤ c'.clock :=
  h.invariant (I := fun x => c.clock ≤ x.clock) le_rfl fun _ _ _ hi _ hm => hi.trans hm.clock_le

/-- Rewriting a record in place keeps the prefixes. -/
theorem DropTable.Ok.prefixes_rewrite {t : DropTable} (h : t.Ok) {r r' : VgDropRec}
    (hr : r ∈ t.records) (hcidr : r'.cidr = r.cidr) :
    (t.records.map fun x => if x.cidr.key = r.cidr.key then r' else x).map VgDropRec.cidr =
      t.prefixes := by
  rw [List.map_map, prefixes]
  refine List.map_congr_left fun x hx => ?_
  by_cases hx' : x.cidr.key = r.cidr.key
  · simp [hcidr, h.eq_of_key hx hr hx']
  · simp [hx']

theorem DropOutcome.mem_prefixes {p : VgCidr} {reason : Reason} {expires now : ℤ}
    (h : DropOutcome env c p reason expires now c') {q : VgCidr} (hq : q ∈ c'.drops.prefixes) :
    q ∈ c.drops.prefixes ∨ q = p := by
  obtain ⟨x, hx, rfl⟩ := List.mem_map.mp hq
  cases h with
  | kept hr _ => exact .inl (List.mem_map_of_mem (hr ▸ hx))
  | listed _ hr _ =>
    rw [hr] at hx
    rcases List.mem_append.mp hx with hx | hx
    · exact .inl (List.mem_map_of_mem hx)
    · exact .inr (by rw [List.mem_singleton.mp hx])
  | rewritten r r' hmem _ hcidr _ hr _ =>
    rw [hr] at hx
    obtain ⟨y, hy, rfl⟩ := List.mem_map.mp hx
    split_ifs
    · exact .inl (hcidr ▸ List.mem_map_of_mem hmem)
    · exact .inl (List.mem_map_of_mem hy)

/-- The only way onto the list: a drop of an unprotected prefix in an armed gate. -/
theorem Micro.mem_prefixes {a : Act} (h : Micro env a c c') (hok : c.drops.Ok) {q : VgCidr}
    (hq : q ∈ c'.drops.prefixes) : q ∈ c.drops.prefixes ∨
      (∃ reason, a = .drop q reason) ∧ vgCidrIsProtected c.cfg q = false := by
  cases h with
  | books h => exact .inl (h.drops ▸ hq)
  | arm h =>
    have he := vgCtrlArm_idle env h
    rw [he] at hq
    exact .inl hq
  | drop h hp =>
    rcases (dropListed_outcome hok _ _ _ _).2.mem_prefixes hq with hm | rfl
    · exact .inl hm
    · exact .inr ⟨⟨_, rfl⟩, hp⟩
  | @lift _ i hi =>
    refine .inl ?_
    rcases dropRemove_cases env c i with ⟨-, he⟩ | ⟨-, he⟩
    · rwa [he] at hq
    · rw [he, DropTable.prefixes, (hok.lift hi).2] at hq
      obtain ⟨r, hr, rfl⟩ := List.mem_map.mp hq
      exact List.mem_map_of_mem (List.mem_filter.mp hr).1
  | stray h => exact .inl hq
  | disarm =>
    rw [vgCtrlDisarm_eq, DropTable.prefixes, hok.reset.2] at hq
    simp at hq
  | setCfg => exact .inl hq
  | commit => exact .inl hq
  | populate => exact .inl hq

theorem Micro.cfg_eq {a : Act} (h : Micro env a c c') (ha : ∀ n, a ≠ .setCfg n) :
    c'.cfg = c.cfg := by
  cases h with
  | books h => exact h.cfg
  | arm h =>
    have he := vgCtrlArm_idle env h
    rw [he]
  | @drop _ p reason expires now h hp =>
    obtain ⟨maps, drops, he⟩ := dropListed_frame env c p reason expires now
    rw [he]
  | @lift _ i hi => rcases dropRemove_cases env c i with ⟨-, he⟩ | ⟨-, he⟩ <;> rw [he]
  | stray h => rfl
  | disarm => rw [vgCtrlDisarm_eq]
  | setCfg => exact absurd rfl (ha _)
  | commit => rfl
  | populate => rfl

theorem Trace.cfg_eq (h : Trace env ok c c') (hset : ∀ c n, ¬ ok c (.setCfg n)) :
    c'.cfg = c.cfg :=
  h.invariant (I := fun x => x.cfg = c.cfg) rfl fun x _ _ hi ha hm =>
    (hm.cfg_eq fun n he => hset x n (he ▸ ha)).trans hi

theorem Micro.commandLine_eq {a : Act} (h : Micro env a c c') :
    c'.cfgPath = c.cfgPath ∧ c'.ifaceOverride = c.ifaceOverride := by
  cases h with
  | books h => exact ⟨h.cfgPath, h.ifaceOverride⟩
  | arm h =>
    have he := vgCtrlArm_idle env h
    rw [he]
    exact ⟨rfl, rfl⟩
  | @drop _ p reason expires now h hp =>
    obtain ⟨maps, drops, he⟩ := dropListed_frame env c p reason expires now
    rw [he]
    exact ⟨rfl, rfl⟩
  | @lift _ i hi =>
    rcases dropRemove_cases env c i with ⟨-, he⟩ | ⟨-, he⟩ <;> rw [he] <;> exact ⟨rfl, rfl⟩
  | stray h => exact ⟨rfl, rfl⟩
  | disarm =>
    rw [vgCtrlDisarm_eq]
    exact ⟨rfl, rfl⟩
  | setCfg => exact ⟨rfl, rfl⟩
  | commit => exact ⟨rfl, rfl⟩
  | populate => exact ⟨rfl, rfl⟩

end VoidGate
