import VoidGate.DropCalls
import VoidGate.CtlProtocol

/-!
# The order of the drop list

`drop_all` is meant to be oldest first. A new record goes to its end, but a manual or
timed drop of a listed prefix stamps its record anew and leaves it where it is. The
order holds as long as no record is stamped past the ones behind it.
-/

namespace VoidGate

variable {env : Env} {c c' : VgCtrl} {t : DropTable} {p : VgCidr} {reason : Reason}
  {expires now : ℤ}

/-- The clock is never set back. -/
def WallForward (env : Env) : Prop := ∀ ⦃m n⦄, m ≤ n → env.wall m ≤ env.wall n

/-- The insert times along `drop_all`. -/
def DropTable.insertTimes (t : DropTable) : List ℤ := t.records.map VgDropRec.inserted

def OldestFirst (t : DropTable) : Prop := t.insertTimes.Pairwise (· ≤ ·)

/-- The ages that a listing prints, one reading of the clock for each line. -/
def listedAges (o : Outside) (t : DropTable) : List ℤ :=
  t.records.mapIdx fun i r => o.time i - r.inserted

/-- Dropping the prefix of `r` again stamps `r` anew. -/
def TakesOver (r : VgDropRec) (reason : Reason) : Prop :=
  reason = .manual ∨ reason = .timed ∧ r.reason ≠ .manual

/-- The record of `p` and those behind it. -/
def DropTable.fromRecord (t : DropTable) (p : VgCidr) : List VgDropRec :=
  t.records.dropWhile fun r => decide (r.cidr.key ≠ p.key)

/-- If the record of `p` would be stamped with `now`, those behind it are no older than that. -/
def KeepsPlace (t : DropTable) (p : VgCidr) (reason : Reason) (now : ℤ) : Prop :=
  ∀ r behind, t.fromRecord p = r :: behind → TakesOver r reason → ∀ x ∈ behind, now ≤ x.inserted

/-- The condition on a call; a timed drop reads the clock once before `drop_add` does. -/
def InPlace (env : Env) (c : VgCtrl) : ListCall → Prop
  | .drop p reason => KeepsPlace c.drops p reason (env.wall c.clock)
  | .dropTtl p _ => KeepsPlace c.drops p .timed (env.wall (c.clock + 1))
  | _ => True

/-- Keys are unique, so a listed record splits the list into records of other prefixes. -/
theorem DropTable.Ok.split (h : t.Ok) {r : VgDropRec} (hr : r ∈ t.records) :
    ∃ front behind, t.records = front ++ r :: behind ∧
      (∀ x ∈ front, x.cidr.key ≠ r.cidr.key) ∧ ∀ x ∈ behind, x.cidr.key ≠ r.cidr.key := by
  obtain ⟨front, behind, he⟩ := List.append_of_mem hr
  have hkeys := h.keys_nodup
  rw [he, List.map_append, List.map_cons] at hkeys
  obtain ⟨-, htail, hdis⟩ := List.nodup_append.mp hkeys
  refine ⟨front, behind, he, fun x hx => ?_, fun x hx hk => ?_⟩
  · exact hdis _ (List.mem_map_of_mem hx) _ List.mem_cons_self
  · exact (List.nodup_cons.mp htail).1 (hk ▸ List.mem_map_of_mem hx)

private theorem DropTable.fromRecord_eq_nil (h : ∀ r ∈ t.records, r.cidr.key ≠ p.key) :
    t.fromRecord p = [] :=
  List.dropWhile_eq_nil_iff.mpr fun r hr => decide_eq_true (h r hr)

theorem DropTable.fromRecord_eq {front behind : List VgDropRec} {r : VgDropRec}
    (he : t.records = front ++ r :: behind) (hfront : ∀ x ∈ front, x.cidr.key ≠ p.key)
    (hr : r.cidr.key = p.key) : t.fromRecord p = r :: behind := by
  rw [fromRecord, he, List.dropWhile_append_of_pos fun x hx => decide_eq_true (hfront x hx),
    List.dropWhile_cons_of_neg (by simpa using hr)]

theorem insertTimes_rewrite {t' : DropTable} {front behind : List VgDropRec} {r : VgDropRec}
    (he : t.records = front ++ r :: behind) (hr : r.cidr.key = p.key)
    (hfront : ∀ x ∈ front, x.cidr.key ≠ p.key) (hbehind : ∀ x ∈ behind, x.cidr.key ≠ p.key)
    (r' : VgDropRec) (ht : t'.records = t.records.map fun x => if x.cidr.key = p.key then r' else x) :
    t'.insertTimes = front.map VgDropRec.inserted ++
      r'.inserted :: behind.map VgDropRec.inserted := by
  have hkeep : ∀ l : List VgDropRec, (∀ x ∈ l, x.cidr.key ≠ p.key) →
      l.map (fun x => if x.cidr.key = p.key then r' else x) = l := fun l hl =>
    (List.map_congr_left fun x hx => if_neg (hl x hx)).trans (List.map_id' l)
  rw [DropTable.insertTimes, ht, he, List.map_append, List.map_cons, hkeep front hfront,
    hkeep behind hbehind, if_pos hr, List.map_append, List.map_cons]

/-- What a drop that left the table `t'` and returned `ok` did to the insert times. -/
inductive Stamped (t : DropTable) (p : VgCidr) (reason : Reason) (now : ℤ) (t' : DropTable)
    (ok : Bool) : Prop where
  | same (times : t'.insertTimes = t.insertTimes) (place : ok = true → KeepsPlace t p reason now)
  | appended (times : t'.insertTimes = t.insertTimes ++ [now]) (fresh : t.fromRecord p = [])
  | stamped (front behind : List VgDropRec) (r : VgDropRec)
      (records : t.records = front ++ r :: behind) (found : t.fromRecord p = r :: behind)
      (takes : TakesOver r reason)
      (times : t'.insertTimes = front.map VgDropRec.inserted ++
        now :: behind.map VgDropRec.inserted)

theorem DropCase.stamped {r : VgCtrl × Bool} (h : DropCase env c p reason expires now r)
    (hok : c.drops.Ok) : Stamped c.drops p reason now r.1.drops r.2 := by
  cases h with
  | full _ _ _ => exact .same rfl fun h => Bool.noConfusion h
  | refused d _ _ _ _ hrec => exact .same (congrArg (List.map _) hrec) fun h => Bool.noConfusion h
  | listed d fresh _ _ _ hrec =>
    refine .appended ?_ (DropTable.fromRecord_eq_nil fresh)
    simp only [DropTable.insertTimes, hrec, List.map_append, List.map_cons, List.map_nil]
  | manual r hmem hkey htimed hmanual =>
    obtain ⟨front, behind, he, hfront, -⟩ := hok.split hmem
    have hfound := DropTable.fromRecord_eq he (fun x hx => hkey ▸ hfront x hx) hkey
    refine .same rfl fun _ x rest hx htakes => ?_
    rw [hfound] at hx
    obtain ⟨rfl, rfl⟩ := List.cons.inj hx
    rcases htakes with rfl | ⟨-, hne⟩
    · cases htimed
    · exact absurd hmanual hne
  | again d r hmem hkey hnot _ _ hrec =>
    obtain ⟨front, behind, he, hfront, hbehind⟩ := hok.split hmem
    rw [hkey] at hfront hbehind
    have hfound := DropTable.fromRecord_eq he hfront hkey
    have hsame : ∀ s, s = r.inserted → front.map VgDropRec.inserted ++
        s :: behind.map VgDropRec.inserted = c.drops.insertTimes := by
      rintro _ rfl
      rw [DropTable.insertTimes, he, List.map_append, List.map_cons]
    cases hf : env.fault c.maps.writes with
    | true =>
      have hd := insertTimes_rewrite he hkey hfront hbehind (rebase c.cfg r reason)
        (by simpa [hf] using hrec)
      exact .same (hd.trans (hsame _ (rebase_inserted ..))) fun h => Bool.noConfusion h
    | false =>
      have hd := insertTimes_rewrite he hkey hfront hbehind (redropped c.cfg r reason expires now)
        (by simpa [hf] using hrec)
      by_cases htakes : reason = .manual ∨ reason = .timed
      · refine .stamped front behind r he hfound ?_ ?_
        · rcases htakes with rfl | rfl
          · exact .inl rfl
          · exact .inr ⟨rfl, fun hm => hnot ⟨rfl, hm⟩⟩
        · rwa [redropped_inserted, if_pos htakes] at hd
      · rw [redropped_inserted, if_neg htakes] at hd
        refine .same (hd.trans (hsame _ rfl)) fun _ x rest _ ht => absurd ?_ htakes
        exact ht.imp id And.left

theorem Stamped.oldestFirst {t' : DropTable} {ok : Bool} (h : Stamped t p reason now t' ok)
    (hord : OldestFirst t) (hnow : ∀ s ∈ t.insertTimes, s ≤ now) :
    (KeepsPlace t p reason now → OldestFirst t') ∧
      (ok = true → OldestFirst t' → KeepsPlace t p reason now) := by
  rw [OldestFirst] at hord
  cases h with
  | same htimes hplace =>
    rw [OldestFirst, htimes]
    exact ⟨fun _ => hord, fun hr _ => hplace hr⟩
  | appended htimes hfresh =>
    refine ⟨fun _ => ?_, fun _ _ x rest hx => ?_⟩
    · rw [OldestFirst, htimes, List.pairwise_append]
      exact ⟨hord, List.pairwise_singleton _ _, fun s hs x hx => List.mem_singleton.mp hx ▸ hnow s hs⟩
    · rw [hfresh] at hx
      cases hx
  | stamped front behind r he hfound htakes htimes =>
    have ht : t.insertTimes = front.map VgDropRec.inserted ++
        r.inserted :: behind.map VgDropRec.inserted := by
      rw [DropTable.insertTimes, he, List.map_append, List.map_cons]
    rw [ht] at hord hnow
    obtain ⟨hfront, htail, hacross⟩ := List.pairwise_append.mp hord
    rw [OldestFirst, htimes, List.pairwise_append, List.pairwise_cons]
    constructor
    · intro hplace
      have hbehind := hplace r behind hfound htakes
      refine ⟨hfront, ⟨?_, (List.pairwise_cons.mp htail).2⟩, fun s hs x hx => ?_⟩
      · exact List.forall_mem_map.mpr hbehind
      · rcases List.mem_cons.mp hx with rfl | hx
        · exact hnow s (List.mem_append_left _ hs)
        · exact hacross s hs x (List.mem_cons_of_mem _ hx)
    · rintro - ⟨-, ⟨hbehind, -⟩, -⟩ y rest hy -
      rw [hfound] at hy
      obtain ⟨rfl, rfl⟩ := List.cons.inj hy
      exact List.forall_mem_map.mp hbehind

theorem dropAdd_stamped (h : c.drops.Ok) : Stamped c.drops p reason (env.wall c.clock)
    (dropAdd env c p reason expires).1.drops (dropAdd env c p reason expires).2 := by
  rw [dropAdd_eq]
  split_ifs
  · exact .same rfl fun h => Bool.noConfusion h
  · exact .same rfl fun h => Bool.noConfusion h
  · have hdrops : c.ticked.armed.drops = c.drops := VgCtrl.armed_drops _
    have hcase : DropCase env c.ticked.armed p reason expires (env.wall c.clock) _ :=
      dropListed_case (hdrops ▸ h) p reason expires (env.wall c.clock)
    exact hdrops ▸ hcase.stamped (hdrops ▸ h)

structure Chronicle (env : Env) (c : VgCtrl) : Prop where
  drops_ok : c.drops.Ok
  oldestFirst : OldestFirst c.drops
  past : ∀ s ∈ c.drops.insertTimes, ∀ n, c.clock ≤ n → s ≤ env.wall n

theorem Chronicle.ticked (h : Chronicle env c) : Chronicle env c.ticked :=
  ⟨h.drops_ok, h.oldestFirst, fun s hs n hn => h.past s hs n (Nat.le_of_succ_le hn)⟩

theorem Chronicle.dropAdd_iff (h : Chronicle env c) :
    (KeepsPlace c.drops p reason (env.wall c.clock) →
      OldestFirst (dropAdd env c p reason expires).1.drops) ∧
    ((dropAdd env c p reason expires).2 = true →
      OldestFirst (dropAdd env c p reason expires).1.drops →
      KeepsPlace c.drops p reason (env.wall c.clock)) :=
  (dropAdd_stamped h.drops_ok).oldestFirst h.oldestFirst fun s hs => h.past s hs _ le_rfl

theorem Chronicle.dropAdd (h : Chronicle env c) (hwall : WallForward env)
    (hplace : KeepsPlace c.drops p reason (env.wall c.clock)) :
    Chronicle env (dropAdd env c p reason expires).1 := by
  refine ⟨(dropAdd_trace env c p reason expires).drops_ok h.drops_ok, h.dropAdd_iff.1 hplace,
    fun s hs n hn => ?_⟩
  rw [dropAdd_clock] at hn
  have hnow : env.wall c.clock ≤ env.wall n := hwall (by omega)
  have hpast : ∀ s ∈ c.drops.insertTimes, s ≤ env.wall n := fun s hs => h.past s hs n (by omega)
  have hstamped : Stamped c.drops p reason (env.wall c.clock)
      (VoidGate.dropAdd env c p reason expires).1.drops _ := dropAdd_stamped h.drops_ok
  rcases hstamped with ⟨htimes, -⟩ | ⟨htimes, -⟩ | ⟨front, behind, r, he, -, -, htimes⟩
  all_goals rw [htimes] at hs
  · exact hpast s hs
  · rcases List.mem_append.mp hs with hs | hs
    · exact hpast s hs
    · exact List.mem_singleton.mp hs ▸ hnow
  · have hmem : ∀ x ∈ front ++ behind, x.inserted ≤ env.wall n := fun x hx => by
      refine hpast _ (List.mem_map_of_mem ?_)
      rw [he]
      exact List.mem_append.mpr ((List.mem_append.mp hx).imp id (List.mem_cons_of_mem _))
    rcases List.mem_append.mp hs with hs | hs
    · obtain ⟨x, hx, rfl⟩ := List.mem_map.mp hs
      exact hmem x (List.mem_append_left _ hx)
    · rcases List.mem_cons.mp hs with rfl | hs
      · exact hnow
      · obtain ⟨x, hx, rfl⟩ := List.mem_map.mp hs
        exact hmem x (List.mem_append_right _ hx)

theorem CallStep.chronicle {call : ListCall} (hstep : CallStep env call c c')
    (h : Chronicle env c) (hwall : WallForward env) (hplace : InPlace env c call) :
    Chronicle env c' := by
  by_cases hd : ∃ p reason, call.Drops p reason
  · obtain ⟨p, reason, rfl | ⟨ttl, rfl, rfl⟩⟩ := hd
    · cases hstep
      exact h.dropAdd hwall hplace
    · cases hstep
      exact h.ticked.dropAdd hwall hplace
  · have htrace := hstep.trace h.drops_ok
    have htimes : c'.drops.insertTimes.Sublist c.drops.insertTimes :=
      (hstep.records_sublist h.drops_ok fun p reason he => hd ⟨p, reason, he⟩).map _
    refine ⟨htrace.drops_ok h.drops_ok, h.oldestFirst.sublist htimes, fun s hs n hn => ?_⟩
    exact h.past s (htimes.subset hs) n (htrace.clock_le.trans hn)

theorem CallRun.chronicle (hrun : CallRun env (InPlace env) c c') (h : Chronicle env c)
    (hwall : WallForward env) : Chronicle env c' :=
  hrun.invariant h fun _ _ _ hx hplace hstep => hstep.chronicle hx hwall hplace

private theorem TickCall.inPlace {call : ListCall} (h : TickCall c call) : InPlace env c call := by
  cases call with
  | drop p reason =>
    intro r behind _ htakes
    rcases h.2 with rfl | rfl <;> rcases htakes with he | ⟨he, -⟩ <;> cases he
  | dropTtl p ttl => exact h.elim
  | _ => trivial

private theorem vgCtrlTick_inPlace (env : Env) (c : VgCtrl) (i : TickIn) :
    CallRun env (InPlace env) c (vgCtrlTick env c i).1 :=
  (vgCtrlTick_calls env c i).mono fun _ _ => TickCall.inPlace

private theorem OldestFirst.ages (h : OldestFirst t) {o : Outside} (ho : ∀ i, o.time i = o.time 0) :
    (listedAges o t).Pairwise (· ≥ ·) := by
  have heq : listedAges o t = t.insertTimes.map fun s => o.time 0 - s := by
    refine List.ext_getElem? fun i => ?_
    rw [listedAges, DropTable.insertTimes, List.map_map, List.getElem?_mapIdx, ho i,
      List.getElem?_map]
    rfl
  rw [heq, List.pairwise_map]
  exact h.imp fun hab => by omega

/-- In a run whose drops keep the place of what they stamp, drops are listed oldest first. -/
theorem oldest_first {cfg : VgConfig} {maps : VgMaps} {cfgPath : List UInt8}
    {ifaceOv : Option (List UInt8)} {c₀ c : VgCtrl}
    (hinit : vgCtrlInit env cfg maps cfgPath ifaceOv = some c₀) (hwall : WallForward env)
    (hrun : CallRun env (InPlace env) c₀ c) :
    OldestFirst c.drops ∧
      (∀ o : Outside, (∀ i, o.time i = o.time 0) → (listedAges o c.drops).Pairwise (· ≥ ·)) ∧
      (∀ i : TickIn, CallRun env (InPlace env) c (vgCtrlTick env c i).1) ∧
      (∀ p reason, (vgCtrlDrop env c p reason).2 = true →
        (OldestFirst (vgCtrlDrop env c p reason).1.drops ↔ InPlace env c (.drop p reason))) ∧
      ∀ p ttl, (vgCtrlDropTtl env c p ttl).2 = true →
        (OldestFirst (vgCtrlDropTtl env c p ttl).1.drops ↔ InPlace env c (.dropTtl p ttl)) := by
  have hstart : Chronicle env c₀ := by
    obtain ⟨hc₀, -⟩ := vgCtrlInit_initial hinit
    have hnil : c₀.drops.insertTimes = [] := by rw [DropTable.insertTimes, hc₀.records, List.map_nil]
    exact ⟨hc₀.drops_ok, by rw [OldestFirst, hnil]; exact .nil, by simp [hnil]⟩
  have h := hrun.chronicle hstart hwall
  refine ⟨h.oldestFirst, fun o ho => h.oldestFirst.ages ho, vgCtrlTick_inPlace env c,
    fun p reason hok => ?_, fun p ttl hok => ?_⟩
  · exact ⟨h.dropAdd_iff.2 hok, h.dropAdd_iff.1⟩
  · exact ⟨h.ticked.dropAdd_iff.2 hok, h.ticked.dropAdd_iff.1⟩

theorem steadyEnv_wall : WallForward steadyEnv := fun m n h => by
  simpa [steadyEnv, sampleEnv] using h

/-- The controller of the small host, before it does anything. -/
def steadyCtrl : VgCtrl :=
  (vgCtrlInit steadyEnv (vgConfigDefaults samplePton) ⟨.fresh, 0, []⟩ [] none).get
    (by decide +kernel)

private theorem keepsPlace_of_behind (h : ∀ x ∈ (t.fromRecord p).tail, now ≤ x.inserted) :
    KeepsPlace t p reason now := by
  intro r behind he _
  rwa [he] at h

def steadyDrops (hosts : List UInt8) : VgCtrl :=
  hosts.foldl (fun c a => (vgCtrlDrop steadyEnv c (sampleHost [198, 18, 0, a]).1 .manual).1) steadyCtrl

theorem steadyDrops_run {ok : VgCtrl → ListCall → Prop} (hosts : List UInt8) (a : UInt8)
    (h : CallRun steadyEnv ok steadyCtrl (steadyDrops hosts))
    (ha : ok (steadyDrops hosts) (.drop (sampleHost [198, 18, 0, a]).1 .manual)) :
    CallRun steadyEnv ok steadyCtrl (steadyDrops (hosts ++ [a])) := by
  rw [steadyDrops, List.foldl_append]
  exact h.trans (CallStep.drop.run ha)

/-- The last record of the list may be stamped anew. -/
theorem oldest_first_sample : ∃ c, CallRun steadyEnv (InPlace steadyEnv) steadyCtrl c ∧
    c.drops.insertTimes = [1000000, 1000002] ∧ OldestFirst c.drops := by
  have hrun : CallRun steadyEnv (InPlace steadyEnv) steadyCtrl (steadyDrops [1, 2, 2]) := by
    refine steadyDrops_run [1, 2] 2 (steadyDrops_run [1] 2 (steadyDrops_run [] 1 .refl ?_) ?_) ?_
    all_goals exact keepsPlace_of_behind (by decide +kernel)
  exact ⟨_, hrun, by decide +kernel, (oldest_first (Option.some_get _).symm steadyEnv_wall hrun).1⟩

/-- A host that prints the addresses of 198.18.0.0/24 and reads the clock after three drops. -/
def testNetOutside : Outside :=
  { steadyOutside with
    inetNtop := fun _ a => bytes "198.18.0." ++ Decimals.text (octet a 3).toNat
    time := fun _ => 1000002 }

/-- The first of two drops is dropped again, and the listing starts with the younger one. -/
theorem redrop_breaks_order : WallForward steadyEnv ∧
    ∃ c, CallRun steadyEnv (fun _ _ => True) steadyCtrl c ∧
      c.drops.insertTimes = [1000002, 1000001] ∧ ¬ OldestFirst c.drops ∧
      listedAges testNetOutside c.drops = [0, 1] ∧
      ctlDrops testNetOutside c =
        bytes "198.18.0.1/32 reason=1 age=0\n198.18.0.2/32 reason=1 age=1\n" := by
  have hrun : CallRun steadyEnv (fun _ _ => True) steadyCtrl (steadyDrops [1, 2, 1]) :=
    steadyDrops_run [1, 2] 1 (steadyDrops_run [1] 2 (steadyDrops_run [] 1 .refl trivial) trivial) trivial
  have htimes : (steadyDrops [1, 2, 1]).drops.insertTimes = [1000002, 1000001] := by decide +kernel
  refine ⟨steadyEnv_wall, _, hrun, htimes, ?_, by decide +kernel, by decide +kernel⟩
  rw [OldestFirst, htimes]
  decide

end VoidGate
