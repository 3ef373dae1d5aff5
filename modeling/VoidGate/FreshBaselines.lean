import VoidGate.RemoteRates

/-!
# Fresh baselines

A visit drops a remote for what it sent since its snapshot. The counters of the kernel
outlive a period, but snapshots do not: arming forgets them all, and so does the wrap of
the generation, so that whatever a visit subtracts was read by an earlier visit of the
same remote in the same period.
-/

namespace VoidGate

open Runs

variable {env : Env} {c c' : VgCtrl} {t : TickIn} {r : Remote}

namespace SnapTable
variable {u : SnapTable}

@[simp] theorem last_snapResetPool (u : SnapTable) (x : IpAddr) : u.snapResetPool.last x = none :=
  u.inv_reset.last_eq_none (by simp)

theorem last_of_nextGen {x : IpAddr} {ρ : Reading} (h : (nextGen u).last x = some ρ) :
    u.last x = some ρ := by
  rw [nextGen] at h
  split_ifs at h
  · have hnone : u.snapResetPool.last x = some ρ := h
    rw [last_snapResetPool] at hnone
    cases hnone
  · exact h

theorem Ok.last_of_snapPrune (hok : u.Ok) {x : IpAddr} {ρ : Reading}
    (h : u.snapPrune.last x = some ρ) : u.last x = some ρ := by
  obtain ⟨L, F, hinv⟩ := hok
  rw [last_eq, hinv.entryOf_snapPrune] at h
  obtain ⟨e, he, rfl⟩ := Option.map_eq_some_iff.mp h
  rw [last_eq, (Option.filter_eq_some_iff.mp he).1]
  rfl

end SnapTable

/-- The state in which a tick that walks makes its visit number `j`. -/
def visitIn (env : Env) (c : VgCtrl) (t : TickIn) (j : ℕ) : VgCtrl :=
  (t.remotes.take j).foldl (policyOneRemote env (c.lastTick.until t.mono))
    { measured c t with snaps := nextGen (measured c t).snaps }

/-- The visit changes the drop list or a map. -/
def Drops (env : Env) (c : VgCtrl) (t : TickIn) (j : ℕ) : Prop :=
  (visitIn env c t (j + 1)).drops ≠ (visitIn env c t j).drops ∨
    (visitIn env c t (j + 1)).maps ≠ (visitIn env c t j).maps

theorem visitIn_succ (env : Env) (c : VgCtrl) {j : ℕ} (h : t.remotes[j]? = some r) :
    visitIn env c t (j + 1) =
      policyOneRemote env (c.lastTick.until t.mono) (visitIn env c t j) r := by
  rw [visitIn, List.take_add_one, h, List.foldl_append]
  rfl

theorem visitIn_succ_of_none (env : Env) (c : VgCtrl) {j : ℕ} (h : t.remotes[j]? = none) :
    visitIn env c t (j + 1) = visitIn env c t j := by
  rw [visitIn, List.take_add_one, h]
  simp [visitIn]

theorem walkRemotes_visitIn (env : Env) (c : VgCtrl) (t : TickIn) :
    walkRemotes env (c.lastTick.until t.mono) (measured c t) t =
      if t.complete = 1 then
        { visitIn env c t t.remotes.length with
          snaps := (visitIn env c t t.remotes.length).snaps.snapPrune }
      else visitIn env c t t.remotes.length := by
  rw [walkRemotes, visitIn, List.take_length]

structure Ready (t : TickIn) (x : VgCtrl) : Prop where
  state : x.state = .active
  lastTick : x.lastTick = t.mono
  snaps_ok : x.snaps.Ok

theorem visitIn_visited (env : Env) (hw : Walks c t) {j : ℕ} (hx : Ready t (visitIn env c t j))
    (hr : t.remotes[j]? = some r) : Visited (c.lastTick.until t.mono) r (visitIn env c t j)
      (visitIn env c t (j + 1)) := by
  rw [visitIn_succ env c hr]
  exact policyOneRemote_visited env hw.2.2.2 hx.state hx.snaps_ok r

theorem visitIn_ready (env : Env) (hw : Walks c t) (hok : c.snaps.Ok) (j : ℕ) :
    Ready t (visitIn env c t j) := by
  have hsame := measured_samePeriod c t
  induction j with
  | zero =>
    refine ⟨hsame.state.trans hw.1, (measured_lastTick c t).2, ?_⟩
    exact (hsame.snaps.symm ▸ hok : (measured c t).snaps.Ok).nextGen
  | succ j ih =>
    cases hr : t.remotes[j]? with
    | none => exact visitIn_succ_of_none env c hr ▸ ih
    | some r =>
      have hv := visitIn_visited env hw ih hr
      exact ⟨hv.state, hv.lastTick.trans ih.lastTick, hv.snaps_ok⟩

/-- A visit that drops has compared the counters with a snapshot. -/
private theorem Ready.compared {j : ℕ} (hw : Walks c t) (hx : Ready t (visitIn env c t j))
    (hr : t.remotes[j]? = some r) (hd : Drops env c t j) :
    ∃ ρ, (visitIn env c t j).snaps.last r.host = some ρ ∧
      (visitIn env c t (j + 1)).judged =
        judge (visitIn env c t j).cfg ρ r t.mono (c.lastTick.until t.mono) ::
          (visitIn env c t j).judged ∧
      quiet (judge (visitIn env c t j).cfg ρ r t.mono (c.lastTick.until t.mono)) = false := by
  have hv := visitIn_visited env hw hx hr
  rcases policyOneRemote_loud env (c.lastTick.until t.mono) (visitIn env c t j) r with
    ⟨hdrops, hmaps⟩ | ⟨g, hg, -, hloud⟩
  · rw [← visitIn_succ env c hr] at hdrops hmaps
    exact absurd hd (by simp [Drops, hdrops, hmaps])
  · rw [← visitIn_succ env c hr, hv.judged, hx.lastTick] at hg
    cases hl : (visitIn env c t j).snaps.last r.host with
    | none => simp [hl] at hg
    | some ρ =>
      rw [hl] at hg
      obtain ⟨rfl, -⟩ := List.cons.inj hg
      exact ⟨ρ, rfl, by rw [hv.judged, hl, hx.lastTick]; rfl, hloud⟩

/-- Input `n` of a run is a tick that walks, and its visit number `j` finds `r`. -/
structure VisitAt (s : ℕ → VgCtrl) (cmds : ℕ → Cmd) (n j : ℕ) (t : TickIn) (r : Remote) : Prop where
  tick : cmds n = .tick t
  walks : Walks (s n) t
  remote : t.remotes[j]? = some r

/-- A visit of `x` before visit `j` of input `n`, in the same period, has read `ρ`. -/
def Baseline (s : ℕ → VgCtrl) (cmds : ℕ → Cmd) (n j : ℕ) (x : IpAddr) (ρ : Reading) : Prop :=
  ∃ k i t r, VisitAt s cmds k i t r ∧ (k < n ∨ k = n ∧ i < j) ∧
    (∀ l, k ≤ l → l ≤ n → (s l).state = .active) ∧
    r.host = x ∧ ρ = ⟨r.inPkts, r.inBytes, t.mono⟩

section Run
variable {s : ℕ → VgCtrl} {cmds : ℕ → Cmd} {n j : ℕ} {x : IpAddr} {ρ : Reading}

theorem Baseline.next_visit (h : Baseline s cmds n j x ρ) : Baseline s cmds n (j + 1) x ρ := by
  obtain ⟨k, i, t, r, hv, hlt, hperiod, hhost, hread⟩ := h
  exact ⟨k, i, t, r, hv, hlt.imp_right fun ⟨hk, hi⟩ => ⟨hk, Nat.lt_succ_of_lt hi⟩, hperiod, hhost,
    hread⟩

theorem Baseline.next_input (h : Baseline s cmds n j x ρ) (hs : (s (n + 1)).state = .active) :
    Baseline s cmds (n + 1) 0 x ρ := by
  obtain ⟨k, i, t, r, hv, hlt, hperiod, hhost, hread⟩ := h
  refine ⟨k, i, t, r, hv, .inl (by omega), fun l hkl hl => ?_, hhost, hread⟩
  rcases Nat.le_succ_iff.mp hl with hl | rfl
  · exact hperiod l hkl hl
  · exact hs

private theorem VisitAt.baseline (h : VisitAt s cmds n j t r) :
    Baseline s cmds n (j + 1) r.host ⟨r.inPkts, r.inBytes, t.mono⟩ := by
  refine ⟨n, j, t, r, h, .inr ⟨rfl, Nat.lt_succ_self j⟩, fun l hkl hl => ?_, rfl, rfl⟩
  exact Nat.le_antisymm hl hkl ▸ h.walks.1

/-- Every snapshot of `u` was read in this period, before visit `j` of input `n`. -/
def Based (s : ℕ → VgCtrl) (cmds : ℕ → Cmd) (n j : ℕ) (u : SnapTable) : Prop :=
  ∀ x ρ, u.last x = some ρ → Baseline s cmds n j x ρ

def Fresh (s : ℕ → VgCtrl) (cmds : ℕ → Cmd) (n : ℕ) : Prop :=
  (s n).state = .active → (s n).snaps.Ok ∧ Based s cmds n 0 (s n).snaps

theorem Fresh.visit (env : Env) (h : Fresh s cmds n) (ht : cmds n = .tick t) (hw : Walks (s n) t)
    (j : ℕ) : Based s cmds n j (visitIn env (s n) t j).snaps := by
  obtain ⟨hok, hbased⟩ := h hw.1
  induction j with
  | zero =>
    intro x ρ hl
    have hold : (measured (s n) t).snaps.last x = some ρ := SnapTable.last_of_nextGen hl
    rw [(measured_samePeriod (s n) t).snaps] at hold
    exact hbased x ρ hold
  | succ j ih =>
    intro x ρ hl
    have hx := visitIn_ready env hw hok j
    cases hr : t.remotes[j]? with
    | none =>
      rw [visitIn_succ_of_none env _ hr] at hl
      exact (ih x ρ hl).next_visit
    | some r =>
      have hv := visitIn_visited env hw hx hr
      by_cases he : x = r.host
      · subst he
        rw [hv.own ρ hl, hx.lastTick]
        exact VisitAt.baseline ⟨ht, hw, hr⟩
      · rw [hv.others x he] at hl
        exact (ih x ρ hl).next_visit

@[simp] theorem quietTest_snaps (env : Env) (c : VgCtrl) : (quietTest env c).snaps = c.snaps := by
  have hstart : (quietStart env c).snaps = c.snaps := by
    rw [quietStart]
    split_ifs <;> rfl
  simp only [quietTest]
  split_ifs
  · rw [vgCtrlDisarm_eq]
    exact hstart
  · exact hstart
  · exact hstart
  · rfl

theorem vgCtrlTick_snaps (env : Env) (hw : Walks c t) : (vgCtrlTick env c t).1.snaps =
    if t.complete = 1 then (visitIn env c t t.remotes.length).snaps.snapPrune
    else (visitIn env c t t.remotes.length).snaps := by
  rw [vgCtrlTick_walks env hw, quietTest_snaps, (expireDrops_dropsOnly env _).samePeriod.snaps,
    walkRemotes_visitIn, apply_ite VgCtrl.snaps]

/-- A walk keeps the invariant. -/
theorem Fresh.walk (h : Fresh s cmds n) (ht : cmds n = .tick t) (hw : Walks (s n) t)
    (hstep : s (n + 1) = (vgCtrlTick env (s n) t).1) : Fresh s cmds (n + 1) := by
  intro hs
  have hok := (visitIn_ready env hw (h hw.1).1 t.remotes.length).snaps_ok
  have hbased := h.visit env ht hw t.remotes.length
  have hsnaps := vgCtrlTick_snaps env hw
  rw [← hstep] at hsnaps
  rw [hsnaps]
  split_ifs
  · exact ⟨hok.snapPrune, fun x ρ hl => (hbased x ρ (hok.last_of_snapPrune hl)).next_input hs⟩
  · exact ⟨hok, fun x ρ hl => (hbased x ρ hl).next_input hs⟩

/-- One input keeps the invariant. -/
theorem Fresh.succ (h : Fresh s cmds n) (hstep : s (n + 1) = step env (s n) (cmds n)) :
    Fresh s cmds (n + 1) := by
  by_cases hwalk : ∃ t, cmds n = .tick t ∧ Walks (s n) t
  · obtain ⟨t, ht, hw⟩ := hwalk
    rw [ht] at hstep
    exact h.walk ht hw hstep
  · have hkeep : KeepsPeriod (s n) (s (n + 1)) :=
      hstep ▸ step_rests fun t ht hw => hwalk ⟨t, ht, hw⟩
    intro hs
    rcases hkeep hs with ⟨hactive, hsame⟩ | ⟨-, hreset⟩
    · obtain ⟨hok, hbased⟩ := h hactive
      rw [hsame.snaps]
      exact ⟨hok, fun x ρ hl => (hbased x ρ hl).next_input hs⟩
    · rw [hreset]
      refine ⟨⟨_, _, (s n).snaps.inv_reset⟩, fun x ρ hl => ?_⟩
      rw [SnapTable.last_snapResetPool] at hl
      cases hl

end Run

private theorem states_fresh {c₀ : VgCtrl} (h : c₀.state = .idle) (cmds : ℕ → Cmd) (n : ℕ) :
    Fresh (states (step env) c₀ cmds) cmds n := by
  induction n with
  | zero => exact fun hs => absurd (h.symm.trans hs) (by decide)
  | succ n ih => exact ih.succ rfl

section PolicyDrops
variable {d : VgDropRec}

private theorem DropOutcome.mem_records {p : VgCidr} {reason : Reason} {expires now : ℤ}
    (h : DropOutcome env c p reason expires now c')
    (hreason : reason = .policy ∨ reason = .aggregate) (hd : d ∈ c'.drops.records) :
    d ∈ c.drops.records ∨ (d.cidr = p ∧ d.reason = reason) := by
  cases h with
  | kept hr _ => exact .inl (hr ▸ hd)
  | listed _ hr _ =>
    rw [hr] at hd
    rcases List.mem_append.mp hd with hd | hd
    · exact .inl hd
    · obtain rfl := List.mem_singleton.mp hd
      exact .inr ⟨rfl, rfl⟩
  | rewritten r r' hmem _ _ _ hr hk =>
    have hsame : r' = r := by
      rcases hk with ⟨-, rfl⟩ | ⟨-, rfl⟩ <;> rcases hreason with rfl | rfl <;>
        simp [redropped, rebase]
    rw [hr, hsame] at hd
    obtain ⟨y, hy, rfl⟩ := List.mem_map.mp hd
    split_ifs
    · exact .inl hmem
    · exact .inl hy

private theorem Trace.policy_of_visit {host : VgCidr} (h : Trace env (VisitAct host) c c')
    (hok : c.drops.Ok) (hd : d ∈ c'.drops.records) (hp : d.reason = .policy) :
    d ∈ c.drops.records ∨ d.cidr = host := by
  refine (h.invariant (I := fun x => x.drops.Ok ∧ ∀ d ∈ x.drops.records, d.reason = .policy →
    d ∈ c.drops.records ∨ d.cidr = host) ⟨hok, fun _ hd _ => .inl hd⟩ ?_).2 d hd hp
  intro x x' a hx ha hm
  refine ⟨hm.drops_ok hx.1, fun d hd hp => ?_⟩
  cases hm with
  | books hb => exact hx.2 d (hb.drops ▸ hd) hp
  | arm hs =>
    rw [vgCtrlArm_idle env hs] at hd
    exact hx.2 d hd hp
  | @drop _ p reason expires now hs hprot =>
    have hreason : reason = .policy ∨ reason = .aggregate := ha.imp And.right And.right
    rcases (dropListed_outcome hx.1 p reason expires now).2.mem_records hreason hd with
      hd | ⟨hc, hr⟩
    · exact hx.2 d hd hp
    · rcases ha with ⟨hhost, -⟩ | ⟨-, rfl⟩
      · exact .inr (hc.trans hhost)
      · exact absurd (hr.symm.trans hp) (by decide)
  | _ => exact ha.elim

@[simp] theorem measured_drops (c : VgCtrl) (t : TickIn) : (measured c t).drops = c.drops := by
  rw [measured]
  split
  · exact (tickDt_books c t.mono).drops
  · exact (updateRates_books _ _ _).drops.trans (tickDt_books c t.mono).drops

theorem visitIn_drops_ok (env : Env) (hok : c.drops.Ok) (t : TickIn) (j : ℕ) :
    (visitIn env c t j).drops.Ok := by
  induction j with
  | zero => exact (measured_drops c t).symm ▸ hok
  | succ j ih =>
    cases hr : t.remotes[j]? with
    | none => exact visitIn_succ_of_none env c hr ▸ ih
    | some r => exact visitIn_succ env c hr ▸ (policyOneRemote_trace env _ _ r).drops_ok ih

private theorem visitIn_listed (hok : c.drops.Ok) (hp : d.reason = .policy) (hnew : d ∉ c.drops.records)
    {j : ℕ} (hd : d ∈ (visitIn env c t j).drops.records) :
    ∃ i r, t.remotes[i]? = some r ∧ d.cidr = r.host.host ∧ Drops env c t i := by
  induction j with
  | zero => exact absurd (measured_drops c t ▸ hd) hnew
  | succ j ih =>
    by_cases hold : d ∈ (visitIn env c t j).drops.records
    · exact ih hold
    · cases hr : t.remotes[j]? with
      | none => exact absurd (visitIn_succ_of_none env c hr ▸ hd) hold
      | some r =>
        have hne : (visitIn env c t (j + 1)).drops ≠ (visitIn env c t j).drops :=
          fun he => hold (he ▸ hd)
        rw [visitIn_succ env c hr] at hd
        have hcidr := (policyOneRemote_trace env _ _ r).policy_of_visit
          (visitIn_drops_ok env hok t j) hd hp
        exact ⟨j, r, hr, hcidr.resolve_left hold, .inl hne⟩

theorem expireDrops_subset (hok : c.drops.Ok) (hd : d ∈ (expireDrops env c).drops.records) :
    d ∈ c.drops.records := by
  have htrace : Trace env (fun _ a => ∃ i, a = .lift i) { c with clock := c.clock + 1 }
      (expireDrops env c) := by
    refine forEachDrop_trace (I := fun _ => True) hok trivial (fun _ _ _ => trivial)
      (fun x i => ?_) fun _ i _ _ => ⟨i, rfl⟩
    rw [expireOne]
    split_ifs
    · exact .inl rfl
    · exact .inr rfl
  refine (htrace.invariant (I := fun x => x.drops.Ok ∧ ∀ d ∈ x.drops.records, d ∈ c.drops.records)
    ⟨hok, fun _ hd => hd⟩ ?_).2 d hd
  rintro x x' a hx ⟨i, rfl⟩ hm
  refine ⟨hm.drops_ok hx.1, fun d hd => hx.2 d ?_⟩
  cases hm with
  | lift hi =>
    rcases dropRemove_cases env x i with ⟨-, he⟩ | ⟨-, he⟩
    · rwa [he] at hd
    · rw [he, (hx.1.lift hi).2] at hd
      exact (List.mem_filter.mp hd).1

theorem quietTest_subset (hok : c.drops.Ok) (hd : d ∈ (quietTest env c).drops.records) :
    d ∈ c.drops.records := by
  have hstart : (quietStart env c).drops = c.drops := (quietStart_books env c).drops
  simp only [quietTest] at hd
  split_ifs at hd
  · rw [vgCtrlDisarm_eq] at hd
    dsimp only at hd
    rw [hstart, hok.reset.2] at hd
    cases hd
  · exact hstart ▸ hd
  · exact hstart ▸ hd
  · exact hd

private theorem vgCtrlTick_listed (hok : c.drops.Ok) (hp : d.reason = .policy)
    (hnew : d ∉ c.drops.records) (hd : d ∈ (vgCtrlTick env c t).1.drops.records) :
    Walks c t ∧ ∃ i r, t.remotes[i]? = some r ∧ d.cidr = r.host.host ∧ Drops env c t i := by
  by_cases hw : Walks c t
  · have hwalk : (walkRemotes env (c.lastTick.until t.mono) (measured c t) t).drops =
        (visitIn env c t t.remotes.length).drops := by
      rw [walkRemotes_visitIn, apply_ite VgCtrl.drops, ite_self]
    have hokw := hwalk ▸ visitIn_drops_ok env hok t t.remotes.length
    rw [vgCtrlTick_walks env hw] at hd
    have hexpired := quietTest_subset ((expireDrops_trace hokw le_rfl).drops_ok hokw) hd
    exact ⟨hw, visitIn_listed hok hp hnew (hwalk ▸ expireDrops_subset hokw hexpired)⟩
  · refine absurd ?_ hnew
    rw [← measured_drops c t]
    rcases vgCtrlTick_rests env hw with he | ⟨-, -, -, -, he⟩
    · rwa [he] at hd
    · rw [he] at hd
      simp only [vgCtrlArm] at hd
      split_ifs at hd <;> exact hd

end PolicyDrops

/-- In every run a policy drop that a tick adds was added by a visit of its host; and every visit
that drops has compared the counters with those that an earlier visit of the same remote read, since
the gate was last armed. -/
theorem policy_drops_from_fresh_baselines {c₀ : VgCtrl} {cfgPath : List UInt8}
    {ifaceOv : Option (List UInt8)} {file : ConfigFile} {nic : Option (List IfAddr)}
    (hstart : startUp env cfgPath ifaceOv file nic = some c₀) (cmds : ℕ → Cmd) {n : ℕ}
    (ht : cmds n = .tick t) :
    let s := states (step env) c₀ cmds
    (∀ d ∈ (s (n + 1)).drops.records, d.reason = .policy → d ∉ (s n).drops.records →
      ∃ j r, VisitAt s cmds n j t r ∧ d.cidr = r.host.host ∧ Drops env (s n) t j) ∧
      ∀ j r, VisitAt s cmds n j t r → Drops env (s n) t j →
        ∃ ρ, Baseline s cmds n j r.host ρ ∧
          (visitIn env (s n) t (j + 1)).judged =
            judge (visitIn env (s n) t j).cfg ρ r t.mono ((s n).lastTick.until t.mono) ::
              (visitIn env (s n) t j).judged ∧
          quiet (judge (visitIn env (s n) t j).cfg ρ r t.mono
            ((s n).lastTick.until t.mono)) = false := by
  intro s
  have hinit := (startUp_initial hstart).1
  have hnext : s (n + 1) = (vgCtrlTick env (s n) t).1 := states_tick ht
  refine ⟨fun d hd hp hnew => ?_, fun j r hv hdrops => ?_⟩
  · have hok : (s n).drops.Ok := (reaches_states cmds n).invariant (I := fun x : VgCtrl => x.drops.Ok)
      hinit.drops_ok fun _ cmd h _ => step_drops_ok h cmd
    rw [hnext] at hd
    obtain ⟨hw, j, r, hr, hcidr, hdrops⟩ := vgCtrlTick_listed hok hp hnew hd
    exact ⟨j, r, ⟨ht, hw, hr⟩, hcidr, hdrops⟩
  · have hfresh : Fresh s cmds n := states_fresh hinit.state cmds n
    have hx := visitIn_ready env hv.walks (hfresh hv.walks.1).1 j
    obtain ⟨ρ, hlast, hjudged, hloud⟩ := hx.compared hv.walks hv.remote hdrops
    exact ⟨ρ, hfresh.visit env ht hv.walks j _ ρ hlast, hjudged, hloud⟩

/-- The small host is armed and ticks every second. The second walk finds 600 packets more than the
first. -/
def floodCmds : ℕ → Cmd
  | 0 => .arm
  | 1 => .tick (tickAt 0 0 true)
  | 2 => .tick (tickAt 1 0 true)
  | _ => .tick (tickAt 2 600 true)

def floodRun : ℕ → VgCtrl := states (step steadyEnv) steadyStart floodCmds

theorem policy_drops_from_fresh_baselines_flood : ∃ d ∈ (floodRun 4).drops.records,
    d.reason = .policy ∧ d ∉ (floodRun 3).drops.records ∧
      ∃ j r, VisitAt floodRun floodCmds 3 j (tickAt 2 600 true) r ∧ d.cidr = r.host.host ∧
        ∃ ρ, Baseline floodRun floodCmds 3 j r.host ρ := by
  obtain ⟨hnew, hfresh⟩ := policy_drops_from_fresh_baselines steadyStart_eq floodCmds (n := 3) rfl
  have hd : ∃ d ∈ (floodRun 4).drops.records, d.reason = .policy ∧
      d ∉ (floodRun 3).drops.records := by decide +kernel
  obtain ⟨d, hmem, hp, hold⟩ := hd
  obtain ⟨j, r, hv, hcidr, hdrops⟩ := hnew d hmem hp hold
  obtain ⟨ρ, hbase, -⟩ := hfresh j r hv hdrops
  exact ⟨d, hmem, hp, hold, j, r, hv, hcidr, ρ, hbase⟩

end VoidGate
