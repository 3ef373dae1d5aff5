import VoidGate.CallTraces

/-!
# Calls on the drop list

The functions of `policy.c` that change the drop list, as the steps of a relation. In
between the daemon does its bookkeeping and may arm the gate. A tick is a sequence of
such steps: drops for policy reasons, one expiry, and a disarm of an empty list.
-/

namespace VoidGate

inductive ListCall where
  | books
  | arm
  | drop (p : VgCidr) (reason : Reason)
  | dropTtl (p : VgCidr) (ttl : ℕ)
  | undrop (p : VgCidr)
  | expire
  | prune (cfg : VgConfig)
  | disarm

/-- What each call does. A prune comes with the configuration it finds. -/
inductive CallStep (env : Env) : ListCall → VgCtrl → VgCtrl → Prop where
  | books {c c' : VgCtrl} (h : Books c c') : CallStep env .books c c'
  | arm {c : VgCtrl} : CallStep env .arm c (vgCtrlArm env c).1
  | drop {c : VgCtrl} {p : VgCidr} {reason : Reason} :
      CallStep env (.drop p reason) c (vgCtrlDrop env c p reason).1
  | dropTtl {c : VgCtrl} {p : VgCidr} {ttl : ℕ} :
      CallStep env (.dropTtl p ttl) c (vgCtrlDropTtl env c p ttl).1
  | undrop {c : VgCtrl} {p : VgCidr} : CallStep env (.undrop p) c (vgCtrlUndrop env c p).1
  | expire {c : VgCtrl} : CallStep env .expire c (expireDrops env c)
  | prune {c : VgCtrl} {cfg : VgConfig} :
      CallStep env (.prune cfg) c (vgCtrlPruneProtected env { c with cfg := cfg })
  | disarm {c : VgCtrl} : CallStep env .disarm c (vgCtrlDisarm env c).1

/-- A sequence of calls, each of them permitted where it is made. -/
def CallRun (env : Env) (ok : VgCtrl → ListCall → Prop) : VgCtrl → VgCtrl → Prop :=
  Relation.ReflTransGen fun c c' => ∃ call, ok c call ∧ CallStep env call c c'

variable {env : Env} {ok ok' : VgCtrl → ListCall → Prop} {c c' : VgCtrl}

theorem CallStep.run {call : ListCall} (h : CallStep env call c c') (hok : ok c call) :
    CallRun env ok c c' := Relation.ReflTransGen.single ⟨call, hok, h⟩

theorem CallRun.refl : CallRun env ok c c := Relation.ReflTransGen.refl

theorem CallRun.trans {c'' : VgCtrl} (h : CallRun env ok c c') (h' : CallRun env ok c' c'') :
    CallRun env ok c c'' := Relation.ReflTransGen.trans h h'

theorem CallRun.mono (h : CallRun env ok c c') (himp : ∀ c call, ok c call → ok' c call) :
    CallRun env ok' c c' :=
  Relation.ReflTransGen.mono (fun c _ ⟨call, hcall, hc⟩ => ⟨call, himp c call hcall, hc⟩) _ _ h

/-- The rule for invariants. -/
theorem CallRun.invariant {I : VgCtrl → Prop} (h : CallRun env ok c c') (start : I c)
    (next : ∀ c c' call, I c → ok c call → CallStep env call c c' → I c') : I c' := by
  induction h with
  | refl => exact start
  | tail _ hstep ih =>
    obtain ⟨call, hcall, hc⟩ := hstep
    exact next _ _ call ih hcall hc

/-- The call lists `p` for this reason, if it gets that far. -/
def ListCall.Drops (call : ListCall) (p : VgCidr) (reason : Reason) : Prop :=
  call = .drop p reason ∨ ∃ ttl, call = .dropTtl p ttl ∧ reason = .timed

def ListCall.Allows (call : ListCall) (_ : VgCtrl) : Act → Prop
  | .drop p reason => call.Drops p reason
  | .stray p => call = .undrop p
  | .disarm => call = .disarm
  | _ => True

theorem CallStep.trace {call : ListCall} (h : CallStep env call c c') (hok : c.drops.Ok) :
    Trace env call.Allows c c' := by
  have hdrop : ∀ {p reason}, call.Drops p reason → ∀ c a, DropAct p reason c a →
      call.Allows c a := by
    intro p reason hd c a ha
    cases a with
    | drop q reason' =>
      obtain ⟨rfl, rfl⟩ := ha
      exact hd
    | books => trivial
    | arm => trivial
    | _ => exact ha.elim
  cases h with
  | books h => exact .books h trivial
  | arm => exact vgCtrlArm_trace trivial
  | drop => exact (dropAdd_trace env c _ _ 0).mono (hdrop (.inl rfl))
  | dropTtl => exact (vgCtrlDropTtl_trace env c _ _).mono (hdrop (.inr ⟨_, rfl, rfl⟩))
  | undrop =>
    refine (vgCtrlUndrop_trace hok _).mono fun _ a ha => ?_
    cases a with
    | lift i => trivial
    | stray q => exact congrArg ListCall.undrop ha.symm
    | _ => exact ha.elim
  | expire => exact expireDrops_lifts hok trivial fun _ _ _ _ => trivial
  | @prune _ cfg =>
    have hset : Micro env (.setCfg cfg) c { c with cfg := cfg } := .setCfg
    refine (hset.trace trivial).trans ?_
    refine (vgCtrlPruneProtected_trace (by exact hok)).mono fun _ a ha => ?_
    cases a with
    | lift i => trivial
    | _ => exact ha.elim
  | disarm => exact Micro.disarm.trace rfl

theorem Micro.records_sublist {a : Act} (h : Micro env a c c') (hok : c.drops.Ok)
    (ha : ∀ p reason, a ≠ .drop p reason) : c'.drops.records.Sublist c.drops.records := by
  cases h with
  | books h => exact h.drops ▸ .refl _
  | arm h =>
    have he := vgCtrlArm_idle env h
    rw [he]
  | drop => exact absurd rfl (ha _ _)
  | @lift _ i hi =>
    rcases dropRemove_cases env c i with ⟨-, he⟩ | ⟨-, he⟩
    · rw [he]
    · rw [he]
      exact (hok.lift hi).2 ▸ List.filter_sublist
  | stray h => exact .refl _
  | disarm =>
    rw [vgCtrlDisarm_eq]
    exact hok.reset.2 ▸ List.nil_sublist _
  | setCfg => exact .refl _
  | commit => exact .refl _
  | populate => exact .refl _

theorem CallStep.records_sublist {call : ListCall} (h : CallStep env call c c') (hok : c.drops.Ok)
    (hno : ∀ p reason, ¬ call.Drops p reason) : c'.drops.records.Sublist c.drops.records := by
  refine ((h.trace hok).invariant (I := fun x : VgCtrl =>
    x.drops.Ok ∧ x.drops.records.Sublist c.drops.records) ⟨hok, .refl _⟩ ?_).2
  rintro x x' a ⟨hx, hsub⟩ ha hm
  refine ⟨hm.drops_ok hx, (hm.records_sublist hx fun p reason he => ?_).trans hsub⟩
  rw [he] at ha
  exact hno p reason ha

/-- The calls of a tick. -/
def TickCall (c : VgCtrl) : ListCall → Prop
  | .books => True
  | .arm => True
  | .drop p reason => p.Masked ∧ (reason = .policy ∨ reason = .aggregate)
  | .expire => True
  | .disarm => c.drops.count = 0
  | _ => False

/-- The calls of a visit of `host`. -/
def VisitCall (host : VgCidr) (_ : VgCtrl) : ListCall → Prop
  | .books => True
  | .drop p reason =>
    (p = host ∧ reason = .policy) ∨ (aggregateNet host = some p ∧ reason = .aggregate)
  | _ => False

private theorem VisitCall.tickCall {host : VgCidr} (hh : host.Masked) {call : ListCall}
    (h : VisitCall host c call) : TickCall c call := by
  cases call with
  | books => trivial
  | drop p reason =>
    rcases h with ⟨rfl, rfl⟩ | ⟨hn, rfl⟩
    · exact ⟨hh, .inl rfl⟩
    · exact ⟨aggregateNet_masked hh hn, .inr rfl⟩
  | _ => exact h.elim

theorem CallRun.books (h : Books c c') (hok : ok c .books) : CallRun env ok c c' :=
  (CallStep.books h).run hok

theorem maybeAggregate_calls (env : Env) (c : VgCtrl) (host : VgCidr) :
    CallRun env (VisitCall host) c (maybeAggregate env c host) := by
  rw [maybeAggregate]
  cases hn : aggregateNet host with
  | none => exact .refl
  | some net =>
    dsimp only
    split_ifs
    · exact CallStep.drop.run (.inr ⟨hn, rfl⟩)
    · exact .refl

/-- The end of a visit that found its remote over a threshold. -/
def policyDrop (env : Env) (c : VgCtrl) (host : VgCidr) : VgCtrl :=
  if (vgCtrlDrop env c host .policy).2 then
    maybeAggregate env (vgCtrlDrop env c host .policy).1 host
  else (vgCtrlDrop env c host .policy).1

private theorem policyDrop_calls (env : Env) (c : VgCtrl) (host : VgCidr) :
    CallRun env (VisitCall host) c (policyDrop env c host) := by
  have hdrop : CallRun env (VisitCall host) c (vgCtrlDrop env c host .policy).1 :=
    CallStep.drop.run (.inl ⟨rfl, rfl⟩)
  rw [policyDrop]
  split_ifs
  · exact hdrop.trans (maybeAggregate_calls env _ host)
  · exact hdrop

/-- A visit writes snapshots and the log, and goes on to a drop if what it has logged is over a
threshold. -/
theorem policyOneRemote_cases (env : Env) (dt : ℚ) (c : VgCtrl) (r : Remote) :
    ∃ snaps judged, policyOneRemote env dt c r = { c with snaps := snaps, judged := judged } ∨
      (∃ j, judged = j :: c.judged ∧ j.host = r.host ∧ quiet j = false) ∧
        policyOneRemote env dt c r =
          policyDrop env { c with snaps := snaps, judged := judged } r.host.host := by
  rw [policyOneRemote]
  split
  · exact ⟨c.snaps, c.judged, .inl rfl⟩
  · dsimp only
    split
    · exact ⟨_, c.judged, .inl rfl⟩
    · split
      · exact ⟨_, _, .inl rfl⟩
      · rename_i hquiet
        exact ⟨_, _, .inr ⟨⟨_, rfl, rfl, by simpa using hquiet⟩, rfl⟩⟩

theorem policyOneRemote_calls (env : Env) (dt : ℚ) (c : VgCtrl) (r : Remote) :
    CallRun env (VisitCall r.host.host) c (policyOneRemote env dt c r) := by
  obtain ⟨snaps, judged, hcases⟩ := policyOneRemote_cases env dt c r
  have hbooks : CallRun env (VisitCall r.host.host) c { c with snaps := snaps, judged := judged } :=
    .books ⟨rfl, rfl, rfl, rfl, rfl, rfl, le_rfl⟩ trivial
  rcases hcases with he | ⟨-, he⟩
  · exact he ▸ hbooks
  · exact he ▸ hbooks.trans (policyDrop_calls env _ r.host.host)

private theorem walkRemotes_calls (env : Env) (dt : ℚ) (c : VgCtrl) (t : TickIn) :
    CallRun env TickCall c (walkRemotes env dt c t) := by
  have hfold : ∀ (rs : List Remote) (c : VgCtrl),
      CallRun env TickCall c (rs.foldl (policyOneRemote env dt) c) := by
    intro rs
    induction rs with
    | nil => exact fun _ => .refl
    | cons r rs ih =>
      intro c
      have hr := (policyOneRemote_calls env dt c r).mono fun _ _ ha => ha.tickCall r.host.masked_host
      exact hr.trans (ih _)
  have hbooks : ∀ (c : VgCtrl) (s : SnapTable), CallRun env TickCall c { c with snaps := s } :=
    fun c s => .books ⟨rfl, rfl, rfl, rfl, rfl, rfl, le_rfl⟩ trivial
  rw [walkRemotes]
  have hwalk := (hbooks c (nextGen c.snaps)).trans (hfold t.remotes _)
  split_ifs
  · exact hwalk.trans (hbooks _ _)
  · exact hwalk

theorem quietTest_calls (env : Env) (c : VgCtrl) : CallRun env TickCall c (quietTest env c) := by
  have hstart : CallRun env TickCall c (quietStart env c) := .books (quietStart_books env c) trivial
  have hread : ∀ d : VgCtrl, CallRun env TickCall d { d with clock := d.clock + 1 } :=
    fun d => .books ⟨rfl, rfl, rfl, rfl, rfl, rfl, Nat.le_succ _⟩ trivial
  simp only [quietTest]
  split_ifs with hquiet hcount hclear
  · exact (hstart.trans (hread _)).trans (CallStep.disarm.run (by exact hcount))
  · exact hstart.trans (hread _)
  · exact hstart
  · exact .books ⟨rfl, rfl, rfl, rfl, rfl, rfl, le_rfl⟩ trivial

theorem vgCtrlTick_calls (env : Env) (c : VgCtrl) (t : TickIn) :
    CallRun env TickCall c (vgCtrlTick env c t).1 := by
  have h₁ : CallRun env TickCall c (tickDt c t.mono).1 := .books (tickDt_books c t.mono) trivial
  rw [vgCtrlTick]
  rcases hdt : tickDt c t.mono with ⟨c₁, dt⟩
  rw [hdt] at h₁
  cases hm : t.metrics with
  | none => exact h₁
  | some m =>
    have h₂ := h₁.trans (.books (updateRates_books c₁ m dt) trivial)
    dsimp only
    by_cases hle : dt ≤ 0
    · rw [if_pos hle]
      exact h₂
    · rw [if_neg hle]
      cases hs : (updateRates c₁ m dt).state with
      | idle =>
        dsimp only
        split_ifs
        · exact h₂.trans (CallStep.arm.run trivial)
        · exact h₂
      | active =>
        have h₃ := h₂.trans (walkRemotes_calls env dt _ t)
        have h₄ := h₃.trans (CallStep.expire.run trivial)
        exact h₄.trans (quietTest_calls env _)

theorem CallStep.visitTrace {host : VgCidr} {call : ListCall} (h : CallStep env call c c')
    (hv : VisitCall host c call) : Trace env (VisitAct host) c c' := by
  cases h with
  | books h => exact .books h trivial
  | drop => exact visitDrop_trace env c hv
  | _ => exact hv.elim

theorem CallRun.visitTrace {host : VgCidr} (h : CallRun env (VisitCall host) c c') :
    Trace env (VisitAct host) c c' :=
  h.invariant (I := fun x => Trace env (VisitAct host) c x) .refl fun _ _ _ ht hv hs =>
    ht.trans (hs.visitTrace hv)

theorem policyOneRemote_trace (env : Env) (dt : ℚ) (c : VgCtrl) (r : Remote) :
    Trace env (VisitAct r.host.host) c (policyOneRemote env dt c r) :=
  (policyOneRemote_calls env dt c r).visitTrace

theorem CallStep.tickTrace {lo : ℕ} {call : ListCall} (h : CallStep env call c c')
    (ht : TickCall c call) (hok : c.drops.Ok) (hlo : lo ≤ c.clock) :
    Trace env (TickAct env lo) c c' := by
  cases h with
  | books h => exact .books h trivial
  | arm => exact vgCtrlArm_trace trivial
  | drop =>
    refine (dropAdd_trace env c _ _ 0).mono fun _ a ha => ?_
    cases a with
    | books => trivial
    | arm => trivial
    | drop q reason =>
      obtain ⟨rfl, rfl⟩ := ha
      exact ht
    | _ => exact ha.elim
  | expire => exact expireDrops_trace hok hlo
  | disarm => exact Micro.disarm.trace ht
  | _ => exact ht.elim

theorem CallRun.tickTrace {lo : ℕ} (h : CallRun env TickCall c c') (hok : c.drops.Ok)
    (hlo : lo ≤ c.clock) : Trace env (TickAct env lo) c c' :=
  h.invariant (I := fun x => Trace env (TickAct env lo) c x) .refl fun _ _ _ htrace ht hs =>
    htrace.trans (hs.tickTrace ht (htrace.drops_ok hok) (hlo.trans htrace.clock_le))

theorem vgCtrlTick_trace (h : c.drops.Ok) (t : TickIn) :
    Trace env (TickAct env c.clock) c (vgCtrlTick env c t).1 :=
  (vgCtrlTick_calls env c t).tickTrace h le_rfl

end VoidGate
