import VoidGate.DropCauses
import VoidGate.StandDown

/-!
# A drop lasts no longer than it was asked for

Every deadline on the list was asked for: by a command of the operator, or by a visit that
found too much traffic. Dropping a prefix again takes the later of two deadlines and never
another one, and the end of a walk takes off whatever is past its deadline. So a frame is
dropped only for a prefix whose time had not come when the last walk ended.
-/

namespace VoidGate

open Runs PerCpu

section Deadlines
variable {env : Env} {c c' : VgCtrl} {cfg : VgConfig} {B : ℤ} {P Q : VgCidr → WithTop ℤ → Prop}

/-- The latest deadline a drop can have while no ban time is above `B`. A reload moves the deadlines
of policy and aggregate drops. -/
def VgDropRec.latest (B : ℤ) (r : VgDropRec) : WithTop ℤ :=
  match r.reason with
  | .manual => ⊤
  | .timed => r.expires
  | _ => (r.inserted + B : ℤ)

theorem VgDropRec.deadline_le_latest (hB : cfg.banTime ≤ B) (r : VgDropRec) :
    r.deadline cfg ≤ r.latest B := by
  rw [deadline, latest]
  cases r.reason with
  | manual => exact le_rfl
  | timed => exact le_rfl
  | policy => exact WithTop.coe_le_coe.mpr (add_le_add_right hB _)
  | aggregate => exact WithTop.coe_le_coe.mpr (add_le_add_right hB _)

private theorem rebase_latest (r : VgDropRec) (reason : Reason) : (rebase cfg r reason).latest B = r.latest B := by
  rw [rebase]
  split_ifs with h
  · rw [VgDropRec.latest, VgDropRec.latest]
    cases hr : r.reason with
    | timed => exact absurd hr h.2
    | _ => rfl
  · rfl

private theorem redropped_latest (hB : cfg.banTime ≤ B) {r : VgDropRec} {p : VgCidr} {reason : Reason}
    {expires now : ℤ} (hr : ¬ (reason = .timed ∧ r.reason = .manual)) :
    (redropped cfg r reason expires now).latest B ≤ r.latest B ∨
      (redropped cfg r reason expires now).latest B ≤ (VgDropRec.mk p reason now expires).latest B := by
  cases reason with
  | manual => exact .inr le_top
  | timed =>
    have hold : ((rebase cfg r .timed).expires : ℤ) ≤ r.latest B :=
      (rebase_expires fun h => hr ⟨rfl, h⟩).symm.trans_le (r.deadline_le_latest hB)
    simp only [redropped, VgDropRec.latest, true_and, or_true, if_true] at hold ⊢
    split_ifs
    · exact .inl hold
    · exact .inr le_rfl
  | policy => exact .inl (by simp [redropped, rebase])
  | aggregate => exact .inl (by simp [redropped, rebase])

/-- Between `c` and `c'` no drop gets a later deadline than those that `P` allows for its prefix. -/
def AsksOnly (B : ℤ) (P : VgCidr → WithTop ℤ → Prop) (c c' : VgCtrl) : Prop :=
  ∀ r' ∈ c'.drops.records, (∃ r ∈ c.drops.records, r.cidr = r'.cidr ∧ r'.latest B ≤ r.latest B) ∨
    ∃ t, P r'.cidr t ∧ r'.latest B ≤ t

theorem AsksOnly.of_subset (h : ∀ r ∈ c'.drops.records, r ∈ c.drops.records) : AsksOnly B P c c' :=
  fun r hr => .inl ⟨r, h r hr, rfl, le_rfl⟩

theorem AsksOnly.trans {c'' : VgCtrl} (h : AsksOnly B P c c') (h' : AsksOnly B P c' c'') :
    AsksOnly B P c c'' := by
  intro r'' hr''
  rcases h' r'' hr'' with ⟨r', hr', hcidr', hle'⟩ | hasked
  · rw [← hcidr']
    rcases h r' hr' with ⟨r, hr, hcidr, hle⟩ | ⟨t, ht, hle⟩
    · exact .inl ⟨r, hr, hcidr, hle'.trans hle⟩
    · exact .inr ⟨t, ht, hle'.trans hle⟩
  · exact .inr hasked

theorem AsksOnly.of_drops {x : VgCtrl} (h : AsksOnly B P x c') (hx : x.drops = c.drops) :
    AsksOnly B P c c' := by
  rw [AsksOnly, ← hx]
  exact h

theorem AsksOnly.mono (h : AsksOnly B P c c') (himp : ∀ p t, P p t → Q p t) : AsksOnly B Q c c' := by
  intro r hr
  rcases h r hr with hold | ⟨t, ht, hle⟩
  · exact .inl hold
  · exact .inr ⟨t, himp _ _ ht, hle⟩

theorem DropOutcome.asksOnly {p : VgCidr} {reason : Reason} {expires now : ℤ}
    (h : DropOutcome env c p reason expires now c') (hs : Sound c) (hp : p.Masked)
    (hB : c.cfg.banTime ≤ B) :
    AsksOnly B (fun q t => q = p ∧ t = (VgDropRec.mk p reason now expires).latest B) c c' := by
  intro x hx
  cases h with
  | kept hr _ => exact .inl ⟨x, hr ▸ hx, rfl, le_rfl⟩
  | listed _ hr _ =>
    rw [hr] at hx
    rcases List.mem_append.mp hx with hx | hx
    · exact .inl ⟨x, hx, rfl, le_rfl⟩
    · obtain rfl := List.mem_singleton.mp hx
      exact .inr ⟨_, ⟨rfl, rfl⟩, le_rfl⟩
  | rewritten r r' hmem hkey hcidr hmanual hr hk =>
    rw [hr] at hx
    obtain ⟨y, hy, rfl⟩ := List.mem_map.mp hx
    by_cases hyr : y.cidr.key = r.cidr.key
    · rw [if_pos hyr]
      rcases hk with ⟨-, rfl⟩ | ⟨-, rfl⟩
      · exact .inl ⟨r, hmem, hcidr.symm, (rebase_latest _ _).le⟩
      · rcases redropped_latest (p := p) hB hmanual with hold | hnew
        · exact .inl ⟨r, hmem, hcidr.symm, hold⟩
        · exact .inr ⟨_, ⟨hcidr.trans (hs.eq_of_key hmem hp hkey), rfl⟩, hnew⟩
    · rw [if_neg hyr]
      exact .inl ⟨y, hy, rfl, le_rfl⟩

theorem dropAdd_asksOnly (env : Env) (hs : Sound c) (hB : c.cfg.banTime ≤ B) {p : VgCidr} (hp : p.Masked)
    (reason : Reason) (expires : ℤ) :
    AsksOnly B (fun q t => q = p ∧ t = (VgDropRec.mk p reason (env.wall c.clock) expires).latest B) c
      (dropAdd env c p reason expires).1 := by
  rw [dropAdd_eq]
  split_ifs
  · exact .of_subset fun r hr => hr
  · exact .of_subset fun r hr => hr
  · have hdrops : c.ticked.armed.drops = c.drops := VgCtrl.armed_drops _
    have hcfg : c.ticked.armed.cfg = c.cfg := VgCtrl.armed_cfg _
    have hout : DropOutcome env c.ticked.armed p reason expires (env.wall c.clock) _ :=
      (dropListed_outcome (hdrops ▸ hs.drops_ok) p reason expires (env.wall c.clock)).2
    have harmed : Sound c.ticked.armed := ⟨hdrops ▸ hs.drops_ok, hdrops ▸ hs.masked⟩
    intro r hr
    rw [← hdrops]
    exact hout.asksOnly harmed hp (hcfg ▸ hB) r hr

private theorem policyDrop_cases (env : Env) (c : VgCtrl) (x : IpAddr) :
    policyDrop env c x.host = (dropAdd env c x.host .policy 0).1 ∨
      policyDrop env c x.host =
        (dropAdd env (dropAdd env c x.host .policy 0).1 x.net .aggregate 0).1 := by
  rw [policyDrop, vgCtrlDrop]
  generalize dropAdd env c x.host .policy 0 = d
  simp only [maybeAggregate, aggregateNet_host]
  split_ifs
  · exact .inr rfl
  · exact .inl rfl
  · exact .inl rfl

private theorem policyDrop_asksOnly (env : Env) (hs : Sound c) (hB : c.cfg.banTime ≤ B) (x : IpAddr) :
    AsksOnly B (fun q t => (q = x.host ∨ q = x.net) ∧ ∃ j, c.clock ≤ j ∧
      j < (policyDrop env c x.host).clock ∧ t = (env.wall j + B : ℤ)) c (policyDrop env c x.host) := by
  have hcfg : (dropAdd env c x.host .policy 0).1.cfg = c.cfg :=
    (dropAdd_trace env c x.host .policy 0).cfg_eq fun _ _ => id
  have hsound : Sound (dropAdd env c x.host .policy 0).1 := dropAdd_sound hs x.masked_host
  have hclock := dropAdd_clock env c x.host .policy 0
  have hhost := dropAdd_asksOnly env hs hB x.masked_host .policy 0
  rcases policyDrop_cases env c x with he | he
  · rw [he]
    refine hhost.mono ?_
    rintro q t ⟨rfl, rfl⟩
    exact ⟨.inl rfl, c.clock, le_rfl, by omega, rfl⟩
  · have hnet := dropAdd_asksOnly env hsound (hcfg ▸ hB) x.net_masked .aggregate 0
    have hclock' := dropAdd_clock env (dropAdd env c x.host .policy 0).1 x.net .aggregate 0
    rw [he]
    refine (hhost.mono ?_).trans (hnet.mono ?_)
    · rintro q t ⟨rfl, rfl⟩
      exact ⟨.inl rfl, c.clock, le_rfl, by omega, rfl⟩
    · rintro q t ⟨rfl, rfl⟩
      exact ⟨.inr rfl, _, by omega, by omega, rfl⟩

theorem Micro.record_mem {a : Act} (hm : Micro env a c c') (hok : c.drops.Ok)
    (ha : ∀ p reason, a ≠ .drop p reason) {r : VgDropRec} (hr : r ∈ c'.drops.records) :
    r ∈ c.drops.records := by
  cases hm with
  | books h => exact h.drops ▸ hr
  | arm h =>
    rw [vgCtrlArm_idle env h] at hr
    exact hr
  | drop => exact absurd rfl (ha _ _)
  | @lift _ i hi =>
    rcases dropRemove_cases env c i with ⟨-, he⟩ | ⟨-, he⟩
    · rwa [he] at hr
    · rw [he, (hok.lift hi).2] at hr
      exact (List.mem_filter.mp hr).1
  | stray => exact hr
  | disarm =>
    rw [vgCtrlDisarm_eq, hok.reset.2] at hr
    cases hr
  | setCfg => exact hr
  | commit => exact hr
  | populate => exact hr

theorem Trace.record_mem {ok : VgCtrl → Act → Prop} (h : Trace env ok c c') (hok : c.drops.Ok)
    (hno : ∀ x p reason, ¬ ok x (.drop p reason)) :
    ∀ r ∈ c'.drops.records, r ∈ c.drops.records := by
  refine (h.invariant (I := fun x => x.drops.Ok ∧ ∀ r ∈ x.drops.records, r ∈ c.drops.records)
    ⟨hok, fun _ => id⟩ fun x x' a hx ha hm => ⟨hm.drops_ok hx.1, fun r hr => hx.2 r ?_⟩).2
  exact hm.record_mem hx.1 (fun p reason he => hno x p reason (he ▸ ha)) hr

end Deadlines

section Ends
variable {env : Env} {possible : ℤ} {s : ℕ → Gateway} {es : ℕ → GateEvent} {B : ℤ} {n : ℕ}

/-- Event `k` asked for a drop of the prefix until a time. A ban by the policy takes at most `B`
seconds from one of the readings of the clock during the visit. -/
inductive Requested (env : Env) (possible : ℤ) (B : ℤ) (s : ℕ → Gateway) (es : ℕ → GateEvent)
    (p : VgCidr) (k : ℕ) : WithTop ℤ → Prop where
  | drop (q : MaskedCidr) (hq : q.1 = p) (he : es k = .command (.drop q)) :
      Requested env possible B s es p k ⊤
  | dropTtl (q : MaskedCidr) (hq : q.1 = p) (ttl : ℕ) (he : es k = .command (.dropTtl q ttl)) :
      Requested env possible B s es p k (env.wall (s k).ctrl.clock + ttl : ℤ)
  | policy (x : IpAddr) (hp : p = x.host ∨ p = x.net) (h : Overran possible s es x k) (j : ℕ)
      (hj : (s k).ctrl.clock ≤ j) (hj' : j < (s (k + 1)).ctrl.clock) :
      Requested env possible B s es p k (env.wall j + B : ℤ)

theorem Gateway.Run.asksOnly (h : Gateway.Run env possible s es) (h₀ : (s 0).Started env)
    (hB : (s n).ctrl.cfg.banTime ≤ B) :
    AsksOnly B (fun p t => Requested env possible B s es p n t) (s n).ctrl (s (n + 1)).ctrl := by
  have ht := h.tracks h₀ n
  have hsound : Sound (s n).ctrl := ⟨ht.drops_ok, ht.inForce.masked⟩
  have hpermits := h.permits n
  have hnext := h.next n
  cases he : es n with
  | frame i bytes room =>
    rw [hnext, he]
    exact .of_subset fun r hr => hr
  | command cmd =>
    rw [he] at hpermits hnext
    have htrace : Trace env _ _ _ := step_trace ht.drops_ok cmd
    rw [hnext]
    cases cmd with
    | drop q =>
      refine (dropAdd_asksOnly env hsound hB q.2 .manual 0).mono ?_
      rintro p t ⟨rfl, rfl⟩
      exact .drop q rfl he
    | dropTtl q ttl =>
      have hticked : Sound (s n).ctrl.ticked := ⟨hsound.drops_ok, hsound.masked⟩
      have hasks : AsksOnly B _ (s n).ctrl (vgCtrlDropTtl env (s n).ctrl q.1 ttl).1 :=
        (dropAdd_asksOnly env hticked hB q.2 .timed _).of_drops rfl
      refine hasks.mono ?_
      rintro p t ⟨rfl, rfl⟩
      exact .dropTtl q rfl ttl he
    | undrop q => exact .of_subset (htrace.record_mem ht.drops_ok fun _ _ _ hact => by cases hact)
    | arm => exact .of_subset (htrace.record_mem ht.drops_ok fun _ _ _ hact => by cases hact)
    | disarm => exact .of_subset (htrace.record_mem ht.drops_ok fun _ _ _ hact => by cases hact)
    | reload file nic =>
      exact .of_subset (htrace.record_mem ht.drops_ok fun _ _ _ hact => by
        simp [CmdAct, ReloadAct] at hact)
    | tick t => exact absurd rfl (hpermits.2 t)
  | tick mono readable =>
    rw [hnext, he]
    exact .of_subset fun r hr => ((s n).step_tick_drops env possible mono readable).1 ▸ hr
  | visit x =>
    cases hcall : (s n).callback possible (.visit x) with
    | none =>
      rw [hnext, he, step_visit_of_none hcall]
      exact .of_subset fun r hr => hr
    | some r =>
      rw [← he] at hcall
      obtain ⟨-, dt, hwalk, -, hstep⟩ := Gateway.callback_some env hcall
      have hw := ht.walking hwalk
      obtain ⟨snaps, judged, -, hvisit⟩ := policyOneRemote_eq env dt hw.snaps_ok r
      generalize hc : ({ (s n).ctrl with snaps := snaps, judged := judged } : VgCtrl) = c at hvisit
      obtain ⟨hdrops, hcfg, hclock⟩ : c.drops = (s n).ctrl.drops ∧ c.cfg = (s n).ctrl.cfg ∧
          c.clock = (s n).ctrl.clock := hc ▸ ⟨rfl, rfl, rfl⟩
      rw [hstep, hvisit] at hnext
      by_cases hover : overThreshold (s n).ctrl dt r = true
      · rw [if_pos hover] at hnext
        have hvisited : (s (n + 1)).ctrl = policyDrop env c r.host.host := by rw [hnext]
        have hc' : Sound c := ⟨hdrops ▸ hsound.drops_ok, hdrops ▸ hsound.masked⟩
        rw [hvisited]
        refine ((policyDrop_asksOnly env hc' (hcfg ▸ hB) r.host).of_drops hdrops).mono ?_
        rintro p t ⟨hp, j, hj, hj', rfl⟩
        exact .policy r.host hp (h.overran h₀ hcall hwalk hover) j (hclock ▸ hj) (hvisited ▸ hj')
      · rw [if_neg hover] at hnext
        rw [hnext]
        exact .of_subset fun r hr => hdrops ▸ hr
  | finish complete =>
    rw [hnext, he]
    exact .of_subset fun r hr => Gateway.step_finish_subset ht.drops_ok hr

private theorem Gateway.step_finish_before {g : Gateway} (hok : g.ctrl.drops.Ok)
    (hcalm : ∀ k, env.fault k = false) (hw : g.walk ≠ none) {complete : ℤ} {r : VgDropRec}
    (hr : r ∈ (g.step env possible (.finish complete)).ctrl.drops.records) :
    (env.wall g.ctrl.clock : ℤ) < r.deadline g.ctrl.cfg := by
  obtain ⟨dt, hdt⟩ := Option.ne_none_iff_exists'.mp hw
  simp only [Gateway.step, hdt] at hr
  generalize hc : (if complete = 1 then { g.ctrl with snaps := g.ctrl.snaps.snapPrune }
    else g.ctrl) = c at hr
  obtain ⟨hdrops, hcfg, hclock⟩ : c.drops = g.ctrl.drops ∧ c.cfg = g.ctrl.cfg ∧
      c.clock = g.ctrl.clock := by
    rw [← hc]
    split_ifs <;> exact ⟨rfl, rfl, rfl⟩
  rw [← hdrops] at hok
  have hexpired := quietTest_subset ((expireDrops_trace hok le_rfl).drops_ok hok) hr
  rw [(expireDrops_calm hok fun k _ => hcalm k).1, hcfg, hclock] at hexpired
  have hforce : ¬ inForce g.ctrl.cfg r (env.wall g.ctrl.clock) = false := by
    simp [(List.mem_filter.mp hexpired).2]
  rwa [inForce_eq_false_iff, not_le] at hforce

/-- Event `j` is the end of a walk. -/
def EndsWalk (s : ℕ → Gateway) (es : ℕ → GateEvent) (j : ℕ) : Prop :=
  (s j).walk ≠ none ∧ ∃ complete, es j = .finish complete

private theorem Gateway.Run.requested (h : Gateway.Run env possible s es) (h₀ : (s 0).Started env)
    (hcalm : ∀ k, env.fault k = false) (hB : ∀ m < n, (s m).ctrl.cfg.banTime ≤ B) :
    ∀ r ∈ (s n).ctrl.drops.records, ∃ k < n, ∃ t, Requested env possible B s es r.cidr k t ∧
      r.latest B ≤ t ∧
      ∀ j, k < j → j < n → EndsWalk s es j → (env.wall (s j).ctrl.clock : ℤ) < t := by
  induction n with
  | zero =>
    obtain ⟨-, cfgPath, ifaceOv, file, nic, hstart⟩ := h₀
    intro r hr
    rw [(startUp_initial hstart).1.records] at hr
    cases hr
  | succ n ih =>
    intro r' hr'
    have hBn := hB n n.lt_succ_self
    rcases h.asksOnly h₀ hBn r' hr' with ⟨r, hr, hcidr, hle⟩ | ⟨t, hasked, hle⟩
    · obtain ⟨k, hk, t, hasked, hlate, hsince⟩ := ih (fun m hm => hB m (hm.trans n.lt_succ_self)) r hr
      refine ⟨k, by omega, t, hcidr ▸ hasked, hle.trans hlate, fun j hkj hjn hend => ?_⟩
      rcases Nat.lt_succ_iff_lt_or_eq.mp hjn with hlt | rfl
      · exact hsince j hkj hlt hend
      · obtain ⟨hw, complete, he⟩ := hend
        rw [h.next j, he] at hr'
        have hbefore := Gateway.step_finish_before (h.tracks h₀ j).drops_ok hcalm hw hr'
        exact hbefore.trans_le ((r'.deadline_le_latest hBn).trans (hle.trans hlate))
    · exact ⟨n, n.lt_succ_self, t, hasked, hle, fun j hj hj' => by omega⟩

end Ends

end VoidGate
