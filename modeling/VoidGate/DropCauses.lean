import VoidGate.BanLifetime
import VoidGate.NeverBlackhole

/-!
# Why a frame is dropped

The drop maps hold what the list holds, in the middle of a walk as well, as long as no
flush of a disarm fails. Behind a dropped frame there is a listed prefix, and behind the
prefix an event that listed it: a command of the operator, or a visit of a remote that had
sent more than a threshold allows.
-/

namespace VoidGate

open Runs PerCpu BitPrefixes

section Maps
variable {env : Env} {possible : ℤ} {g : Gateway} {e : GateEvent} {c : VgCtrl}

theorem Mirrored.of_eq {c' : VgCtrl} (h : Mirrored c) (hdrops : c'.drops = c.drops)
    (hmaps : c'.maps = c.maps) : Mirrored c' := by
  refine ⟨⟨hdrops ▸ h.drops_ok, hdrops ▸ h.masked⟩, fun f p => ?_⟩
  rw [hdrops, hmaps]
  exact h.tracked f p

private theorem policyOneRemote_mirrored (h : Mirrored c) (dt : ℚ) (r : Remote) :
    Mirrored (policyOneRemote env dt c r) := by
  refine (policyOneRemote_trace env dt c r).invariant (I := Mirrored) h fun x x' a hx ha hm => ?_
  refine hm.mirrored ?_ hx
  cases a with
  | drop p reason =>
    rcases ha with ⟨rfl, -⟩ | ⟨hn, -⟩
    · exact r.host.masked_host
    · exact aggregateNet_masked r.host.masked_host hn
  | books => trivial
  | arm => trivial
  | _ => exact ha.elim

theorem Gateway.step_mirrored (h : Mirrored g.ctrl)
    (hflush : e = .command .disarm → FlushOk env g.ctrl) : Mirrored (g.step env possible e).ctrl := by
  cases e with
  | frame i bytes room => exact h
  | command cmd => exact VoidGate.step_mirrored h cmd fun hcmd => hflush (by rw [hcmd])
  | tick mono readable =>
    simp only [Gateway.step]
    split_ifs with hw
    · exact h.of_eq (measured_books _ _).drops (measured_books _ _).maps
    · exact VoidGate.step_mirrored h (.tick (g.tickIn possible mono readable)) fun hcmd => by cases hcmd
  | visit x =>
    simp only [Gateway.step]
    split
    · exact policyOneRemote_mirrored h _ _
    · exact h
  | finish complete =>
    refine (Gateway.finish_trace h.drops_ok complete).invariant (I := Mirrored) h fun x x' a hx ha hm => ?_
    refine hm.mirrored ?_ hx
    cases a with
    | drop p reason => exact ha.1
    | stray p => exact ha.elim
    | disarm => exact hx.flushOk_of_count ha
    | _ => trivial

end Maps

section Causes
variable {env : Env} {possible : ℤ} {s : ℕ → Gateway} {es : ℕ → GateEvent} {c : VgCtrl}
  {p : VgCidr} {n : ℕ}

/-- Why event `k` put the prefix on the list. An aggregate has at least `aggregate_k` other drops
inside. -/
inductive Cause (possible : ℤ) (s : ℕ → Gateway) (es : ℕ → GateEvent) (p : VgCidr) (k : ℕ) : Prop where
  | drop (q : MaskedCidr) (hq : q.1 = p) (he : es k = .command (.drop q))
  | dropTtl (q : MaskedCidr) (hq : q.1 = p) (ttl : ℕ) (he : es k = .command (.dropTtl q ttl))
  | policy (x : IpAddr) (hp : p = x.host) (h : Overran possible s es x k)
  | aggregate (x : IpAddr) (hp : p = x.net) (h : Overran possible s es x k)
      (hk : (s k).ctrl.cfg.aggregateK + 1 ≤ aggregateCount (s (k + 1)).ctrl p)

private theorem dropAdd_new (h : Sound c) (hp : p.Masked) {reason : Reason} {expires : ℤ}
    (hnew : p ∉ c.drops.prefixes)
    (hlisted : p ∈ (dropAdd env c p reason expires).1.drops.prefixes) :
    (dropAdd env c p reason expires).1.drops.records =
      c.drops.records ++ [⟨p, reason, env.wall c.clock, expires⟩] := by
  rw [dropAdd_eq] at hlisted ⊢
  split_ifs at hlisted ⊢
  · exact absurd hlisted hnew
  · exact absurd hlisted hnew
  · have hdrops : c.ticked.armed.drops = c.drops := VgCtrl.armed_drops _
    have hout : DropOutcome env c.ticked.armed p reason expires (env.wall c.clock) _ :=
      (dropListed_outcome (hdrops ▸ h.drops_ok) p reason expires (env.wall c.clock)).2
    generalize dropListed env c.ticked.armed p reason expires (env.wall c.clock) = out at hout hlisted
    cases hout with
    | kept hr _ =>
      rw [DropTable.prefixes, hr, hdrops] at hlisted
      exact absurd hlisted hnew
    | listed _ hr _ => rw [hr, hdrops]
    | rewritten r _ hmem hkey =>
      rw [hdrops] at hmem
      exact absurd (List.mem_map.mpr ⟨r, hmem, h.eq_of_key hmem hp hkey⟩) hnew

/-- Only a drop of the prefix itself puts it on the list. -/
theorem Trace.mem_prefixes {ok : VgCtrl → Act → Prop} {c' : VgCtrl} (h : Trace env ok c c')
    (hok : c.drops.Ok) (hp : p ∈ c'.drops.prefixes) :
    p ∈ c.drops.prefixes ∨ ∃ x reason, ok x (.drop p reason) := by
  refine (h.invariant (I := fun x => x.drops.Ok ∧ (p ∈ x.drops.prefixes →
    p ∈ c.drops.prefixes ∨ ∃ x reason, ok x (.drop p reason))) ⟨hok, .inl⟩ ?_).2 hp
  intro x x' a hx ha hm
  refine ⟨hm.drops_ok hx.1, fun hp => ?_⟩
  rcases hm.mem_prefixes hx.1 hp with hold | ⟨⟨reason, rfl⟩, -⟩
  · exact hx.2 hold
  · exact .inr ⟨x, reason, ha⟩

private theorem policyDrop_new (h : Sound c) {x : IpAddr} (hnew : p ∉ c.drops.prefixes)
    (hlisted : p ∈ (policyDrop env c x.host).drops.prefixes) : p = x.host ∨
      p = x.net ∧ c.cfg.aggregateK + 1 ≤ aggregateCount (policyDrop env c x.host) p := by
  by_cases hp : p = x.host
  · exact .inl hp
  refine .inr ?_
  have htrace := dropAdd_trace env c x.host .policy 0
  have hsound : Sound (dropAdd env c x.host .policy 0).1 := dropAdd_sound h x.masked_host
  have hcfg : (dropAdd env c x.host .policy 0).1.cfg = c.cfg := htrace.cfg_eq fun _ _ => id
  have hnot : p ∉ (dropAdd env c x.host .policy 0).1.drops.prefixes := by
    intro hin
    rcases htrace.mem_prefixes h.drops_ok hin with hold | ⟨_, _, hact⟩
    · exact hnew hold
    · exact hp hact.1
  rw [policyDrop] at hlisted ⊢
  rw [vgCtrlDrop] at hlisted ⊢
  generalize (dropAdd env c x.host .policy 0) = d at *
  split_ifs at hlisted ⊢
  · simp only [maybeAggregate, aggregateNet_host] at hlisted ⊢
    split_ifs at hlisted ⊢ with hk
    · obtain rfl : p = x.net := by
        rcases (dropAdd_trace env d.1 x.net .aggregate 0).mem_prefixes hsound.drops_ok hlisted with
          hold | ⟨_, _, hact⟩
        · exact absurd hold hnot
        · exact hact.1
      have hrecords := dropAdd_new hsound x.net_masked hnot hlisted
      refine ⟨rfl, ?_⟩
      have hself : vgCidrContains x.net x.net = true := (contains_net_iff x x).mpr rfl
      rw [aggregateCount, vgCtrlDrop, hrecords, List.countP_append]
      rw [hcfg, aggregateCount] at hk
      simpa [hself] using hk
    · exact absurd hlisted hnot
  · exact absurd hlisted hnot

private theorem Gateway.Run.cause (h : Gateway.Run env possible s es) (h₀ : (s 0).Started env)
    (hnew : p ∉ (s n).ctrl.drops.prefixes) (hlisted : p ∈ (s (n + 1)).ctrl.drops.prefixes) :
    Cause possible s es p n := by
  have ht := h.tracks h₀ n
  have hpermits := h.permits n
  rw [h.next n] at hlisted
  cases he : es n with
  | frame i bytes room =>
    rw [he] at hlisted
    exact absurd hlisted hnew
  | command cmd =>
    rw [he] at hlisted hpermits
    rcases (step_trace ht.drops_ok cmd).mem_prefixes ht.drops_ok hlisted with hold | ⟨x, reason, hact⟩
    · exact absurd hold hnew
    · cases cmd with
      | drop q => exact .drop q hact.1.symm he
      | dropTtl q ttl => exact .dropTtl q hact.1.symm ttl he
      | reload file nic => simp [CmdAct, ReloadAct] at hact
      | tick t => exact absurd rfl (hpermits.2 t)
      | _ => cases hact
  | tick mono readable =>
    rw [he, DropTable.prefixes, ((s n).step_tick_drops env possible mono readable).1] at hlisted
    exact absurd hlisted hnew
  | visit x =>
    cases hcall : (s n).callback possible (.visit x) with
    | none =>
      rw [he, step_visit_of_none hcall] at hlisted
      exact absurd hlisted hnew
    | some r =>
      rw [← he] at hcall
      obtain ⟨-, dt, hwalk, -, hstep⟩ := Gateway.callback_some env hcall
      have hw := ht.walking hwalk
      obtain ⟨snaps, judged, -, hvisit⟩ := policyOneRemote_eq env dt hw.snaps_ok r
      rw [hstep, hvisit] at hlisted
      split_ifs at hlisted with hover
      · have hran := h.overran h₀ hcall hwalk hover
        have hsound : Sound { (s n).ctrl with snaps := snaps, judged := judged } :=
          ⟨hw.drops_ok, ht.inForce.masked⟩
        rcases policyDrop_new hsound hnew hlisted with hp | ⟨hp, hk⟩
        · exact .policy r.host hp hran
        · refine .aggregate r.host hp hran ?_
          rw [h.next n, hstep, hvisit, if_pos hover]
          exact hk
      · exact absurd hlisted hnew
  | finish complete =>
    rw [he] at hlisted
    obtain ⟨d, hd, rfl⟩ := List.mem_map.mp hlisted
    exact absurd (List.mem_map_of_mem (Gateway.step_finish_subset ht.drops_ok hd)) hnew

theorem Gateway.Run.mirrored (h : Gateway.Run env possible s es) (h₀ : (s 0).Started env)
    (hflush : ∀ m < n, es m = .command .disarm → FlushOk env (s m).ctrl) : Mirrored (s n).ctrl := by
  induction n with
  | zero =>
    obtain ⟨-, cfgPath, ifaceOv, file, nic, hstart⟩ := h₀
    exact mirrored_of_startUp hstart
  | succ n ih =>
    rw [h.next n]
    exact Gateway.step_mirrored (ih fun m hm => hflush m (hm.trans n.lt_succ_self))
      (hflush n n.lt_succ_self)

theorem Gateway.dropped_listed {g : Gateway} (h : Mirrored g.ctrl) {i : ℕ} {frame : List UInt8}
    {room : HashRoom} (hdrop : (voidgateXdp (g.cpu i) frame room).2 = .drop) :
    ∃ q, xdpLocals frame = some q ∧ exempted g.ctrl.maps.kernel q = false ∧
      ∃ p ∈ g.ctrl.drops.prefixes, p.Has q.saddr ∨ p.Has q.daddr := by
  obtain ⟨-, q, hq, hexempt, hmatch⟩ := (voidgateXdp_drop_iff _ _ _).mp hdrop
  refine ⟨q, hq, hexempt, ?_⟩
  rcases hmatch with hx | hx
  · obtain ⟨p, hp, hin⟩ := h.listed_of_matches ((inLpm_iff _ _ _).mp hx)
    exact ⟨p, hp, .inl hin⟩
  · obtain ⟨p, hp, hin⟩ := h.listed_of_matches ((inLpm_iff _ _ _).mp hx)
    exact ⟨p, hp, .inr hin⟩

end Causes

end VoidGate
