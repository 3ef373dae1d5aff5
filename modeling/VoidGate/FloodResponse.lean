import Mathlib.Tactic.IntervalCases
import Mathlib.Tactic.NormNum
import VoidGate.Deadlines
import VoidGate.DropEntries
import VoidGate.TrueTraffic
import VoidGate.WalkOutcome

/-!
# The response to a flood

Two links of the chain from a flood to its end. What is on the list is dropped by the XDP
program, at every moment and on every CPU, whatever map calls failed before; and a host
that sends more than a threshold between its callbacks in two consecutive walks is on the
list after the second. The converse of the latter is in `TrueTraffic`.
-/

namespace VoidGate

open Runs PerCpu BitPrefixes

section Enforced
variable {env : Env} {c c' : VgCtrl}

def Enforced (c : VgCtrl) : Prop :=
  ∀ p ∈ c.drops.prefixes, ∃ v, (p, v) ∈ (c.maps.kernel.lpm (.drop p.family)).entries

structure InForce (c : VgCtrl) : Prop extends Sound c where
  gate : GateAgrees c
  enforced : Enforced c

theorem DropOutcome.enforced {p : VgCidr} {reason : Reason} {expires now : ℤ}
    (hout : DropOutcome env c p reason expires now c') (hp : p.Masked) (h : Sound c)
    (he : Enforced c) : Enforced c' := by
  have hupdated : ∀ q ∈ c.drops.prefixes, ∃ v,
      (q, v) ∈ ((dropUpdated env c.maps.kernel p reason now).lpm (.drop q.family)).entries := by
    intro q hq
    by_cases hqp : q = p
    · exact ⟨_, (mem_entries_dropUpdated hp (h.masked q hq)).mpr (by rw [if_pos hqp])⟩
    · obtain ⟨v, hv⟩ := he q hq
      exact ⟨v, (mem_entries_dropUpdated hp (h.masked q hq)).mpr (by rwa [if_neg hqp])⟩
  intro q hq
  cases hout with
  | kept hr hk =>
    rw [hk]
    rw [DropTable.prefixes, hr] at hq
    exact he q hq
  | listed _ hr hk =>
    rw [hk]
    rw [DropTable.prefixes, hr, List.map_append] at hq
    rcases List.mem_append.mp hq with hq | hq
    · exact hupdated q hq
    · obtain rfl : q = p := by simpa using hq
      exact ⟨_, (mem_entries_dropUpdated hp hp).mpr (by rw [if_pos rfl])⟩
  | rewritten r r' hmem _ hcidr _ hr hk =>
    rw [DropTable.prefixes, hr, h.drops_ok.prefixes_rewrite hmem hcidr] at hq
    rcases hk with ⟨hk, -⟩ | ⟨hk, -⟩
    · rw [hk]
      exact he q hq
    · rw [hk]
      exact hupdated q hq

/-- Every action keeps listed drops in force, whether its map calls succeed or not. -/
theorem Micro.enforced {a : Act} (hm : Micro env a c c') (ha : a.Masked) (h : Sound c)
    (he : Enforced c) : Enforced c' := by
  cases hm with
  | books hb =>
    intro p hp
    rw [hb.maps]
    exact he p (hb.drops ▸ hp)
  | arm hs =>
    rw [vgCtrlArm_idle env hs, vgCfgCommit_eq]
    exact he
  | drop hs hp => exact (dropListed_outcome h.drops_ok _ _ _ _).2.enforced ha h he
  | @lift _ i hi =>
    have hmask := h.masked _ (List.mem_map_of_mem (DropTable.pool_mem_records hi))
    rcases dropRemove_cases env c i with ⟨hf, heq⟩ | ⟨hf, heq⟩
    · intro p hp
      rw [heq] at hp ⊢
      rw [vgDropDel_fault _ hf]
      exact he p hp
    · intro p hp
      rw [heq] at hp ⊢
      obtain ⟨hold, hne⟩ := (h.mem_prefixes_lift hi).mp hp
      obtain ⟨v, hv⟩ := he p hold
      exact ⟨v, mem_entries_dropDel hmask (h.masked p hold) hne hv⟩
  | @stray _ q hfind =>
    intro p hp
    obtain ⟨v, hv⟩ := he p hp
    have hne : p ≠ q := by
      rintro rfl
      obtain ⟨r, hr, rfl⟩ := List.mem_map.mp hp
      exact h.drops_ok.dropsFind_none hfind r hr rfl
    exact ⟨v, mem_entries_dropDel ha (h.masked p hp) hne hv⟩
  | disarm =>
    intro p hp
    rw [vgCtrlDisarm_eq] at hp
    simp [DropTable.prefixes, h.drops_ok.reset.2] at hp
  | setCfg => exact he
  | commit =>
    rw [vgCfgCommit_eq]
    exact he
  | populate =>
    intro p hp
    obtain ⟨v, hv⟩ := he p hp
    exact ⟨v, by rwa [(vgPopulate_frame env c.maps c.cfg).2 p.family]⟩

theorem Micro.inForce {a : Act} (hm : Micro env a c c') (ha : a.Masked) (h : InForce c) :
    InForce c' :=
  ⟨hm.sound h.toSound ha, hm.gateAgrees h.drops_ok h.gate, hm.enforced ha h.toSound h.enforced⟩

theorem Reachable.inForce (h : Reachable env c) : InForce c := by
  refine h.invariant (fun hstart => ?_) fun x cmd hs hi => ?_
  · obtain ⟨hinit, harmed, -⟩ := startUp_initial hstart
    refine ⟨hinit.sound, ⟨by simp [harmed, hinit.state], fun hc => ?_⟩, fun p hp => ?_⟩
    · rw [hinit.drops_ok.count_eq, hinit.records] at hc
      simp at hc
    · rw [DropTable.prefixes, hinit.records] at hp
      cases hp
  · exact (step_trace hs.drops_ok cmd).invariant (I := InForce) hi fun y y' a hy ha hm =>
      hm.inForce ha.masked hy

theorem Books.trans {c'' : VgCtrl} (h : Books c c') (h' : Books c' c'') : Books c c'' where
  state := h'.state.trans h.state
  cfg := h'.cfg.trans h.cfg
  maps := h'.maps.trans h.maps
  drops := h'.drops.trans h.drops
  cfgPath := h'.cfgPath.trans h.cfgPath
  ifaceOverride := h'.ifaceOverride.trans h.ifaceOverride
  clock_le := h.clock_le.trans h'.clock_le

/-- The readings at the beginning of a tick. -/
theorem measured_books (c : VgCtrl) (t : TickIn) : Books c (measured c t) := by
  rw [measured]
  split
  · exact tickDt_books c t.mono
  · exact (tickDt_books c t.mono).trans (updateRates_books _ _ _)

theorem VisitAct.masked {x : IpAddr} {a : Act} (h : VisitAct x.host c a) : a.Masked := by
  cases a with
  | drop p reason =>
    rcases h with ⟨rfl, -⟩ | ⟨hn, -⟩
    · exact IpAddr.masked_host _
    · exact aggregateNet_masked (IpAddr.masked_host _) hn
  | stray p => exact h.elim
  | _ => trivial

private theorem VisitAct.ne_setCfg {host : VgCidr} {a : Act} (h : VisitAct host c a) (n : VgConfig) :
    a ≠ .setCfg n := by
  rintro rfl
  exact h

theorem visitIn_trace (env : Env) (c : VgCtrl) (t : TickIn) (j : ℕ) :
    Trace env (fun _ a => a.Masked ∧ ∀ n, a ≠ .setCfg n) c (visitIn env c t j) := by
  induction j with
  | zero =>
    have hread := measured_books c t
    have hmark : Books c { measured c t with snaps := nextGen (measured c t).snaps } :=
      ⟨hread.state, hread.cfg, hread.maps, hread.drops, hread.cfgPath, hread.ifaceOverride,
        hread.clock_le⟩
    exact .books hmark ⟨trivial, fun n => by simp⟩
  | succ j ih =>
    cases hr : t.remotes[j]? with
    | none => exact visitIn_succ_of_none env c hr ▸ ih
    | some r =>
      rw [visitIn_succ env c hr]
      exact ih.trans ((policyOneRemote_trace env _ _ r).mono fun _ _ ha => ⟨ha.masked, ha.ne_setCfg⟩)

private theorem visitIn_inForce (h : InForce c) (t : TickIn) (j : ℕ) : InForce (visitIn env c t j) :=
  (visitIn_trace env c t j).invariant (I := InForce) h fun _ _ _ hy ha hm => hm.inForce ha.1 hy

theorem Gateway.Tracks.inForce {g : Gateway} (h : g.Tracks env) : InForce g.ctrl := by
  cases hw : g.walk with
  | none => exact (h.of_none hw).inForce
  | some dt =>
    obtain ⟨c, t, hreach, -, -, hctrl⟩ := h.of_some hw
    exact hctrl ▸ visitIn_inForce hreach.inForce t _

theorem InForce.matches (h : InForce c) {p : VgCidr} (hp : p ∈ c.drops.prefixes) {x : IpAddr}
    (hx : p.Has x) : inLpm c.maps.kernel .drop x = true := by
  obtain ⟨v, hv⟩ := h.enforced p hp
  obtain ⟨hf, ha⟩ := hx
  rw [inLpm_iff]
  refine ⟨p, ?_, ha⟩
  rw [← hf]
  exact List.mem_map_of_mem hv

/-- While a prefix is listed the gate is armed. -/
theorem InForce.armed (h : InForce c) {p : VgCidr} (hp : p ∈ c.drops.prefixes) :
    c.maps.kernel.cfg.armed = 1 := by
  refine h.gate.armed.mpr (h.gate.listed ?_)
  rw [h.drops_ok.count_eq]
  obtain ⟨r, hr, -⟩ := List.mem_map.mp hp
  exact List.length_pos_of_mem hr

/-- On every CPU the program drops the frames from and for a prefix that no rule exempts. -/
def Gateway.Enforces (g : Gateway) (p : VgCidr) : Prop :=
  ∀ i frame room q, xdpLocals frame = some q → p.Has q.saddr ∨ p.Has q.daddr →
    exempted g.ctrl.maps.kernel q = false → (voidgateXdp (g.cpu i) frame room).2 = .drop

theorem Gateway.Tracks.enforces {g : Gateway} (h : g.Tracks env) {p : VgCidr}
    (hp : p ∈ g.ctrl.drops.prefixes) : g.Enforces p := by
  intro i frame room q hq hin hexempt
  refine (voidgateXdp_drop_iff _ _ _).mpr ⟨?_, q, hq, hexempt, ?_⟩
  · rw [show (g.cpu i).kernel.cfg.armed = 1 from h.inForce.armed hp]
    exact Nat.one_ne_zero
  · exact hin.imp (h.inForce.matches hp) (h.inForce.matches hp)

end Enforced

private theorem counted_of_dropped {s : XdpState} {frame : List UInt8} {room : HashRoom}
    (h : (voidgateXdp s frame room).2 = .drop) : counted s.kernel frame = none := by
  obtain ⟨harmed, q, hq, hexempt, hdrop⟩ := (voidgateXdp_drop_iff s frame room).mp h
  rw [counted, if_neg harmed, hq]
  rcases hdrop with hd | hd <;> simp [hexempt, hd]

/-- A frame from or for a listed prefix that no rule exempts is dropped and leaves the counters of
hosts and remotes, in every state of the gateway: between two commands, in the middle of a walk, and
after any map calls that failed. -/
theorem listed_prefix_enforced {env : Env} {possible : ℤ} {s : ℕ → Gateway} {es : ℕ → GateEvent}
    (h : Gateway.Run env possible s es) (h₀ : (s 0).Started env) {n i : ℕ} {frame : List UInt8}
    {room : HashRoom} (he : es n = .frame i frame room) {p : VgCidr}
    (hp : p ∈ (s n).ctrl.drops.prefixes) {q : Locals} (hq : xdpLocals frame = some q)
    (hin : p.Has q.saddr ∨ p.Has q.daddr)
    (hexempt : exempted (s n).ctrl.maps.kernel q = false) :
    (voidgateXdp ((s n).cpu i) frame room).2 = .drop ∧
      ((s (n + 1)).metrics i).dropped = ((s n).metrics i).dropped + 1 ∧
      (s (n + 1)).host = (s n).host ∧ (s (n + 1)).remote = (s n).remote := by
  have hdrop : (voidgateXdp ((s n).cpu i) frame room).2 = .drop :=
    (h.tracks h₀ n).enforces hp i frame room q hq hin hexempt
  obtain ⟨hhost, hremote⟩ :=
    (voidgateXdp_accounted ((s n).cpu i) frame room).uncounted (counted_of_dropped hdrop)
  have hadds : ∃ m', (voidgateXdp ((s n).cpu i) frame room).1.metrics = some m' ∧
      m'.dropped = ((s n).metrics i).dropped + 1 := by
    have hrecv : (((s n).cpu i).received frame).metrics = some _ := XdpState.bump_metrics rfl _
    obtain ⟨m', hm', hadd⟩ :=
      XdpState.leave_adds hrecv frame room (xdpExit ((s n).cpu i).kernel frame)
    rw [← voidgateXdp_eq_leave] at hm' hadd
    rw [hdrop] at hadd
    exact ⟨m', hm', hadd.dropped⟩
  obtain ⟨m', hm', hcount⟩ := hadds
  rw [h.next n, he]
  refine ⟨hdrop, ?_, ?_, ?_⟩
  · simp only [Gateway.step, Gateway.receive, Function.update_self, hm', Option.getD_some, hcount]
  · simp only [Gateway.step, Gateway.receive, hhost]
    exact (s n).host.writeBack_view _ i
  · simp only [Gateway.step, Gateway.receive, hremote]
    exact (s n).remote.writeBack_view _ i

/-- The next frame of the small gateway comes from the host that is listed now. -/
theorem listed_prefix_enforced_sample :
    sampleSource.host ∈ (gateRun 10).ctrl.drops.prefixes ∧
      (voidgateXdp ((gateRun 10).cpu 0) sampleFrame freeRoom).2 = .drop ∧
      ((gateRun 11).metrics 0).dropped = ((gateRun 10).metrics 0).dropped + 1 ∧
      (gateRun 11).host = (gateRun 10).host ∧ (gateRun 11).remote = (gateRun 10).remote := by
  have hfacts : sampleSource.host ∈ (gateRun 10).ctrl.drops.prefixes ∧
      (xdpLocals sampleFrame).any (fun q => decide (q.saddr = sampleSource) &&
        !exempted (gateRun 10).ctrl.maps.kernel q) = true := by decide +kernel
  obtain ⟨hlisted, hlocals⟩ := hfacts
  obtain ⟨q, hq, hfrom⟩ := (Option.any_eq_true _ _).mp hlocals
  obtain ⟨hsource, hexempt⟩ := Bool.and_eq_true_iff.mp hfrom
  exact ⟨hlisted, listed_prefix_enforced gateRun_run ⟨rfl, _, _, _, _, steadyStart_eq⟩ rfl hlisted hq
    (.inl (of_decide_eq_true hsource ▸ ⟨rfl, .refl _ _⟩)) (by simpa using hexempt)⟩

section Snapshots
variable {env : Env} {possible : ℤ} {s : ℕ → Gateway} {es : ℕ → GateEvent} {x : IpAddr}
  {k n pkts bytes : ℕ}

/-- Event `n` is the tick that begins a walk. -/
def Begins (s : ℕ → Gateway) (n : ℕ) : Prop := (s n).walk = none ∧ (s (n + 1)).walk ≠ none

private theorem exists_begins {m : ℕ} (hm : (s m).walk = none) (hmn : m ≤ n) (hn : (s n).walk ≠ none) :
    ∃ i, m ≤ i ∧ i < n ∧ Begins s i := by
  obtain ⟨i, hmi, hin, hi, hsince⟩ :=
    exists_since (P := fun l => (s l).walk ≠ none) (not_not.mpr hm) hmn hn
  exact ⟨i, hmi, hin, not_not.mp hi, hsince (i + 1) i.lt_succ_self hin⟩

/-- The remote is read at `k`, where it has a snapshot or gets one, and then again at `n`, in the
same walk or the next. Meanwhile the gate is armed, the remote keeps its entry in the kernel, and the
generation does not wrap. -/
structure Watched (possible : ℤ) (s : ℕ → Gateway) (es : ℕ → GateEvent) (x : IpAddr)
    (k n pkts bytes : ℕ) : Prop extends LastRead possible s es x k n pkts bytes where
  gets : (s k).ctrl.snaps.Gets x
  walk : (s n).walk ≠ none
  next : ∀ i j, k < i → i < n → k < j → j < n → Begins s i → Begins s j → i = j
  active : ∀ l, k < l → l < n → (s l).ctrl.state = .active
  stays : ∀ l, k ≤ l → l ≤ n → ((s l).remote x).isSome = true
  no_wrap : ∀ l, k < l → l < n → (s l).ctrl.snaps.gen + 1 ≠ 2 ^ 32

/-- The snapshot of `k` is there at `l`: marked, or in a walk that began after `k`. -/
def SnapHeld (s : ℕ → Gateway) (x : IpAddr) (k pkts bytes l : ℕ) : Prop :=
  ∃ e, (s l).ctrl.snaps.entryOf x = some e ∧ e.inPkts = pkts ∧ e.inBytes = bytes ∧
    (e.gen = (s l).ctrl.snaps.gen ∨ (s l).walk ≠ none ∧ ∃ i, k < i ∧ i < l ∧ Begins s i)

theorem SnapHeld.of_eq {l : ℕ} (h : SnapHeld s x k pkts bytes l)
    (hsnaps : (s (l + 1)).ctrl.snaps = (s l).ctrl.snaps) (hwalk : (s (l + 1)).walk = (s l).walk) :
    SnapHeld s x k pkts bytes (l + 1) := by
  obtain ⟨e, he, hp, hb, hgen⟩ := h
  refine ⟨e, by rw [hsnaps, he], hp, hb, ?_⟩
  rw [hsnaps, hwalk]
  refine hgen.imp id fun ⟨hw, i, hki, hil, hi⟩ => ⟨hw, i, hki, hil.trans l.lt_succ_self, hi⟩

private theorem Watched.held_succ (hw : Watched possible s es x k n pkts bytes)
    (hrun : Gateway.Run env possible s es) (h₀ : (s 0).Started env) {l : ℕ} (hkl : k < l)
    (hln : l < n) (h : SnapHeld s x k pkts bytes l) : SnapHeld s x k pkts bytes (l + 1) := by
  have ht := hrun.tracks h₀ l
  cases hrun.next l ▸ ht.snapStep (hrun.permits l) with
  | same _ hsnaps hwalk => exact h.of_eq hsnaps hwalk
  | forgets _ hidle => exact absurd ((hw.active l hkl hln).symm.trans hidle) (by decide)
  | begins _ hsnaps hbefore hafter =>
    have hno := hw.no_wrap l hkl hln
    have hlt := (ht.of_none hbefore).aged.gen_lt
    obtain ⟨e, he, hp, hb, -⟩ := h
    refine ⟨e, ?_, hp, hb, .inr ⟨hafter, l, hkl, l.lt_succ_self, hbefore, hafter⟩⟩
    rw [hsnaps, SnapTable.entryOf_nextGen (by omega), he]
  | visits r hcall hsnaps hwalk =>
    have hne := hw.last l hkl hln r hcall
    obtain ⟨e, he, hp, hb, hgen⟩ := h
    obtain ⟨-, hgen', hcases⟩ := ht.snaps_ok.visitOne_cases (s l).ctrl.lastTick r
    refine ⟨e, ?_, hp, hb, ?_⟩
    · rw [hsnaps, ← he]
      rcases hcases with ⟨-, -, hid⟩ | ⟨-, e', -, -, hentry⟩
      · rw [hid]
      · rw [hentry, Function.update_of_ne (Ne.symm hne)]
    · rw [hsnaps, hgen', hwalk]
      exact hgen.imp id fun ⟨hw, i, hki, hil, hi⟩ => ⟨hw, i, hki, hil.trans l.lt_succ_self, hi⟩
  | ends _ hsnaps hbefore hafter =>
    obtain ⟨e, he, hp, hb, hgen⟩ := h
    -- if the walk has begun after `k`, the one of `n` is a second
    have hmarked : e.gen = (s l).ctrl.snaps.gen := by
      refine hgen.resolve_right ?_
      rintro ⟨-, i, hki, hil, hi⟩
      obtain ⟨j, hlj, hjn, hj⟩ := exists_begins hafter hln hw.walk
      have hij := hw.next i j hki (hil.trans hln) (hkl.trans hlj) hjn hi hj
      omega
    obtain ⟨L, F, hinv⟩ := ht.snaps_ok
    obtain ⟨-, -, -, hgen', -⟩ := hinv.snapPrune
    rcases hsnaps with hsnaps | hsnaps
    · exact ⟨e, by rw [hsnaps, he], hp, hb, .inl (by rw [hsnaps, hmarked])⟩
    · refine ⟨e, ?_, hp, hb, .inl (by rw [hsnaps, hgen', hmarked])⟩
      rw [hsnaps, hinv.entryOf_snapPrune, he, Option.filter_some, if_pos (decide_eq_true hmarked)]

/-- The second reading is judged against the first. -/
theorem Watched.last_eq (hw : Watched possible s es x k n pkts bytes)
    (hrun : Gateway.Run env possible s es) (h₀ : (s 0).Started env) :
    ∃ ρ, (s n).ctrl.snaps.last x = some ρ ∧ ρ.pkts = pkts ∧ ρ.bytes = bytes := by
  have hheld : ∀ l, k + 1 ≤ l → l ≤ n → SnapHeld s x k pkts bytes l := by
    intro l hkl
    induction l, hkl using Nat.le_induction with
    | base =>
      intro _
      have ht := hrun.tracks h₀ k
      obtain ⟨-, dt, hwalk, -, hstep⟩ := Gateway.callback_some env hw.read
      have hsnaps : (s (k + 1)).ctrl.snaps =
          (s k).ctrl.snaps.visitOne (s k).ctrl.lastTick ⟨x, pkts, bytes⟩ := by
        rw [hrun.next k, hstep]
        exact policyOneRemote_visitOne env dt (ht.walking hwalk).state _
      obtain ⟨-, hgen, hcases⟩ := ht.snaps_ok.visitOne_cases (s k).ctrl.lastTick ⟨x, pkts, bytes⟩
      rcases hcases with ⟨hno, -⟩ | ⟨-, e, hread, hmark, hentry⟩
      · exact absurd hw.gets hno
      · refine ⟨e, ?_, congrArg Reading.pkts hread, congrArg Reading.bytes hread, .inl ?_⟩
        · rw [hsnaps, hentry, Function.update_self]
        · rw [hsnaps, hgen, hmark]
    | succ l hkl ih => exact fun hl => hw.held_succ hrun h₀ hkl hl (ih (Nat.le_of_succ_le hl))
  obtain ⟨e, hent, hp, hb, -⟩ := hheld n hw.before le_rfl
  exact ⟨e.reading, by rw [SnapTable.last_eq, hent, Option.map_some], hp, hb⟩

end Snapshots

section Lists
variable {env : Env} {c c' : VgCtrl}

theorem Trace.visit_kept {host : VgCidr} (h : Trace env (VisitAct host) c c') (hok : c.drops.Ok)
    {r : VgDropRec} (hr : r ∈ c.drops.records) : Kept c r c' :=
  (h.kept (Q := False) hok (fun _ _ => id) ⟨rfl, r, hr, rfl, le_rfl⟩ (fun _ _ _ _ ha => ha.elim)
    fun _ _ ha => ha.elim).resolve_right id

private theorem dropAdd_lists (h : Sound c) (hs : c.state = .active) {p : VgCidr} (hp : p.Masked)
    (hun : vgCidrIsProtected c.cfg p = false) (hwrite : env.fault c.maps.writes = false)
    (hroom : p ∈ c.drops.prefixes ∨ c.drops.records.length < c.drops.cap) (reason : Reason)
    (expires : ℤ) : p ∈ (dropAdd env c p reason expires).1.drops.prefixes := by
  by_cases hlisted : p ∈ c.drops.prefixes
  · obtain ⟨r, hr, hcidr⟩ := List.mem_map.mp hlisted
    obtain ⟨-, r', hr', hcidr', -⟩ :=
      dropAct_kept (dropAdd_trace env c p reason expires) h.drops_ok hr
    exact List.mem_map.mpr ⟨r', hr', hcidr'.trans hcidr⟩
  · have hlt := hroom.resolve_left hlisted
    have hnew : ∀ r ∈ c.drops.records, r.cidr.key ≠ p.key := fun r hr hk =>
      hlisted (List.mem_map.mpr ⟨r, hr, h.eq_of_key hr hp hk⟩)
    have hactive : ¬ ArmFails env c := fun ha => by simp [ha.1] at hs
    rw [dropAdd_eq, if_neg (by simp [hun]), if_neg hactive, VgCtrl.armed_of_active (by exact hs)]
    have hcase : DropCase env c.ticked p reason expires (env.wall c.clock)
        (dropListed env c.ticked p reason expires (env.wall c.clock)) :=
      dropListed_case (c := c.ticked) h.drops_ok p reason expires (env.wall c.clock)
    generalize dropListed env c.ticked p reason expires (env.wall c.clock) = out at hcase
    cases hcase with
    | full _ _ hfull => exact absurd hfull hlt.ne
    | refused _ _ hfault => exact absurd (hwrite.symm.trans hfault) (by decide)
    | listed d _ _ _ _ hrecords =>
      refine List.mem_map.mpr ⟨⟨p, reason, env.wall c.clock, expires⟩, ?_, rfl⟩
      simp [hrecords]
    | manual r hr hk => exact absurd hk (hnew r hr)
    | again _ r hr hk => exact absurd hk (hnew r hr)

private theorem policyDrop_lists (h : Sound c) (hs : c.state = .active) {x : IpAddr}
    (hun : vgCidrIsProtected c.cfg x.host = false) (hwrite : env.fault c.maps.writes = false)
    (hroom : x.host ∈ c.drops.prefixes ∨ c.drops.records.length < c.drops.cap) :
    x.host ∈ (policyDrop env c x.host).drops.prefixes := by
  have hdrop := dropAdd_lists h hs x.masked_host hun hwrite hroom .policy 0
  rw [policyDrop]
  split_ifs
  · have htrace : Trace env (VisitAct x.host) c (vgCtrlDrop env c x.host .policy).1 :=
      visitDrop_trace env c (.inl ⟨rfl, rfl⟩)
    obtain ⟨r, hr, hcidr⟩ := List.mem_map.mp hdrop
    obtain ⟨-, r', hr', hcidr', -⟩ := (maybeAggregate_calls env _ x.host).visitTrace.visit_kept
      (visitTrace_keeps x.masked_host htrace h).1.drops_ok hr
    exact List.mem_map.mpr ⟨r', hr', hcidr'.trans hcidr⟩
  · exact hdrop

end Lists

section Flood
variable {env : Env} {possible : ℤ} {s : ℕ → Gateway} {es : ℕ → GateEvent} {x : IpAddr}
  {k n pkts bytes : ℕ}

private theorem Watched.increase_eq (hw : Watched possible s es x k n pkts bytes)
    (hrun : Gateway.Run env possible s es) {r : Remote}
    (hcall : (s n).callback possible (es n) = some r) (hr : r.host = x)
    (hpkts : pkts + traffic .pkts Locals.saddr s es x k n < 2 ^ 64)
    (hbytes : bytes + traffic .bytes Locals.saddr s es x k n < 2 ^ 64) :
    increase pkts r.inPkts = traffic .pkts Locals.saddr s es x k n ∧
      increase bytes r.inBytes = traffic .bytes Locals.saddr s es x k n := by
  subst hr
  obtain ⟨-, -, -, hread₀, -⟩ := Gateway.callback_some env hw.read
  obtain ⟨-, -, -, hread, -⟩ := Gateway.callback_some env hcall
  obtain ⟨v, hv, hr₀⟩ := Gateway.readRemote_reading hread₀
  obtain ⟨v', hv', hr⟩ := Gateway.readRemote_reading hread
  obtain rfl : pkts = v.inPkts.toNat := congrArg Remote.inPkts hr₀
  obtain rfl : bytes = v.inBytes.toNat := congrArg Remote.inBytes hr₀
  have hsum (u : Quantity) := hrun.read_eq hw.before.le u hv hv' hw.stays
  rw [show r.inPkts = v'.inPkts.toNat from congrArg Remote.inPkts hr,
    show r.inBytes = v'.inBytes.toNat from congrArg Remote.inBytes hr]
  exact ⟨increase_of_read (hsum .pkts) hpkts, increase_of_read (hsum .bytes) hbytes⟩

/-- A remote that is read in two consecutive walks and gets a snapshot at the first, with the gate armed
and its kernel entry in place in between and without a wrap of a counter or of the generation: if it
sent as much in between as a threshold asks for in the time of the tick, with rates and times as exact
rationals, then right after the second reading it is on the list and every frame from or for it that no
rule exempts is dropped, unless it is protected, the write fails or the list is full. -/
theorem flood_is_dropped (h : Gateway.Run env possible s es) (h₀ : (s 0).Started env)
    (hw : Watched possible s es x k n pkts bytes) (he : es n = .visit x) {dt : ℚ}
    (hdt : (s n).walk = some dt)
    (hpkts : pkts + traffic .pkts Locals.saddr s es x k n < 2 ^ 64)
    (hbytes : bytes + traffic .bytes Locals.saddr s es x k n < 2 ^ 64)
    (hflood : (s n).ctrl.cfg.thresholdPps * dt ≤ traffic .pkts Locals.saddr s es x k n ∨
      (s n).ctrl.cfg.thresholdMbps * 1000000 * dt ≤ 8 * traffic .bytes Locals.saddr s es x k n)
    (hun : vgCidrIsProtected (s n).ctrl.cfg x.host = false)
    (hwrite : env.fault (s n).ctrl.maps.writes = false)
    (hroom : x.host ∈ (s n).ctrl.drops.prefixes ∨
      (s n).ctrl.drops.records.length < (s n).ctrl.drops.cap) :
    x.host ∈ (s (n + 1)).ctrl.drops.prefixes ∧ (s (n + 1)).Enforces x.host := by
  have ht := h.tracks h₀ n
  have hwalking := ht.walking hdt
  obtain ⟨r, hcall⟩ : ∃ r, (s n).callback possible (es n) = some r := by
    have hstay := hw.stays n hw.before.le le_rfl
    rw [← reading_isSome possible] at hstay
    obtain ⟨v, hv⟩ := Option.isSome_iff_exists.mp hstay
    refine ⟨⟨x, v.inPkts.toNat, v.inBytes.toNat⟩, ?_⟩
    rw [he, Gateway.callback, hdt, Option.bind_some, Gateway.readRemote]
    exact Option.map_eq_some_iff.mpr ⟨v, hv, rfl⟩
  obtain ⟨he', dt', hdt', -, hstep⟩ := Gateway.callback_some env hcall
  obtain rfl : dt = dt' := Option.some.inj (hdt.symm.trans hdt')
  obtain rfl : x = r.host := GateEvent.visit.inj (he.symm.trans he')
  obtain ⟨ρ, hlast, rfl, rfl⟩ := hw.last_eq h h₀
  obtain ⟨hincp, hincb⟩ := hw.increase_eq h hcall rfl hpkts hbytes
  have hover : overThreshold (s n).ctrl dt r = true := by
    rw [overThreshold, hlast]
    refine Bool.and_eq_true_iff.mpr ⟨decide_eq_true hwalking.dt_pos, ?_⟩
    rw [Bool.not_eq_true', quiet, decide_eq_false_iff_not, not_and_or, not_lt, not_lt]
    simp only [judge, hincp, hincb]
    refine hflood.imp (fun hp => ?_) fun hb => ?_
    · rwa [le_div_iff₀ hwalking.dt_pos]
    · rwa [le_div_iff₀ hwalking.dt_pos, mul_comm (Nat.cast _) 8]
  have hlisted : r.host.host ∈ (s (n + 1)).ctrl.drops.prefixes := by
    obtain ⟨snaps, judged, -, hvisit⟩ := policyOneRemote_eq env dt hwalking.snaps_ok r
    rw [h.next n, hstep, hvisit, if_pos hover]
    have hsound := ht.inForce.toSound
    exact policyDrop_lists (c := { (s n).ctrl with snaps := snaps, judged := judged })
      ⟨hsound.drops_ok, hsound.masked⟩ hwalking.state hun hwrite hroom
  exact ⟨hlisted, (h.tracks h₀ (n + 1)).enforces hlisted⟩

private theorem gateRun_watched : Watched 2 gateRun gateEvents sampleSource 4 8 1 42 := by
  have hfacts : (gateRun 4).callback 2 (gateEvents 4) = some ⟨sampleSource, 1, 42⟩ ∧
      ((gateRun 4).ctrl.snaps.snapGet sampleSource).2.isSome = true ∧
      (gateRun 5).walk ≠ none ∧ (gateRun 7).walk = none ∧ (gateRun 8).walk ≠ none ∧
      (∀ l < 8, 4 < l → (gateRun l).ctrl.state = .active) ∧
      (∀ l < 9, 4 ≤ l → ((gateRun l).remote sampleSource).isSome = true) ∧
      ∀ l < 8, 4 < l → (gateRun l).ctrl.snaps.gen + 1 ≠ 2 ^ 32 := by decide +kernel
  obtain ⟨hread, hgets, hfive, hseven, height, hactive, hstays, hgen⟩ := hfacts
  have hlast : LastRead 2 gateRun gateEvents sampleSource 4 8 1 42 := by
    refine ⟨by decide, hread, fun l hl hl' r hr => ?_⟩
    interval_cases l <;> cases hr
  have hbegins : ∀ l, 4 < l → l < 8 → Begins gateRun l → l = 7 := by
    intro l hl hl' hb
    interval_cases l
    · exact absurd hb.1 hfive
    · exact absurd hseven hb.2
    · rfl
  refine ⟨hlast, hgets, height, fun i j hi hi' hj hj' hb hb' => ?_, fun l hl hl' => hactive l hl' hl,
    fun l hl hl' => hstays l (Nat.lt_succ_of_le hl') hl, fun l hl hl' => hgen l hl' hl⟩
  rw [hbegins i hi hi' hb, hbegins j hj hj' hb']

theorem flood_is_dropped_sample : sampleSource.host ∈ (gateRun 9).ctrl.drops.prefixes ∧
    (gateRun 9).Enforces sampleSource.host := by
  have hfacts : traffic .pkts Locals.saddr gateRun gateEvents sampleSource 4 8 = 1 ∧
      traffic .bytes Locals.saddr gateRun gateEvents sampleSource 4 8 = 42 ∧
      (gateRun 8).walk = some (1 / 1000) ∧ (gateRun 8).ctrl.cfg.thresholdPps = 500 ∧
      vgCidrIsProtected (gateRun 8).ctrl.cfg sampleSource.host = false ∧
      steadyEnv.fault (gateRun 8).ctrl.maps.writes = false ∧
      (gateRun 8).ctrl.drops.records.length < (gateRun 8).ctrl.drops.cap := by decide +kernel
  obtain ⟨hpkts, hbytes, hdt, hpps, hun, hwrite, hroom⟩ := hfacts
  refine flood_is_dropped gateRun_run ⟨rfl, _, _, _, _, steadyStart_eq⟩ gateRun_watched rfl hdt
    (by rw [hpkts]; decide) (by rw [hbytes]; decide) (.inl ?_) hun hwrite (.inr hroom)
  rw [hpps, hpkts]
  norm_num

end Flood

end VoidGate
