import VoidGate.Gateway

/-!
# The counters of all CPUs

What the counters of a gateway say about the frames that came in, on whatever CPU and
between whatever else the daemon did. An entry of the host map takes every frame for its
address from the moment it exists. An entry of the remote map does so until it is
evicted; a later entry for the same address starts at 0, so that a reading may fall
short of the traffic but never exceeds it.
-/

namespace VoidGate

open Runs PerCpu

/-- `in_pkts` and `in_bytes`. -/
inductive Quantity where
  | pkts
  | bytes

namespace Quantity

def read : Quantity → HostCounters → UInt64
  | pkts => HostCounters.inPkts
  | bytes => HostCounters.inBytes

def weigh : Quantity → List UInt8 → ℕ
  | pkts, _ => 1
  | bytes, frame => frame.length

theorem read_acc (u : Quantity) (a : HostCounters) (frame : List UInt8) :
    u.read ⟨a.inPkts + 1, a.inBytes + UInt64.ofNat frame.length⟩ =
      u.read a + UInt64.ofNat (u.weigh frame) := by
  cases u <;> rfl

@[simp] theorem read_zero (u : Quantity) : u.read ⟨0, 0⟩ = 0 := by cases u <;> rfl

@[simp] theorem read_add (u : Quantity) (a b : HostCounters) : u.read (a.add b) = u.read a + u.read b := by
  cases u <;> rfl

end Quantity

/-- The frames that reach `acc_in`: an armed gate has read the addresses and passes the frame, and
the destination is local. -/
def counted (k : Kernel) (frame : List UInt8) : Option Locals :=
  if k.cfg.armed = 0 then none
  else (xdpLocals frame).filter fun p => inLpm k .localNets p.daddr &&
    !(!exempted k p && (inLpm k .drop p.saddr || inLpm k .drop p.daddr))

theorem xdpExit_judged_iff {k : Kernel} {frame : List UInt8} {p : Locals} :
    xdpExit k frame = .judged p ↔ k.cfg.armed ≠ 0 ∧ xdpLocals frame = some p := by
  simp only [xdpExit, xdpLocals]
  by_cases harmed : k.cfg.armed = 0
  · simp [harmed]
  by_cases hlen : frame.length < 14
  · simp [harmed, hlen]
  simp only [harmed, hlen, if_false]
  cases skipVlans frame vgMaxVlans 14 (be16At frame 12) with
  | none => simp
  | some r =>
    dsimp only
    split_ifs <;> simp [harmed]

/-- The entry of `addr` in a counter map, once the program has looked it up and counted. -/
def accounted (t : IpAddr → Option HostCounters) (room : Bool) (evicted : IpAddr → Bool)
    (addr : IpAddr) (frame : List UInt8) : IpAddr → Option HostCounters :=
  accIn (hashGet t room evicted addr) addr (UInt64.ofNat frame.length)

structure Accounted (s s' : XdpState) (frame : List UInt8) (room : HashRoom) : Prop where
  uncounted : counted s.kernel frame = none → s'.host = s.host ∧ s'.remote = s.remote
  counted : ∀ p, counted s.kernel frame = some p →
    s'.host = accounted s.host room.host (fun _ => false) p.daddr frame ∧
    s'.remote = accounted s.remote room.remote room.evicted p.saddr frame

private theorem XdpState.count_tables (s : XdpState) (x y : IpAddr) (frame : List UInt8) (room : HashRoom) :
    let s' := (s.count x y (UInt64.ofNat frame.length) room).1
    (inLpm s.kernel .localNets y = false → s'.host = s.host ∧ s'.remote = s.remote) ∧
      (inLpm s.kernel .localNets y = true →
        s'.host = accounted s.host room.host (fun _ => false) y frame ∧
        s'.remote = accounted s.remote room.remote room.evicted x frame) := by
  rw [count]
  by_cases hlocal : inLpm s.kernel .localNets y = true
  · rw [if_pos hlocal]
    exact ⟨fun h => absurd (hlocal.symm.trans h) (by decide), fun _ => ⟨rfl, rfl⟩⟩
  · rw [if_neg hlocal]
    exact ⟨fun _ => ⟨rfl, rfl⟩, fun h => absurd h hlocal⟩

theorem voidgateXdp_accounted (s : XdpState) (frame : List UInt8) (room : HashRoom) :
    Accounted s (voidgateXdp s frame room).1 frame room := by
  rw [voidgateXdp_eq_leave]
  cases he : xdpExit s.kernel frame with
  | judged p =>
    obtain ⟨harmed, hp⟩ := xdpExit_judged_iff.mp he
    have hcounted : counted s.kernel frame = if (inLpm s.kernel .localNets p.daddr &&
        !(!exempted s.kernel p && (inLpm s.kernel .drop p.saddr || inLpm s.kernel .drop p.daddr))) = true
        then some p else none := by
      rw [VoidGate.counted, if_neg harmed, hp]
      rfl
    rw [XdpState.leave, XdpState.enforce]
    generalize hs₁ : (if p.parseErr then (s.received frame).bump fun m =>
      { m with parseErr := m.parseErr + 1 } else s.received frame) = s₁
    obtain ⟨hk, hhost, hremote⟩ : s₁.kernel = s.kernel ∧ s₁.host = s.host ∧ s₁.remote = s.remote := by
      rw [← hs₁]
      split_ifs <;> exact ⟨rfl, rfl, rfl⟩
    rw [hk]
    have hexempt : exempted (s.received frame).kernel p = exempted s.kernel p := rfl
    rw [hexempt]
    obtain ⟨hoff, hlocal⟩ := s₁.count_tables p.saddr p.daddr frame room
    rw [hk, hhost, hremote] at hoff hlocal
    split_ifs with hdrop
    · rw [hdrop, Bool.not_true, Bool.and_false, if_neg (by simp)] at hcounted
      refine ⟨fun _ => ⟨hhost, hremote⟩, fun q hq => ?_⟩
      rw [hcounted] at hq
      cases hq
    · rw [Bool.not_eq_true] at hdrop
      rw [hdrop, Bool.not_false, Bool.and_true] at hcounted
      refine ⟨fun hnone => hoff ?_, fun q hq => ?_⟩
      · rw [hcounted] at hnone
        simpa using hnone
      · rw [hcounted, Option.ite_none_right_eq_some] at hq
        obtain ⟨hl, he⟩ := hq
        cases he
        exact hlocal hl
  | _ =>
    have hnone : counted s.kernel frame = none := by
      rw [VoidGate.counted]
      split_ifs with harmed
      · rfl
      · cases hp : xdpLocals frame with
        | none => rfl
        | some p =>
          rw [xdpExit_judged_iff.mpr ⟨harmed, hp⟩] at he
          cases he
    refine ⟨fun _ => ⟨rfl, rfl⟩, fun q hq => ?_⟩
    rw [hnone] at hq
    cases hq

section Entry
variable (t : IpAddr → Option HostCounters) (room : Bool) (evicted : IpAddr → Bool)
  {addr x : IpAddr} (frame : List UInt8)

private theorem accounted_self (addr : IpAddr) (u : Quantity) :
    (∀ a b, t addr = some a → accounted t room evicted addr frame addr = some b →
      u.read b = u.read a + UInt64.ofNat (u.weigh frame)) ∧
    ∀ b, t addr = none → accounted t room evicted addr frame addr = some b →
      u.read b = UInt64.ofNat (u.weigh frame) := by
  constructor
  · intro a b ha hb
    simp only [accounted, accIn, hashGet, ha, Option.isSome_some, Bool.true_or, if_true,
      Function.update_self, Option.map_some, Option.some.injEq] at hb
    rw [← hb, u.read_acc]
  · intro b ha hb
    cases room with
    | false => simp [accounted, accIn, hashGet, ha] at hb
    | true =>
      simp only [accounted, accIn, hashGet, ha, Option.isSome_none, Bool.not_true, Bool.or_false,
        Bool.false_eq_true, if_false, Function.update_self, Option.map_some, Option.some.injEq] at hb
      have hacc : u.read b = _ := hb ▸ u.read_acc ⟨0, 0⟩ frame
      rw [hacc, u.read_zero, zero_add]

theorem accounted_of_ne (hx : x ≠ addr) :
    accounted t room evicted addr frame x = t x ∨
      (evicted x = true ∧ accounted t room evicted addr frame x = none) := by
  simp only [accounted, accIn, Function.update_of_ne hx, hashGet]
  split_ifs with h
  · exact .inl rfl
  · rw [Function.update_of_ne hx]
    cases he : evicted x with
    | true => exact .inr ⟨rfl, rfl⟩
    | false => exact .inl (if_neg (by simp))

private theorem accounted_isSome (h : (t x).isSome = true) (he : evicted x = false) :
    (accounted t room evicted addr frame x).isSome = true := by
  by_cases hx : x = addr
  · subst hx
    simp [accounted, accIn, hashGet, h]
  · rcases accounted_of_ne t room evicted frame hx with hkeep | ⟨hev, -⟩
    · rw [hkeep, h]
    · rw [he] at hev
      cases hev

end Entry

def counterOf : ℕ →+ UInt64 where
  toFun := UInt64.ofNat
  map_zero' := rfl
  map_add' := UInt64.ofNat_add

@[simp] theorem toNat_counterOf (d : ℕ) : (counterOf d).toNat = d % 2 ^ 64 := UInt64.toNat_ofNat'

/-- What an event adds to the traffic of an address. A frame counts for its source in the remote
maps and for its destination in the host maps. -/
def GateEvent.amount (u : Quantity) (side : Locals → IpAddr) (k : Kernel) (x : IpAddr) :
    GateEvent → ℕ
  | .frame _ bytes _ =>
    match counted k bytes with
    | none => 0
    | some p => if side p = x then u.weigh bytes else 0
  | _ => 0

/-- The event evicts no entry, and finds room where it needs a new one. -/
def GateEvent.Roomy : GateEvent → Prop
  | .frame _ _ room => room.host = true ∧ room.remote = true ∧ ∀ x, room.evicted x = false
  | _ => True

section Event
variable {env : Env} {possible : ℤ} {g : Gateway} {e : GateEvent}

/-- What happens to a counter map: its entries move by what the event adds for `side`. -/
structure TableStep (n : ℕ) (side : Locals → IpAddr) (k : Kernel) (e : GateEvent)
    (t t' : Table IpAddr HostCounters) : Prop where
  shifts : ∀ (u : Quantity) x,
    Shifts (counterOf (e.amount u side k x)) (t.sum n u.read x) (t'.sum n u.read x)
  room : e.Roomy → ∀ x, t' x = none → t x = none ∧ ∀ u : Quantity, e.amount u side k x = 0

theorem TableStep.refl {n : ℕ} {side : Locals → IpAddr} {k : Kernel}
    (he : ∀ (u : Quantity) x, e.amount u side k x = 0) (t : Table IpAddr HostCounters) :
    TableStep n side k e t t where
  shifts u x := by
    rw [he, map_zero]
    exact .refl _
  room _ x hx := ⟨hx, fun u => he u x⟩

theorem tableStep_accounted {n i : ℕ} (hi : i < n) {side : Locals → IpAddr} {k : Kernel}
    {bytes : List UInt8} {p : Locals} (hp : counted k bytes = some p) (room : HashRoom)
    (t : Table IpAddr HostCounters) {free : Bool} {evicted : IpAddr → Bool}
    (hfree : (GateEvent.frame i bytes room).Roomy → free = true ∧ ∀ x, evicted x = false) :
    TableStep n side k (.frame i bytes room) t
      (t.writeBack ⟨0, 0⟩ i (accounted (t.view i) free evicted (side p) bytes)) where
  shifts u x := by
    have hamount : (GateEvent.frame i bytes room).amount u side k x =
        if side p = x then u.weigh bytes else 0 := by
      rw [GateEvent.amount, hp]
    rw [hamount]
    by_cases hx : side p = x
    · subst hx
      obtain ⟨hadds, hnew⟩ := accounted_self (t.view i) free evicted bytes (side p) u
      rw [if_pos rfl]
      exact t.sum_writeBack hi u.read_zero _ hadds hnew
    · rw [if_neg hx, map_zero]
      have hother := accounted_of_ne (t.view i) free evicted bytes (Ne.symm hx)
      refine t.sum_writeBack hi u.read_zero _ (fun a b ha hb => ?_) fun b ha hb => ?_
      · rcases hother with hkeep | ⟨-, hgone⟩
        · cases ha.symm.trans (hkeep.symm.trans hb)
          exact (add_zero _).symm
        · cases hgone.symm.trans hb
      · rcases hother with hkeep | ⟨-, hgone⟩
        · cases ha.symm.trans (hkeep.symm.trans hb)
        · cases hgone.symm.trans hb
  room hroomy x hx := by
    obtain ⟨hf, hev⟩ := hfree hroomy
    rw [Table.writeBack_eq_none_iff] at hx
    by_cases hxp : x = side p
    · subst hxp
      cases ht : t (side p) <;> simp [accounted, accIn, hashGet, Table.view, ht, hf] at hx
    · refine ⟨?_, fun u => ?_⟩
      · rcases accounted_of_ne (t.view i) free evicted bytes hxp with hkeep | ⟨hgone, -⟩
        · exact Table.view_eq_none_iff.mp (hkeep.symm.trans hx)
        · rw [hev] at hgone
          cases hgone
      · rw [GateEvent.amount, hp]
        exact if_neg (Ne.symm hxp)

private theorem Gateway.step_tables (hok : g.Permits possible e) :
    TableStep (cpuCount possible) Locals.daddr g.ctrl.maps.kernel e g.host
        (g.step env possible e).host ∧
      TableStep (cpuCount possible) Locals.saddr g.ctrl.maps.kernel e g.remote
        (g.step env possible e).remote := by
  cases e with
  | frame i bytes room =>
    have hacc : Accounted (g.cpu i) _ bytes room := voidgateXdp_accounted (g.cpu i) bytes room
    simp only [Gateway.step, receive]
    cases hp : counted g.ctrl.maps.kernel bytes with
    | none =>
      obtain ⟨hhost, hremote⟩ := hacc.uncounted hp
      have hzero : ∀ (side : Locals → IpAddr) (u : Quantity) x,
          (GateEvent.frame i bytes room).amount u side g.ctrl.maps.kernel x = 0 := by
        intro side u x
        rw [GateEvent.amount, hp]
      rw [hhost, hremote]
      refine ⟨?_, ?_⟩
      · exact (g.host.writeBack_view ⟨0, 0⟩ i).symm ▸ TableStep.refl (hzero _) g.host
      · exact (g.remote.writeBack_view ⟨0, 0⟩ i).symm ▸ TableStep.refl (hzero _) g.remote
    | some p =>
      obtain ⟨hhost, hremote⟩ := hacc.counted p hp
      rw [hhost, hremote]
      exact ⟨tableStep_accounted hok hp room g.host fun hr => ⟨hr.1, fun _ => rfl⟩,
        tableStep_accounted hok hp room g.remote fun hr => hr.2⟩
  | command cmd => exact ⟨.refl (fun _ _ => rfl) _, .refl (fun _ _ => rfl) _⟩
  | tick mono readable =>
    simp only [Gateway.step]
    split_ifs <;> exact ⟨.refl (fun _ _ => rfl) _, .refl (fun _ _ => rfl) _⟩
  | visit x =>
    simp only [Gateway.step]
    split <;> exact ⟨.refl (fun _ _ => rfl) _, .refl (fun _ _ => rfl) _⟩
  | finish complete =>
    simp only [Gateway.step]
    split <;> exact ⟨.refl (fun _ _ => rfl) _, .refl (fun _ _ => rfl) _⟩

private theorem Gateway.step_host_isSome (g : Gateway) (e : GateEvent) {y : IpAddr}
    (h : (g.host y).isSome = true) : ((g.step env possible e).host y).isSome = true := by
  cases e with
  | frame i bytes room =>
    have hacc : Accounted (g.cpu i) _ bytes room := voidgateXdp_accounted (g.cpu i) bytes room
    have hview : (g.host.view i y).isSome = true := by simpa [Table.view] using h
    rw [Gateway.step, receive]
    simp only [Table.writeBack, Option.isSome_map]
    cases hp : counted g.ctrl.maps.kernel bytes with
    | none =>
      rw [(hacc.uncounted hp).1]
      exact hview
    | some p =>
      rw [(hacc.counted p hp).1]
      exact accounted_isSome _ _ _ bytes hview rfl
  | command cmd => exact h
  | tick mono readable =>
    simp only [Gateway.step]
    split_ifs <;> exact h
  | visit x =>
    simp only [Gateway.step]
    split <;> exact h
  | finish complete =>
    simp only [Gateway.step]
    split <;> exact h

end Event

/-- A run of the gateway: the events, and the state before each of them. -/
structure Gateway.Run (env : Env) (possible : ℤ) (s : ℕ → Gateway) (es : ℕ → GateEvent) : Prop where
  permits : ∀ n, (s n).Permits possible (es n)
  next : ∀ n, s (n + 1) = (s n).step env possible (es n)

/-- The traffic of an address between two moments of a run. -/
def traffic (u : Quantity) (side : Locals → IpAddr) (s : ℕ → Gateway) (es : ℕ → GateEvent)
    (x : IpAddr) (m n : ℕ) : ℕ :=
  ∑ k ∈ Finset.Ico m n, (es k).amount u side (s k).ctrl.maps.kernel x

/-- What the daemon reads of an entry. -/
def reading (possible : ℤ) (t : Table IpAddr HostCounters) (x : IpAddr) : Option HostCounters :=
  vgSumPercpu (openScratch possible) (t x)

theorem reading_read (possible : ℤ) (t : Table IpAddr HostCounters) (x : IpAddr) (u : Quantity) :
    (reading possible t x).map u.read = t.sum (cpuCount possible) u.read x := by
  rw [reading, vgSumPercpu_eq, sumPercpu_openScratch (by decide), Option.map_map, Table.sum]
  exact congrArg (Option.map · (t x)) (funext fun src =>
    foldl_add_eq_total u.read_zero u.read_add (cpuCount possible) src)

@[simp] theorem reading_isSome (possible : ℤ) (t : Table IpAddr HostCounters) (x : IpAddr) :
    (reading possible t x).isSome = (t x).isSome := by
  rw [reading, vgSumPercpu_eq, sumPercpu_openScratch (by decide), Option.isSome_map]

theorem reading_of_takes {possible : ℤ} {t t' : Table IpAddr HostCounters} {x : IpAddr}
    {u : Quantity} {d : ℕ} {v : HostCounters}
    (h : Takes (counterOf d) (t.sum (cpuCount possible) u.read x)
      (t'.sum (cpuCount possible) u.read x)) (hv : reading possible t x = some v) :
    ∃ v', reading possible t' x = some v' ∧ u.read v' = u.read v + .ofNat d := by
  obtain ⟨a, ha, hb⟩ := h
  rw [← reading_read, hv] at ha
  rw [← reading_read] at hb
  cases ha
  obtain ⟨v', hv', hread⟩ := Option.map_eq_some_iff.mp hb
  exact ⟨v', hv', hread⟩

private theorem increase_of_grown {d : ℕ} {a b : UInt64} (h : Grown counterOf d (some a) (some b)) :
    increase a.toNat b.toNat ≤ d := by
  have hlt := a.toNat_lt
  rcases h with hnone | ⟨_, ha, hb⟩ | ⟨e, he, hb⟩
  · cases hnone
  · cases ha
    have hsum : b.toNat = (a.toNat + d) % 2 ^ 64 := by
      rw [Option.some.inj hb, UInt64.toNat_add, toNat_counterOf, Nat.add_mod_mod]
    rw [increase, hsum]
    split_ifs <;> omega
  · have hpart : b.toNat = e % 2 ^ 64 := by
      rw [Option.some.inj hb, toNat_counterOf]
    rw [increase, hpart]
    split_ifs <;> omega

theorem increase_of_read {d : ℕ} {a b : UInt64} (h : b = a + .ofNat d) (hfits : a.toNat + d < 2 ^ 64) :
    increase a.toNat b.toNat = d := by
  have hsum : b.toNat = a.toNat + d := by
    rw [h]
    simp only [UInt64.toNat_add, UInt64.toNat_ofNat']
    omega
  rw [increase, hsum, if_pos (Nat.le_add_right _ _), Nat.add_sub_cancel_left]

/-- The entry of `x`, if there is one, shows the number `d`; without an entry this is 0. -/
def Shows (possible : ℤ) (u : Quantity) (t : Table IpAddr HostCounters) (x : IpAddr) (d : ℕ) : Prop :=
  t x = none ∧ d = 0 ∨ ∃ v, reading possible t x = some v ∧ u.read v = .ofNat d

section Run
variable {env : Env} {possible : ℤ} {s : ℕ → Gateway} {es : ℕ → GateEvent}

theorem Gateway.Run.reaches (h : Gateway.Run env possible s es) (n : ℕ) :
    Reaches (Gateway.step env possible) (Gateway.Permits possible) (s 0) (s n) := by
  induction n with
  | zero => exact .start
  | succ n ih => exact h.next n ▸ ih.next (es n) (h.permits n)

theorem Gateway.Run.tables (h : Gateway.Run env possible s es) (k : ℕ) :
    TableStep (cpuCount possible) Locals.daddr (s k).ctrl.maps.kernel (es k) (s k).host
        (s (k + 1)).host ∧
      TableStep (cpuCount possible) Locals.saddr (s k).ctrl.maps.kernel (es k) (s k).remote
        (s (k + 1)).remote :=
  h.next k ▸ Gateway.step_tables (h.permits k)

private theorem Gateway.Run.host_stays (h : Gateway.Run env possible s es) {m n : ℕ} (hmn : m ≤ n)
    {y : IpAddr} (hy : ((s m).host y).isSome = true) : ((s n).host y).isSome = true := by
  induction n, hmn using Nat.le_induction with
  | base => exact hy
  | succ n _ ih => exact h.next n ▸ (s n).step_host_isSome (es n) ih

theorem shows_of_steps {side : Locals → IpAddr} {k : ℕ → Kernel}
    {t : ℕ → Table IpAddr HostCounters}
    (hstep : ∀ i, TableStep (cpuCount possible) side (k i) (es i) (t i) (t (i + 1)))
    (hroomy : ∀ i, (es i).Roomy) {x : IpAddr} (hempty : t 0 x = none) (u : Quantity) (n : ℕ) :
    Shows possible u (t n) x (∑ i ∈ Finset.Ico 0 n, (es i).amount u side (k i) x) := by
  have hsum := sum_of_shifts (s := fun i => (t i).sum (cpuCount possible) u.read x)
    (fun i => (hstep i).shifts u x) (((t 0).sum_eq_none_iff _ _ _).mpr hempty)
    (fun i hi => ?_) n
  · rcases hsum with ⟨hnone, hzero⟩ | hsome
    · exact .inl ⟨((t n).sum_eq_none_iff _ _ _).mp hnone, hzero⟩
    · rw [← reading_read] at hsome
      obtain ⟨v, hv, hread⟩ := Option.map_eq_some_iff.mp hsome
      exact .inr ⟨v, hv, hread⟩
  · obtain ⟨hnone, hzero⟩ := (hstep i).room (hroomy i) x (((t (i + 1)).sum_eq_none_iff _ _ _).mp hi)
    exact ⟨((t i).sum_eq_none_iff _ _ _).mpr hnone, hzero u⟩

theorem Gateway.Run.increase_le (h : Gateway.Run env possible s es) {m n : ℕ} (hmn : m ≤ n)
    (u : Quantity) {x : IpAddr} {v v' : HostCounters} (hv : reading possible (s m).remote x = some v)
    (hv' : reading possible (s n).remote x = some v') :
    increase (u.read v).toNat (u.read v').toNat ≤ traffic u Locals.saddr s es x m n := by
  have hgrown := grown_of_shifts (fun k => (h.tables k).2.shifts u x) hmn
  rw [← reading_read, ← reading_read, hv, hv'] at hgrown
  exact increase_of_grown hgrown

theorem Gateway.Run.read_eq (h : Gateway.Run env possible s es) {m n : ℕ} (hmn : m ≤ n)
    (u : Quantity) {x : IpAddr} {v v' : HostCounters} (hv : reading possible (s m).remote x = some v)
    (hv' : reading possible (s n).remote x = some v')
    (hstay : ∀ k, m ≤ k → k ≤ n → ((s k).remote x).isSome = true) :
    u.read v' = u.read v + .ofNat (traffic u Locals.saddr s es x m n) := by
  obtain ⟨w, hw, hread⟩ := reading_of_takes (takes_of_shifts
    (fun k => (h.tables k).2.shifts u x) hmn fun k hmk hkn => by
      simpa [Table.sum] using hstay k hmk hkn) hv
  cases hv'.symm.trans hw
  exact hread

/-- For frames on all CPUs, in any order with the steps of the daemon: a host entry has taken all
the traffic to its address since an earlier reading, and a remote entry all the traffic from its
address unless it was evicted meanwhile; in no case does a remote show more than it sent. If the
tables start empty, always find room and evict nothing, all of them show all traffic. -/
theorem counters_tell_traffic (h : Gateway.Run env possible s es) {m n : ℕ} (hmn : m ≤ n)
    (u : Quantity) :
    (∀ y v, reading possible (s m).host y = some v → ∃ v', reading possible (s n).host y = some v' ∧
      u.read v' = u.read v + .ofNat (traffic u Locals.daddr s es y m n)) ∧
    (∀ x v v', reading possible (s m).remote x = some v →
      reading possible (s n).remote x = some v' →
        increase (u.read v).toNat (u.read v').toNat ≤ traffic u Locals.saddr s es x m n ∧
        ((∀ k, m ≤ k → k ≤ n → ((s k).remote x).isSome = true) →
          u.read v' = u.read v + .ofNat (traffic u Locals.saddr s es x m n))) ∧
    ((∀ x, (s 0).host x = none ∧ (s 0).remote x = none) → (∀ k, (es k).Roomy) → ∀ x,
      Shows possible u (s n).host x (traffic u Locals.daddr s es x 0 n) ∧
      Shows possible u (s n).remote x (traffic u Locals.saddr s es x 0 n)) := by
  refine ⟨fun y v hv => ?_, fun x v v' hv hv' => ?_, fun hempty hroomy x => ?_⟩
  · have hy : ((s m).host y).isSome = true := by
      rw [← reading_isSome possible, hv]
      rfl
    refine reading_of_takes (takes_of_shifts (fun k => (h.tables k).1.shifts u y) hmn ?_) hv
    intro k hmk _
    simpa [Table.sum] using h.host_stays hmk hy
  · exact ⟨h.increase_le hmn u hv hv', h.read_eq hmn u hv hv'⟩
  · exact ⟨shows_of_steps (fun k => (h.tables k).1) hroomy (hempty x).1 u n,
      shows_of_steps (fun k => (h.tables k).2) hroomy (hempty x).2 u n⟩

end Run

/-- The insertions of a frame find room and evict nothing. -/
def freeRoom : HashRoom := ⟨true, true, fun _ => false⟩

/-- The small host on two CPUs, with fresh maps. -/
def sampleGateway : Gateway := ⟨steadyStart, none, fun _ => .zero, fun _ => none, fun _ => none⟩

/-- 203.0.113.9, which sends `sampleFrame`, and 10.0.0.5, which gets it. -/
def sampleSource : IpAddr := addrAt .inet [203, 0, 113, 9] 0

def sampleTarget : IpAddr := addrAt .inet [10, 0, 0, 5] 0

/-- The gate is armed and ticks every millisecond. One frame comes in before the first walk, on one
CPU, and one before the second, on the other. Neither walk gets to the end of the maps. -/
def gateEvents : ℕ → GateEvent
  | 0 => .command .arm
  | 1 => .frame 0 sampleFrame freeRoom
  | 2 => .tick ⟨0, 0⟩ true
  | 3 => .tick ⟨0, 1000000⟩ true
  | 4 => .visit sampleSource
  | 5 => .finish 0
  | 6 => .frame 1 sampleFrame freeRoom
  | 7 => .tick ⟨0, 2000000⟩ true
  | 8 => .visit sampleSource
  | 9 => .finish 0
  | _ => .frame 0 sampleFrame freeRoom

def gateRun : ℕ → Gateway := states (Gateway.step steadyEnv 2) sampleGateway gateEvents

theorem gateRun_run : Gateway.Run steadyEnv 2 gateRun gateEvents where
  permits n := by
    rcases n with _ | _ | _ | _ | _ | _ | _ | _ | _ | _ | n
    · exact ⟨rfl, fun t ht => by cases ht⟩
    · exact show 0 < cpuCount 2 by decide
    · exact show (gateRun 2).walk = none by decide +kernel
    · exact show (gateRun 3).walk = none by decide +kernel
    · trivial
    · trivial
    · exact show 1 < cpuCount 2 by decide
    · exact show (gateRun 7).walk = none by decide +kernel
    · trivial
    · trivial
    · exact show 0 < cpuCount 2 by decide
  next _ := rfl

/-- Both frames are in the entry of the target, and the second one in that of the source. -/
theorem counters_tell_traffic_sample :
    (∃ v', reading 2 (gateRun 8).host sampleTarget = some v' ∧
      v'.inPkts = 1 + .ofNat (traffic .pkts Locals.daddr gateRun gateEvents sampleTarget 2 8)) ∧
    increase 1 2 ≤ traffic .pkts Locals.saddr gateRun gateEvents sampleSource 4 8 ∧
    Shows 2 .bytes (gateRun 8).host sampleTarget
      (traffic .bytes Locals.daddr gateRun gateEvents sampleTarget 0 8) := by
  have hhost : reading 2 (gateRun 2).host sampleTarget = some ⟨1, 42⟩ := by decide +kernel
  have hfirst : reading 2 (gateRun 4).remote sampleSource = some ⟨1, 42⟩ := by decide +kernel
  have hsecond : reading 2 (gateRun 8).remote sampleSource = some ⟨2, 84⟩ := by decide +kernel
  have hroomy : ∀ k, (gateEvents k).Roomy := by
    intro k
    rcases k with _ | _ | _ | _ | _ | _ | _ | _ | _ | _ | k <;>
      first | exact ⟨rfl, rfl, fun _ => rfl⟩ | exact True.intro
  refine ⟨(counters_tell_traffic gateRun_run (by decide : 2 ≤ 8) .pkts).1 sampleTarget _ hhost, ?_, ?_⟩
  · exact ((counters_tell_traffic gateRun_run (by decide : 4 ≤ 8) .pkts).2.1 sampleSource _ _ hfirst
      hsecond).1
  · exact ((counters_tell_traffic gateRun_run (by decide : 0 ≤ 8) .bytes).2.2
      (fun _ => ⟨rfl, rfl⟩) hroomy sampleTarget).1

def GateEvent.arrival (g : Gateway) : GateEvent → Option Arrival
  | .frame cpu bytes room => some ⟨g.cpu cpu, bytes, room⟩
  | _ => none

/-- The frames of a run, in the order in which they came in on all CPUs. -/
def gateArrivals (s : ℕ → Gateway) (es : ℕ → GateEvent) (n : ℕ) : List Arrival :=
  (List.range n).filterMap fun k => (es k).arrival (s k)

section Metrics
variable {env : Env} {possible : ℤ} {s : ℕ → Gateway} {es : ℕ → GateEvent}

theorem Gateway.step_metrics {g : Gateway} {e : GateEvent} (hok : g.Permits possible e)
    (f : XdpMetrics → UInt64) :
    total (cpuCount possible) f (g.step env possible e).metrics =
      total (cpuCount possible) f g.metrics +
        (((e.arrival g).toList).map (Arrival.gain · f)).sum := by
  cases e with
  | frame i bytes room =>
    obtain ⟨⟨m', hm'⟩, -⟩ := Arrival.tallied (a := ⟨g.cpu i, bytes, room⟩) (m := g.metrics i) rfl
    have hgain : f m' = f (g.metrics i) + Arrival.gain ⟨g.cpu i, bytes, room⟩ f := by
      rw [Arrival.gain_eq rfl hm' f (n := f m' - f (g.metrics i))] <;>
        rw [UInt64.add_comm, UInt64.sub_add_cancel]
    have hstep : (g.step env possible (.frame i bytes room)).metrics =
        Function.update g.metrics i m' := by
      rw [Gateway.step, receive]
      exact congrArg (fun o => Function.update g.metrics i (Option.getD o (g.metrics i))) hm'
    rw [hstep, total_update hok f g.metrics hgain]
    simp [GateEvent.arrival]
  | command cmd => exact (add_zero _).symm
  | tick mono readable =>
    simp only [Gateway.step]
    split_ifs <;> exact (add_zero _).symm
  | visit x =>
    simp only [Gateway.step]
    split <;> exact (add_zero _).symm
  | finish complete =>
    simp only [Gateway.step]
    split <;> exact (add_zero _).symm

theorem Gateway.Run.metrics (h : Gateway.Run env possible s es)
    (h₀ : ∀ i, (s 0).metrics i = .zero) {f : XdpMetrics → UInt64} (hf : f .zero = 0) (n : ℕ) :
    total (cpuCount possible) f (s n).metrics = ((gateArrivals s es n).map (·.gain f)).sum := by
  induction n with
  | zero =>
    rw [show (s 0).metrics = fun _ => .zero from funext h₀]
    exact total_zero _ hf
  | succ n ih =>
    rw [h.next n, Gateway.step_metrics (h.permits n), ih, gateArrivals, gateArrivals,
      List.range_succ, List.filterMap_append, List.map_append, List.sum_append]
    cases hs : (es n).arrival (s n) <;> simp [hs]

private theorem gateArrivals_tallied (n : ℕ) : ∀ a ∈ gateArrivals s es n, a.Tallied := by
  intro a ha
  obtain ⟨k, -, hk⟩ := List.mem_filterMap.mp ha
  cases he : es k with
  | frame i bytes room =>
    rw [he] at hk
    cases hk
    exact (Arrival.tallied (m := (s k).metrics i) rfl).2
  | _ =>
    rw [he] at hk
    cases hk

theorem vgMetricsRead_some (possible : ℤ) (metrics : ℕ → XdpMetrics) :
    ∃ m, vgMetricsRead (openScratch possible) (some metrics) = some m ∧
      ∀ {f : XdpMetrics → UInt64}, f .zero = 0 → (∀ a b, f (a.add b) = f a + f b) →
        f m = total (cpuCount possible) f metrics :=
  ⟨_, sumPercpu_openScratch le_rfl XdpMetrics.add .zero possible (some metrics),
    fun hf hadd => foldl_add_eq_total hf hadd _ metrics⟩

/-- What `vg_metrics_read` returns, from zeroed counters on, accounts for every frame on every
CPU. -/
theorem Gateway.Run.metrics_counted (h : Gateway.Run env possible s es)
    (h₀ : ∀ i, (s 0).metrics i = .zero) (n : ℕ) :
    ∃ m, vgMetricsRead (openScratch possible) (some (s n).metrics) = some m ∧
      Counted (gateArrivals s es n) m := by
  obtain ⟨m, hread, htotal⟩ := vgMetricsRead_some possible (s n).metrics
  refine ⟨m, hread, ?_⟩
  have htally : ∀ a ∈ gateArrivals s es n, a.Tallied := gateArrivals_tallied n
  have hsum (f : XdpMetrics → UInt64) (hf : f .zero = 0) (hadd : ∀ a b, f (a.add b) = f a + f b) :
      f m = ((gateArrivals s es n).map (·.gain f)).sum := by
    rw [htotal hf hadd, h.metrics h₀ hf]
  have hrejected : ((gateArrivals s es n).filter Arrival.armed).countP Arrival.rejected =
      (gateArrivals s es n).countP Arrival.rejected := by
    rw [List.countP_filter]
    refine List.countP_congr fun a _ => ?_
    rw [a.rejected_eq]
    cases a.armed <;> simp
  refine ⟨?_, ?_, ?_, ?_, ?_, ?_, ?_⟩
  · refine (hsum (·.rxPkts) rfl fun _ _ => rfl).trans
      ((sum_eq_ofNat fun a ha => (htally a ha).rxPkts).trans ?_)
    simp
  · exact (hsum (·.rxBytes) rfl fun _ _ => rfl).trans
      (sum_eq_ofNat fun a ha => (htally a ha).rxBytes)
  · exact (hsum (·.dropped) rfl fun _ _ => rfl).trans
      (sum_eq_countP fun a ha => (htally a ha).dropped)
  · rw [← countP_passed]
    exact (hsum (·.passed) rfl fun _ _ => rfl).trans
      (sum_eq_countP fun a ha => (htally a ha).passed)
  · rw [sum_eq_countP fun a ha => (htally a (List.mem_of_mem_filter ha)).unjudged, hrejected]
  · exact (hsum (·.parseErr) rfl fun _ _ => rfl).trans
      (sum_eq_countP fun a ha => (htally a ha).parseErr)
  · exact List.countP_mono_left fun a _ => Arrival.errs_of_rejected

end Metrics

end VoidGate
