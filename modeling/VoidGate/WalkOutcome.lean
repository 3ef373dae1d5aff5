import VoidGate.RemoteRates
import VoidGate.DropCalls
import VoidGate.GroupInserts

/-!
# What a walk drops

A walk over the remotes drops a host as soon as it is found over a threshold, and then
its /24 or /64 if enough is listed inside. Each of these decisions reads the list that
the earlier ones have changed. With working map calls and enough room the walk is a run
of `GroupInserts`, so that what it lists has a closed form and does not depend on the
order in which the kernel enumerates the remotes.
-/

namespace VoidGate

open GroupInserts

variable {env : Env} {c c' : VgCtrl} {dt : ℚ} {r : Remote} {p : VgCidr} {reason : Reason} {now : ℤ}

def Family.netLen : Family → ℕ
  | .inet => 24
  | .inet6 => 64

theorem Family.netLen_lt (f : Family) : f.netLen < f.width := by cases f <;> decide

/-- The network of this length around an address. -/
def IpAddr.net (x : IpAddr) : VgCidr :=
  vgCidrMask ⟨x.family, x.octets, x.family.netLen, x.family.netLen_lt.le⟩

@[simp] theorem aggregateNet_host (x : IpAddr) : aggregateNet x.host = some x.net := by
  rcases x with ⟨_ | _, octets, tail⟩ <;> rfl

theorem IpAddr.net_masked (x : IpAddr) : x.net.Masked := masked_vgCidrMask _ x.tail

theorem IpAddr.net_has (x : IpAddr) : x.net.Has x := by
  refine ⟨rfl, fun i hi => ?_⟩
  have hlt : i < x.family.netLen := hi
  rw [net, bit_vgCidrMask _ (hlt.trans x.family.netLen_lt)]
  simp [hlt]

theorem IpAddr.net_eq_iff {x : IpAddr} {n : VgCidr} :
    x.net = n ↔ n.Masked ∧ n.prefixlen = n.family.netLen ∧ n.Has x := by
  constructor
  · rintro rfl
    exact ⟨x.net_masked, rfl, x.net_has⟩
  · rintro ⟨hmask, hlen, hfam, hbits⟩
    have hlen' : x.net.prefixlen = n.prefixlen := by
      rw [hlen, hfam]
      rfl
    refine x.net_masked.eq_of_agree hmask hfam.symm hlen' (x.net_has.2.trans ?_)
    rw [hlen']
    exact hbits.symm

private theorem IpAddr.host_injective {x y : IpAddr} (h : x.host = y.host) : x = y := by
  cases x
  cases y
  simp only [host, VgCidr.mk.injEq] at h
  obtain ⟨rfl, rfl, -⟩ := h
  rfl

private theorem IpAddr.host_ne_net (x y : IpAddr) : x.host ≠ y.net := by
  intro h
  have hfam : x.family = y.family := congrArg VgCidr.family h
  have hlen : x.family.width = y.family.netLen := congrArg VgCidr.prefixlen h
  have hlt := y.family.netLen_lt
  rw [hfam] at hlen
  omega

private theorem contains_host_iff (n : VgCidr) (x : IpAddr) : vgCidrContains n x.host = true ↔ n.Has x := by
  rw [vgCidrContains_iff, VgCidr.Has]
  refine ⟨fun h => ⟨h.1, h.2.2⟩, fun h => ⟨h.1, ?_, h.2⟩⟩
  have hle := n.prefixlen_le
  rw [h.1] at hle
  exact hle

theorem contains_net_iff (x y : IpAddr) : vgCidrContains x.net y.net = true ↔ x.net = y.net := by
  rw [vgCidrContains_iff]
  constructor
  · rintro ⟨hf, -, hbits⟩
    exact x.net_masked.eq_of_agree y.net_masked hf (congrArg Family.netLen hf) hbits
  · intro h
    rw [h]
    exact ⟨rfl, le_rfl, .refl _ _⟩

/-- Items are remotes over a threshold, and groups are their networks unless protected. -/
def walkRules (cfg : VgConfig) (now : ℤ) : Rules IpAddr VgDropRec VgCidr where
  key := VgDropRec.cidr
  item x := ⟨x.host, .policy, now, 0⟩
  group x := if vgCidrIsProtected cfg x.net then none else some ⟨x.net, .aggregate, now, 0⟩
  counts g r := r.reason != .timed && vgCidrContains g.cidr r.cidr
  quota := cfg.aggregateK.toNat

theorem walkRules_group_iff {cfg : VgConfig} {x : IpAddr} {g : VgDropRec} :
    (walkRules cfg now).group x = some g ↔
      vgCidrIsProtected cfg x.net = false ∧ g = ⟨x.net, .aggregate, now, 0⟩ := by
  simp only [walkRules]
  split_ifs with h
  · simp [h]
  · simp [h, eq_comm]

theorem walkRules_counts_iff {cfg : VgConfig} {g r : VgDropRec} :
    (walkRules cfg now).counts g r = true ↔
      r.reason ≠ .timed ∧ vgCidrContains g.cidr r.cidr = true := by
  simp [walkRules]

private theorem walkRules_separated (cfg : VgConfig) (now : ℤ) : (walkRules cfg now).Separated where
  items x y h := IpAddr.host_injective h
  apart x y g hg h := by
    obtain ⟨-, rfl⟩ := walkRules_group_iff.mp hg
    exact x.host_ne_net y h
  groups x y g g' hg hg' h := by
    obtain ⟨-, rfl⟩ := walkRules_group_iff.mp hg
    obtain ⟨-, rfl⟩ := walkRules_group_iff.mp hg'
    have hnet : x.net = y.net := h
    rw [hnet]
  alone x y g g' hg hg' h := by
    obtain ⟨-, rfl⟩ := walkRules_group_iff.mp hg
    obtain ⟨-, rfl⟩ := walkRules_group_iff.mp hg'
    exact (contains_net_iff x y).mp (walkRules_counts_iff.mp h).2
  own x y g hg h := by
    obtain ⟨hun, rfl⟩ := walkRules_group_iff.mp hg
    have hhas : y.net.Has x := (contains_host_iff _ _).mp (walkRules_counts_iff.mp h).2
    have hnet : x.net = y.net := IpAddr.net_eq_iff.mpr ⟨y.net_masked, rfl, hhas⟩
    refine walkRules_group_iff.mpr ⟨hnet ▸ hun, ?_⟩
    rw [hnet]

/-- From state `c` on, the map writes before the number `W` work, and the clock readings before the
number `K` show `now`. -/
structure Calm (env : Env) (now : ℤ) (W K : ℕ) (c : VgCtrl) : Prop where
  works : ∀ n, c.maps.writes ≤ n → n < W → env.fault n = false
  wall : ∀ n, c.clock ≤ n → n < K → env.wall n = now

theorem Calm.mono {W K : ℕ} (h : Calm env now W K c) (hw : c.maps.writes ≤ c'.maps.writes)
    (hk : c.clock ≤ c'.clock) : Calm env now W K c' :=
  ⟨fun n hn => h.works n (hw.trans hn), fun n hn => h.wall n (hk.trans hn)⟩

private theorem DropTable.Ok.records_rewrite_self {t : DropTable} (h : t.Ok) {r : VgDropRec}
    (hr : r ∈ t.records) :
    (t.records.map fun x => if x.cidr.key = r.cidr.key then r else x) = t.records := by
  refine (List.map_congr_left fun x hx => ?_).trans (List.map_id _)
  split_ifs with hk
  · exact (h.eq_of_key hx hr hk).symm
  · rfl

theorem Calm.dropAdd_records {W K : ℕ} (hcalm : Calm env now W K c) (h : Sound c)
    (hs : c.state = .active) (hp : p.Masked) (hun : vgCidrIsProtected c.cfg p = false)
    (hreason : reason = .policy ∨ reason = .aggregate)
    (hW : (dropAdd env c p reason 0).1.maps.writes ≤ W)
    (hK : (dropAdd env c p reason 0).1.clock ≤ K)
    (hroom : (insertNew VgDropRec.cidr c.drops.records ⟨p, reason, now, 0⟩).length ≤ c.drops.cap) :
    (dropAdd env c p reason 0).2 = true ∧ (dropAdd env c p reason 0).1.drops.cap = c.drops.cap ∧
      (dropAdd env c p reason 0).1.drops.records =
        insertNew VgDropRec.cidr c.drops.records ⟨p, reason, now, 0⟩ := by
  rw [dropAdd_clock] at hK
  have hnow : env.wall c.clock = now := hcalm.wall _ le_rfl hK
  have hno : ¬ ArmFails env c := fun hf => by simp [hf.1] at hs
  have harmed : c.ticked.armed = c.ticked := VgCtrl.armed_of_active hs
  have hadd : dropAdd env c p reason 0 = dropListed env c.ticked p reason 0 now := by
    rw [dropAdd_eq, if_neg (by simp [hun]), if_neg hno, harmed, hnow]
  have hcase : DropCase env c.ticked p reason 0 now _ :=
    dropListed_case (by exact h.drops_ok) p reason 0 now
  have hfresh : (∀ r ∈ c.drops.records, r.cidr.key ≠ p.key) → p ∉ c.drops.prefixes := by
    intro fresh hm
    obtain ⟨r, hr, hk⟩ := (h.mem_prefixes_iff hp).mp hm
    exact fresh r hr hk
  rw [hadd] at hW ⊢
  revert hcase hW
  generalize dropListed env c.ticked p reason 0 now = d
  have hworks : ∀ d : DropTable, ({ c.ticked with
      maps := (vgDropAdd env c.maps p reason now).1
      drops := d } : VgCtrl).maps.writes ≤ W → env.fault c.maps.writes = false := fun d hW => by
    rw [vgDropAdd_eq] at hW
    exact hcalm.works _ le_rfl hW
  -- no room and a failed write are excluded, and what is listed already stays as it is
  rintro hW (⟨fresh, -, hfull⟩ | ⟨d, fresh, hf, -, -, -⟩ | ⟨d, fresh, -, -, hcap, hrec⟩ |
    ⟨r, hmem, hk, htimed, -⟩ | ⟨d, r, hmem, hk, -, -, hcap, hrec⟩)
  · have hlt : c.drops.records.length < c.drops.cap := length_lt_of_insertNew (hfresh fresh) hroom
    exact absurd hlt (by rw [← show _ = c.drops.cap from hfull]; exact lt_irrefl _)
  · exact absurd (hworks d hW) (by rw [show env.fault c.maps.writes = true from hf]; decide)
  · exact ⟨rfl, hcap, hrec.trans (if_neg (hfresh fresh)).symm⟩
  · rcases hreason with rfl | rfl <;> cases htimed
  · have hf : env.fault c.ticked.maps.writes = false := hworks d hW
    have hm : p ∈ c.drops.prefixes := (h.mem_prefixes_iff hp).mpr ⟨r, hmem, hk⟩
    refine ⟨by rw [hf]; rfl, hcap, hrec.trans ?_⟩
    have hsame : redropped c.ticked.cfg r reason 0 now = r := by
      rcases hreason with rfl | rfl <;> simp [redropped, rebase]
    simp only [hf, Bool.false_eq_true, if_false, hsame, ← hk]
    exact (h.drops_ok.records_rewrite_self hmem).trans (if_pos (by exact hm)).symm

theorem dropAdd_protected (env : Env) (h : vgCidrIsProtected c.cfg p = true) (reason : Reason)
    (expires : ℤ) : dropAdd env c p reason expires = (c.ticked, false) := by
  rw [dropAdd_eq, if_pos h]

theorem visitTrace_keeps {host : VgCidr} (hh : host.Masked) (htrace : Trace env (VisitAct host) c c')
    (h : Sound c) : Sound c' ∧ c.maps.writes ≤ c'.maps.writes := by
  refine htrace.invariant (I := fun x : VgCtrl => Sound x ∧ c.maps.writes ≤ x.maps.writes)
    ⟨h, le_rfl⟩ ?_
  rintro x x' a ⟨hx, hle⟩ ha hm
  have hmask : a.Masked := by
    cases a with
    | drop p reason =>
      rcases ha with ⟨rfl, -⟩ | ⟨hn, -⟩
      · exact hh
      · exact aggregateNet_masked hh hn
    | stray p => exact ha.elim
    | _ => trivial
  refine ⟨hm.sound hx hmask, hle.trans ?_⟩
  cases hm with
  | books hb => exact hb.maps ▸ le_rfl
  | arm hs =>
    have he := vgCtrlArm_idle env hs
    rw [he, vgCfgCommit_eq]
    exact Nat.le_succ _
  | @drop _ p reason expires now _ _ =>
    have hcase : DropCase env x p reason expires now _ :=
      dropListed_case hx.drops_ok p reason expires now
    revert hcase
    generalize dropListed env x p reason expires now = d
    rintro (_ | _ | _ | _ | _)
    · exact le_rfl
    · rw [vgDropAdd_eq]
      exact Nat.le_succ _
    · rw [vgDropAdd_eq]
      exact Nat.le_succ _
    · exact le_rfl
    · rw [vgDropAdd_eq]
      exact Nat.le_succ _
  | _ => exact ha.elim

private theorem Calm.maybeAggregate_records {W K : ℕ} {x : IpAddr} (hcalm : Calm env now W K c)
    (h : Sound c) (hs : c.state = .active) (hW : (maybeAggregate env c x.host).maps.writes ≤ W)
    (hK : (maybeAggregate env c x.host).clock ≤ K)
    (hroom : ((walkRules c.cfg now).fillGroup c.drops.records x).length ≤ c.drops.cap) :
    (maybeAggregate env c x.host).drops.cap = c.drops.cap ∧
      (maybeAggregate env c x.host).drops.records =
        (walkRules c.cfg now).fillGroup c.drops.records x := by
  have hquota : c.cfg.aggregateK ≤ aggregateCount c x.net ↔ (walkRules c.cfg now).quota ≤
      c.drops.records.countP ((walkRules c.cfg now).counts ⟨x.net, .aggregate, now, 0⟩) :=
    Int.toNat_le.symm
  simp only [maybeAggregate, aggregateNet_host] at hW hK ⊢
  cases hprot : vgCidrIsProtected c.cfg x.net with
  | true =>
    have hgroup : (walkRules c.cfg now).group x = none := if_pos hprot
    rw [Rules.fillGroup, hgroup]
    split_ifs
    · rw [vgCtrlDrop, dropAdd_protected env hprot]
      exact ⟨rfl, rfl⟩
    · exact ⟨rfl, rfl⟩
  | false =>
    have hgroup : (walkRules c.cfg now).group x = some ⟨x.net, .aggregate, now, 0⟩ :=
      if_neg (by simp [hprot])
    rw [Rules.fillGroup, hgroup] at hroom ⊢
    by_cases hk : c.cfg.aggregateK ≤ aggregateCount c x.net
    · rw [if_pos hk] at hW hK ⊢
      dsimp only at hroom ⊢
      rw [if_pos (hquota.mp hk)] at hroom ⊢
      exact (hcalm.dropAdd_records h hs x.net_masked hprot (.inr rfl) hW hK hroom).2
    · rw [if_neg hk]
      dsimp only
      rw [if_neg fun hq => hk (hquota.mpr hq)]
      exact ⟨rfl, rfl⟩

private theorem Calm.policyDrop_records {W K : ℕ} {x : IpAddr} (hcalm : Calm env now W K c) (h : Sound c)
    (hs : c.state = .active) (hun : vgCidrIsProtected c.cfg x.host = false)
    (hW : (policyDrop env c x.host).maps.writes ≤ W) (hK : (policyDrop env c x.host).clock ≤ K)
    (hroom : ((walkRules c.cfg now).step c.drops.records x).length ≤ c.drops.cap) :
    (policyDrop env c x.host).drops.cap = c.drops.cap ∧
      (policyDrop env c x.host).drops.records = (walkRules c.cfg now).step c.drops.records x := by
  have htrace : Trace env (VisitAct x.host) c (vgCtrlDrop env c x.host .policy).1 :=
    visitDrop_trace env c (.inl ⟨rfl, rfl⟩)
  have honly := dropAdd_dropsOnly env hs x.host .policy 0
  obtain ⟨hsound, hwrites⟩ := visitTrace_keeps x.masked_host htrace h
  have htrace' : Trace env (VisitAct x.host) (vgCtrlDrop env c x.host .policy).1
      (policyDrop env c x.host) := by
    rw [policyDrop]
    split_ifs
    · exact (maybeAggregate_calls env _ x.host).visitTrace
    · exact .refl
  obtain ⟨-, hwrites'⟩ := visitTrace_keeps x.masked_host htrace' hsound
  obtain ⟨hdone, hcap, hrec⟩ := hcalm.dropAdd_records h hs x.masked_host hun (.inl rfl)
    (hwrites'.trans hW) (htrace'.clock_le.trans hK)
    (((walkRules c.cfg now).fillGroup_extends _ x).length_le.trans hroom)
  have hagg : policyDrop env c x.host =
      maybeAggregate env (vgCtrlDrop env c x.host .policy).1 x.host := if_pos hdone
  have hcfg : (vgCtrlDrop env c x.host .policy).1.cfg = c.cfg := honly.visitsOnly.cfg
  have hcalm' := hcalm.mono hwrites htrace.clock_le
  have hroom' : ((walkRules (vgCtrlDrop env c x.host .policy).1.cfg now).fillGroup
      (vgCtrlDrop env c x.host .policy).1.drops.records x).length ≤
      (vgCtrlDrop env c x.host .policy).1.drops.cap := by
    rw [hcfg, vgCtrlDrop, hrec, hcap]
    exact hroom
  rw [hagg] at hW hK ⊢
  obtain ⟨hcap', hrec'⟩ := hcalm'.maybeAggregate_records hsound (honly.state.trans hs) hW hK hroom'
  refine ⟨hcap'.trans hcap, ?_⟩
  rw [hrec', hcfg, vgCtrlDrop, hrec]
  rfl

def loud (c : VgCtrl) (dt : ℚ) (r : Remote) : Bool :=
  overThreshold c dt r && !vgCidrIsProtected c.cfg r.host.host

private theorem Calm.policyOneRemote_records {W K : ℕ} (hcalm : Calm env now W K c) (h : Sound c)
    (hok : c.snaps.Ok) (hs : c.state = .active)
    (hW : (policyOneRemote env dt c r).maps.writes ≤ W)
    (hK : (policyOneRemote env dt c r).clock ≤ K)
    (hroom : loud c dt r = true →
      ((walkRules c.cfg now).step c.drops.records r.host).length ≤ c.drops.cap) :
    (policyOneRemote env dt c r).drops.cap = c.drops.cap ∧
      (policyOneRemote env dt c r).drops.records =
        if loud c dt r then (walkRules c.cfg now).step c.drops.records r.host
        else c.drops.records := by
  obtain ⟨snaps, judged, -, he⟩ := policyOneRemote_eq env dt hok r
  rw [he] at hW hK ⊢
  rw [loud] at hroom ⊢
  cases hover : overThreshold c dt r with
  | false => exact ⟨rfl, rfl⟩
  | true =>
    rw [hover, if_pos rfl] at hW hK
    rw [if_pos rfl]
    cases hprot : vgCidrIsProtected c.cfg r.host.host with
    | true =>
      rw [policyDrop, vgCtrlDrop, dropAdd_protected env (by exact hprot)]
      exact ⟨rfl, rfl⟩
    | false =>
      have hx : Sound { c with snaps := snaps, judged := judged } := ⟨h.drops_ok, h.masked⟩
      have hcalm' : Calm env now W K { c with snaps := snaps, judged := judged } :=
        hcalm.mono le_rfl le_rfl
      rw [hover, hprot] at hroom
      exact hcalm'.policyDrop_records hx hs hprot hW hK (hroom rfl)

private theorem policyOneRemote_snaps (env : Env) (dt : ℚ) (hok : c.snaps.Ok) (hs : c.state = .active)
    (r : Remote) : (policyOneRemote env dt c r).snaps.Ok ∧
      ∀ x ≠ r.host, (policyOneRemote env dt c r).snaps.last x = c.snaps.last x := by
  obtain ⟨snaps, judged, hbooks, he⟩ := policyOneRemote_eq env dt hok r
  have hsnaps : (policyOneRemote env dt c r).snaps = snaps := by
    rw [he]
    split_ifs
    · exact (policyDrop_dropsOnly env (by exact hs) r.host.host).samePeriod.snaps
    · rfl
  rw [hsnaps]
  exact ⟨hbooks.snaps_ok, hbooks.others⟩

def loudHosts (c : VgCtrl) (dt : ℚ) (rs : List Remote) : List IpAddr :=
  (rs.filter (loud c dt)).map Remote.host

theorem loudHosts_cons (c : VgCtrl) (dt : ℚ) (r : Remote) (rs : List Remote) :
    loudHosts c dt (r :: rs) =
      if loud c dt r then r.host :: loudHosts c dt rs else loudHosts c dt rs := by
  rw [loudHosts, List.filter_cons]
  split_ifs <;> rfl

private theorem foldl_policyOneRemote_keeps (env : Env) (dt : ℚ) (h : Sound c) (rs : List Remote) :
    c.maps.writes ≤ (rs.foldl (policyOneRemote env dt) c).maps.writes ∧
      c.clock ≤ (rs.foldl (policyOneRemote env dt) c).clock := by
  induction rs generalizing c with
  | nil => exact ⟨le_rfl, le_rfl⟩
  | cons r rs ih =>
    have htrace := policyOneRemote_trace env dt c r
    obtain ⟨hsound, hwrites⟩ := visitTrace_keeps r.host.masked_host htrace h
    exact ⟨hwrites.trans (ih hsound).1, htrace.clock_le.trans (ih hsound).2⟩

private theorem Calm.foldl_records {W K : ℕ} {rs : List Remote} (hcalm : Calm env now W K c) (h : Sound c)
    (hok : c.snaps.Ok) (hs : c.state = .active) (hd : (rs.map Remote.host).Nodup)
    (hW : (rs.foldl (policyOneRemote env dt) c).maps.writes ≤ W)
    (hK : (rs.foldl (policyOneRemote env dt) c).clock ≤ K)
    (hroom : ((loudHosts c dt rs).foldl (walkRules c.cfg now).step c.drops.records).length ≤
      c.drops.cap) :
    (rs.foldl (policyOneRemote env dt) c).drops.records =
      (loudHosts c dt rs).foldl (walkRules c.cfg now).step c.drops.records := by
  induction rs generalizing c with
  | nil => rfl
  | cons r rs ih =>
    obtain ⟨hr, hd⟩ := List.nodup_cons.mp hd
    -- the visit of `r` does not change what the other remotes are compared with
    have htrace := policyOneRemote_trace env dt c r
    obtain ⟨hsound, hwrites⟩ := visitTrace_keeps r.host.masked_host htrace h
    obtain ⟨hwrites', hclock'⟩ := foldl_policyOneRemote_keeps env dt hsound rs
    have honly := policyOneRemote_visitsOnly env dt hs r
    obtain ⟨hok', hothers⟩ := policyOneRemote_snaps env dt hok hs r
    have hsame : loudHosts (policyOneRemote env dt c r) dt rs = loudHosts c dt rs := by
      refine congrArg (List.map Remote.host) (List.filter_congr fun q hq => ?_)
      have hne : q.host ≠ r.host := fun he => hr (he ▸ List.mem_map_of_mem hq)
      rw [loud, loud, overThreshold, overThreshold, hothers _ hne, honly.cfg,
        honly.sameSamples.lastTick]
    have hroom' : loud c dt r = true →
        ((walkRules c.cfg now).step c.drops.records r.host).length ≤ c.drops.cap := by
      intro hl
      rw [loudHosts_cons, if_pos hl] at hroom
      exact ((walkRules c.cfg now).foldl_step_extends _ _).length_le.trans hroom
    obtain ⟨hcap, hrec⟩ := hcalm.policyOneRemote_records h hok hs (hwrites'.trans hW)
      (hclock'.trans hK) hroom'
    have hrun : (loudHosts c dt rs).foldl (walkRules c.cfg now).step
        (policyOneRemote env dt c r).drops.records =
        (loudHosts c dt (r :: rs)).foldl (walkRules c.cfg now).step c.drops.records := by
      rw [hrec, loudHosts_cons]
      split_ifs <;> rfl
    rw [← hrun] at hroom ⊢
    rw [← hcap] at hroom
    have hrest := ih (hcalm.mono hwrites htrace.clock_le) hsound hok' (honly.state.trans hs) hd hW hK
    rw [hsame, honly.cfg] at hrest
    exact hrest hroom

/-- The hosts of the remotes over a threshold whose /32 or /128 is not protected. -/
def walkHosts (c : VgCtrl) (dt : ℚ) (t : TickIn) : List IpAddr :=
  loudHosts { c with snaps := nextGen c.snaps } dt t.remotes

private theorem walkHosts_nodup {t : TickIn} (hd : (t.remotes.map Remote.host).Nodup) :
    (walkHosts c dt t).Nodup :=
  hd.sublist (List.filter_sublist.map _)

private theorem walkHosts_perm {t t' : TickIn} (h : t'.remotes.Perm t.remotes) :
    (walkHosts c dt t').Perm (walkHosts c dt t) :=
  (h.filter _).map _

private theorem walkRemotes_eq (env : Env) (dt : ℚ) (c : VgCtrl) (t : TickIn) :
    ∃ snaps, walkRemotes env dt c t = { t.remotes.foldl (policyOneRemote env dt)
      { c with snaps := nextGen c.snaps } with snaps := snaps } := by
  rw [walkRemotes]
  split_ifs
  · exact ⟨_, rfl⟩
  · exact ⟨VgCtrl.snaps _, rfl⟩

/-- No map write of the walk fails, and it reads one time. -/
def CalmWalk (env : Env) (now : ℤ) (dt : ℚ) (c : VgCtrl) (t : TickIn) : Prop :=
  Calm env now (walkRemotes env dt c t).maps.writes (walkRemotes env dt c t).clock c

theorem CalmWalk.records_perm {t : TickIn} (hcalm : CalmWalk env now dt c t) (h : Sound c)
    (hok : c.snaps.Ok) (hs : c.state = .active) (hd : (t.remotes.map Remote.host).Nodup)
    (hroom : ((walkRules c.cfg now).closed c.drops.records (walkHosts c dt t)).length ≤
      c.drops.cap) :
    c.drops.records <+: (walkRemotes env dt c t).drops.records ∧
      (walkRemotes env dt c t).drops.records.Perm
        ((walkRules c.cfg now).closed c.drops.records (walkHosts c dt t)) := by
  have hnodup : (walkHosts c dt t).Nodup := walkHosts_nodup hd
  have hclosed := Rules.foldl_step_perm (S := c.drops.records) (walkRules_separated c.cfg now) hnodup
  have hx : Sound { c with snaps := nextGen c.snaps } := ⟨h.drops_ok, h.masked⟩
  obtain ⟨snaps, he⟩ := walkRemotes_eq env dt c t
  rw [CalmWalk, he] at hcalm
  rw [he]
  have hstart : Calm env now _ _ { c with snaps := nextGen c.snaps } :=
    hcalm.mono le_rfl le_rfl
  have hrec := hstart.foldl_records hx hok.nextGen hs hd le_rfl le_rfl
    (hclosed.length_eq.trans_le hroom)
  dsimp only at hrec ⊢
  rw [hrec]
  exact ⟨(walkRules c.cfg now).foldl_step_extends _ _, hclosed⟩

def withHosts (c : VgCtrl) (now : ℤ) (xs : List IpAddr) : List VgDropRec :=
  c.drops.records ++
    (xs.map fun x => (⟨x.host, .policy, now, 0⟩ : VgDropRec)).filter fun r =>
      decide (r.cidr ∉ c.drops.prefixes)

/-- The prefix is a /24 or /64 around one of the hosts, it is not protected, and there are at least
`aggregate_k` prefixes inside that are listed with a reason other than TIMED. -/
structure Aggregated (c : VgCtrl) (now : ℤ) (xs : List IpAddr) (p : VgCidr) : Prop where
  masked : p.Masked
  prefixlen : p.prefixlen = p.family.netLen
  around : ∃ x ∈ xs, p.Has x
  free : vgCidrIsProtected c.cfg p = false
  enough : c.cfg.aggregateK ≤
    ((withHosts c now xs).countP fun r => r.reason != .timed && vgCidrContains p r.cidr : ℕ)

/-- What is listed after a walk that drops these hosts. -/
structure WalkLists (c : VgCtrl) (now : ℤ) (xs : List IpAddr) (after : DropTable) : Prop where
  listed : ∀ p, p ∈ after.prefixes ↔
    p ∈ c.drops.prefixes ∨ p ∈ xs.map IpAddr.host ∨ Aggregated c now xs p
  kept : c.drops.records <+: after.records
  new : ∀ r ∈ after.records, r ∈ c.drops.records ∨ r.cidr ∉ c.drops.prefixes ∧
    (r.cidr ∈ xs.map IpAddr.host ∧ r.reason = .policy ∨
      Aggregated c now xs r.cidr ∧ r.reason = .aggregate)

private theorem mem_reached_iff {xs : List IpAddr} {g : VgDropRec} :
    g ∈ (walkRules c.cfg now).reached c.drops.records xs ↔
      g = ⟨g.cidr, .aggregate, now, 0⟩ ∧ g.cidr ∉ c.drops.prefixes ∧
        Aggregated c now xs g.cidr := by
  rw [Rules.mem_reached]
  constructor
  · rintro ⟨⟨x, hx, hg⟩, hnew, hquota⟩
    obtain ⟨hun, rfl⟩ := walkRules_group_iff.mp hg
    exact ⟨rfl, hnew, x.net_masked, rfl, ⟨x, hx, x.net_has⟩, hun, Int.toNat_le.mp hquota⟩
  · rintro ⟨he, hnew, hagg⟩
    obtain ⟨x, hx, hhas⟩ := hagg.around
    have hnet : x.net = g.cidr := IpAddr.net_eq_iff.mpr ⟨hagg.masked, hagg.prefixlen, hhas⟩
    refine ⟨⟨x, hx, walkRules_group_iff.mpr ⟨hnet ▸ hagg.free, ?_⟩⟩, hnew,
      Int.toNat_le.mpr hagg.enough⟩
    rw [hnet]
    exact he

private theorem mem_closed_iff {xs : List IpAddr} {r : VgDropRec} :
    r ∈ (walkRules c.cfg now).closed c.drops.records xs ↔ r ∈ c.drops.records ∨
      r.cidr ∉ c.drops.prefixes ∧ ((∃ x ∈ xs, r = ⟨x.host, .policy, now, 0⟩) ∨
        r = ⟨r.cidr, .aggregate, now, 0⟩ ∧ Aggregated c now xs r.cidr) := by
  rw [Rules.closed, List.mem_append, Rules.base, List.mem_append, mem_reached_iff, List.mem_filter,
    List.mem_map, decide_eq_true_iff]
  constructor
  · rintro ((hr | ⟨⟨x, hx, he⟩, hnew⟩) | ⟨he, hnew, hagg⟩)
    · exact .inl hr
    · exact .inr ⟨hnew, .inl ⟨x, hx, he.symm⟩⟩
    · exact .inr ⟨hnew, .inr ⟨he, hagg⟩⟩
  · rintro (hr | ⟨hnew, ⟨x, hx, he⟩ | ⟨he, hagg⟩⟩)
    · exact .inl (.inl hr)
    · exact .inl (.inr ⟨⟨x, hx, he.symm⟩, hnew⟩)
    · exact .inr ⟨he, hnew, hagg⟩

private theorem walkLists_of_perm {xs : List IpAddr} {after : DropTable}
    (hpre : c.drops.records <+: after.records)
    (hperm : after.records.Perm ((walkRules c.cfg now).closed c.drops.records xs)) :
    WalkLists c now xs after := by
  have hmem : ∀ r, r ∈ after.records ↔ _ := fun r => hperm.mem_iff.trans mem_closed_iff
  refine ⟨fun p => ⟨fun hp => ?_, fun hp => ?_⟩, hpre, fun r hr => ?_⟩
  · obtain ⟨r, hr, rfl⟩ := List.mem_map.mp hp
    rcases (hmem r).mp hr with hr | ⟨-, ⟨x, hx, rfl⟩ | ⟨-, hagg⟩⟩
    · exact .inl (List.mem_map_of_mem hr)
    · exact .inr (.inl (List.mem_map_of_mem hx))
    · exact .inr (.inr hagg)
  · by_cases hold : p ∈ c.drops.prefixes
    · exact (hpre.sublist.map _).subset hold
    · rcases hp with hp | hp | hagg
      · exact absurd hp hold
      · obtain ⟨x, hx, rfl⟩ := List.mem_map.mp hp
        have hr := (hmem ⟨x.host, .policy, now, 0⟩).mpr (.inr ⟨hold, .inl ⟨x, hx, rfl⟩⟩)
        exact List.mem_map.mpr ⟨_, hr, rfl⟩
      · have hr := (hmem ⟨p, .aggregate, now, 0⟩).mpr (.inr ⟨hold, .inr ⟨rfl, hagg⟩⟩)
        exact List.mem_map.mpr ⟨_, hr, rfl⟩
  · rcases (hmem r).mp hr with hr | ⟨hnew, ⟨x, hx, rfl⟩ | ⟨he, hagg⟩⟩
    · exact .inl hr
    · exact .inr ⟨hnew, .inl ⟨List.mem_map_of_mem hx, rfl⟩⟩
    · exact .inr ⟨hnew, .inr ⟨hagg, by rw [he]⟩⟩

/-- What one walk drops, whatever the order of the remotes. -/
theorem walk_outcome {t : TickIn} (h : Sound c) (hok : c.snaps.Ok) (hs : c.state = .active)
    (hd : (t.remotes.map Remote.host).Nodup) (hcalm : CalmWalk env now dt c t)
    (hroom : ((walkRules c.cfg now).closed c.drops.records (walkHosts c dt t)).length ≤
      c.drops.cap) :
    WalkLists c now (walkHosts c dt t) (walkRemotes env dt c t).drops ∧
      ∀ (env' : Env) (t' : TickIn), t'.remotes.Perm t.remotes → CalmWalk env' now dt c t' →
        (walkRemotes env' dt c t').drops.records.Perm (walkRemotes env dt c t).drops.records := by
  obtain ⟨hpre, hperm⟩ := hcalm.records_perm h hok hs hd hroom
  refine ⟨walkLists_of_perm hpre hperm, fun env' t' ht hcalm' => ?_⟩
  have hclosed : ((walkRules c.cfg now).closed c.drops.records (walkHosts c dt t')).Perm
      ((walkRules c.cfg now).closed c.drops.records (walkHosts c dt t)) :=
    Rules.closed_perm (walkHosts_perm ht)
  have hd' : (t'.remotes.map Remote.host).Nodup := (ht.map _).nodup_iff.mpr hd
  have hroom' := hclosed.length_eq.trans_le hroom
  exact ((hcalm'.records_perm h hok hs hd' hroom').2.trans hclosed).trans hperm.symm

/-- A tick `n` seconds after boot that finds 192.0.2.7 and 192.0.2.9 at `pkts` and then reaches its
budget. -/
def pairTick (n pkts : ℕ) : TickIn where
  mono := ⟨n, 0⟩
  metrics := some ⟨0, 0⟩
  remotes := [⟨.ofOctets .inet (octetsOf [192, 0, 2, 7]), pkts, 0⟩,
    ⟨.ofOctets .inet (octetsOf [192, 0, 2, 9]), pkts, 0⟩]
  complete := 0

/-- The small host after two ticks of an armed gate, with `aggregate_k = 2`. -/
def pairCtrl : VgCtrl :=
  let c := ([.arm, .tick (pairTick 0 0), .tick (pairTick 1 0)] : List Cmd).foldl (step steadyEnv)
    steadyStart
  { c with cfg := { c.cfg with aggregateK := 2 } }

theorem pairCtrl_ok : Sound pairCtrl ∧ pairCtrl.snaps.Ok := by
  have hinit := (startUp_initial steadyStart_eq).1
  have hstep : ∀ c t, Sound c ∧ FairSoFar c → TickMeasured c t →
      Sound (step steadyEnv c (.tick t)) ∧ FairSoFar (step steadyEnv c (.tick t)) :=
    fun c t h hm => ⟨step_sound h.1 _, h.2.tick hm⟩
  have harm : Sound (step steadyEnv steadyStart .arm) ∧ FairSoFar (step steadyEnv steadyStart .arm) :=
    ⟨step_sound hinit.sound _, hinit.fairSoFar.step (by simp)⟩
  have hrun := hstep _ (pairTick 1 0) (hstep _ (pairTick 0 0) harm (by decide +kernel))
    (by decide +kernel)
  exact ⟨⟨hrun.1.drops_ok, hrun.1.masked⟩, hrun.2.snaps_ok⟩

/-- The clock of the small host when it stands still. -/
def stillEnv : Env := { steadyEnv with wall := fun _ => 1000000 }

/-- Both hosts send 600 packets within a second, in either order. -/
theorem walk_outcome_pair :
    (walkRemotes stillEnv 1 pairCtrl (pairTick 2 600)).drops.prefixes =
        [(sampleHost [192, 0, 2, 7]).1, (sampleHost [192, 0, 2, 9]).1,
          (IpAddr.ofOctets .inet (octetsOf [192, 0, 2, 7])).net] ∧
      WalkLists pairCtrl 1000000 (walkHosts pairCtrl 1 (pairTick 2 600))
        (walkRemotes stillEnv 1 pairCtrl (pairTick 2 600)).drops ∧
      (walkRemotes stillEnv 1 pairCtrl
          { pairTick 2 600 with remotes := (pairTick 2 600).remotes.reverse }).drops.records.Perm
        (walkRemotes stillEnv 1 pairCtrl (pairTick 2 600)).drops.records := by
  have hcalm : ∀ t, CalmWalk stillEnv 1000000 1 pairCtrl t := fun t =>
    ⟨fun _ _ _ => rfl, fun _ _ _ => rfl⟩
  obtain ⟨hlists, horder⟩ := walk_outcome pairCtrl_ok.1 pairCtrl_ok.2 (by decide +kernel)
    (by decide +kernel) (hcalm (pairTick 2 600)) (by decide +kernel)
  exact ⟨by decide +kernel, hlists, horder stillEnv _ (List.reverse_perm _) (hcalm _)⟩

end VoidGate
