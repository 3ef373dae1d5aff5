import VoidGate.CtlServer
import Mathlib.Order.WithBot
import Mathlib.Data.Int.ConditionallyCompleteOrder

/-!
# Drops in force

A listed drop has a deadline: never for a manual one, its own time for a timed one,
and the end of the ban for the others. Dropping again never lowers a deadline, and a
prefix leaves the list only when it was asked for, protected, or past its deadline.
-/

namespace VoidGate

open Runs

variable {env : Env} {ok : VgCtrl → Act → Prop} {c c' : VgCtrl}

/-- When a drop may be lifted by expiry. -/
def VgDropRec.deadline (cfg : VgConfig) (r : VgDropRec) : WithTop ℤ :=
  match r.reason with
  | .manual => ⊤
  | .timed => r.expires
  | _ => (r.inserted + cfg.banTime : ℤ)

theorem inForce_eq_false_iff (cfg : VgConfig) (r : VgDropRec) (now : ℤ) :
    inForce cfg r now = false ↔ r.deadline cfg ≤ (now : ℤ) := by
  rw [inForce, VgDropRec.deadline]
  cases r.reason with
  | manual => simp
  | timed => simp
  | policy =>
    simp only [decide_eq_false_iff_not, WithTop.coe_le_coe]
    omega
  | aggregate =>
    simp only [decide_eq_false_iff_not, WithTop.coe_le_coe]
    omega

@[simp] theorem rebase_deadline (cfg : VgConfig) (r : VgDropRec) (reason : Reason) :
    (rebase cfg r reason).deadline cfg = r.deadline cfg := by
  rw [rebase]
  split_ifs with h
  · rw [VgDropRec.deadline, VgDropRec.deadline]
    cases hr : r.reason with
    | timed => exact absurd hr h.2
    | _ => rfl
  · rfl

/-- A timed drop over a policy or aggregate one, or over an earlier timed one, never ends before
it would have. -/
theorem rebase_expires {cfg : VgConfig} {r : VgDropRec} (hr : r.reason ≠ .manual) :
    r.deadline cfg = ((rebase cfg r .timed).expires : ℤ) := by
  rw [rebase, VgDropRec.deadline]
  cases h : r.reason with
  | manual => exact absurd h hr
  | timed => simp
  | policy => simp
  | aggregate => simp

private theorem redropped_deadline {cfg : VgConfig} {r : VgDropRec} {reason : Reason} {expires now : ℤ}
    (hr : ¬ (reason = .timed ∧ r.reason = .manual)) :
    r.deadline cfg ≤ (redropped cfg r reason expires now).deadline cfg := by
  cases reason with
  | manual => simp [redropped, VgDropRec.deadline]
  | timed =>
    rw [rebase_expires fun h => hr ⟨rfl, h⟩]
    simp only [redropped, VgDropRec.deadline, true_and, or_true, if_true, WithTop.coe_le_coe]
    split_ifs <;> omega
  | policy => simp [redropped, rebase]
  | aggregate => simp [redropped, rebase]

private theorem DropOutcome.deadline_le {p : VgCidr} {reason : Reason} {expires now : ℤ}
    (h : DropOutcome env c p reason expires now c') (hok : c.drops.Ok) {x : VgDropRec}
    (hx : x ∈ c.drops.records) :
    ∃ x' ∈ c'.drops.records, x'.cidr = x.cidr ∧ x.deadline c.cfg ≤ x'.deadline c.cfg := by
  cases h with
  | kept hr _ => exact ⟨x, hr ▸ hx, rfl, le_rfl⟩
  | listed _ hr _ => exact ⟨x, by rw [hr]; exact List.mem_append_left _ hx, rfl, le_rfl⟩
  | rewritten r r' hmem _ hcidr hmanual hr hk =>
    by_cases hkey : x.cidr.key = r.cidr.key
    · obtain rfl := hok.eq_of_key hx hmem hkey
      refine ⟨r', ?_, hcidr, ?_⟩
      · rw [hr]
        exact List.mem_map.mpr ⟨x, hx, by simp⟩
      · rcases hk with ⟨-, rfl⟩ | ⟨-, rfl⟩
        · rw [rebase_deadline]
        · exact redropped_deadline hmanual
    · refine ⟨x, ?_, rfl, le_rfl⟩
      rw [hr]
      exact List.mem_map.mpr ⟨x, hx, by simp [hkey]⟩

private theorem Micro.record_cases {a : Act} (hm : Micro env a c c') (hok : c.drops.Ok) {x : VgDropRec}
    (hx : x ∈ c.drops.records) :
    (∃ x' ∈ c'.drops.records, x'.cidr = x.cidr ∧ x.deadline c.cfg ≤ x'.deadline c.cfg) ∨
      (∃ i, a = .lift i ∧ c.drops.pool i = x) ∨ a = .disarm := by
  cases hm with
  | books h => exact .inl ⟨x, h.drops ▸ hx, rfl, le_rfl⟩
  | arm h =>
    have he := vgCtrlArm_idle env h
    exact .inl ⟨x, by rw [he]; exact hx, rfl, le_rfl⟩
  | drop h hp => exact .inl ((dropListed_outcome hok _ _ _ _).2.deadline_le hok hx)
  | @lift _ i hi =>
    by_cases hxi : c.drops.pool i = x
    · exact .inr (.inl ⟨i, rfl, hxi⟩)
    · refine .inl ⟨x, ?_, rfl, le_rfl⟩
      rcases dropRemove_cases env c i with ⟨-, he⟩ | ⟨-, he⟩
      · rwa [he]
      · rw [he, (hok.lift hi).2, List.mem_filter]
        refine ⟨hx, decide_eq_true fun hk => hxi ?_⟩
        exact (hok.eq_of_key hx (DropTable.pool_mem_records hi) hk).symm
  | stray h => exact .inl ⟨x, hx, rfl, le_rfl⟩
  | disarm => exact .inr (.inr rfl)
  | setCfg => exact .inl ⟨x, hx, rfl, le_rfl⟩
  | commit => exact .inl ⟨x, hx, rfl, le_rfl⟩
  | populate => exact .inl ⟨x, hx, rfl, le_rfl⟩

/-- The drop `r` of state `c₀` is still listed, under the same configuration and with a deadline
at least as late. -/
def Kept (c₀ : VgCtrl) (r : VgDropRec) (c : VgCtrl) : Prop :=
  c.cfg = c₀.cfg ∧ ∃ x ∈ c.drops.records, x.cidr = r.cidr ∧ r.deadline c₀.cfg ≤ x.deadline c₀.cfg

/-- Along a trace without a change of configuration a drop is kept until an action that may lift
it; `Q` records the cause. -/
theorem Trace.kept {c₀ : VgCtrl} {r : VgDropRec} {Q : Prop} (h : Trace env ok c c')
    (hok : c.drops.Ok) (hset : ∀ c n, ¬ ok c (.setCfg n)) (start : Kept c₀ r c)
    (hlift : ∀ x i, Trace env ok c x → x.cfg = c₀.cfg → ok x (.lift i) →
      (x.drops.pool i).cidr = r.cidr →
      r.deadline c₀.cfg ≤ (x.drops.pool i).deadline c₀.cfg → Trace env ok x c' → Q)
    (hdisarm : ∀ x, x.drops.Ok → ok x .disarm → x.drops.records ≠ [] → Q) : Kept c₀ r c' ∨ Q := by
  induction h using Relation.ReflTransGen.head_induction_on with
  | refl => exact .inl start
  | @head c d hstep hrest ih =>
    obtain ⟨a, ha, hm⟩ := hstep
    obtain ⟨hcfg, x, hx, hcidr, hle⟩ := start
    have hcfg' : d.cfg = c₀.cfg := (hm.cfg_eq fun n he => hset c n (he ▸ ha)).trans hcfg
    rcases hm.record_cases hok hx with ⟨x', hx', hcidr', hle'⟩ | ⟨i, rfl, hi⟩ | rfl
    · refine ih (hm.drops_ok hok) ⟨hcfg', x', hx', hcidr'.trans hcidr, ?_⟩ ?_
      · rw [hcfg] at hle'
        exact hle.trans hle'
      · exact fun y j hy => hlift y j ((hm.trace ha).trans hy)
    · refine .inr (hlift c i .refl hcfg ha (hi ▸ hcidr) (hi ▸ hle) ?_)
      exact (hm.trace ha).trans hrest
    · exact .inr (hdisarm c hok ha (List.ne_nil_of_mem hx))

/-- Why the drop `r` of state `c` may be off the list after a command that led to `c'`. -/
inductive Left (env : Env) (c c' : VgCtrl) (r : VgDropRec) : Cmd → Prop where
  | undrop {p : MaskedCidr} (h : p.1 = r.cidr) : Left env c c' r (.undrop p)
  | disarm : Left env c c' r .disarm
  | reload {file : ConfigFile} {nic : Option (List IfAddr)}
      (h : vgCidrIsProtected c'.cfg r.cidr = true) : Left env c c' r (.reload file nic)
  | tick {t : TickIn} (k : ℕ) (first : c.clock ≤ k) (last : k < c'.clock)
      (h : r.deadline c.cfg ≤ (env.wall k : ℤ)) : Left env c c' r (.tick t)

theorem dropAct_kept {p : VgCidr} {reason : Reason} (h : Trace env (DropAct p reason) c c')
    (hok : c.drops.Ok) {r : VgDropRec} (hr : r ∈ c.drops.records) : Kept c r c' := by
  refine (h.kept (Q := False) hok (fun _ _ => id) ⟨rfl, r, hr, rfl, le_rfl⟩ ?_ ?_).resolve_right id
  · exact fun _ _ _ _ ha => ha.elim
  · exact fun _ _ ha => ha.elim

theorem undrop_kept (h : Sound c) (p : MaskedCidr) {r : VgDropRec} (hr : r ∈ c.drops.records) :
    Kept c r (vgCtrlUndrop env c p.1).1 ∨ p.1 = r.cidr := by
  refine (vgCtrlUndrop_trace h.drops_ok p.1).kept h.drops_ok (fun _ _ => id)
    ⟨rfl, r, hr, rfl, le_rfl⟩ ?_ fun _ _ ha => ha.elim
  intro x i _ _ ha hcidr _ _
  have hkey : (x.drops.pool i).cidr.key = p.1.key := ha
  rw [hcidr] at hkey
  exact (h.eq_of_key hr p.2 hkey).symm

private theorem tick_kept (h : c.drops.Ok) (t : TickIn) {r : VgDropRec} (hr : r ∈ c.drops.records) :
    Kept c r (vgCtrlTick env c t).1 ∨ ∃ k, c.clock ≤ k ∧ k < (vgCtrlTick env c t).1.clock ∧
      r.deadline c.cfg ≤ (env.wall k : ℤ) := by
  refine (vgCtrlTick_trace h t).kept h (fun _ _ => id) ⟨rfl, r, hr, rfl, le_rfl⟩ ?_ ?_
  · rintro x i _ hcfg ⟨k, hlo, hhi, hdue⟩ _ hle hrest
    rw [inForce_eq_false_iff, hcfg] at hdue
    exact ⟨k, hlo, hhi.trans_le hrest.clock_le, hle.trans hdue⟩
  · intro x hok ha hne
    have hcount : x.drops.count = 0 := ha
    rw [hok.count_eq, List.length_eq_zero_iff] at hcount
    exact absurd hcount hne

theorem reload_kept (h : c.drops.Ok) (file : ConfigFile) (nic : Option (List IfAddr))
    {r : VgDropRec} (hr : r ∈ c.drops.records) :
    (∃ x ∈ (vgCtrlReload env c file nic).1.drops.records, x.cidr = r.cidr) ∨
      vgCidrIsProtected (vgCtrlReload env c file nic).1.cfg r.cidr = true := by
  rw [vgCtrlReload]
  cases hn : reloadConfig env c file nic with
  | none => exact .inl ⟨r, hr, rfl⟩
  | some n =>
    have hd : ({ c with cfg := n } : VgCtrl).drops.Ok := h
    have htrace : Trace env ReloadAct { c with cfg := n } (reloadApply env { c with cfg := n }).1 :=
      reloadApply_trace hd
    have hcfg := htrace.cfg_eq fun _ _ => id
    refine (htrace.kept hd (fun _ _ => id) ⟨rfl, r, hr, rfl, le_rfl⟩
      (Q := vgCidrIsProtected n r.cidr = true) ?_ fun _ _ ha => ha.elim).imp ?_ ?_
    · intro x i _ hx ha hcidr _ _
      have hprot : vgCidrIsProtected x.cfg (x.drops.pool i).cidr = true := ha
      rwa [hx, hcidr] at hprot
    · rintro ⟨-, x, hx, hcidr, -⟩
      exact ⟨x, hx, hcidr⟩
    · intro hq
      dsimp only
      rwa [hcfg]

/-- A drop in force is never cut short: no drop or timed drop, successful or failed, of any prefix
lowers the deadline of any listed drop; and after any command or tick a listed prefix is still
listed, with a deadline no earlier unless the configuration was reloaded, or it left the list for
one of the four causes. -/
theorem drops_never_cut_short {c : VgCtrl} (h : Reachable env c) :
    (∀ p reason, ∀ r ∈ c.drops.records, ∃ x ∈ (vgCtrlDrop env c p reason).1.drops.records,
      x.cidr = r.cidr ∧ r.deadline c.cfg ≤ x.deadline (vgCtrlDrop env c p reason).1.cfg) ∧
    (∀ p ttl, ∀ r ∈ c.drops.records, ∃ x ∈ (vgCtrlDropTtl env c p ttl).1.drops.records,
      x.cidr = r.cidr ∧ r.deadline c.cfg ≤ x.deadline (vgCtrlDropTtl env c p ttl).1.cfg) ∧
    ∀ cmd, ∀ r ∈ c.drops.records,
      (∃ x ∈ (step env c cmd).drops.records, x.cidr = r.cidr ∧
        ((∀ file nic, cmd ≠ .reload file nic) →
          r.deadline c.cfg ≤ x.deadline (step env c cmd).cfg)) ∨
      Left env c (step env c cmd) r cmd := by
  have hs := h.sound
  have hkept : ∀ {c'} {r : VgDropRec}, Kept c r c' → ∃ x ∈ c'.drops.records,
      x.cidr = r.cidr ∧ r.deadline c.cfg ≤ x.deadline c'.cfg := by
    rintro c' r ⟨hcfg, hx⟩
    rwa [hcfg]
  have hdrop : ∀ p reason, ∀ r ∈ c.drops.records, Kept c r (vgCtrlDrop env c p reason).1 :=
    fun p reason r hr => dropAct_kept (dropAdd_trace env c p reason 0) hs.drops_ok hr
  have httl : ∀ p ttl, ∀ r ∈ c.drops.records, Kept c r (vgCtrlDropTtl env c p ttl).1 :=
    fun p ttl r hr => dropAct_kept (vgCtrlDropTtl_trace env c p ttl) hs.drops_ok hr
  refine ⟨fun p reason r hr => hkept (hdrop p reason r hr),
    fun p ttl r hr => hkept (httl p ttl r hr), fun cmd r hr => ?_⟩
  have hstay : Kept c r (step env c cmd) → ∃ x ∈ (step env c cmd).drops.records,
      x.cidr = r.cidr ∧ ((∀ file nic, cmd ≠ .reload file nic) →
        r.deadline c.cfg ≤ x.deadline (step env c cmd).cfg) := by
    intro hk
    obtain ⟨x, hx, hcidr, hle⟩ := hkept hk
    exact ⟨x, hx, hcidr, fun _ => hle⟩
  cases cmd with
  | drop p => exact .inl (hstay (hdrop p.1 .manual r hr))
  | dropTtl p ttl => exact .inl (hstay (httl p.1 ttl r hr))
  | undrop p => exact (undrop_kept hs p hr).imp hstay .undrop
  | arm =>
    have htrace : Trace env (DropAct r.cidr .manual) c (step env c .arm) := vgCtrlArm_trace trivial
    exact .inl (hstay (dropAct_kept htrace hs.drops_ok hr))
  | disarm => exact .inr .disarm
  | reload file nic =>
    rcases reload_kept hs.drops_ok file nic hr with ⟨x, hx, hcidr⟩ | hprot
    · exact .inl ⟨x, hx, hcidr, fun hne => absurd rfl (hne file nic)⟩
    · exact .inr (.reload hprot)
  | tick t =>
    refine (tick_kept hs.drops_ok t hr).imp hstay ?_
    rintro ⟨k, hlo, hhi, hdue⟩
    exact .tick k hlo hhi hdue

/-- A manual drop that is then dropped for a minute stays without a deadline. -/
theorem drops_never_cut_short_sample : ∃ c, Reachable flakyEnv c ∧ c.drops.count = 1 ∧
    ∀ r ∈ c.drops.records,
      ∃ x ∈ (vgCtrlDropTtl flakyEnv c (sampleHost [198, 18, 0, 1]).1 60).1.drops.records,
        x.cidr = r.cidr ∧ r.deadline c.cfg ≤
          x.deadline (vgCtrlDropTtl flakyEnv c (sampleHost [198, 18, 0, 1]).1 60).1.cfg := by
  have hrun : Reaches (step flakyEnv) (fun _ _ => True) flakyStart _ :=
    Reaches.start.next (.drop (sampleHost [198, 18, 0, 1])) trivial
  have hreach : Reachable flakyEnv _ := ⟨_, _, _, _, _, flakyStart_eq, hrun⟩
  refine ⟨_, hreach, by decide +kernel, ?_⟩
  exact (drops_never_cut_short hreach).2.1 (sampleHost [198, 18, 0, 1]).1 60

end VoidGate
