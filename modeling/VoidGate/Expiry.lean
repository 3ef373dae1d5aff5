import VoidGate.Sweeps
import VoidGate.DropListRuns

/-!
# Expiry

`expire_drops` unlinks records from the list that it walks and skips those whose
kernel delete fails. For lists of any length this is one filter over the list, with
one delete for each record that is due.
-/

namespace VoidGate

open Runs

variable {env : Env} {c : VgCtrl}

/-- What the expiry at the time `now` leaves listed: manual drops, drops whose time has not come,
and drops whose delete fails. -/
def Spared (cfg : VgConfig) (now : ℤ) (fails : VgCidr → Bool) (r : VgDropRec) : Prop :=
  r.reason = .manual ∨ (r.reason = .timed ∧ now < r.expires) ∨
    ((r.reason = .policy ∨ r.reason = .aggregate) ∧ now - r.inserted < cfg.banTime) ∨
    fails r.cidr = true

instance (cfg : VgConfig) (now : ℤ) (fails : VgCidr → Bool) : DecidablePred (Spared cfg now fails) :=
  fun _ => inferInstanceAs (Decidable (_ ∨ _))

/-- The records that an expiry finds due, in list order. -/
def VgCtrl.due (env : Env) (c : VgCtrl) : List VgDropRec :=
  c.drops.records.filter fun r => !inForce c.cfg r (env.wall c.clock)

theorem spared_iff {cfg : VgConfig} {now : ℤ} {fails : VgCidr → Bool} {r : VgDropRec} :
    Spared cfg now fails r ↔ (!!inForce cfg r now || fails r.cidr) = true := by
  rw [Spared, Bool.not_not, inForce, Bool.or_eq_true]
  cases hr : r.reason <;> simp

theorem expireOne_eq (now : ℤ) :
    expireOne env now = sweepOne env fun cfg r => !inForce cfg r now := by
  funext c i
  rw [expireOne, sweepOne]
  cases inForce c.cfg (c.drops.pool i) now <;> rfl

theorem forEachSafe_expireOne (h : c.drops.Ok) (now : ℤ) {k : ℕ} (hk : c.drops.count ≤ k) :
    forEachSafe (expireOne env now) k c (c.drops.lists.next .dropAll) =
      c.drops.listed.foldl (expireOne env now) c := by
  obtain ⟨L, F, hinv⟩ := h
  have hL : c.drops.Inv [] ([] ++ L) F := hinv
  rw [expireOne_eq, hinv.listed_eq]
  refine forEachSafe_eq_foldl (sweepOne_drops _ env) hL hinv.allRing.path.next_eq ?_
  rwa [← hinv.count_eq]

private theorem forEachSafe_eq_expireDrops (h : c.drops.Ok) {k : ℕ} (hk : c.drops.count ≤ k) :
    forEachSafe (expireOne env (env.wall c.clock)) k { c with clock := c.clock + 1 }
      (c.drops.lists.next .dropAll) = expireDrops env c := by
  have hd : ({ c with clock := c.clock + 1 } : VgCtrl).drops.Ok := h
  obtain ⟨L, F, hinv⟩ := h
  rw [forEachSafe_expireOne hd _ hk]
  refine (forEachSafe_expireOne hd _ ?_).symm
  exact hinv.count_eq ▸ hinv.listed_length_le

section Failures
variable {fails : VgCidr → Bool} {r : VgDropRec}

private theorem mem_due (hr : r ∈ c.drops.records) (hspared : ¬ Spared c.cfg (env.wall c.clock) fails r) :
    r ∈ c.due env := by
  refine List.mem_filter.mpr ⟨hr, ?_⟩
  by_contra hforce
  rw [Bool.not_eq_true, Bool.not_eq_false'] at hforce
  exact hspared (spared_iff.mpr (by simp [hforce]))

private theorem gone_of_not_spared
    (hfails : ∀ j r, (c.due env)[j]? = some r → env.fault (c.maps.writes + j) = fails r.cidr)
    (hr : r ∈ c.drops.records) (hspared : ¬ Spared c.cfg (env.wall c.clock) fails r)
    {e : VgCidr × MapValue}
    (he : e ∈ ((dropDels env c.maps ((c.due env).map VgDropRec.cidr)).kernel.lpm
      (.drop r.cidr.family)).entries) : sameKey r.cidr e.1 = false := by
  rw [mem_dropDels] at he
  obtain ⟨j, hj⟩ := List.mem_iff_getElem?.mp (mem_due hr hspared)
  have hok : env.fault (c.maps.writes + j) = false := by
    rw [hfails j r hj]
    by_contra hf
    exact hspared (.inr (.inr (.inr (by simpa using hf))))
  by_contra hkey
  have hfault := he.2 (r.cidr, c.maps.writes + j) ?_ rfl (by simpa using hkey)
  · rw [hok] at hfault
    cases hfault
  · rw [List.mk_mem_zipIdx_iff_le_and_getElem?_sub]
    exact ⟨Nat.le_add_right _ _, by simp [hj]⟩

end Failures

/-- Expiry is a filter in one pass. The loop ends after at most one round per listed record and
deletes each due prefix once; the records that stay keep their order and their fields, and the
others are on `drop_free` and gone from the kernel map. -/
theorem expiry_filter (h : c.drops.Ok) (fails : VgCidr → Bool)
    (hfails : ∀ j r, (c.due env)[j]? = some r → env.fault (c.maps.writes + j) = fails r.cidr) :
    (∀ k, c.drops.count ≤ k → forEachSafe (expireOne env (env.wall c.clock)) k
      { c with clock := c.clock + 1 } (c.drops.lists.next .dropAll) = expireDrops env c) ∧
    (expireDrops env c).maps = dropDels env c.maps ((c.due env).map VgDropRec.cidr) ∧
    (expireDrops env c).drops.listed =
      c.drops.listed.filter (fun i => Spared c.cfg (env.wall c.clock) fails (c.drops.pool i)) ∧
    (expireDrops env c).drops.pool = c.drops.pool ∧
    (expireDrops env c).drops.records =
      c.drops.records.filter (fun r => Spared c.cfg (env.wall c.clock) fails r) ∧
    (expireDrops env c).drops.freed = c.drops.freed ++
      c.drops.listed.filter (fun i => ¬ Spared c.cfg (env.wall c.clock) fails (c.drops.pool i)) ∧
    ∀ r ∈ c.drops.records, ¬ Spared c.cfg (env.wall c.clock) fails r →
      ∀ e ∈ ((expireDrops env c).maps.kernel.lpm (.drop r.cidr.family)).entries,
        sameKey r.cidr e.1 = false := by
  have hrun := fun k => @forEachSafe_eq_expireDrops env c h k
  obtain ⟨L, F, hinv⟩ := h
  obtain ⟨heq, hpool, hinv'⟩ : Swept env _ { c with clock := c.clock + 1 } [] L F
      (expireDrops env c) := by
    rw [expireDrops, expireOne_eq]
    exact forEachDrop_sweepOne _ hinv
  dsimp only at heq hpool hinv'
  have hdue : c.due env = (L.map c.drops.pool).filter fun r =>
      !inForce c.cfg r (env.wall c.clock) := by
    rw [VgCtrl.due, hinv.records_eq]
  have hmaps : (expireDrops env c).maps =
      dropDels env c.maps ((c.due env).map VgDropRec.cidr) := by rw [heq, hdue]
  have hcall : ∀ j i, (L.filter ((fun r => !inForce c.cfg r (env.wall c.clock)) ∘ c.drops.pool))[j]? =
      some i → env.fault (c.maps.writes + j) = fails (c.drops.pool i).cidr := by
    intro j i hi
    refine hfails j (c.drops.pool i) ?_
    rw [hdue, List.filter_map, List.getElem?_map, hi, Option.map_some]
  obtain ⟨hkept, hlifted⟩ := keptFrom_eq_filter hcall
  have hlisted : (expireDrops env c).drops.listed = c.drops.listed.filter
      (fun i => Spared c.cfg (env.wall c.clock) fails (c.drops.pool i)) := by
    rw [hinv'.listed_eq, hinv.listed_eq, List.nil_append, hkept]
    refine List.filter_congr fun i _ => ?_
    rw [Bool.eq_iff_iff, decide_eq_true_iff, spared_iff]
    rfl
  refine ⟨hrun, hmaps, hlisted, hpool, ?_, ?_, ?_⟩
  · rw [DropTable.records, hlisted, hpool, DropTable.records, List.filter_map]
    rfl
  · rw [hinv'.freed_eq, hinv.freed_eq, hinv.listed_eq, hlifted]
    congr 1
    refine List.filter_congr fun i _ => ?_
    rw [Bool.eq_iff_iff, decide_eq_true_iff, spared_iff]
    simp
  · intro r hr hspared e he
    rw [hmaps] at he
    exact gone_of_not_spared hfails hr hspared he

/-- The small host when its thirteenth map write fails. -/
def lateFaultEnv : Env := sampleEnv (· == 12)

def lateFaultStart : VgCtrl := (sampleStart (· == 12)).get (by decide +kernel)

/-- Two drops for a second and a manual one; the write that fails is the delete of the second. -/
def lateFaultRun : VgCtrl :=
  step lateFaultEnv (step lateFaultEnv (step lateFaultEnv lateFaultStart
    (.dropTtl (sampleHost [198, 18, 0, 1]) 1)) (.dropTtl (sampleHost [198, 18, 0, 2]) 1))
    (.drop (sampleHost [198, 18, 0, 3]))

theorem expiry_filter_sample :
    (lateFaultRun.drops.prefixes, (expireDrops lateFaultEnv lateFaultRun).drops.prefixes) =
      ([(sampleHost [198, 18, 0, 1]).1, (sampleHost [198, 18, 0, 2]).1,
        (sampleHost [198, 18, 0, 3]).1],
        [(sampleHost [198, 18, 0, 2]).1, (sampleHost [198, 18, 0, 3]).1]) := by
  have hstart : startUp lateFaultEnv (bytes "/etc/voidgate/voidgate.conf") none .missing sampleNic =
      some lateFaultStart := (Option.some_get _).symm
  have hrun : Reaches (step lateFaultEnv) (fun _ _ => True) lateFaultStart lateFaultRun :=
    ((Reaches.start.next _ trivial).next _ trivial).next _ trivial
  have hreach : Reachable lateFaultEnv lateFaultRun := ⟨_, _, _, _, _, hstart, hrun⟩
  have hdue : lateFaultRun.due lateFaultEnv =
      [⟨(sampleHost [198, 18, 0, 1]).1, .timed, 1000001, 1000001⟩,
        ⟨(sampleHost [198, 18, 0, 2]).1, .timed, 1000003, 1000003⟩] := by decide +kernel
  have hwrites : lateFaultRun.maps.writes = 11 := by decide +kernel
  have hfails : ∀ j r, (lateFaultRun.due lateFaultEnv)[j]? = some r →
      lateFaultEnv.fault (lateFaultRun.maps.writes + j) =
        decide (r.cidr = (sampleHost [198, 18, 0, 2]).1) := by
    intro j r hr
    rw [hdue] at hr
    rw [hwrites]
    rcases j with _ | _ | j
    · cases hr
      decide +kernel
    · cases hr
      decide +kernel
    · cases hr
  have hfilter := (expiry_filter hreach.sound.drops_ok
    (fun p => decide (p = (sampleHost [198, 18, 0, 2]).1)) hfails).2.2.2.2.1
  rw [DropTable.prefixes, DropTable.prefixes, hfilter]
  decide +kernel

end VoidGate
