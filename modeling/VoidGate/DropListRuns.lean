import VoidGate.CtlServer

/-!
# The drop list over runs of the API

The functions of `policy.h` may be called in any order, with any prefixes and under
any kernel failures. `DropTable.Consistent` says what must hold of the pointers
between two calls, in terms of the walks a reader of the structure would make.
-/

namespace VoidGate

open RingLists CellChains Runs

namespace DropTable

/-- The indices on `drop_free`, in list order. -/
def freed (t : DropTable) : List ℕ := (collect t.lists .dropFree t.used .dropFree).filterMap entry

/-- The indices in bucket `b`, in chain order. -/
def bucket (t : DropTable) (b : ℕ) : List ℕ := nodesFrom t.hash.ptr .next t.used (.head b)

structure Consistent (t : DropTable) : Prop where
  /-- Every record handed out so far is on exactly one of the two lists. -/
  partition : (t.listed ++ t.freed).Perm (List.range t.used)
  used_le : t.used ≤ t.cap
  count : t.listed.length = t.count
  /-- Neighbours on the two lists point at each other, and the lists close at their heads. -/
  allLinks : Ring t.lists .dropAll (t.listed.map .all)
  freeLinks : Ring t.lists .dropFree (t.freed.map .all)
  /-- Every bucket is a terminated chain whose back pointers agree with it. -/
  chains : ∀ b < t.nbuckets, Chain t.hash.ptr .next (.head b) (t.bucket b) ∧
    Backed t.hash.pprev .next (.head b) (t.bucket b)
  /-- A listed record is in the bucket of its hash and in no other. -/
  hashed : ∀ b < t.nbuckets, ∀ i,
    i ∈ t.bucket b ↔ i ∈ t.listed ∧ dropHash t.nbuckets (t.pool i).cidr = b
  buckets : ((List.range t.nbuckets).flatMap t.bucket).Perm t.listed
  keys : (t.listed.map fun i => (t.pool i).cidr.key).Nodup
  find : ∀ p i, t.dropsFind p = some i ↔ i ∈ t.listed ∧ (t.pool i).cidr.key = p.key

variable {t : DropTable} {L F : List ℕ}

theorem Inv.freed_eq (h : t.Inv [] L F) : t.freed = F := by
  have hlen : F.length ≤ t.used := by
    have hl := h.parts.length_eq
    simp only [List.length_append, List.length_range] at hl
    omega
  rw [freed, h.freeRing.collect_eq (by simpa using hlen)]
  simp [List.filterMap_map, Function.comp_def, entry]

private theorem Inv.bucket_eq (h : t.Inv [] L F) {b : ℕ} {xs : List ℕ}
    (hxs : Bucket t.hash t.nbuckets t.pool L b xs) : t.bucket b = xs := by
  have hsub : ∀ j ∈ xs, j ∈ L := fun j hj => ((hxs.mem j).mp hj).1
  exact hxs.chain.nodesFrom_eq
    ((List.subperm_of_subset hxs.nodup hsub).length_le.trans h.listed_length_le)

private theorem Ok.consistent (h : t.Ok) : t.Consistent := by
  obtain ⟨L, F, h⟩ := h
  have hbucket : ∀ b < t.nbuckets, Bucket t.hash t.nbuckets t.pool L b (t.bucket b) := by
    intro b hb
    obtain ⟨xs, hxs⟩ := h.buckets b hb
    rwa [h.bucket_eq hxs]
  have hall : ((List.range t.nbuckets).flatMap t.bucket).Perm L := by
    refine (List.perm_ext_iff_of_nodup ?_ h.listed_nodup).mpr fun i => ?_
    · refine List.nodup_flatMap.mpr ⟨fun b hb => (hbucket b (List.mem_range.mp hb)).nodup, ?_⟩
      refine List.nodup_range.pairwise_of_forall_ne fun b hb b' hb' hne => ?_
      intro i hi hi'
      have h₁ := ((hbucket b (List.mem_range.mp hb)).mem i).mp hi
      have h₂ := ((hbucket b' (List.mem_range.mp hb')).mem i).mp hi'
      exact hne (h₁.2.symm.trans h₂.2)
    · simp only [List.mem_flatMap, List.mem_range]
      constructor
      · rintro ⟨b, hb, hi⟩
        exact ((hbucket b hb).mem i).mp hi |>.1
      · intro hi
        have hlt := dropHash_lt h.buckets_pos (t.pool i).cidr
        exact ⟨_, hlt, ((hbucket _ hlt).mem i).mpr ⟨hi, rfl⟩⟩
  refine ⟨?_, h.used_le, ?_, ?_, ?_, ?_, ?_, ?_, ?_, ?_⟩
  · rw [h.listed_eq, h.freed_eq]
    exact h.parts
  · rw [h.listed_eq, h.count_eq]
  · rw [h.listed_eq]
    exact h.allRing
  · rw [h.freed_eq]
    exact h.freeRing
  · exact fun b hb => ⟨(hbucket b hb).chain, (hbucket b hb).backed⟩
  · intro b hb i
    rw [h.listed_eq]
    exact (hbucket b hb).mem i
  · rwa [h.listed_eq]
  · rw [h.listed_eq]
    exact h.keys
  · intro p i
    rw [h.listed_eq]
    exact h.dropsFind_eq_some_iff p i

end DropTable

/-- The calls of `policy.h` on an initialised `vg_ctrl`; a prune comes with the configuration it
finds. -/
inductive ApiCall where
  | drop (p : VgCidr) (reason : Reason)
  | dropTtl (p : VgCidr) (ttl : ℕ)
  | undrop (p : VgCidr)
  | pruneProtected (cfg : VgConfig)
  | disarm
  | tick (t : TickIn)

def apiStep (env : Env) (c : VgCtrl) : ApiCall → VgCtrl
  | .drop p reason => (vgCtrlDrop env c p reason).1
  | .dropTtl p ttl => (vgCtrlDropTtl env c p ttl).1
  | .undrop p => (vgCtrlUndrop env c p).1
  | .pruneProtected cfg => vgCtrlPruneProtected env { c with cfg := cfg }
  | .disarm => (vgCtrlDisarm env c).1
  | .tick t => (vgCtrlTick env c t).1

private theorem apiStep_drops_ok {env : Env} {c : VgCtrl} (h : c.drops.Ok) (call : ApiCall) :
    (apiStep env c call).drops.Ok := by
  cases call with
  | drop p reason => exact (dropAdd_trace env c p reason 0).drops_ok h
  | dropTtl p ttl => exact (vgCtrlDropTtl_trace env c p ttl).drops_ok h
  | undrop p => exact (vgCtrlUndrop_trace h p).drops_ok h
  | pruneProtected cfg =>
    have hd : ({ c with cfg := cfg } : VgCtrl).drops.Ok := h
    exact (vgCtrlPruneProtected_trace hd).drops_ok hd
  | disarm => exact Micro.disarm.drops_ok h
  | tick t => exact (vgCtrlTick_trace h t).drops_ok h

/-- Between any two calls, whatever failed before, the drop list is consistent. -/
theorem drops_consistent {env : Env} {cfg : VgConfig} {maps : VgMaps} {cfgPath : List UInt8}
    {ifaceOv : Option (List UInt8)} {c₀ c : VgCtrl}
    (hinit : vgCtrlInit env cfg maps cfgPath ifaceOv = some c₀)
    (hrun : Reaches (apiStep env) (fun _ _ => True) c₀ c) : c.drops.Consistent := by
  have hok : c.drops.Ok := by
    refine hrun.invariant (I := fun c => c.drops.Ok) ?_ fun c call h _ => apiStep_drops_ok h call
    exact (vgCtrlInit_initial hinit).1.drops_ok
  exact hok.consistent

/-- A freshly initialised controller on which the third map write will fail. -/
def sampleCtrl : VgCtrl :=
  (vgCtrlInit (sampleEnv (· == 2)) (vgConfigDefaults samplePton) ⟨.fresh, 0, []⟩ [] none).get
    (by decide +kernel)

/-- The second of three drops fails, its record is given back and then used for the third. -/
theorem drops_consistent_sample : ∃ c,
    Reaches (apiStep (sampleEnv (· == 2))) (fun _ _ => True) sampleCtrl c ∧
      (c.drops.count, c.drops.used) = (2, 2) ∧ c.drops.Consistent := by
  have hrun : Reaches (apiStep (sampleEnv (· == 2))) (fun _ _ => True) sampleCtrl _ :=
    ((Reaches.start.next (.drop (sampleHost [198, 18, 0, 1]).1 .manual) trivial).next
      (.dropTtl (sampleHost [198, 18, 0, 2]).1 60) trivial).next
      (.drop (sampleHost [198, 18, 0, 3]).1 .manual) trivial
  refine ⟨_, hrun, by decide +kernel, ?_⟩
  exact drops_consistent (Option.some_get _).symm hrun

end VoidGate
