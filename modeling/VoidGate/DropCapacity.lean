import VoidGate.DropCalls
import VoidGate.KernelAgreement

/-!
# Room for drops

Each of the two drop maps holds at most `drop_map_size` prefixes, and the pool has
twice as many records for both. List and maps agree, so the listed prefixes of a
family are as many as the keys of its map. A drop is then turned away only by the
map of its own family.
-/

namespace VoidGate

variable {env : Env} {c c' : VgCtrl} {p : VgCidr} {reason : Reason} {expires : ℤ} {N : ℕ}

/-- The number of prefixes in the drop map of a family. -/
def VgMaps.dropKeys (m : VgMaps) (f : Family) : ℕ := (m.kernel.lpm (.drop f)).keys.length

/-- The write with the number `n` asks for a new key in a map that holds `N` keys. Arming the gate
takes a write of its own, before the update. -/
def NoSpace (N : ℕ) (c : VgCtrl) (p : VgCidr) (n : ℕ) : Prop :=
  n = c.armed.maps.writes ∧ p ∉ (c.maps.kernel.lpm (.drop p.family)).keys ∧
    c.maps.dropKeys p.family = N

/-- Which write of a call fails when maps hold at most `N` keys. -/
def ListCall.FailsAt (N : ℕ) (c : VgCtrl) : ListCall → ℕ → Prop
  | .drop p _, n => NoSpace N c p n
  | .dropTtl p _, n => NoSpace N c p n
  | _, _ => False

/-- The writes of a call from `c` to `c'` fail for lack of space and for no other reason. -/
def Bounded (N : ℕ) (env : Env) (call : ListCall) (c c' : VgCtrl) : Prop :=
  ∀ n, c.maps.writes ≤ n → n < c'.maps.writes → (env.fault n = true ↔ call.FailsAt N c n)

/-- The prefixes a call is given are masked. -/
def ListCall.Masked : ListCall → Prop
  | .drop p _ => p.Masked
  | .dropTtl p _ => p.Masked
  | .undrop p => p.Masked
  | _ => True

/-- Any call, at any time, on maps of at most `N` keys. -/
def BoundedStep (N : ℕ) (c c' : VgCtrl) : Prop :=
  ∃ env call, call.Masked ∧ CallStep env call c c' ∧ Bounded N env call c c'

theorem Lpm.keys_nodup (t : Lpm) : t.keys.Nodup := by
  rw [List.Nodup, Lpm.keys, List.pairwise_map]
  refine t.distinct.imp fun hab he => ?_
  rw [he, sameKey_self] at hab
  cases hab

private theorem DropTable.Ok.prefixes_nodup {t : DropTable} (h : t.Ok) : t.prefixes.Nodup := by
  refine List.Nodup.of_map VgCidr.key ?_
  rw [DropTable.prefixes, List.map_map]
  exact h.keys_nodup

theorem Mirrored.dropKeys_eq (h : Mirrored c) (f : Family) :
    c.maps.dropKeys f = c.drops.prefixes.countP (·.family == f) := by
  have hperm : (c.maps.kernel.lpm (.drop f)).keys.Perm
      (c.drops.prefixes.filter (·.family == f)) := by
    refine (List.perm_ext_iff_of_nodup (Lpm.keys_nodup _)
      (h.drops_ok.prefixes_nodup.filter _)).mpr fun q => ?_
    rw [h.tracked f q, List.mem_filter, beq_iff_eq, and_comm]
  rw [VgMaps.dropKeys, hperm.length_eq, List.countP_eq_length_filter]

private theorem Mirrored.dropKeys_add (h : Mirrored c) :
    c.maps.dropKeys .inet + c.maps.dropKeys .inet6 = c.drops.records.length := by
  have hother : c.drops.prefixes.countP (·.family == .inet6) =
      c.drops.prefixes.countP fun q => decide ¬ (q.family == .inet) = true := by
    refine List.countP_congr fun q _ => ?_
    cases q.family <;> decide
  rw [h.dropKeys_eq, h.dropKeys_eq, hother, ← List.length_eq_countP_add_countP, DropTable.prefixes,
    List.length_map]

/-- The invariant: list and maps agree, no map is overfull, and the pool serves both. -/
structure Roomy (N : ℕ) (c : VgCtrl) : Prop extends Mirrored c where
  cap_eq : c.drops.cap = 2 * N
  le : ∀ f, c.maps.dropKeys f ≤ N

private theorem Roomy.full_of_length (h : Roomy N c) (hfull : c.drops.records.length = c.drops.cap)
    (f : Family) : c.maps.dropKeys f = N := by
  have hadd := h.dropKeys_add
  have h4 := h.le .inet
  have h6 := h.le .inet6
  rw [hfull, h.cap_eq] at hadd
  cases f <;> omega

theorem Roomy.full_of_alloc (h : Roomy N c) (halloc : c.drops.dropAlloc.2 = none) (f : Family) :
    c.maps.dropKeys f = N := by
  refine h.full_of_length ?_ f
  obtain ⟨L, F, hinv⟩ := h.drops_ok
  rw [hinv.records_eq, List.length_map]
  exact (hinv.alloc_none halloc).2

section Drop

/-- `drop_add` with nothing in its way but the size of the maps. -/
def DropBounded (N : ℕ) (env : Env) (c : VgCtrl) (p : VgCidr) (reason : Reason) (expires : ℤ) :
    Prop :=
  ∀ n, c.maps.writes ≤ n → n < (dropAdd env c p reason expires).1.maps.writes →
    (env.fault n = true ↔ NoSpace N c p n)

variable (hp : p.Masked) (hun : vgCidrIsProtected c.cfg p = false)
  (hb : DropBounded N env c p reason expires)

include hun hb

/-- Arming never fails, so the drop reaches the list. -/
theorem DropBounded.dropAdd_eq : dropAdd env c p reason expires =
    dropListed env c.ticked.armed p reason expires (env.wall c.clock) := by
  have hno : ¬ ArmFails env c := by
    intro hf
    have hw : (dropAdd env c p reason expires).1.maps.writes = c.maps.writes + 1 := by
      rw [VoidGate.dropAdd_eq, if_neg (by simp [hun]), if_pos hf]
      rfl
    obtain ⟨he, -⟩ := (hb c.maps.writes le_rfl (by omega)).mp hf.2
    rw [VgCtrl.armed_writes, if_neg (by simp [hf.1])] at he
    omega
  rw [VoidGate.dropAdd_eq, if_neg (by simp [hun]), if_neg hno]

private theorem DropBounded.fault_iff {d : DropTable} {ok : Bool}
    (he : dropListed env c.ticked.armed p reason expires (env.wall c.clock) =
      ({ c.ticked.armed with
        maps := (vgDropAdd env c.ticked.armed.maps p reason (env.wall c.clock)).1
        drops := d }, ok)) :
    env.fault c.ticked.armed.maps.writes = true ↔
      p ∉ (c.maps.kernel.lpm (.drop p.family)).keys ∧ c.maps.dropKeys p.family = N := by
  have hw : c.ticked.armed.maps.writes = c.armed.maps.writes := by
    rw [VgCtrl.armed_writes, VgCtrl.armed_writes]
    rfl
  have hmade : (dropAdd env c p reason expires).1.maps.writes = c.armed.maps.writes + 1 := by
    rw [DropBounded.dropAdd_eq hun hb, he, vgDropAdd_eq, ← hw]
    rfl
  rw [hw, hb _ (by rw [VgCtrl.armed_writes]; omega) (by omega), NoSpace]
  simp

include hp

theorem Roomy.dropAdd_iff (h : Roomy N c) :
    ((dropAdd env c p reason expires).2 = false ↔
      p ∉ c.drops.prefixes ∧ c.maps.dropKeys p.family = N) ∧
    ((dropAdd env c p reason expires).1.drops.prefixes = c.drops.prefixes ∨
      (dropAdd env c p reason expires).1.drops.prefixes = c.drops.prefixes ++ [p] ∧
        c.maps.dropKeys p.family < N) := by
  have hdrops : c.ticked.armed.drops = c.drops := VgCtrl.armed_drops _
  have hok : c.ticked.armed.drops.Ok := hdrops ▸ h.drops_ok
  have hcase : DropCase env c.ticked.armed p reason expires (env.wall c.clock) _ :=
    dropListed_case hok p reason expires (env.wall c.clock)
  have hfault := @DropBounded.fault_iff env c p reason expires N hun hb
  have hkeys : p ∈ (c.maps.kernel.lpm (.drop p.family)).keys ↔ p ∈ c.drops.prefixes := by
    rw [h.tracked, and_iff_right rfl]
  have hfresh : (∀ r ∈ c.ticked.armed.drops.records, r.cidr.key ≠ p.key) → p ∉ c.drops.prefixes := by
    intro fresh hm
    obtain ⟨r, hr, hk⟩ := (h.mem_prefixes_iff hp).mp hm
    exact fresh r (hdrops ▸ hr) hk
  rw [DropBounded.dropAdd_eq hun hb]
  revert hcase hfault
  generalize dropListed env c.ticked.armed p reason expires (env.wall c.clock) = r
  rintro (⟨fresh, halloc, -⟩ | ⟨d, fresh, hf, -, -, hrec⟩ | ⟨d, fresh, hf, -, -, hrec⟩ |
    ⟨r, hmem, hk, -, -⟩ | ⟨d, r, hmem, hk, -, -, -, hrec⟩) hfault
  · rw [hdrops] at halloc
    exact ⟨⟨fun _ => ⟨hfresh fresh, h.full_of_alloc halloc _⟩, fun _ => rfl⟩, .inl (by rw [hdrops])⟩
  · have hfull := (hfault rfl).mp hf
    rw [hkeys] at hfull
    exact ⟨⟨fun _ => hfull, fun _ => rfl⟩, .inl (by rw [DropTable.prefixes, hrec, hdrops]; rfl)⟩
  · have hspace : ¬ (p ∉ c.drops.prefixes ∧ c.maps.dropKeys p.family = N) := by
      rw [← hkeys, ← hfault rfl, hf]
      decide
    refine ⟨⟨fun h => Bool.noConfusion h, fun h => absurd h hspace⟩, .inr ⟨?_, ?_⟩⟩
    · rw [DropTable.prefixes, hrec, hdrops, List.map_append]
      rfl
    · exact lt_of_le_of_ne (h.le _) fun he => hspace ⟨hfresh fresh, he⟩
  · have hm : p ∈ c.drops.prefixes := (h.mem_prefixes_iff hp).mpr ⟨r, hdrops ▸ hmem, hk⟩
    exact ⟨⟨fun h => Bool.noConfusion h, fun h => absurd hm h.1⟩, .inl (by rw [hdrops])⟩
  · have hm : p ∈ c.drops.prefixes := (h.mem_prefixes_iff hp).mpr ⟨r, hdrops ▸ hmem, hk⟩
    have hf : env.fault c.ticked.armed.maps.writes = false := by
      rw [← Bool.not_eq_true, hfault rfl, hkeys]
      exact fun h => h.1 hm
    refine ⟨⟨fun h => ?_, fun h => absurd hm h.1⟩, .inl ?_⟩
    · rw [hf] at h
      cases h
    · rw [← hk] at hrec
      simp only [hf, Bool.false_eq_true, if_false] at hrec
      rw [DropTable.prefixes, hrec, hok.prefixes_rewrite hmem (redropped_cidr ..), hdrops]

end Drop

theorem DropCase.drops_cap {now : ℤ} {r : VgCtrl × Bool}
    (h : DropCase env c p reason expires now r) : r.1.drops.cap = c.drops.cap := by
  cases h with
  | full => rfl
  | refused d _ _ _ hcap _ => exact hcap
  | listed d _ _ _ hcap _ => exact hcap
  | manual => rfl
  | again d r _ _ _ _ hcap _ => exact hcap

theorem Micro.drops_cap {a : Act} (h : Micro env a c c') (hok : c.drops.Ok) :
    c'.drops.cap = c.drops.cap := by
  cases h with
  | books h => rw [h.drops]
  | arm h =>
    have he := vgCtrlArm_idle env h
    rw [he]
  | @drop _ p reason expires now h hp => exact (dropListed_case hok p reason expires now).drops_cap
  | @lift _ i hi =>
    rcases dropRemove_cases env c i with ⟨-, he⟩ | ⟨-, he⟩
    · rw [he]
    · rw [he]
      rfl
  | stray h => rfl
  | disarm =>
    rw [vgCtrlDisarm_eq]
    rfl
  | setCfg => rfl
  | commit => rfl
  | populate => rfl

theorem CallStep.drops_cap {call : ListCall} (h : CallStep env call c c') (hok : c.drops.Ok) :
    c'.drops.cap = c.drops.cap := by
  refine ((h.trace hok).invariant (I := fun x : VgCtrl =>
    x.drops.Ok ∧ x.drops.cap = c.drops.cap) ⟨hok, rfl⟩ ?_).2
  rintro x x' a ⟨hx, hcap⟩ - hm
  exact ⟨hm.drops_ok hx, (hm.drops_cap hx).trans hcap⟩

/-- Deletes do not need space, so list and maps stay equal. -/
theorem CallStep.mirrored {call : ListCall} (hstep : CallStep env call c c') (h : Mirrored c)
    (hcall : call.Masked) (hb : Bounded N env call c c') : Mirrored c' := by
  by_cases hd : call = .disarm
  · subst hd
    cases hstep
    refine Micro.disarm.mirrored (fun j hj => ?_) h
    have hw : c.maps.writes + j < (vgCtrlDisarm env c).1.maps.writes := by
      rw [vgCtrlDisarm_eq, vgCfgCommit_eq, VgMaps.wrote_writes, vgDropFlush_writes]
      omega
    rw [← Bool.not_eq_true, hb _ (by omega) hw]
    exact id
  · refine (hstep.trace h.drops_ok).invariant (I := Mirrored) h fun x _ a hx ha hm => ?_
    refine hm.mirrored ?_ hx
    cases a with
    | drop p reason =>
      rcases ha with rfl | ⟨ttl, rfl, -⟩
      · exact hcall
      · exact hcall
    | stray p =>
      obtain rfl : call = .undrop p := ha
      exact hcall
    | disarm => exact absurd ha hd
    | _ => trivial

theorem Bounded.drop (hb : Bounded N env (.drop p reason) c (vgCtrlDrop env c p reason).1) :
    DropBounded N env c p reason 0 := hb

/-- The first reading of the clock by a timed drop changes nothing for the maps. -/
theorem Bounded.dropTtl {ttl : ℕ}
    (hb : Bounded N env (.dropTtl p ttl) c (vgCtrlDropTtl env c p ttl).1) :
    DropBounded N env c.ticked p .timed (env.wall c.clock + ttl) := by
  intro n hn hn'
  have hw : c.ticked.armed.maps.writes = c.armed.maps.writes := by
    rw [VgCtrl.armed_writes, VgCtrl.armed_writes]
    rfl
  rw [NoSpace, hw]
  exact hb n hn hn'

theorem Roomy.ticked (h : Roomy N c) : Roomy N c.ticked :=
  ⟨⟨⟨h.drops_ok, h.masked⟩, h.tracked⟩, h.cap_eq, h.le⟩

/-- A call that adds a prefix found room for it. -/
theorem Roomy.prefixes (h : Roomy N c) {call : ListCall} (hstep : CallStep env call c c')
    (hcall : call.Masked) (hb : Bounded N env call c c') :
    c'.drops.prefixes.Sublist c.drops.prefixes ∨
      ∃ p, c'.drops.prefixes = c.drops.prefixes ++ [p] ∧ c.maps.dropKeys p.family < N := by
  have hadd : ∀ {c : VgCtrl} {p reason expires}, Roomy N c → p.Masked →
      DropBounded N env c p reason expires →
      (dropAdd env c p reason expires).1.drops.prefixes.Sublist c.drops.prefixes ∨
        ∃ p', (dropAdd env c p reason expires).1.drops.prefixes = c.drops.prefixes ++ [p'] ∧
          c.maps.dropKeys p'.family < N := by
    intro c p reason expires h hp hb
    by_cases hun : vgCidrIsProtected c.cfg p = false
    · rcases (h.dropAdd_iff hp hun hb).2 with he | ⟨he, hlt⟩
      · exact .inl (he ▸ .refl _)
      · exact .inr ⟨p, he, hlt⟩
    · rw [dropAdd_eq, if_pos (by simpa using hun)]
      exact .inl (.refl _)
  by_cases hd : ∃ p reason, call.Drops p reason
  · obtain ⟨p, reason, rfl | ⟨ttl, rfl, rfl⟩⟩ := hd
    · cases hstep
      exact hadd h hcall hb.drop
    · cases hstep
      exact hadd h.ticked hcall hb.dropTtl
  · exact .inl ((hstep.records_sublist h.drops_ok fun p reason he => hd ⟨p, reason, he⟩).map _)

theorem Roomy.step (h : Roomy N c) (hstep : BoundedStep N c c') : Roomy N c' := by
  obtain ⟨env, call, hcall, hstep, hb⟩ := hstep
  have hm : Mirrored c' := hstep.mirrored h.toMirrored hcall hb
  refine ⟨hm, (hstep.drops_cap h.drops_ok).trans h.cap_eq, fun f => ?_⟩
  rw [hm.dropKeys_eq]
  rcases h.prefixes hstep hcall hb with hsub | ⟨p, hpre, hroom⟩
  · exact hsub.countP_le.trans (h.dropKeys_eq f ▸ h.le f)
  · rw [hpre, List.countP_append, ← h.dropKeys_eq, List.countP_singleton]
    split_ifs with hf
    · rw [beq_iff_eq] at hf
      rw [← hf]
      exact hroom
    · exact h.le f

private theorem roomy_init {cfg : VgConfig} {maps : VgMaps} {cfgPath : List UInt8}
    {ifaceOv : Option (List UInt8)} (hN : 1 ≤ cfg.dropMapSize) (hN' : cfg.dropMapSize ≤ 2 ^ 29)
    (hmaps : ∀ f, maps.kernel.lpm (.drop f) = .empty)
    (hinit : vgCtrlInit env cfg maps cfgPath ifaceOv = some c) : Roomy cfg.dropMapSize c := by
  obtain ⟨hc, -, rfl, -⟩ := vgCtrlInit_initial hinit
  have hkeys : ∀ f, c.maps.dropKeys f = 0 := fun f => by
    rw [VgMaps.dropKeys, hmaps f, Lpm.keys_empty, List.length_nil]
  have hcap : c.drops.cap = dropPoolCap cfg := by
    rw [vgCtrlInit] at hinit
    split at hinit
    · cases hinit
    · split_ifs at hinit
      exact (congrArg (fun x : VgCtrl => x.drops.cap) (Option.some.inj hinit)).symm
  refine ⟨⟨hc.sound, fun f p => ?_⟩, ?_, fun f => by rw [hkeys]; omega⟩
  · simp [DropTable.prefixes, hc.records, hmaps f, Lpm.keys_empty]
  · rw [hcap, dropPoolCap, if_pos (by omega), Nat.mod_eq_of_lt (by omega)]

/-- One family never starves the other. With maps of at most `N` prefixes, a drop of an unprotected
prefix fails exactly when it is new and the map of its family is full, and the pool is used up only
when both maps are. -/
theorem drop_fails_iff {cfg : VgConfig} {maps : VgMaps} {cfgPath : List UInt8}
    {ifaceOv : Option (List UInt8)} {c₀ c : VgCtrl} (hN : 1 ≤ cfg.dropMapSize)
    (hN' : cfg.dropMapSize ≤ 2 ^ 29) (hmaps : ∀ f, maps.kernel.lpm (.drop f) = .empty)
    (hinit : vgCtrlInit env cfg maps cfgPath ifaceOv = some c₀)
    (hrun : Relation.ReflTransGen (BoundedStep cfg.dropMapSize) c₀ c) :
    (∀ env (p : MaskedCidr), vgCidrIsProtected c.cfg p.1 = false →
      (∀ reason, Bounded cfg.dropMapSize env (.drop p.1 reason) c (vgCtrlDrop env c p.1 reason).1 →
        ((vgCtrlDrop env c p.1 reason).2 = false ↔
          p.1 ∉ c.drops.prefixes ∧ c.maps.dropKeys p.1.family = cfg.dropMapSize)) ∧
      ∀ ttl, Bounded cfg.dropMapSize env (.dropTtl p.1 ttl) c (vgCtrlDropTtl env c p.1 ttl).1 →
        ((vgCtrlDropTtl env c p.1 ttl).2 = false ↔
          p.1 ∉ c.drops.prefixes ∧ c.maps.dropKeys p.1.family = cfg.dropMapSize)) ∧
      (c.drops.dropAlloc.2 = none → ∀ f, c.maps.dropKeys f = cfg.dropMapSize) ∧
      ∀ f, c.maps.dropKeys f ≤ cfg.dropMapSize := by
  have hstart : Roomy cfg.dropMapSize c₀ := roomy_init hN hN' hmaps hinit
  have h : Roomy cfg.dropMapSize c := by
    induction hrun with
    | refl => exact hstart
    | tail _ hstep ih => exact ih.step hstep
  refine ⟨fun env p hun => ⟨fun reason hb => ?_, fun ttl hb => ?_⟩, h.full_of_alloc, h.le⟩
  · exact (h.dropAdd_iff p.2 hun hb.drop).1
  · exact (h.ticked.dropAdd_iff p.2 (c := c.ticked) hun hb.dropTtl).1

/-- A host whose drop maps hold one prefix each; the third map write fails. -/
def tinyEnv : Env := sampleEnv (· == 2)

def tinyConfig : VgConfig := { vgConfigDefaults samplePton with dropMapSize := 1 }

def tinyCtrl : VgCtrl :=
  (vgCtrlInit tinyEnv tinyConfig ⟨.fresh, 0, []⟩ [] none).get (by decide +kernel)

/-- The tiny host with its IPv4 map full. -/
def tinyFull : VgCtrl := (vgCtrlDrop tinyEnv tinyCtrl (sampleHost [198, 18, 0, 1]).1 .manual).1

instance (N : ℕ) (c : VgCtrl) (p : VgCidr) (n : ℕ) : Decidable (NoSpace N c p n) :=
  inferInstanceAs (Decidable (_ ∧ _ ∧ _))

/-- The first write arms the gate, the second fills the IPv4 map, and the next IPv4 host finds no
space. -/
theorem drop_fails_iff_sample : Relation.ReflTransGen (BoundedStep 1) tinyCtrl tinyFull ∧
    tinyFull.maps.dropKeys .inet = 1 ∧
    (vgCtrlDrop tinyEnv tinyFull (sampleHost [198, 18, 0, 2]).1 .manual).2 = false := by
  have hfirst : ∀ n, tinyCtrl.maps.writes ≤ n → n < tinyFull.maps.writes →
      (tinyEnv.fault n = true ↔ NoSpace 1 tinyCtrl (sampleHost [198, 18, 0, 1]).1 n) := by
    intro n _ hn
    have hw : tinyFull.maps.writes = 2 := by decide +kernel
    rw [hw] at hn
    obtain rfl | rfl : n = 0 ∨ n = 1 := by omega
    · decide +kernel
    · decide +kernel
  have hrun : Relation.ReflTransGen (BoundedStep 1) tinyCtrl tinyFull :=
    .single ⟨tinyEnv, .drop (sampleHost [198, 18, 0, 1]).1 .manual, (sampleHost [198, 18, 0, 1]).2, .drop,
      hfirst⟩
  have hkeys : tinyFull.maps.dropKeys .inet = 1 := by decide +kernel
  have hsecond : Bounded 1 tinyEnv (.drop (sampleHost [198, 18, 0, 2]).1 .manual) tinyFull
      (vgCtrlDrop tinyEnv tinyFull (sampleHost [198, 18, 0, 2]).1 .manual).1 := by
    intro n hlo hn
    have hw : tinyFull.maps.writes = 2 ∧ (vgCtrlDrop tinyEnv tinyFull
        (sampleHost [198, 18, 0, 2]).1 .manual).1.maps.writes = 3 := by decide +kernel
    obtain rfl : n = 2 := by omega
    have hno : NoSpace 1 tinyFull (sampleHost [198, 18, 0, 2]).1 2 := by decide +kernel
    exact iff_of_true rfl hno
  have hinit : vgCtrlInit tinyEnv tinyConfig ⟨.fresh, 0, []⟩ [] none = some tinyCtrl :=
    (Option.some_get _).symm
  have hfails := drop_fails_iff (by decide) (by decide) (fun _ => rfl) hinit hrun
  refine ⟨hrun, hkeys, ?_⟩
  refine ((hfails.1 tinyEnv (sampleHost [198, 18, 0, 2]) (by decide +kernel)).1 .manual
    hsecond).mpr ⟨by decide +kernel, hkeys⟩

end VoidGate
