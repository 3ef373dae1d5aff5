import VoidGate.FloodResponse
import VoidGate.MapHistories

/-!
# Verdicts in the middle of a command

The XDP program keeps running while a command writes to the maps, so a frame can meet
the maps after any single write. Every write of a drop or an arm drops more frames than
before, every write of an undrop or a disarm fewer, and a tick does all of the first kind
before the second. A reload is left out: it empties the allow and local maps on the way.
-/

namespace VoidGate

section Chains
variable {α β : Type*} {f : α → β} {u v : β} {l : List α} {x : α}

theorem head_of_map_eq_replicate {n : ℕ} {rest : List β}
    (h : l.map f = List.replicate (n + 1) v ++ rest) : ∃ y ∈ l.head?, f y = v := by
  cases l with
  | nil => simp [List.replicate_succ] at h
  | cons y l => exact ⟨y, rfl, (List.cons.inj h).1⟩

/-- If the value `v` stays once it is there, the values change at most once. The latest comes
first. -/
theorem exists_replicate_of_isChain (huv : ∀ x, f x = u ∨ f x = v)
    (h : l.IsChain fun later earlier => f earlier = v → f later = v) :
    ∃ a b, l.map f = List.replicate b v ++ List.replicate a u := by
  induction l with
  | nil => exact ⟨0, 0, rfl⟩
  | cons x l ih =>
    obtain ⟨hx, hl⟩ := List.isChain_cons.mp h
    obtain ⟨a, b, hab⟩ := ih hl
    by_cases hv : f x = v
    · exact ⟨a, b + 1, by rw [List.map_cons, hab, hv]; rfl⟩
    · have hu := (huv x).resolve_right hv
      cases b with
      | zero => exact ⟨a + 1, 0, by rw [List.map_cons, hab, hu]; rfl⟩
      | succ b =>
        obtain ⟨y, hy, hyv⟩ := head_of_map_eq_replicate hab
        exact absurd (hx y hy hyv) hv

private theorem exists_replicate_append_of_isChain (hne : u ≠ v) (huv : ∀ x, f x = u ∨ f x = v)
    {ds : List α} (h : (x :: l).IsChain fun later earlier => f earlier = v → f later = v)
    (hds : (ds ++ [x]).IsChain fun later earlier => f later = v → f earlier = v) :
    ∃ a b d, (ds ++ x :: l).map f =
      List.replicate d u ++ List.replicate b v ++ List.replicate a u := by
  induction ds with
  | nil =>
    obtain ⟨a, b, hab⟩ := exists_replicate_of_isChain huv h
    exact ⟨a, b, 0, hab⟩
  | cons y ds ih =>
    obtain ⟨hy, hrest⟩ := List.isChain_cons.mp hds
    obtain ⟨a, b, d, habd⟩ := ih hrest
    rcases huv y with hu | hv
    · exact ⟨a, b, d + 1, by rw [List.cons_append, List.map_cons, habd, hu]; rfl⟩
    · cases d with
      | zero => exact ⟨a, b + 1, 0, by rw [List.cons_append, List.map_cons, habd, hv]; rfl⟩
      | succ d =>
        rw [List.append_assoc] at habd
        obtain ⟨z, hz, hzu⟩ := head_of_map_eq_replicate habd
        have hhead : (ds ++ [x]).head? = (ds ++ x :: l).head? := by cases ds <;> rfl
        exact absurd (hzu.symm.trans (hy z (hhead ▸ hz) hv)) hne

end Chains

section Frames
variable {env : Env} {k k' : Kernel}

def Kernel.Hits (k : Kernel) (frame : List UInt8) : Prop :=
  k.cfg.armed ≠ 0 ∧ ∃ p, xdpLocals frame = some p ∧ exempted k p = false ∧
    (inLpm k .drop p.saddr = true ∨ inLpm k .drop p.daddr = true)

theorem voidgateXdp_hits (s : XdpState) (frame : List UInt8) (room : HashRoom) :
    (voidgateXdp s frame room).2 = .drop ↔ s.kernel.Hits frame := voidgateXdp_drop_iff s frame room

/-- What is dropped at `k` is dropped at `k'`. -/
def Tightens (k k' : Kernel) : Prop := ∀ frame, k.Hits frame → k'.Hits frame

/-- What passes at `k` passes at `k'`. -/
def Loosens (k k' : Kernel) : Prop := Tightens k' k

theorem Tightens.refl (k : Kernel) : Tightens k k := fun _ => id

theorem Loosens.refl (k : Kernel) : Loosens k k := Tightens.refl k

private theorem exempted_congr (hcfg : k'.cfg = k.cfg)
    (hlpm : ∀ fd, (∀ f, fd ≠ .drop f) → k'.lpm fd = k.lpm fd) (p : Locals) :
    exempted k' p = exempted k p := by
  have hallow (x : IpAddr) : inLpm k' .allow x = inLpm k .allow x := by
    rw [inLpm, inLpm, hlpm _ fun f => by simp]
  have hlocal (x : IpAddr) : inLpm k' .localNets x = inLpm k .localNets x := by
    rw [inLpm, inLpm, hlpm _ fun f => by simp]
  simp only [exempted, v4Exempt, v6Exempt, tcpAllowed, v4DhcpAllowed, v6DhcpAllowed, hcfg, hallow, hlocal]

theorem tightens_of_drop (hcfg : k'.cfg = k.cfg)
    (hlpm : ∀ fd, (∀ f, fd ≠ .drop f) → k'.lpm fd = k.lpm fd)
    (hdrop : ∀ x, inLpm k .drop x = true → inLpm k' .drop x = true) : Tightens k k' := by
  rintro frame ⟨harmed, p, hp, hexempt, hmatch⟩
  refine ⟨hcfg ▸ harmed, p, hp, ?_, hmatch.imp (hdrop _) (hdrop _)⟩
  rw [exempted_congr hcfg hlpm, hexempt]

theorem tightens_of_off (h : k.cfg.armed = 0) : Tightens k k' := fun _ hk => absurd h hk.1

theorem inLpm_dropUpdated (env : Env) (k : Kernel) (p : VgCidr) (reason : Reason) (now : ℤ) (x : IpAddr) :
    inLpm (dropUpdated env k p reason now) .drop x = true ↔ p.Has x ∨ inLpm k .drop x = true := by
  rw [inLpm, inLpm, VgCidr.Has]
  by_cases hf : p.family = x.family
  · rw [← hf, dropUpdated, Kernel.setLpm_self, Lpm.lookup_update]
    simp
  · rw [dropUpdated, Kernel.setLpm_ne _ _ fun he => hf (MapFd.drop.inj he).symm]
    simp [hf]

private theorem tightens_dropUpdated (env : Env) (k : Kernel) (p : VgCidr) (reason : Reason) (now : ℤ) :
    Tightens k (dropUpdated env k p reason now) :=
  tightens_of_drop rfl (fun _ hfd => Kernel.setLpm_ne _ _ (hfd _)) fun x hx =>
    (inLpm_dropUpdated env k p reason now x).mpr (.inr hx)

theorem inLpm_of_erase {f : Family} {p : VgCidr} {x : IpAddr}
    (hx : inLpm (k.setLpm (.drop f) ((k.lpm (.drop f)).erase p)) .drop x = true) :
    inLpm k .drop x = true := by
  rw [inLpm] at hx ⊢
  by_cases hf : x.family = f
  · rw [hf, Kernel.setLpm_self] at hx
    obtain ⟨e, he, ha⟩ := Lpm.lookup_iff.mp hx
    exact hf ▸ Lpm.lookup_iff.mpr ⟨e, (Lpm.mem_erase.mp he).1, ha⟩
  · rwa [Kernel.setLpm_ne _ _ fun he => hf (MapFd.drop.inj he)] at hx

theorem loosens_erase (k : Kernel) (f : Family) (p : VgCidr) :
    Loosens k (k.setLpm (.drop f) ((k.lpm (.drop f)).erase p)) :=
  tightens_of_drop rfl (fun _ hfd => (Kernel.setLpm_ne _ _ (hfd _)).symm) fun _ => inLpm_of_erase

/-- A sequence of writes, each of which changes the maps as `R` allows. -/
inductive Steers (R : Kernel → Kernel → Prop) (m : VgMaps) : VgMaps → Prop
  | refl : Steers R m m
  | next {m' : VgMaps} {k : Kernel} (h : Steers R m m') (hk : R m'.kernel k) : Steers R m (m'.wrote k)

namespace Steers
variable {R : Kernel → Kernel → Prop} {m m' m'' : VgMaps}

theorem trans (h : Steers R m m') (h' : Steers R m' m'') : Steers R m m'' := by
  induction h' with
  | refl => exact h
  | next _ hk ih => exact ih.next hk

theorem history (h : Steers R m m') : ∃ added, m'.contents = added ++ m.contents ∧
    (added ++ [m.kernel]).IsChain (fun later earlier => R earlier later) ∧
    (added ++ [m.kernel]).head? = some m'.kernel := by
  induction h with
  | refl => exact ⟨[], rfl, List.isChain_singleton _, rfl⟩
  | @next m' k h hk ih =>
    obtain ⟨added, hcontents, hchain, hhead⟩ := ih
    refine ⟨k :: added, by simp [hcontents], ?_, rfl⟩
    refine List.isChain_cons.mpr ⟨fun y hy => ?_, hchain⟩
    obtain rfl : m'.kernel = y := Option.some.inj (hhead.symm.trans hy)
    exact hk

end Steers

section Deletes
variable {R : Kernel → Kernel → Prop} (hrefl : ∀ k, R k k)
  (herase : ∀ k f p, R k (k.setLpm (.drop f) ((k.lpm (.drop f)).erase p)))
include hrefl herase

theorem steers_lpmDelete (env : Env) (m : VgMaps) (f : Family) (p : VgCidr) :
    Steers R m (lpmDelete env m (.drop f) p).1 := by
  rw [lpmDelete]
  split_ifs
  · exact Steers.refl.next (hrefl _)
  · exact Steers.refl.next (herase _ f p)
  · exact Steers.refl.next (hrefl _)

theorem steers_flushLpm (env : Env) (m : VgMaps) (f : Family) :
    Steers R m (flushLpm env m (.drop f)) := by
  rw [flushLpm_eq_deleteAll]
  generalize (m.kernel.lpm (.drop f)).keys = ks
  induction ks generalizing m with
  | nil => exact .refl
  | cons p ks ih => exact (steers_lpmDelete hrefl herase env m f p).trans (ih _)

theorem steers_vgDropFlush (env : Env) (m : VgMaps) : Steers R m (vgDropFlush env m) :=
  (steers_flushLpm hrefl herase env m .inet).trans (steers_flushLpm hrefl herase env _ .inet6)

theorem steers_dropRemove (env : Env) (c : VgCtrl) (i : ℕ) :
    Steers R c.maps (dropRemove env c i).1.maps := by
  rcases dropRemove_cases env c i with ⟨-, he⟩ | ⟨-, he⟩
  · rw [he]
    exact steers_lpmDelete hrefl herase env _ _ _
  · rw [he]
    exact steers_lpmDelete hrefl herase env _ _ _

end Deletes

end Frames

section Commands
variable {env : Env} {ok : VgCtrl → Act → Prop} {c c' : VgCtrl} {a : Act}

def IdleOff (c : VgCtrl) : Prop := c.state = .idle → c.maps.kernel.cfg.armed = 0

theorem Micro.idleOff (hm : Micro env a c c') (h : IdleOff c) : IdleOff c' := by
  intro hs'
  cases hm with
  | books hb =>
    rw [hb.maps]
    exact h (hb.state ▸ hs')
  | arm hs =>
    have he := vgCtrlArm_idle env hs
    rw [he, vgCfgCommit_eq] at hs'
    rw [he, vgCfgCommit_eq]
    cases hf : env.fault c.maps.writes with
    | true => simpa [hf] using h hs
    | false => simp [hf] at hs'
  | drop hs hp =>
    obtain ⟨maps, drops, he⟩ := dropListed_frame env c _ _ _ _
    rw [he] at hs'
    exact absurd (hs.symm.trans hs') (by decide)
  | @lift _ i hi =>
    rw [dropRemove_kernel_cfg]
    rcases dropRemove_cases env c i with ⟨-, he⟩ | ⟨-, he⟩
    · exact h (by rwa [he] at hs')
    · exact h (by rwa [he] at hs')
  | stray hf =>
    rw [vgDropDel_kernel_cfg]
    exact h hs'
  | disarm =>
    rw [vgCtrlDisarm_eq, vgCfgCommit_eq] at hs' ⊢
    cases hf : env.fault (vgDropFlush env c.maps).writes with
    | true =>
      rw [hf] at hs'
      simpa [(vgDropFlush_frame env c.maps).1] using h hs'
    | false => rfl
  | setCfg => exact h hs'
  | commit =>
    rw [vgCfgCommit_eq]
    have hidle : c.state = .idle := hs'
    cases hf : env.fault c.maps.writes with
    | true => simpa using h hs'
    | false => simp [cfgEntry, hidle]
  | populate =>
    rw [(vgPopulate_frame env c.maps c.cfg).1]
    exact h hs'

theorem Reachable.idleOff (h : Reachable env c) : IdleOff c := by
  refine h.invariant (fun hstart _ => (startUp_initial hstart).2.1) fun c cmd hs hi => ?_
  exact step_invariant hs.drops_ok hi (fun x x' a _ hi _ _ hm => hm.idleOff hi)
    fun _ _ _ _ _ => hi

def Act.IsDrop : Act → Prop
  | .books => True
  | .arm => True
  | .drop _ _ => True
  | _ => False

def Act.IsLift : Act → Prop
  | .books => True
  | .lift _ => True
  | .stray _ => True
  | .disarm => True
  | _ => False

theorem steers_dropListed {R : Kernel → Kernel → Prop} (hrefl : ∀ k, R k k) (hok : c.drops.Ok)
    {p : VgCidr} {reason : Reason} (expires : ℤ) {now : ℤ}
    (hadd : R c.maps.kernel (dropUpdated env c.maps.kernel p reason now)) :
    Steers R c.maps (dropListed env c p reason expires now).1.maps := by
  have hwrite : Steers R c.maps (vgDropAdd env c.maps p reason now).1 := by
    rw [vgDropAdd_eq]
    refine Steers.refl.next ?_
    split_ifs
    · exact hrefl _
    · exact hadd
  have hcase : DropCase env c p reason expires now _ := dropListed_case hok p reason expires now
  generalize dropListed env c p reason expires now = out at hcase
  cases hcase with
  | full => exact .refl
  | manual => exact .refl
  | _ => exact hwrite

theorem Micro.tightens (hm : Micro env a c c') (ha : a.IsDrop) (hok : c.drops.Ok) (h : IdleOff c) :
    Steers Tightens c.maps c'.maps := by
  cases hm with
  | books hb => exact hb.maps ▸ .refl
  | arm hs =>
    have he := vgCtrlArm_idle env hs
    rw [he, vgCfgCommit_eq]
    exact Steers.refl.next (tightens_of_off (h hs))
  | drop hs hp => exact steers_dropListed .refl hok _ (tightens_dropUpdated env _ _ _ _)
  | _ => exact ha.elim

theorem Micro.loosens (hm : Micro env a c c') (ha : a.IsLift) : Steers Loosens c.maps c'.maps := by
  cases hm with
  | books hb => exact hb.maps ▸ .refl
  | lift hi => exact steers_dropRemove Loosens.refl loosens_erase env c _
  | stray hf => exact steers_lpmDelete Loosens.refl loosens_erase env _ _ _
  | disarm =>
    rw [vgCtrlDisarm_eq, vgCfgCommit_eq]
    refine (steers_vgDropFlush Loosens.refl loosens_erase env c.maps).next ?_
    cases env.fault (vgDropFlush env c.maps).writes with
    | true => exact Tightens.refl _
    | false => exact tightens_of_off rfl
  | _ => exact ha.elim

theorem Trace.tightens (h : Trace env ok c c') (hact : ∀ x a, ok x a → a.IsDrop) (hok : c.drops.Ok)
    (hoff : IdleOff c) : Steers Tightens c.maps c'.maps ∧ c'.drops.Ok ∧ IdleOff c' := by
  refine h.invariant (I := fun x => Steers Tightens c.maps x.maps ∧ x.drops.Ok ∧ IdleOff x)
    ⟨.refl, hok, hoff⟩ ?_
  rintro x x' a ⟨hx, hxok, hxoff⟩ ha hm
  exact ⟨hx.trans (hm.tightens (hact x a ha) hxok hxoff), hm.drops_ok hxok, hm.idleOff hxoff⟩

theorem Trace.loosens (h : Trace env ok c c') (hact : ∀ x a, ok x a → a.IsLift) :
    Steers Loosens c.maps c'.maps :=
  h.invariant (I := fun x => Steers Loosens c.maps x.maps) .refl
    fun x _ a hx ha hm => hx.trans (hm.loosens (hact x a ha))

theorem isDrop_of_dropAct {p : VgCidr} {reason : Reason} (x : VgCtrl) (a : Act)
    (ha : DropAct p reason x a) : a.IsDrop := by
  cases a with
  | books => trivial
  | arm => trivial
  | drop => trivial
  | _ => exact ha.elim

private theorem isDrop_of_visitAct {host : VgCidr} (x : VgCtrl) (a : Act) (ha : VisitAct host x a) :
    a.IsDrop := by
  cases a with
  | books => trivial
  | arm => trivial
  | drop => trivial
  | _ => exact ha.elim

theorem isLift_of_undropAct {p : VgCidr} (x : VgCtrl) (a : Act) (ha : UndropAct p x a) :
    a.IsLift := by
  cases a with
  | lift => trivial
  | stray => trivial
  | _ => exact ha.elim

private theorem walkRemotes_tightens (hok : c.drops.Ok) (hoff : IdleOff c) (dt : ℚ) (t : TickIn) :
    Steers Tightens c.maps (walkRemotes env dt c t).maps ∧ (walkRemotes env dt c t).drops.Ok := by
  have hfold : ∀ (rs : List Remote) (x : VgCtrl), x.drops.Ok → IdleOff x →
      Steers Tightens x.maps (rs.foldl (policyOneRemote env dt) x).maps ∧
        (rs.foldl (policyOneRemote env dt) x).drops.Ok := by
    intro rs
    induction rs with
    | nil => exact fun _ hx _ => ⟨.refl, hx⟩
    | cons r rs ih =>
      intro x hx hxoff
      obtain ⟨hvisit, hok', hoff'⟩ :=
        (policyOneRemote_trace env dt x r).tightens isDrop_of_visitAct hx hxoff
      obtain ⟨hrest, hok''⟩ := ih _ hok' hoff'
      exact ⟨hvisit.trans hrest, hok''⟩
  have hwalk := hfold t.remotes { c with snaps := nextGen c.snaps } hok hoff
  rw [walkRemotes]
  split_ifs
  · exact hwalk
  · exact hwalk

private theorem expireDrops_loosens (hok : c.drops.Ok) : Steers Loosens c.maps (expireDrops env c).maps := by
  have htrace : Trace env (fun _ a => a.IsLift) c (expireDrops env c) :=
    expireDrops_lifts hok trivial fun _ _ _ _ => trivial
  exact htrace.loosens fun _ _ => id

private theorem quietTest_loosens (env : Env) (c : VgCtrl) : Steers Loosens c.maps (quietTest env c).maps := by
  have hstart : (quietStart env c).maps = c.maps := (quietStart_books env c).maps
  have hdisarm (x : VgCtrl) : Steers Loosens x.maps (vgCtrlDisarm env x).1.maps :=
    Micro.loosens .disarm trivial
  simp only [quietTest]
  split_ifs
  · rw [← hstart]
    exact hdisarm { quietStart env c with clock := (quietStart env c).clock + 1 }
  · exact hstart ▸ .refl
  · exact hstart ▸ .refl
  · exact .refl

private theorem vgCtrlTick_steers (hok : c.drops.Ok) (hoff : IdleOff c) (t : TickIn) :
    ∃ m, Steers Tightens c.maps m ∧ Steers Loosens m (vgCtrlTick env c t).1.maps := by
  have hbooks := measured_books c t
  have hok' : (measured c t).drops.Ok := hbooks.drops ▸ hok
  have hoff' : IdleOff (measured c t) := (@Micro.books env _ _ hbooks).idleOff hoff
  by_cases hw : Walks c t
  · rw [vgCtrlTick_walks env hw]
    obtain ⟨hwalk, hokw⟩ := walkRemotes_tightens hok' hoff' (c.lastTick.until t.mono) t
    exact ⟨_, hbooks.maps ▸ hwalk, (expireDrops_loosens hokw).trans (quietTest_loosens env _)⟩
  · rcases vgCtrlTick_rests env hw with he | ⟨hs, -, -, -, he⟩
    · exact ⟨c.maps, .refl, by rw [he, hbooks.maps]; exact .refl⟩
    · refine ⟨(vgCtrlTick env c t).1.maps, ?_, .refl⟩
      rw [he, ← hbooks.maps]
      exact (Micro.arm (hbooks.state.trans hs)).tightens trivial hok' hoff'

private theorem step_steers (hok : c.drops.Ok) (hoff : IdleOff c) {cmd : Cmd}
    (hreload : ∀ file nic, cmd ≠ .reload file nic) (htick : ∀ t, cmd ≠ .tick t) :
    Steers Tightens c.maps (step env c cmd).maps ∨ Steers Loosens c.maps (step env c cmd).maps := by
  have htrace : Trace env _ c _ := step_trace hok cmd
  cases cmd with
  | drop p => exact .inl (htrace.tightens isDrop_of_dropAct hok hoff).1
  | dropTtl p ttl => exact .inl (htrace.tightens isDrop_of_dropAct hok hoff).1
  | undrop p => exact .inr (htrace.loosens isLift_of_undropAct)
  | arm => exact .inl (htrace.tightens (fun x a ha => by rw [ha]; trivial) hok hoff).1
  | disarm => exact .inr (htrace.loosens fun x a ha => by rw [ha]; trivial)
  | reload file nic => exact absurd rfl (hreload file nic)
  | tick t => exact absurd rfl (htick t)

end Commands

section Verdicts
variable {env : Env} {c : VgCtrl} {m m' m'' : VgMaps}

/-- What the program says about a frame while the maps go from `m` to `m'`: before the first write and
after each one. -/
def verdictsDuring (m m' : VgMaps) (s : XdpState) (frame : List UInt8) (room : HashRoom) :
    List Verdict :=
  (m.kernel :: (recordedSince m m').reverse).map fun k => (voidgateXdp { s with kernel := k } frame room).2

variable (s : XdpState) (frame : List UInt8) (room : HashRoom)

theorem verdictsDuring_eq {added : List Kernel} (h : m'.contents = added ++ m.contents) :
    verdictsDuring m m' s frame room =
      ((added ++ [m.kernel]).map fun k => (voidgateXdp { s with kernel := k } frame room).2).reverse := by
  rw [verdictsDuring, recordedSince_eq h, ← List.map_reverse, List.reverse_append]
  rfl

theorem tightens_verdict {k k' : Kernel} (h : Tightens k k')
    (hk : (voidgateXdp { s with kernel := k } frame room).2 = .drop) :
    (voidgateXdp { s with kernel := k' } frame room).2 = .drop :=
  (voidgateXdp_hits _ _ _).mpr (h frame ((voidgateXdp_hits _ _ _).mp hk))

theorem verdict_cases (v : Verdict) : v = .pass ∨ v = .drop := by cases v <;> simp

private theorem Steers.verdicts_tighten (h : Steers Tightens m m') : ∃ a b,
    verdictsDuring m m' s frame room = List.replicate a .pass ++ List.replicate b .drop := by
  obtain ⟨added, hcontents, hchain, -⟩ := h.history
  obtain ⟨a, b, hab⟩ := exists_replicate_of_isChain (fun k => verdict_cases _)
    (hchain.imp fun k' k hk => tightens_verdict s frame room hk)
  refine ⟨a, b, ?_⟩
  rw [verdictsDuring_eq s frame room hcontents, hab, List.reverse_append, List.reverse_replicate,
    List.reverse_replicate]

private theorem Steers.verdicts_loosen (h : Steers Loosens m m') : ∃ b d,
    verdictsDuring m m' s frame room = List.replicate b .drop ++ List.replicate d .pass := by
  obtain ⟨added, hcontents, hchain, -⟩ := h.history
  obtain ⟨b, d, hbd⟩ := exists_replicate_of_isChain (fun k => (verdict_cases _).symm)
    (hchain.imp fun k' k hk hpass => (verdict_cases _).resolve_right fun hdrop =>
      Verdict.noConfusion (hpass.symm.trans (tightens_verdict s frame room hk hdrop)))
  refine ⟨b, d, ?_⟩
  rw [verdictsDuring_eq s frame room hcontents, hbd, List.reverse_append, List.reverse_replicate,
    List.reverse_replicate]

private theorem Steers.verdicts_both (h : Steers Tightens m m') (h' : Steers Loosens m' m'') : ∃ a b d,
    verdictsDuring m m'' s frame room =
      List.replicate a .pass ++ List.replicate b .drop ++ List.replicate d .pass := by
  obtain ⟨us, hus, hchain, hhead⟩ := h.history
  obtain ⟨ds, hds, hchain', -⟩ := h'.history
  obtain ⟨l, hl⟩ : ∃ l, us ++ [m.kernel] = m'.kernel :: l := List.head?_eq_some_iff.mp hhead
  have hcontents : m''.contents = (ds ++ us) ++ m.contents := by
    rw [hds, hus, List.append_assoc]
  rw [hl] at hchain
  obtain ⟨a, b, d, habd⟩ := exists_replicate_append_of_isChain (by decide) (fun k => verdict_cases _)
    (hchain.imp fun k' k hk => tightens_verdict s frame room hk)
    (hchain'.imp fun k' k hk => tightens_verdict s frame room hk)
  refine ⟨a, b, d, ?_⟩
  rw [verdictsDuring_eq s frame room hcontents, List.append_assoc, hl, habd]
  simp only [List.reverse_append, List.reverse_replicate, List.append_assoc]

/-- While a command other than a reload writes to the maps, a frame goes over from passed to dropped
or from dropped to passed at most once. A tick may start to drop it and let it pass again after that,
but it never drops it again then. -/
theorem verdicts_never_flap (h : Reachable env c) {cmd : Cmd}
    (hreload : ∀ file nic, cmd ≠ .reload file nic) :
    ∃ a b d, verdictsDuring c.maps (step env c cmd).maps s frame room =
        List.replicate a .pass ++ List.replicate b .drop ++ List.replicate d .pass ∧
      ((∀ t, cmd ≠ .tick t) → a = 0 ∨ d = 0) := by
  have hok := h.sound.drops_ok
  by_cases htick : ∃ t, cmd = .tick t
  · obtain ⟨t, rfl⟩ := htick
    obtain ⟨m, hup, hdown⟩ := vgCtrlTick_steers hok h.idleOff t
    obtain ⟨a, b, d, habd⟩ := hup.verdicts_both s frame room hdown
    exact ⟨a, b, d, habd, fun hno => absurd rfl (hno t)⟩
  · rcases step_steers hok h.idleOff hreload fun t ht => htick ⟨t, ht⟩ with hup | hdown
    · obtain ⟨a, b, hab⟩ := hup.verdicts_tighten s frame room
      exact ⟨a, b, 0, by rw [hab, List.replicate_zero, List.append_nil], fun _ => .inr rfl⟩
    · obtain ⟨b, d, hbd⟩ := hdown.verdicts_loosen s frame room
      exact ⟨0, b, d, hbd, fun _ => .inl rfl⟩

/-- A first drop is two writes: the commit that arms the gate, and the entry of the prefix. -/
theorem verdicts_never_flap_first :
    verdictsDuring steadyStart.maps (step steadyEnv steadyStart (.drop ⟨sampleSource.host,
      sampleSource.masked_host⟩)).maps (sampleGateway.cpu 0) sampleFrame freeRoom =
        [.pass, .pass, .drop] ∧
      ∃ a b d, [Verdict.pass, .pass, .drop] =
        List.replicate a .pass ++ List.replicate b .drop ++ List.replicate d .pass := by
  have hreach : Reachable steadyEnv steadyStart := ⟨_, _, _, _, _, steadyStart_eq, .start⟩
  have hverdicts : verdictsDuring steadyStart.maps (step steadyEnv steadyStart (.drop
      ⟨sampleSource.host, sampleSource.masked_host⟩)).maps (sampleGateway.cpu 0) sampleFrame freeRoom =
      [.pass, .pass, .drop] := by decide +kernel
  have hcmd : ∀ file nic, Cmd.drop ⟨sampleSource.host, sampleSource.masked_host⟩ ≠ .reload file nic :=
    fun _ _ he => by cases he
  obtain ⟨a, b, d, habd, -⟩ :=
    verdicts_never_flap (sampleGateway.cpu 0) sampleFrame freeRoom hreach hcmd
  exact ⟨hverdicts, a, b, d, hverdicts.symm.trans habd⟩

end Verdicts

end VoidGate
