import VoidGate.ReloadPrune
import VoidGate.XdpVerdict
import Mathlib.Data.Set.Operations

/-!
# Histories of map writes

The XDP program may run after any single write, so a call is more than its effect at
the end: every content it goes through is recorded. The calls that fill and flush
maps of one kind leave all other maps alone at every moment.
-/

namespace VoidGate

open BitPrefixes

variable {env : Env}

/-- A sequence of writes to the maps in `S`. -/
inductive Writes (S : Set MapFd) (m : VgMaps) : VgMaps → Prop
  | refl : Writes S m m
  | next {m' : VgMaps} (h : Writes S m m') (k : Kernel) (cfg : k.cfg = m'.kernel.cfg)
      (lpm : ∀ fd, fd ∉ S → k.lpm fd = m'.kernel.lpm fd) : Writes S m (m'.wrote k)

namespace Writes
variable {S : Set MapFd} {m m' m'' : VgMaps}

theorem trans (h : Writes S m m') (h' : Writes S m' m'') : Writes S m m'' := by
  induction h' with
  | refl => exact h
  | next _ k cfg lpm ih => exact ih.next k cfg lpm

/-- Off the maps in `S`, every content recorded on the way is the one at the start; and the
content at the end has been recorded, unless nothing was written. -/
theorem history (h : Writes S m m') : ∃ added, m'.contents = added ++ m.contents ∧
    (∀ k, k = m'.kernel ∨ k ∈ added →
      k.cfg = m.kernel.cfg ∧ ∀ fd, fd ∉ S → k.lpm fd = m.kernel.lpm fd) ∧
    (m' = m ∨ m'.kernel ∈ added) := by
  induction h with
  | refl =>
    refine ⟨[], rfl, fun k hk => ?_, .inl rfl⟩
    obtain rfl : k = m.kernel := by simpa using hk
    exact ⟨rfl, fun _ _ => rfl⟩
  | @next m' _ k cfg lpm ih =>
    obtain ⟨added, hadd, hframe, -⟩ := ih
    obtain ⟨hcfg, hlpm⟩ := hframe m'.kernel (.inl rfl)
    refine ⟨k :: added, by simp [hadd], fun k' hk' => ?_, .inr (by simp)⟩
    rcases hk' with rfl | hk'
    · exact ⟨cfg.trans hcfg, fun fd hfd => (lpm fd hfd).trans (hlpm fd hfd)⟩
    · rcases List.mem_cons.mp hk' with rfl | hk'
      · exact ⟨cfg.trans hcfg, fun fd hfd => (lpm fd hfd).trans (hlpm fd hfd)⟩
      · exact hframe k' (.inr hk')

theorem writes_le (h : Writes S m m') : m.writes ≤ m'.writes := by
  induction h with
  | refl => exact le_rfl
  | next _ k _ _ ih => exact ih.trans (Nat.le_succ _)

theorem frame (h : Writes S m m') :
    m'.kernel.cfg = m.kernel.cfg ∧ ∀ fd, fd ∉ S → m'.kernel.lpm fd = m.kernel.lpm fd := by
  obtain ⟨_, -, hframe, -⟩ := h.history
  exact hframe _ (.inl rfl)

/-- The contents between two stages of writing to the same maps. That of the first stage is one of
them, unless it is still the one at the start; the same for the second. -/
theorem history_through (h : Writes S m m') (h' : Writes S m' m'') :
    ∃ added, m''.contents = added ++ m.contents ∧
      (∀ k ∈ added, k.cfg = m.kernel.cfg ∧ ∀ fd, fd ∉ S → k.lpm fd = m.kernel.lpm fd) ∧
      (m'.kernel = m.kernel ∨ m'.kernel ∈ added) ∧ (m''.kernel = m.kernel ∨ m''.kernel ∈ added) := by
  obtain ⟨a, hc, hf, hend⟩ := h.history
  obtain ⟨a', hc', hf', hend'⟩ := h'.history
  obtain ⟨hcfg, hlpm⟩ := h.frame
  have hfirst : m'.kernel = m.kernel ∨ m'.kernel ∈ a' ++ a :=
    hend.imp (congrArg VgMaps.kernel) (List.mem_append_right a')
  refine ⟨a' ++ a, ?_, ?_, hfirst, ?_⟩
  · rw [hc', hc, List.append_assoc]
  · intro k hk
    rcases List.mem_append.mp hk with hk | hk
    · obtain ⟨hkc, hkl⟩ := hf' k (.inr hk)
      exact ⟨hkc.trans hcfg, fun fd hfd => (hkl fd hfd).trans (hlpm fd hfd)⟩
    · exact hf k (.inr hk)
  · rcases hend' with rfl | hm
    · exact hfirst
    · exact .inr (List.mem_append_left a hm)

end Writes

section Calls
variable (env : Env) {S : Set MapFd}

theorem writes_lpmDelete (m : VgMaps) {fd : MapFd} (hfd : fd ∈ S) (p : VgCidr) :
    Writes S m (lpmDelete env m fd p).1 := by
  have hset (t : Lpm) : Writes S m (m.wrote (m.kernel.setLpm fd t)) :=
    Writes.refl.next _ rfl fun fd' hne => Kernel.setLpm_ne _ _ fun he => hne (he ▸ hfd)
  rw [lpmDelete]
  split_ifs
  · exact Writes.refl.next _ rfl fun _ _ => rfl
  · exact hset _
  · exact Writes.refl.next _ rfl fun _ _ => rfl

private theorem writes_lpmUpdate (m : VgMaps) {fd : MapFd} (hfd : fd ∈ S) (p : VgCidr) (v : MapValue) :
    Writes S m (lpmUpdate env m fd p v).1 := by
  rw [lpmUpdate]
  split_ifs
  · exact Writes.refl.next _ rfl fun _ _ => rfl
  · exact Writes.refl.next _ rfl fun fd' hne => Kernel.setLpm_ne _ _ fun he => hne (he ▸ hfd)

theorem writes_flushLpm (m : VgMaps) {fd : MapFd} (hfd : fd ∈ S) :
    Writes S m (flushLpm env m fd) := by
  rw [flushLpm_eq_deleteAll]
  generalize (m.kernel.lpm fd).keys = ks
  induction ks generalizing m with
  | nil => exact .refl
  | cons k ks ih => exact (writes_lpmDelete env m hfd k).trans (ih _)

theorem writes_populate (fd : Family → MapFd) (m : VgMaps) (nets : List VgCidr) :
    Writes (Set.range fd) m (populate env fd m nets) := by
  induction nets generalizing m with
  | nil => exact .refl
  | cons p nets ih => exact (writes_lpmUpdate env m (Set.mem_range_self _) p .one).trans (ih _)

theorem writes_dropDels (m : VgMaps) (ps : List VgCidr) :
    Writes (Set.range .drop) m (dropDels env m ps) := by
  induction ps generalizing m with
  | nil => exact .refl
  | cons p ps ih => exact (writes_lpmDelete env m (Set.mem_range_self _) p).trans (ih _)

/-- The two flushes of one kind of map. -/
def flushBoth (fd : Family → MapFd) (m : VgMaps) : VgMaps :=
  flushLpm env (flushLpm env m (fd .inet)) (fd .inet6)

theorem writes_flushBoth (fd : Family → MapFd) (m : VgMaps) :
    Writes (Set.range fd) m (flushBoth env fd m) :=
  (writes_flushLpm env m (Set.mem_range_self _)).trans
    (writes_flushLpm env _ (Set.mem_range_self _))

end Calls

/-- The contents of the maps recorded after `m`, the latest first. -/
def recordedSince (m m' : VgMaps) : List Kernel :=
  m'.contents.take (m'.contents.length - m.contents.length)

theorem recordedSince_eq {m m' : VgMaps} {added : List Kernel}
    (h : m'.contents = added ++ m.contents) : recordedSince m m' = added := by
  rw [recordedSince, h, List.length_append, Nat.add_sub_cancel, List.take_left]

theorem mem_dropDels_of_ok {m : VgMaps} {ps : List VgCidr}
    (hok : ∀ j, m.writes ≤ j → env.fault j = false) (f : Family) (e : VgCidr × MapValue) :
    e ∈ ((dropDels env m ps).kernel.lpm (.drop f)).entries ↔
      e ∈ (m.kernel.lpm (.drop f)).entries ∧ ∀ p ∈ ps, p.family = f → sameKey p e.1 = false := by
  have hindex (q : VgCidr × ℕ) (hq : q ∈ ps.zipIdx m.writes) : env.fault q.2 = false :=
    hok _ (List.mem_zipIdx hq).1
  rw [mem_dropDels, and_congr_right_iff]
  intro _
  conv_rhs => rw [← List.zipIdx_map_fst m.writes ps, List.forall_mem_map]
  refine forall₂_congr fun q hq => ?_
  simp [hindex q hq]

private theorem lpmUpdate_matches {m : VgMaps} {fd : Family → MapFd} (hinj : Function.Injective fd)
    (hok : env.fault m.writes = false) (p : VgCidr) (v : MapValue) (x : IpAddr) :
    (lpmUpdate env m (fd p.family) p v).1.kernel.Matches fd x ↔ p.Has x ∨ m.kernel.Matches fd x := by
  rw [← inLpm_iff, ← inLpm_iff, inLpm, inLpm, lpmUpdate, if_neg (by simp [hok]), VgCidr.Has]
  by_cases hf : p.family = x.family
  · rw [hf, VgMaps.wrote_kernel, Kernel.setLpm_self, Lpm.lookup_update]
    simp
  · rw [VgMaps.wrote_kernel, Kernel.setLpm_ne _ _ fun he => hf (hinj he).symm]
    simp [hf]

theorem populate_matches {fd : Family → MapFd} (hinj : Function.Injective fd) {m : VgMaps}
    {nets : List VgCidr} (hok : ∀ j, m.writes ≤ j → env.fault j = false) (x : IpAddr) :
    (populate env fd m nets).kernel.Matches fd x ↔
      (∃ q ∈ nets, q.Has x) ∨ m.kernel.Matches fd x := by
  induction nets generalizing m with
  | nil => simp [populate]
  | cons p nets ih =>
    have hwrites : (lpmUpdate env m (fd p.family) p .one).1.writes = m.writes + 1 := by
      rw [lpmUpdate]
      split_ifs <;> rfl
    rw [populate, List.foldl_cons, ← populate, ih fun j hj => hok j (by omega),
      lpmUpdate_matches hinj (hok _ le_rfl)]
    simp only [List.mem_cons, exists_eq_or_imp]
    rw [or_assoc, or_left_comm]

theorem flushBoth_empty {fd : Family → MapFd} (hinj : Function.Injective fd) {m : VgMaps}
    (hok : ∀ j, m.writes ≤ j → env.fault j = false) (f : Family) :
    ((flushBoth env fd m).kernel.lpm (fd f)).entries = [] := by
  have hok' : ∀ j, (flushLpm env m (fd .inet)).writes ≤ j → env.fault j = false := fun j hj =>
    hok j (by rw [flushLpm_writes] at hj; omega)
  obtain ⟨-, hframe⟩ := flushLpm_frame env (flushLpm env m (fd .inet)) (fd .inet6)
  cases f with
  | inet =>
    rw [flushBoth, hframe _ (hinj.ne (by decide))]
    exact (flushLpm_empty_iff env m _).mpr fun j _ => hok _ (Nat.le_add_right _ _)
  | inet6 => exact (flushLpm_empty_iff env _ _).mpr fun j _ => hok' _ (Nat.le_add_right _ _)

theorem not_matches_flushBoth {fd : Family → MapFd} (hinj : Function.Injective fd) {m : VgMaps}
    (hok : ∀ j, m.writes ≤ j → env.fault j = false) (x : IpAddr) :
    ¬ (flushBoth env fd m).kernel.Matches fd x := by
  rintro ⟨q, hq, -⟩
  simp [Lpm.keys, flushBoth_empty hinj hok] at hq

theorem matches_congr {k k' : Kernel} {fd : Family → MapFd} (h : ∀ f, k.lpm (fd f) = k'.lpm (fd f))
    (x : IpAddr) : k.Matches fd x ↔ k'.Matches fd x := by
  rw [Kernel.Matches, Kernel.Matches, h]

theorem allow_injective : Function.Injective MapFd.allow := fun _ _ h => MapFd.allow.inj h

theorem localNets_injective : Function.Injective MapFd.localNets := fun _ _ h =>
  MapFd.localNets.inj h

end VoidGate
