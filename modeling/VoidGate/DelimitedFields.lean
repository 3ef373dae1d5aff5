import Mathlib.Data.List.DropRight
import Mathlib.Data.List.Basic

/-!
# Fields between separators

A text is cut at every separator, blanks around each part are dropped, and the parts
that are left empty do not count. What is left are the fields of the text. Blanks and
further separators around a word leave its fields as they are, and a gap with a
separator in it lets the fields on both sides follow each other.
-/

namespace VoidGate.DelimitedFields

variable {α : Type*} {blank : α → Bool} {sep : α} {s t g w : List α}

def strip (blank : α → Bool) (s : List α) : List α := (s.dropWhile blank).rdropWhile blank

/-- The parts between separators, without blanks around them, that are not empty. -/
def fields [BEq α] (blank : α → Bool) (sep : α) (s : List α) : List (List α) :=
  ((s.splitOn sep).map (strip blank)).filter fun w => !w.isEmpty

/-- Blanks and separators only. -/
def IsGap (blank : α → Bool) (sep : α) (g : List α) : Prop := ∀ b ∈ g, blank b = true ∨ b = sep

structure IsWord (blank : α → Bool) (sep : α) (w : List α) : Prop where
  ne_nil : w ≠ []
  noSep : sep ∉ w
  strip_eq : strip blank w = w

def spaced (items : List (List α × List α)) (last : List α) : List α :=
  items.flatMap (fun x => x.1 ++ x.2) ++ last

theorem spaced_cons (x : List α × List α) (items : List (List α × List α)) (last : List α) :
    spaced (x :: items) last = x.1 ++ (x.2 ++ spaced items last) := by
  simp [spaced]

theorem strip_append_left (hg : ∀ b ∈ g, blank b = true) : strip blank (g ++ s) = strip blank s := by
  rw [strip, List.dropWhile_append_of_pos hg, strip]

theorem rdropWhile_append (hg : ∀ b ∈ g, blank b = true) :
    (s ++ g).rdropWhile blank = s.rdropWhile blank := by
  rw [List.rdropWhile, List.reverse_append, List.dropWhile_append_of_pos, List.rdropWhile]
  exact fun b hb => hg b (List.mem_reverse.mp hb)

theorem strip_append_right (hg : ∀ b ∈ g, blank b = true) :
    strip blank (s ++ g) = strip blank s := by
  rw [strip, strip, List.dropWhile_append]
  split_ifs with hs
  · have hnil : s.dropWhile blank = [] := by simpa using hs
    rw [hnil, List.dropWhile_eq_nil_iff.mpr hg]
  · exact rdropWhile_append hg

theorem strip_of_forall (h : ∀ b ∈ w, blank b = false) : strip blank w = w := by
  have hl : w.dropWhile blank = w := by
    cases w with
    | nil => rfl
    | cons b w => rw [List.dropWhile_cons_of_neg (by simp [h b])]
  rw [strip, hl, List.rdropWhile_eq_self_iff]
  exact fun hne => by simp [h _ (List.getLast_mem hne)]

theorem blank_of_strip_eq_nil (h : strip blank s = []) : ∀ b ∈ s, blank b = true := by
  have hall := List.rdropWhile_eq_nil_iff.mp h
  rw [← List.dropWhile_eq_nil_iff]
  cases hs : s.dropWhile blank with
  | nil => rfl
  | cons b u =>
    have hb := List.head?_dropWhile_not blank s
    rw [hs] at hb hall
    simp [hall b List.mem_cons_self] at hb

theorem IsWord.of_forall (hne : w ≠ []) (h : ∀ b ∈ w, blank b = false ∧ b ≠ sep) :
    IsWord blank sep w :=
  ⟨hne, fun hm => (h sep hm).2 rfl, strip_of_forall fun b hb => (h b hb).1⟩

theorem sep_induction [DecidableEq α] (sep : α) {motive : List α → Prop} (word : ∀ w, sep ∉ w → motive w)
    (cut : ∀ s t, motive s → motive t → motive (s ++ sep :: t)) (s : List α) : motive s := by
  induction hn : s.length using Nat.strong_induction_on generalizing s with
  | _ n ih =>
    by_cases hs : sep ∈ s
    · obtain ⟨l, r, rfl⟩ := List.append_of_mem hs
      rw [List.length_append, List.length_cons] at hn
      exact cut l r (ih _ (by omega) l rfl) (ih _ (by omega) r rfl)
    · exact word s hs

section Fields
variable [DecidableEq α]

theorem fields_of_not_mem (h : sep ∉ w) :
    fields blank sep w = if strip blank w = [] then [] else [strip blank w] := by
  have hsingle : w.splitOn sep = [w] :=
    List.splitOnP_eq_singleton fun x hx => by simpa using fun he : x = sep => h (he ▸ hx)
  rw [fields, hsingle]
  by_cases hw : strip blank w = []
  · simp [hw]
  · simp [hw]

theorem fields_cut (s t : List α) :
    fields blank sep (s ++ sep :: t) = fields blank sep s ++ fields blank sep t := by
  have hcut : (s ++ sep :: t).splitOn sep = s.splitOn sep ++ t.splitOn sep :=
    List.splitOnP_append_cons s t (by simp)
  rw [fields, hcut, List.map_append, List.filter_append, fields, fields]

@[simp] theorem fields_nil : fields blank sep [] = [] := by
  rw [fields_of_not_mem List.not_mem_nil]
  rfl

theorem IsWord.fields_eq (h : IsWord blank sep w) : fields blank sep w = [w] := by
  rw [fields_of_not_mem h.noSep, h.strip_eq, if_neg h.ne_nil]

section Blanks
variable (hsep : blank sep = false)
include hsep

omit [DecidableEq α] in
theorem not_mem_blanks (hg : ∀ b ∈ g, blank b = true) : sep ∉ g := by
  intro hm
  rw [hg sep hm] at hsep
  cases hsep

theorem fields_append_left (hg : ∀ b ∈ g, blank b = true) :
    fields blank sep (g ++ s) = fields blank sep s := by
  induction s using sep_induction sep with
  | word w hw =>
    have hgw : sep ∉ g ++ w := fun hm =>
      (List.mem_append.mp hm).elim (not_mem_blanks hsep hg) hw
    rw [fields_of_not_mem hgw, fields_of_not_mem hw, strip_append_left hg]
  | cut s t ih _ => rw [← List.append_assoc, fields_cut, ih, fields_cut]

theorem fields_append_right (hg : ∀ b ∈ g, blank b = true) :
    fields blank sep (s ++ g) = fields blank sep s := by
  induction s using sep_induction sep with
  | word w hw =>
    have hgw : sep ∉ w ++ g := fun hm =>
      (List.mem_append.mp hm).elim hw (not_mem_blanks hsep hg)
    rw [fields_of_not_mem hgw, fields_of_not_mem hw, strip_append_right hg]
  | cut s t _ ih => rw [List.append_assoc, List.cons_append, fields_cut, ih, fields_cut]

theorem fields_strip (s : List α) : fields blank sep (strip blank s) = fields blank sep s := by
  have hr : ∀ t : List α, fields blank sep (t.rdropWhile blank) = fields blank sep t := by
    intro t
    have hblank : ∀ b ∈ t.rtakeWhile blank, blank b = true := fun b hb => by
      rw [List.rtakeWhile, List.mem_reverse] at hb
      exact List.mem_takeWhile_imp hb
    rw [← fields_append_right hsep hblank, List.rdropWhile_append_rtakeWhile]
  have hl : fields blank sep (s.dropWhile blank) = fields blank sep s := by
    have hblank : ∀ b ∈ s.takeWhile blank, blank b = true := fun b hb => List.mem_takeWhile_imp hb
    rw [← fields_append_left hsep hblank, List.takeWhile_append_dropWhile]
  rw [strip, hr, hl]

theorem fields_gap_append (hg : IsGap blank sep g) :
    fields blank sep (g ++ s) = fields blank sep s := by
  induction g with
  | nil => rfl
  | cons b g ih =>
    obtain ⟨hb, hg⟩ := List.forall_mem_cons.mp hg
    rcases hb with hb | rfl
    · have hone : ∀ x ∈ [b], blank x = true := by simpa using hb
      rw [List.cons_append, ← List.singleton_append, fields_append_left hsep hone, ih hg]
    · have hcut : fields blank b ([] ++ b :: (g ++ s)) = _ := fields_cut [] (g ++ s)
      rw [List.nil_append] at hcut
      rw [List.cons_append, hcut, fields_nil, List.nil_append, ih hg]

theorem fields_append_gap (hg : IsGap blank sep g) :
    fields blank sep (s ++ g) = fields blank sep s := by
  induction g using List.reverseRecOn with
  | nil => rw [List.append_nil]
  | append_singleton g b ih =>
    have hg' : IsGap blank sep g := fun x hx => hg x (List.mem_append_left _ hx)
    rw [← List.append_assoc]
    rcases hg b (List.mem_append_right _ (List.mem_singleton_self b)) with hb | rfl
    · have hone : ∀ x ∈ [b], blank x = true := by simpa using hb
      rw [fields_append_right hsep hone, ih hg']
    · rw [fields_cut, fields_nil, List.append_nil, ih hg']

theorem fields_eq_nil_iff : fields blank sep s = [] ↔ IsGap blank sep s := by
  constructor
  · intro h
    induction s using sep_induction sep with
    | word w hw =>
      rw [fields_of_not_mem hw] at h
      split_ifs at h with hstrip
      exact fun b hb => .inl (blank_of_strip_eq_nil hstrip b hb)
    | cut s t ihs iht =>
      rw [fields_cut, List.append_eq_nil_iff] at h
      intro b hb
      rcases List.mem_append.mp hb with hb | hb
      · exact ihs h.1 b hb
      · rcases List.mem_cons.mp hb with rfl | hb
        · exact .inr rfl
        · exact iht h.2 b hb
  · intro h
    have hgap := fields_gap_append (s := []) hsep h
    rwa [List.append_nil, fields_nil] at hgap

theorem fields_gap_between (hg : IsGap blank sep g) (hm : sep ∈ g) :
    fields blank sep (s ++ (g ++ t)) = fields blank sep s ++ fields blank sep t := by
  obtain ⟨l, r, rfl⟩ := List.append_of_mem hm
  have hl : IsGap blank sep l := fun b hb => hg b (List.mem_append_left _ hb)
  have hr : IsGap blank sep r := fun b hb =>
    hg b (List.mem_append_right _ (List.mem_cons_of_mem _ hb))
  rw [List.append_assoc, List.cons_append, ← List.append_assoc, fields_cut,
    fields_append_gap hsep hl, fields_gap_append hsep hr]

section Spaced
variable {items : List (List α × List α)} {last : List α}

theorem fields_word_spaced (hw : IsWord blank sep w) (hgap : ∀ x ∈ items, IsGap blank sep x.1)
    (hword : ∀ x ∈ items, IsWord blank sep x.2) (hcut : ∀ x ∈ items, sep ∈ x.1)
    (hlast : IsGap blank sep last) :
    fields blank sep (w ++ spaced items last) = w :: items.map Prod.snd := by
  induction items generalizing w with
  | nil =>
    rw [spaced, List.flatMap_nil, List.nil_append, fields_append_gap hsep hlast, hw.fields_eq]
    rfl
  | cons x items ih =>
    obtain ⟨hxg, hgap⟩ := List.forall_mem_cons.mp hgap
    obtain ⟨hxw, hword⟩ := List.forall_mem_cons.mp hword
    obtain ⟨hxc, hcut⟩ := List.forall_mem_cons.mp hcut
    rw [spaced_cons, fields_gap_between hsep hxg hxc, hw.fields_eq, ih hxw hgap hword hcut]
    rfl

theorem fields_spaced (hgap : ∀ x ∈ items, IsGap blank sep x.1)
    (hword : ∀ x ∈ items, IsWord blank sep x.2) (hcut : ∀ x ∈ items.tail, sep ∈ x.1)
    (hlast : IsGap blank sep last) :
    fields blank sep (spaced items last) = items.map Prod.snd := by
  cases items with
  | nil => simpa [spaced, fields_nil] using fields_append_gap (s := []) hsep hlast
  | cons x items =>
    obtain ⟨hxg, hgap⟩ := List.forall_mem_cons.mp hgap
    obtain ⟨hxw, hword⟩ := List.forall_mem_cons.mp hword
    rw [spaced_cons, fields_gap_append hsep hxg, fields_word_spaced hsep hxw hgap hword hcut hlast]
    rfl

end Spaced

end Blanks

end Fields

end VoidGate.DelimitedFields
