import VoidGate.LuaReplies

/-!
# The drops listing

`ctl_drops` writes a line for each drop as long as more than 80 bytes of the reply are
free. A line never needs that much, so that the listing consists of whole lines, and
`client:drops` reads from it what the daemon printed. About the library calls it is
assumed that `inet_ntop` returns a short text without blanks and that `tonumber` reads
integers that a double can hold.
-/

namespace VoidGate

open Patterns

variable {o : Outside} {lua : LuaMachine} {c : VgCtrl}

/-- What is assumed of `inet_ntop`. -/
structure NtopTexts (ntop : Family → Octets → List UInt8) : Prop where
  short : ∀ f a, (ntop f a).length ≤ 39
  plain : ∀ f a, ∀ b ∈ ntop f a, isspace b = false

/-- What is assumed of `tonumber`. -/
def ReadsIntegers (lua : LuaMachine) : Prop :=
  ∀ z : ℤ, z.natAbs < 2 ^ 53 → lua.ofString (intText z) = some (.finite z)

theorem isspace_of_isDigit {b : UInt8} (h : Decimals.isDigit b = true) : isspace b = false := by
  have hall : ∀ n < 256, Decimals.isDigit (UInt8.ofNat n) = true →
      isspace (UInt8.ofNat n) = false := by
    decide +kernel
  simpa using hall b.toNat b.toNat_lt (by simpa using h)

theorem intText_natCast (n : ℕ) : intText n = Decimals.text n := by simp [intText]

theorem intText_ne_nil (z : ℤ) : intText z ≠ [] := by
  rw [intText]
  split_ifs
  · exact List.cons_ne_nil _ _
  · exact Decimals.text_ne_nil _

theorem isspace_of_mem_intText {z : ℤ} {b : UInt8} (hb : b ∈ intText z) : isspace b = false := by
  rw [intText] at hb
  split_ifs at hb
  · rcases List.mem_cons.mp hb with rfl | hb
    · rfl
    · exact isspace_of_isDigit (Decimals.isDigit_of_mem_text hb)
  · exact isspace_of_isDigit (Decimals.isDigit_of_mem_text hb)

private theorem length_intText_le {z : ℤ} (h : z.natAbs < 2 ^ 53) : (intText z).length ≤ 17 := by
  have hlen : (Decimals.text z.natAbs).length ≤ 16 :=
    Decimals.length_text_le (by decide) (h.trans (by decide))
  rw [intText]
  split_ifs
  · rw [List.length_cons]
    omega
  · omega

def dropText (o : Outside) (i : ℕ) (r : VgDropRec) : List UInt8 :=
  vgCidrToStr o r.cidr ++ bytes " reason=" ++ Decimals.text r.reason.num ++ bytes " age=" ++
    intText (o.time i - r.inserted)

section Texts
variable (h : NtopTexts o.inetNtop)
include h

theorem NtopTexts.vgCidrToStr_eq (p : VgCidr) : vgCidrToStr o p =
    o.inetNtop p.family p.addr ++ 47 :: Decimals.text p.prefixlen ∧
      (vgCidrToStr o p).length ≤ 43 := by
  have hshort := h.short p.family p.addr
  have hlen : (Decimals.text p.prefixlen).length ≤ 3 := by
    refine Decimals.length_text_le (by decide) (p.prefixlen_le.trans_lt ?_)
    cases p.family <;> decide
  have hall : (o.inetNtop p.family p.addr ++ 47 :: Decimals.text p.prefixlen).length ≤ 43 := by
    rw [List.length_append, List.length_cons]
    omega
  have heq : vgCidrToStr o p = o.inetNtop p.family p.addr ++ 47 :: Decimals.text p.prefixlen :=
    List.take_of_length_le (hall.trans (by decide))
  exact ⟨heq, heq ▸ hall⟩

theorem NtopTexts.vgCidrToStr_plain (p : VgCidr) : vgCidrToStr o p ≠ [] ∧
    ∀ b ∈ vgCidrToStr o p, isspace b = false := by
  rw [(h.vgCidrToStr_eq p).1]
  refine ⟨List.append_ne_nil_of_right_ne_nil _ (List.cons_ne_nil _ _), fun b hb => ?_⟩
  rcases List.mem_append.mp hb with hb | hb
  · exact h.plain _ _ b hb
  · rcases List.mem_cons.mp hb with rfl | hb
    · rfl
    · exact isspace_of_isDigit (Decimals.isDigit_of_mem_text hb)

private theorem NtopTexts.length_dropLine_le {i : ℕ} {r : VgDropRec}
    (hage : (o.time i - r.inserted).natAbs < 2 ^ 53) : (dropLine o i r).length ≤ 75 := by
  have hcidr := (h.vgCidrToStr_eq r.cidr).2
  have hreason : (Decimals.text r.reason.num).length = 1 := by cases r.reason <;> rfl
  have hint := length_intText_le hage
  simp only [dropLine, List.length_append, hreason]
  have hfix : (bytes " reason=").length = 8 ∧ (bytes " age=").length = 5 ∧
      (bytes "\n").length = 1 := by decide
  omega

private theorem NtopTexts.newline_not_mem (i : ℕ) (r : VgDropRec) : 10 ∉ dropText o i r := by
  simp only [dropText, List.mem_append, not_or]
  have hplain := (h.vgCidrToStr_plain r.cidr).2 10
  refine ⟨⟨⟨⟨fun hm => ?_, by decide⟩, fun hm => ?_⟩, by decide⟩, fun hm => ?_⟩
  · cases hplain hm
  · cases Decimals.isDigit_of_mem_text hm
  · cases isspace_of_mem_intText hm

private theorem NtopTexts.luaDrop_dropText (hlua : ReadsIntegers lua) {i : ℕ} {r : VgDropRec}
    (hage : (o.time i - r.inserted).natAbs < 2 ^ 53) :
    luaDrop lua (dropText o i r) = some ⟨vgCidrToStr o r.cidr,
      .number (.finite r.reason.num), .number (.finite (o.time i - r.inserted : ℤ))⟩ := by
  have hcidr := h.vgCidrToStr_plain r.cidr
  have hreason : lua.numberOr (Decimals.text r.reason.num) = .number (.finite r.reason.num) := by
    have hnum : lua.ofString (intText r.reason.num) = some (.finite (r.reason.num : ℤ)) :=
      hlua _ (by cases r.reason <;> decide)
    rw [intText_natCast] at hnum
    simp [LuaMachine.numberOr, LuaMachine.tonumber, hnum]
  have hage' : lua.numberOr (intText (o.time i - r.inserted)) =
      .number (.finite (o.time i - r.inserted : ℤ)) := by
    simp only [LuaMachine.numberOr, LuaMachine.tonumber, hlua _ hage]
  rw [dropText, luaDrop_fields lua hcidr.1 (Decimals.text_ne_nil _) (intText_ne_nil _) hcidr.2
    (fun b hb => isspace_of_isDigit (Decimals.isDigit_of_mem_text hb))
    (fun b hb => isspace_of_mem_intText hb), hreason, hage']

end Texts

/-- How many of these lines are written behind `used` bytes. -/
def fitting : List (List UInt8) → ℕ → ℕ
  | [], _ => 0
  | l :: ls, used => if used + 80 < replySize then fitting ls (used + l.length) + 1 else 0

private theorem fitting_le (ls : List (List UInt8)) (used : ℕ) : fitting ls used ≤ ls.length := by
  induction ls generalizing used with
  | nil => exact le_rfl
  | cons l ls ih =>
    rw [fitting]
    split_ifs
    · exact Nat.succ_le_succ (ih _)
    · exact Nat.zero_le _

private theorem lt_fitting_iff {ls : List (List UInt8)} {used k : ℕ} (hk : k < ls.length) :
    k < fitting ls used ↔ used + (ls.take k).flatten.length + 80 < replySize := by
  induction ls generalizing used k with
  | nil => simp at hk
  | cons l ls ih =>
    rw [fitting]
    cases k with
    | zero =>
      split_ifs with hroom
      · simpa using hroom
      · simpa using hroom
    | succ k =>
      have hk' : k < ls.length := Nat.lt_of_succ_lt_succ hk
      rw [List.take_succ_cons, List.flatten_cons, List.length_append]
      split_ifs with hroom
      · rw [Nat.succ_lt_succ_iff, ih hk']
        omega
      · omega

private theorem length_fitting_lt {ls : List (List UInt8)} (hls : ∀ l ∈ ls, l.length ≤ 75) {used : ℕ}
    (hused : used < replySize) : used + (ls.take (fitting ls used)).flatten.length < replySize := by
  induction ls generalizing used with
  | nil => exact hused
  | cons l ls ih =>
    obtain ⟨hl, hls⟩ := List.forall_mem_cons.mp hls
    rw [fitting]
    split_ifs with hroom
    · have hused' : used + l.length < replySize := by omega
      have hrest := ih hls hused'
      rw [List.take_succ_cons, List.flatten_cons, List.length_append]
      omega
    · exact hused

private theorem ctlDropsLoop_eq (o : Outside) (rs : List VgDropRec) (i used : ℕ) (reply : List UInt8)
    (hls : ∀ l ∈ rs.mapIdx fun k r => dropLine o (i + k) r, l.length ≤ 75) :
    ctlDropsLoop o rs i used reply = reply ++
      ((rs.mapIdx fun k r => dropLine o (i + k) r).take
        (fitting (rs.mapIdx fun k r => dropLine o (i + k) r) used)).flatten := by
  induction rs generalizing i used reply with
  | nil => simp [ctlDropsLoop]
  | cons r rs ih =>
    have hnext : (fun k r => dropLine o (i + (k + 1)) r) = fun k r => dropLine o (i + 1 + k) r := by
      funext k r
      rw [Nat.add_right_comm, Nat.add_assoc]
    rw [List.mapIdx_cons, hnext] at hls ⊢
    obtain ⟨hl, hls⟩ := List.forall_mem_cons.mp hls
    rw [Nat.add_zero] at hl
    rw [ctlDropsLoop, fitting]
    split_ifs with hroom
    · have hwhole : (dropLine o i r).take (replySize - used - 1) = dropLine o i r :=
        List.take_of_length_le (by omega)
      rw [hwhole, ih (i + 1) _ _ hls, List.take_succ_cons, List.flatten_cons, List.append_assoc]
      rfl
    · simp

private theorem luaDrops_none (lua : LuaMachine) : luaDrops lua (bytes "(none)\n") = [] := by
  have hline : (runs 10).gmatch 0 (bytes "(none)\n") = [[bytes "(none)"]] := by decide +kernel
  have hno : dropPattern.matchStart (bytes "(none)") = none := by decide +kernel
  simp [luaDrops, hline, luaDrop, hno]

def dropLines (o : Outside) (t : DropTable) : List (List UInt8) := t.records.mapIdx (dropLine o)

/-- The entries for all drops. -/
def luaEntries (o : Outside) (t : DropTable) : List LuaDrop :=
  t.records.mapIdx fun i r => ⟨vgCidrToStr o r.cidr, .number (.finite r.reason.num),
    .number (.finite (o.time i - r.inserted : ℤ))⟩

/-- The ages that are printed are below 2^53 in magnitude. -/
def SmallAges (o : Outside) (t : DropTable) : Prop :=
  ∀ i r, t.records[i]? = some r → (o.time i - r.inserted).natAbs < 2 ^ 53

/-- What the listing of a drop list is. -/
structure Listing (o : Outside) (lua : LuaMachine) (t : DropTable) (reply : List UInt8) (j : ℕ) :
    Prop where
  count : j ≤ t.records.length
  room : ∀ k < t.records.length,
    k < j ↔ ((dropLines o t).take k).flatten.length + 80 < replySize
  text : reply = if t.records = [] then bytes "(none)\n" else ((dropLines o t).take j).flatten
  fits : reply.length < replySize
  decoded : luaDrops lua reply = (luaEntries o t).take j

section Listing
variable (h : NtopTexts o.inetNtop) {t : DropTable} (hages : SmallAges o t)
include h hages

private theorem NtopTexts.length_dropLines {l : List UInt8} (hl : l ∈ dropLines o t) : l.length ≤ 75 := by
  obtain ⟨i, hi, rfl⟩ := List.mem_mapIdx.mp hl
  exact h.length_dropLine_le (hages i _ (List.getElem?_eq_getElem hi))

private theorem NtopTexts.luaDrops_take (hlua : ReadsIntegers lua) (j : ℕ) :
    luaDrops lua ((dropLines o t).take j).flatten = (luaEntries o t).take j := by
  have hflat : ((dropLines o t).take j).flatten =
      ((t.records.mapIdx (dropText o)).take j).flatMap (· ++ [10]) := by
    have hmap : (t.records.mapIdx (dropText o)).map (· ++ [10]) = dropLines o t := by
      refine List.ext_getElem? fun i => ?_
      rw [dropLines, List.getElem?_map, List.getElem?_mapIdx, List.getElem?_mapIdx, Option.map_map]
      rfl
    rw [List.flatMap_def, List.map_take, hmap]
  have htext : ∀ l ∈ (t.records.mapIdx (dropText o)).take j, ∃ i r, l = dropText o i r := by
    intro l hl
    obtain ⟨i, hi, rfl⟩ := List.mem_mapIdx.mp (List.mem_of_mem_take hl)
    exact ⟨_, _, rfl⟩
  rw [hflat]
  refine luaDrops_lines lua (fun l hl => ?_) (fun l hl => ?_) ?_
  · obtain ⟨i, r, rfl⟩ := htext l hl
    simp [dropText, bytes]
  · obtain ⟨i, r, rfl⟩ := htext l hl
    exact h.newline_not_mem i r
  · rw [List.map_take, List.map_take]
    refine congrArg _ (List.ext_getElem? fun i => ?_)
    rw [luaEntries, List.getElem?_map, List.getElem?_map, List.getElem?_mapIdx,
      List.getElem?_mapIdx]
    cases hr : t.records[i]? with
    | none => rfl
    | some r => exact congrArg some (h.luaDrop_dropText hlua (hages i r hr))

end Listing

/-- What `ctl_drops` writes, and what `client:drops` reads from it. -/
theorem NtopTexts.listing (h : NtopTexts o.inetNtop) (hlua : ReadsIntegers lua) (hok : c.drops.Ok)
    (hages : SmallAges o c.drops) :
    Listing o lua c.drops (ctlDrops o c) (fitting (dropLines o c.drops) 0) := by
  have hlen : (dropLines o c.drops).length = c.drops.records.length := List.length_mapIdx
  have hshort : ∀ l ∈ dropLines o c.drops, l.length ≤ 75 := fun l hl => h.length_dropLines hages hl
  have htext : ctlDrops o c = if c.drops.records = [] then bytes "(none)\n"
      else ((dropLines o c.drops).take (fitting (dropLines o c.drops) 0)).flatten := by
    simp only [ctlDrops, hok.count_eq, List.length_eq_zero_iff]
    split_ifs
    · rfl
    · have hzero : (fun k r => dropLine o (0 + k) r) = dropLine o := by
        funext k r
        rw [Nat.zero_add]
      have hloop := ctlDropsLoop_eq o c.drops.records 0 0 []
      rw [hzero, List.nil_append] at hloop
      exact hloop hshort
  refine ⟨(fitting_le _ _).trans hlen.le, fun k hk => ?_, htext, ?_, ?_⟩
  · rw [lt_fitting_iff (hlen.symm ▸ hk), Nat.zero_add]
  · rw [htext]
    split_ifs
    · decide
    · have hfits := length_fitting_lt hshort (show 0 < replySize by decide)
      rwa [Nat.zero_add] at hfits
  · rw [htext]
    split_ifs with hnil
    · rw [luaEntries, hnil, List.mapIdx_nil, List.take_nil, luaDrops_none]
    · exact h.luaDrops_take hages hlua _

private theorem not_prefix_append_cons {l w s : List UInt8} {b : UInt8} (hb : b ∉ l) (hw : ¬ l <+: w) :
    ¬ l <+: w ++ b :: s := by
  intro hl
  have hwb : w ++ [b] <+: w ++ b :: s := ⟨s, by simp⟩
  rcases List.prefix_or_prefix_of_prefix hl hwb with h | h
  · rcases List.prefix_concat_iff.mp h with rfl | h
    · exact hb (by simp)
    · exact hw h
  · exact hb (h.subset (by simp))

theorem Listing.not_error {t : DropTable} {reply : List UInt8} {j : ℕ}
    (hl : Listing o lua t reply j) (h : NtopTexts o.inetNtop)
    (hno : ∀ f a, ¬ bytes "error" <+: o.inetNtop f a) : ¬ bytes "error" <+: reply := by
  rw [hl.text]
  split_ifs with hnil
  · decide
  · obtain ⟨r, rs, hrs⟩ := List.exists_cons_of_ne_nil hnil
    have hroom := hl.room 0 (List.length_pos_iff.mpr hnil)
    obtain ⟨j, rfl⟩ := Nat.exists_eq_succ_of_ne_zero (hroom.mpr (by simp [replySize])).ne'
    rw [dropLines, hrs, List.mapIdx_cons, List.take_succ_cons, List.flatten_cons, dropLine,
      (h.vgCidrToStr_eq r.cidr).1]
    simp only [List.append_assoc, List.cons_append]
    exact not_prefix_append_cons (by decide) (hno _ _)

/-- The listing consists of whole lines for the first drops of the list, and `client:drops` returns
these drops. -/
theorem drops_listing_decodes (h : NtopTexts o.inetNtop) (hlua : ReadsIntegers lua)
    (hok : c.drops.Ok) (hages : SmallAges o c.drops) :
    ∃ j, Listing o lua c.drops (ctlDrops o c) j ∧
      ((∀ f a, ¬ bytes "error" <+: o.inetNtop f a) →
        clientDrops lua (.ok (ctlDrops o c)) = .ok ((luaEntries o c.drops).take j)) ∧
      ∀ env reads, .error ∉ reads →
        vgCtlServerHandle env o c ⟨bytes "drops\n", reads⟩ = (c, some (ctlDrops o c)) := by
  have hl := h.listing hlua hok hages
  refine ⟨_, hl, fun hno => ?_, fun env reads herr => ?_⟩
  · rw [clientDrops, request_ok (hl.not_error h hno), Except.map, hl.decoded]
  · rw [vgCtlServerHandle, readRequest_nil herr]
    rfl

/-- A Lua machine that takes every string for an integer numeral. -/
def integerLua : LuaMachine where
  ofString s :=
    some (.finite (if s.head? = some 45 then -(Decimals.valueFrom 0 s.tail : ℤ)
      else (Decimals.valueFrom 0 s : ℤ) : ℤ))
  ofOther _ := none

theorem readsIntegers_integerLua : ReadsIntegers integerLua := by
  intro z _
  have hvalue : ∀ n, Decimals.valueFrom 0 (Decimals.text n) = n := Decimals.valueFrom_text
  have hhead : ∀ n, (Decimals.text n).head? ≠ some 45 := fun n hn => by
    have hd := Decimals.isDigit_of_mem_text (List.mem_of_mem_head? hn)
    cases hd
  simp only [integerLua, intText]
  split_ifs with hz hhd hhd
  · rw [List.tail_cons, hvalue]
    congr
    omega
  · exact absurd rfl hhd
  · exact absurd hhd (hhead _)
  · rw [hvalue]
    congr
    omega

/-- A host that prints the addresses of 198.18.0.0/24. Its clock has been set back. -/
def listingOutside : Outside :=
  { steadyOutside with
    inetNtop := fun _ a => bytes "198.18.0." ++ Decimals.text (octet a 3).toNat
    time := fun _ => 1000001 }

private theorem ntopTexts_listingOutside : NtopTexts listingOutside.inetNtop where
  short _ a := by
    have hlen : (Decimals.text (octet a 3).toNat).length ≤ 3 :=
      Decimals.length_text_le (by decide) ((octet a 3).toNat_lt.trans (by decide))
    have hfix : (bytes "198.18.0.").length = 9 := by decide
    simp only [listingOutside, List.length_append, hfix]
    omega
  plain _ a b hb := by
    have hfix : ∀ b ∈ bytes "198.18.0.", isspace b = false := by decide +kernel
    rcases List.mem_append.mp hb with hb | hb
    · exact hfix b hb
    · exact isspace_of_isDigit (Decimals.isDigit_of_mem_text hb)

/-- The small host after a manual and a timed drop. -/
def listedPair : VgCtrl :=
  step steadyEnv (step steadyEnv steadyStart (.drop (sampleHost [198, 18, 0, 1])))
    (.dropTtl (sampleHost [198, 18, 0, 2]) 60)

theorem drops_listing_decodes_pair : ∃ j, Listing listingOutside integerLua listedPair.drops
    (bytes "198.18.0.1/32 reason=1 age=1\n198.18.0.2/32 reason=4 age=-1\n") j := by
  have htext : ctlDrops listingOutside listedPair =
      bytes "198.18.0.1/32 reason=1 age=1\n198.18.0.2/32 reason=4 age=-1\n" := by decide +kernel
  have hsound : Sound listedPair :=
    step_sound (step_sound (startUp_initial steadyStart_eq).1.sound _) _
  have hages : ∀ r ∈ listedPair.drops.records, (1000001 - r.inserted).natAbs < 2 ^ 53 := by
    decide +kernel
  obtain ⟨j, hj, -⟩ := drops_listing_decodes ntopTexts_listingOutside readsIntegers_integerLua
    hsound.drops_ok fun i r hr => hages r (List.mem_of_getElem? hr)
  exact ⟨j, htext ▸ hj⟩

end VoidGate
