import VoidGate.CtlFraming

/-!
# Prefixes as text

`vg_parse_cidr_len` against the grammar of its comment, and what it makes of a prefix
that `vg_cidr_to_str` printed. What counts as an address is up to `inet_pton`; of its
answers only the alphabet, the length and the colon matter here.
-/

namespace VoidGate

open BitPrefixes

variable {pton : InetPton} {s a : List UInt8} {n : ℕ} {p : VgCidr}

/-- The text `s` is the address text `a` with the length `n`: the digits behind a slash, or the
full width without one. -/
def Spells (s a : List UInt8) (n : ℕ) : Prop :=
  (s = a ∧ n = (textFamily a).width) ∨
    ∃ ds, s = a ++ 47 :: ds ∧ ds ≠ [] ∧ (∀ d ∈ ds, isdigit d = true) ∧ n = decimal ds

private theorem parsePlen_eq (ds : List UInt8) (plen : ℕ) :
    parsePlen ds plen = Decimals.readBounded 128 ds plen := by
  induction ds generalizing plen with
  | nil => rfl
  | cons d ds ih =>
    rw [parsePlen, Decimals.readBounded, ih]
    rfl

theorem parsePlen_eq_some_iff {ds : List UInt8} (hn : n ≤ 128) :
    parsePlen ds 0 = some n ↔ (∀ d ∈ ds, isdigit d = true) ∧ n = decimal ds := by
  rw [parsePlen_eq]
  constructor
  · exact Decimals.of_readBounded
  · rintro ⟨hds, rfl⟩
    exact Decimals.readBounded_eq hds hn

private theorem spells_bare (ha : 47 ∉ a) : Spells a a n ↔ n = (textFamily a).width := by
  constructor
  · rintro (⟨-, h⟩ | ⟨ds, h, -⟩)
    · exact h
    · exact absurd (h ▸ List.mem_append_right a List.mem_cons_self) ha
  · exact fun h => .inl ⟨rfl, h⟩

private theorem spells_slash {ds : List UInt8} : Spells (a ++ 47 :: ds) a n ↔
    ds ≠ [] ∧ (∀ d ∈ ds, isdigit d = true) ∧ n = decimal ds := by
  constructor
  · rintro (⟨h, -⟩ | ⟨ds', h, hds⟩)
    · simp at h
    · obtain rfl : ds = ds' := by simpa using h
      exact hds
  · exact fun h => .inr ⟨ds, rfl, h⟩

/-- What the parser returns for the address bytes `addr` and a length. -/
def parsedCidr (f : Family) (addr : Octets) (n : ℕ) (h : n ≤ f.width) : VgCidr :=
  vgCidrMask ⟨f, clip f.nbytes addr, n, h⟩

theorem vgParseCidrLen_bare (ha : 47 ∉ a) (hok : ¬ (128 ≤ a.length ∨ 0 ∈ a)) :
    vgParseCidrLen pton a =
      (pton (textFamily a) a).map fun addr => parsedCidr (textFamily a) addr _ le_rfl := by
  have hnone : (a ++ []).dropWhile (· != 47) = [] := dropWhile_append_of_not_mem ha
  rw [List.append_nil] at hnone
  rw [vgParseCidrLen, if_neg hok]
  simp only [takeWhile_of_not_mem ha, hnone]
  cases pton (textFamily a) a with
  | none => rfl
  | some addr => exact dif_pos le_rfl

theorem vgParseCidrLen_slash {ds : List UInt8} (ha : 47 ∉ a)
    (hok : ¬ (128 ≤ (a ++ 47 :: ds).length ∨ 0 ∈ a ++ 47 :: ds)) (hne : ds ≠ []) :
    vgParseCidrLen pton (a ++ 47 :: ds) = (parsePlen ds 0).bind fun n =>
      (pton (textFamily a) a).bind fun addr =>
        if h : n ≤ (textFamily a).width then some (parsedCidr (textFamily a) addr n h) else none := by
  have hword : (a ++ 47 :: ds).takeWhile (· != 47) = a := by
    rw [takeWhile_append_of_not_mem ha]
    exact List.append_nil a
  have hslash : (a ++ 47 :: ds).dropWhile (· != 47) = 47 :: ds := by
    rw [dropWhile_append_of_not_mem ha]
    rfl
  rw [vgParseCidrLen, if_neg hok]
  simp only [hword, hslash, if_neg hne]
  cases parsePlen ds 0 with
  | none => rfl
  | some n =>
    cases pton (textFamily a) a with
    | none => rfl
    | some addr => rfl

theorem vgParseCidrLen_eq_some_iff : vgParseCidrLen pton s = some p ↔
    s.length < 128 ∧ 0 ∉ s ∧ ∃ a n addr, 47 ∉ a ∧ Spells s a n ∧
      pton (textFamily a) a = some addr ∧
      ∃ h : n ≤ (textFamily a).width, p = parsedCidr (textFamily a) addr n h := by
  constructor
  · intro h
    have hok : ¬ (128 ≤ s.length ∨ 0 ∈ s) := by
      intro hbad
      rw [vgParseCidrLen, if_pos hbad] at h
      cases h
    obtain ⟨hlen, h0⟩ := not_or.mp hok
    refine ⟨by omega, h0, ?_⟩
    obtain ⟨a, ha, rfl | ⟨ds, rfl⟩⟩ := exists_cut 47 s
    · rw [vgParseCidrLen_bare ha hok] at h
      obtain ⟨addr, haddr, rfl⟩ := Option.map_eq_some_iff.mp h
      exact ⟨s, _, addr, ha, (spells_bare ha).mpr rfl, haddr, le_rfl, rfl⟩
    · have hne : ds ≠ [] := by
        rintro rfl
        rw [vgParseCidrLen, if_neg hok] at h
        simp [dropWhile_append_of_not_mem ha] at h
      rw [vgParseCidrLen_slash ha hok hne] at h
      obtain ⟨n, hn, h⟩ := Option.bind_eq_some_iff.mp h
      obtain ⟨addr, haddr, h⟩ := Option.bind_eq_some_iff.mp h
      split_ifs at h with hle
      have hds := (parsePlen_eq_some_iff (hle.trans (Family.width_le _))).mp hn
      exact ⟨a, n, addr, ha, spells_slash.mpr ⟨hne, hds⟩, haddr, hle, (Option.some.inj h).symm⟩
  · rintro ⟨hlen, h0, a, n, addr, ha, hs, haddr, hle, rfl⟩
    have hok : ¬ (128 ≤ s.length ∨ 0 ∈ s) := not_or.mpr ⟨by omega, h0⟩
    rcases hs with ⟨rfl, rfl⟩ | ⟨ds, rfl, hne, hds⟩
    · rw [vgParseCidrLen_bare ha hok, haddr]
      rfl
    · have hn := (parsePlen_eq_some_iff (hle.trans (Family.width_le _))).mpr hds
      rw [vgParseCidrLen_slash ha hok hne, hn, haddr]
      exact dif_pos hle

/-- The bytes of textual addresses: hexadecimal digits, dots and colons. -/
def isAddrByte (b : UInt8) : Bool :=
  isdigit b || (97 ≤ b && b ≤ 102) || (65 ≤ b && b ≤ 70) || b == 46 || b == 58

/-- What is assumed of `inet_pton`: a text that it accepts looks like an address of the family. -/
structure AddressTexts (pton : InetPton) : Prop where
  addrBytes : ∀ {f t addr}, pton f t = some addr → ∀ b ∈ t, isAddrByte b = true
  length_le : ∀ {f t addr}, pton f t = some addr → t.length ≤ 45
  family_eq : ∀ {f t addr}, pton f t = some addr → f = textFamily t

def IsAddress (pton : InetPton) (t : List UInt8) : Prop := ∃ f, (pton f t).isSome

def maxPlen (t : List UInt8) : ℕ := if 58 ∈ t then 128 else 32

/-- The grammar of the comment on `vg_parse_cidr`: an address, or an address and a length of one to
three digits that the family allows. -/
def CidrGrammar (pton : InetPton) (s : List UInt8) : Prop :=
  IsAddress pton s ∨ ∃ a ds, s = a ++ 47 :: ds ∧ IsAddress pton a ∧
    1 ≤ ds.length ∧ ds.length ≤ 3 ∧ (∀ d ∈ ds, isdigit d = true) ∧ decimal ds ≤ maxPlen a

/-- An address and a length that the family allows, written with more than three digits, in fewer
bytes than the parser's buffer has. -/
def LongLength (pton : InetPton) (s : List UInt8) : Prop :=
  ∃ a ds, s = a ++ 47 :: ds ∧ IsAddress pton a ∧ 3 < ds.length ∧ (∀ d ∈ ds, isdigit d = true) ∧
    decimal ds ≤ maxPlen a ∧ s.length < 128

theorem width_textFamily (t : List UInt8) : (textFamily t).width = maxPlen t := by
  rw [textFamily, maxPlen]
  split_ifs <;> rfl

section Grammar
variable (h : AddressTexts pton)
include h

theorem AddressTexts.isAddress_iff {t : List UInt8} :
    IsAddress pton t ↔ ∃ addr, pton (textFamily t) t = some addr := by
  constructor
  · rintro ⟨f, hf⟩
    obtain ⟨addr, haddr⟩ := Option.isSome_iff_exists.mp hf
    exact ⟨addr, h.family_eq haddr ▸ haddr⟩
  · rintro ⟨addr, haddr⟩
    exact ⟨textFamily t, by simp [haddr]⟩

theorem AddressTexts.not_mem {f : Family} {t : List UInt8} {addr : Octets}
    (ht : pton f t = some addr) {b : UInt8} (hb : isAddrByte b = false) : b ∉ t := by
  intro hm
  rw [h.addrBytes ht b hm] at hb
  cases hb

/-- What the parser accepts: the grammar with a length of any number of digits, as long as the
whole fits the buffer. -/
theorem AddressTexts.isSome_iff : (vgParseCidrLen pton s).isSome ↔
    IsAddress pton s ∨ ∃ a ds, s = a ++ 47 :: ds ∧ IsAddress pton a ∧ ds ≠ [] ∧
      (∀ d ∈ ds, isdigit d = true) ∧ decimal ds ≤ maxPlen a ∧ s.length < 128 := by
  simp only [Option.isSome_iff_exists, vgParseCidrLen_eq_some_iff, h.isAddress_iff]
  constructor
  · rintro ⟨p, hlen, h0, a, n, addr, ha, hs, haddr, hle, -⟩
    rcases hs with ⟨rfl, -⟩ | ⟨ds, rfl, hne, hds, rfl⟩
    · exact .inl ⟨addr, haddr⟩
    · exact .inr ⟨a, ds, rfl, ⟨addr, haddr⟩, hne, hds, width_textFamily a ▸ hle, hlen⟩
  · rintro (⟨addr, haddr⟩ | ⟨a, ds, rfl, ⟨addr, haddr⟩, hne, hds, hle, hlen⟩)
    · have hlen := h.length_le haddr
      exact ⟨_, by omega, h.not_mem haddr rfl, s, _, addr, h.not_mem haddr rfl, .inl ⟨rfl, rfl⟩,
        haddr, le_rfl, rfl⟩
    · refine ⟨_, hlen, ?_, a, _, addr, h.not_mem haddr rfl, .inr ⟨ds, rfl, hne, hds, rfl⟩, haddr,
        (width_textFamily a).symm ▸ hle, rfl⟩
      intro hm
      rcases List.mem_append.mp hm with hm | hm
      · exact h.not_mem haddr rfl hm
      · rcases List.mem_cons.mp hm with hm | hm
        · cases hm
        · cases hds 0 hm

theorem AddressTexts.cut_unique {a a' ds ds' : List UInt8} (ha : IsAddress pton a)
    (ha' : IsAddress pton a') (heq : a ++ 47 :: ds = a' ++ 47 :: ds') : a = a' ∧ ds = ds' := by
  obtain ⟨addr, haddr⟩ := h.isAddress_iff.mp ha
  obtain ⟨addr', haddr'⟩ := h.isAddress_iff.mp ha'
  have htake := congrArg (List.takeWhile (· != 47)) heq
  rw [takeWhile_append_of_not_mem (h.not_mem haddr rfl),
    takeWhile_append_of_not_mem (h.not_mem haddr' rfl)] at htake
  obtain rfl : a = a' := by simpa using htake
  exact ⟨rfl, by simpa using heq⟩

theorem AddressTexts.not_grammar (hs : LongLength pton s) : ¬ CidrGrammar pton s := by
  obtain ⟨a, ds, rfl, ha, hlong, -⟩ := hs
  rintro (hbare | ⟨a', ds', heq, ha', -, hshort, -⟩)
  · obtain ⟨addr, haddr⟩ := h.isAddress_iff.mp hbare
    exact h.not_mem haddr rfl (List.mem_append_right _ List.mem_cons_self)
  · obtain ⟨-, rfl⟩ := h.cut_unique ha ha' heq
    omega

private theorem AddressTexts.isSome_of_grammar (hs : CidrGrammar pton s) :
    (vgParseCidrLen pton s).isSome := by
  rw [h.isSome_iff]
  refine hs.imp_right ?_
  rintro ⟨a, ds, rfl, ha, hpos, hshort, hds, hle⟩
  obtain ⟨addr, haddr⟩ := h.isAddress_iff.mp ha
  have hlen := h.length_le haddr
  refine ⟨a, ds, rfl, ha, List.ne_nil_of_length_pos hpos, hds, hle, ?_⟩
  rw [List.length_append, List.length_cons]
  omega

/-- The parser accepts exactly its documented grammar on every text but those whose length has
leading zeros beyond three digits, which it accepts as well. -/
theorem cidr_grammar_iff (s : List UInt8) :
    ((vgParseCidrLen pton s).isSome ↔ 0 ∉ s ∧ CidrGrammar pton s) ↔ ¬ LongLength pton s := by
  constructor
  · intro hiff hlong
    refine h.not_grammar hlong (hiff.mp (h.isSome_iff.mpr (.inr ?_))).2
    obtain ⟨a, ds, hs, ha, hlen, hds, hle, hfit⟩ := hlong
    exact ⟨a, ds, hs, ha, List.ne_nil_of_length_pos (by omega), hds, hle, hfit⟩
  · intro hlong
    refine ⟨fun hsome => ?_, fun hs => h.isSome_of_grammar hs.2⟩
    obtain ⟨p, hp⟩ := Option.isSome_iff_exists.mp hsome
    refine ⟨(vgParseCidrLen_eq_some_iff.mp hp).2.1, (h.isSome_iff.mp hsome).imp_right ?_⟩
    rintro ⟨a, ds, hs, ha, hne, hds, hle, hfit⟩
    have hshort : ds.length ≤ 3 := by
      by_contra hlen
      exact hlong ⟨a, ds, hs, ha, by omega, hds, hle, hfit⟩
    exact ⟨a, ds, hs, ha, List.length_pos_iff.mpr hne, hshort, hds, hle⟩

end Grammar

theorem addressTexts_samplePton : AddressTexts samplePton := by
  have htable : ∀ {f t addr}, samplePton f t = some addr →
      (∀ b ∈ t, isAddrByte b = true) ∧ t.length ≤ 45 ∧ f = textFamily t := by
    intro f t addr h
    obtain ⟨e, he, -⟩ := Option.map_eq_some_iff.mp h
    have hkey := List.find?_some he
    simp only [Bool.and_eq_true, beq_iff_eq] at hkey
    obtain ⟨rfl, rfl⟩ := hkey
    have hmem := List.mem_of_find?_eq_some he
    simp only [List.mem_cons, List.not_mem_nil, or_false] at hmem
    rcases hmem with rfl | rfl | rfl | rfl | rfl <;> decide +kernel
  exact ⟨fun h => (htable h).1, fun h => (htable h).2.1, fun h => (htable h).2.2⟩

theorem cidr_grammar_iff_sample : AddressTexts samplePton ∧
    ((vgParseCidrLen samplePton (bytes "127.0.0.0/8")).isSome ↔
      0 ∉ bytes "127.0.0.0/8" ∧ CidrGrammar samplePton (bytes "127.0.0.0/8")) := by
  refine ⟨addressTexts_samplePton, (cidr_grammar_iff addressTexts_samplePton _).mpr ?_⟩
  rintro ⟨a, ds, hs, ha, hlen, -⟩
  have hcut : bytes "127.0.0.0/8" = bytes "127.0.0.0" ++ 47 :: bytes "8" := by decide
  have haddr : IsAddress samplePton (bytes "127.0.0.0") := ⟨.inet, by decide +kernel⟩
  obtain ⟨-, rfl⟩ := addressTexts_samplePton.cut_unique haddr ha (hcut.symm.trans hs)
  exact absurd hlen (by decide)

/-- `127.0.0.0/0008` is taken for `127.0.0.0/8`. -/
theorem long_length_accepted : AddressTexts samplePton ∧
    vgParseCidrLen samplePton (bytes "127.0.0.0/0008") =
      vgParseCidrLen samplePton (bytes "127.0.0.0/8") ∧
    (vgParseCidrLen samplePton (bytes "127.0.0.0/0008")).isSome ∧
    ¬ CidrGrammar samplePton (bytes "127.0.0.0/0008") := by
  refine ⟨addressTexts_samplePton, by decide +kernel, by decide +kernel, ?_⟩
  refine addressTexts_samplePton.not_grammar ⟨bytes "127.0.0.0", bytes "0008", by decide,
    ⟨.inet, by decide +kernel⟩, by decide, by decide +kernel, by decide +kernel, by decide⟩

theorem bit_parsedCidr {f : Family} {addr : Octets} {h : n ≤ f.width} {i : ℕ} (hi : i < n) :
    bit (parsedCidr f addr n h).addr i = bit addr i := by
  have hw : i < f.width := hi.trans_le h
  rw [parsedCidr, bit_vgCidrMask _ hw]
  dsimp only
  rw [agree_clip f addr i hw, decide_eq_true hi, Bool.and_true]

theorem vgParseCidrLen_denotes (h : vgParseCidrLen pton s = some p) : p.Masked ∧
    ∃ a addr, 47 ∉ a ∧ Spells s a p.prefixlen ∧ p.family = textFamily a ∧
      pton p.family a = some addr ∧
      ∀ x, p.Has x ↔ x.family = p.family ∧ Agree p.prefixlen (bit addr) (bit x.octets) := by
  refine ⟨masked_vgParseCidrLen h, ?_⟩
  obtain ⟨-, -, a, n, addr, ha, hs, haddr, hle, rfl⟩ := vgParseCidrLen_eq_some_iff.mp h
  refine ⟨a, addr, ha, hs, rfl, haddr, fun x => ?_⟩
  have hbits : Agree n (bit (parsedCidr (textFamily a) addr n hle).addr) (bit addr) :=
    fun i hi => bit_parsedCidr hi
  constructor
  · rintro ⟨hf, hx⟩
    exact ⟨hf.symm, hbits.symm.trans hx⟩
  · rintro ⟨hf, hx⟩
    exact ⟨hf.symm, hbits.trans hx⟩

/-- `inet_pton` reads the address of `p` back from what `inet_ntop` prints for it. -/
def ReadsBack (pton : InetPton) (o : Outside) (p : VgCidr) : Prop :=
  ∃ addr, pton p.family (o.inetNtop p.family p.addr) = some addr ∧
    clip p.family.nbytes addr = clip p.family.nbytes p.addr

section Print
variable {o : Outside} (h : AddressTexts pton)
include h

theorem AddressTexts.mem_vgCidrToStr (hp : ReadsBack pton o p) {b : UInt8}
    (hb : b ∈ vgCidrToStr o p) : isAddrByte b = true ∨ b = 47 := by
  obtain ⟨addr, haddr, -⟩ := hp
  rcases List.mem_append.mp (List.mem_of_mem_take hb) with hm | hm
  · exact .inl (h.addrBytes haddr b hm)
  · rcases List.mem_cons.mp hm with rfl | hm
    · exact .inr rfl
    · have hd : isdigit b = true := Decimals.isDigit_of_mem_text hm
      exact .inl (by simp [isAddrByte, hd])

/-- The buffer has room for a whole prefix. -/
theorem AddressTexts.vgCidrToStr_eq (hp : ReadsBack pton o p) : vgCidrToStr o p =
    o.inetNtop p.family p.addr ++ 47 :: Decimals.text p.prefixlen ∧
      (vgCidrToStr o p).length < 128 := by
  obtain ⟨addr, haddr, -⟩ := hp
  have hlen := h.length_le haddr
  have hdigits : (Decimals.text p.prefixlen).length ≤ 3 :=
    Decimals.length_text_le (by decide) (p.prefixlen_le_128.trans_lt (by decide))
  have htake : vgCidrToStr o p = o.inetNtop p.family p.addr ++ 47 :: Decimals.text p.prefixlen := by
    refine List.take_of_length_le ?_
    rw [List.length_append, List.length_cons]
    omega
  refine ⟨htake, ?_⟩
  rw [htake, List.length_append, List.length_cons]
  omega

theorem AddressTexts.vgParseCidr_vgCidrToStr (hp : ReadsBack pton o p) (hm : p.Masked) :
    vgParseCidr pton (vgCidrToStr o p) = some p := by
  obtain ⟨heq, hlen⟩ := h.vgCidrToStr_eq hp
  have h0 : 0 ∉ vgCidrToStr o p := fun hmem => by
    rcases h.mem_vgCidrToStr hp hmem with hb | hb
    · cases hb
    · cases hb
  obtain ⟨addr, haddr, hclip⟩ := hp
  have hf := h.family_eq haddr
  rw [vgParseCidr, cstr, takeWhile_of_not_mem h0, vgParseCidrLen_eq_some_iff]
  refine ⟨hlen, h0, _, p.prefixlen, addr, h.not_mem haddr rfl, .inr ⟨_, heq,
    Decimals.text_ne_nil _, fun d => Decimals.isDigit_of_mem_text,
    (Decimals.valueFrom_text _).symm⟩, hf ▸ haddr, hf ▸ p.prefixlen_le, ?_⟩
  generalize textFamily (o.inetNtop p.family p.addr) = f at hf
  subst hf
  refine hm.eq_of_agree (masked_vgCidrMask _ fun i hi => ?_) rfl rfl fun i hi => ?_
  · rw [octet_clip, if_neg (Nat.not_lt.mpr hi)]
  · rw [bit_parsedCidr hi, ← agree_clip p.family addr i (hi.trans_le p.prefixlen_le), hclip,
      agree_clip p.family p.addr i (hi.trans_le p.prefixlen_le)]

end Print

end VoidGate
