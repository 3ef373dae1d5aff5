import VoidGate.CidrText
import VoidGate.DelimitedFields

/-!
# Lists of networks in the config file

A line `allow_networks = ...` or `local_networks = ...` whose value is a list of
printed prefixes. However the prefixes are spaced, the loader gets back the same
prefixes in the same order, or refuses a list that is longer than the array.
-/

namespace VoidGate

open BitPrefixes DelimitedFields

variable {pton : InetPton} {o : Outside}

def csvField (pton : InetPton) (arr : List VgCidr) (w : List UInt8) : Option (List VgCidr) :=
  if vgMaxCidrList ≤ arr.length then none else (vgParseCidr pton w).map fun p => arr ++ [p]

theorem csvCidrStep_eq (arr : List VgCidr) (tok : List UInt8) :
    csvCidrStep pton arr tok =
      if strip isspace tok = [] then some arr else csvField pton arr (strip isspace tok) := rfl

theorem parseCsvCidrs_eq (val : List UInt8) :
    parseCsvCidrs pton val = (fields isspace 44 val).foldlM (csvField pton) [] := by
  rw [parseCsvCidrs, strtokComma, fields]
  generalize val.splitOn 44 = toks
  generalize ([] : List VgCidr) = arr
  induction toks generalizing arr with
  | nil => rfl
  | cons tok toks ih =>
    by_cases hblank : strip isspace tok = []
    · have hright : ((tok :: toks).map (strip isspace)).filter (fun w => !w.isEmpty) =
          (toks.map (strip isspace)).filter fun w => !w.isEmpty := by simp [hblank]
      rw [hright, ← ih]
      by_cases hnil : tok = []
      · simp [hnil]
      · simp [hnil, csvCidrStep_eq, hblank]
    · have hnil : tok ≠ [] := fun he => hblank (by rw [he]; rfl)
      rw [List.filter_cons_of_pos (by simpa using hnil), List.map_cons,
        List.filter_cons_of_pos (by simpa using hblank), List.foldlM_cons, List.foldlM_cons,
        csvCidrStep_eq, if_neg hblank]
      congr 1
      funext arr'
      exact ih arr'

private theorem foldlM_csvField {ps arr : List VgCidr}
    (hps : ∀ p ∈ ps, vgParseCidr pton (vgCidrToStr o p) = some p)
    (harr : arr.length ≤ vgMaxCidrList) :
    (ps.map (vgCidrToStr o)).foldlM (csvField pton) arr =
      if arr.length + ps.length ≤ vgMaxCidrList then some (arr ++ ps) else none := by
  induction ps generalizing arr with
  | nil => simp [harr]
  | cons p ps ih =>
    obtain ⟨hp, hps⟩ := List.forall_mem_cons.mp hps
    rw [List.map_cons, List.foldlM_cons, csvField]
    by_cases hfull : vgMaxCidrList ≤ arr.length
    · rw [if_pos hfull, if_neg (by rw [List.length_cons]; omega)]
      rfl
    · have hlen : (arr ++ [p]).length ≤ vgMaxCidrList := by
        rw [List.length_append, List.length_singleton]
        omega
      have hsum : (arr ++ [p]).length + ps.length = arr.length + (p :: ps).length := by
        rw [List.length_append, List.length_singleton, List.length_cons]
        omega
      rw [if_neg hfull, hp, Option.map_some, Option.bind_eq_bind, Option.bind_some, ih hps hlen,
        hsum, List.append_assoc, List.singleton_append]

inductive NetKey where
  | localNetworks
  | allowNetworks
  deriving DecidableEq

def NetKey.text : NetKey → List UInt8
  | localNetworks => bytes "local_networks"
  | allowNetworks => bytes "allow_networks"

/-- The settings with this list of networks loaded. -/
def NetKey.store : NetKey → VgConfig → List VgCidr → VgConfig
  | localNetworks, c, nets => { c with autoLocal := false, localCidr := nets }
  | allowNetworks, c, nets => { c with allowCidr := nets }

def lineBlank (b : UInt8) : Bool := isspace b && b != 10

/-- A setting of a list of networks: blanks around the key, and before each prefix a gap of blanks
and commas, with at least one comma in it from the second prefix on. -/
structure NetworksLine where
  key : NetKey
  before : List UInt8
  after : List UInt8
  nets : List (List UInt8 × VgCidr)
  last : List UInt8
  newline : Bool
  before_blank : ∀ b ∈ before, lineBlank b = true
  after_blank : ∀ b ∈ after, lineBlank b = true
  gaps : ∀ x ∈ nets, IsGap lineBlank 44 x.1
  commas : ∀ x ∈ nets.tail, 44 ∈ x.1
  last_gap : IsGap lineBlank 44 last

namespace NetworksLine
variable (l : NetworksLine)

def prefixes : List VgCidr := l.nets.map Prod.snd

/-- The prefixes as they are printed, each with its gap. -/
def items (o : Outside) : List (List UInt8 × List UInt8) :=
  l.nets.map fun x => (x.1, vgCidrToStr o x.2)

/-- The text behind the equals sign, without the newline. -/
def value (o : Outside) : List UInt8 := spaced (l.items o) l.last

/-- The line without its newline. -/
def body (o : Outside) : List UInt8 := l.before ++ l.key.text ++ l.after ++ 61 :: l.value o

def text (o : Outside) : List UInt8 := l.body o ++ if l.newline then [10] else []

end NetworksLine

theorem isspace_of_lineBlank {b : UInt8} (h : lineBlank b = true) : isspace b = true := by
  rw [lineBlank, Bool.and_eq_true] at h
  exact h.1

theorem gap_isspace {g : List UInt8} (h : IsGap lineBlank 44 g) : IsGap isspace 44 g :=
  fun b hb => (h b hb).imp_left isspace_of_lineBlank

theorem not_mem_gap {g : List UInt8} {b : UInt8} (h : IsGap lineBlank 44 g)
    (hb : lineBlank b = false) (hc : b ≠ 44) : b ∉ g := by
  intro hm
  rcases h b hm with hl | he
  · rw [hb] at hl
    cases hl
  · exact hc he

theorem not_mem_lineBlank {g : List UInt8} {b : UInt8} (h : ∀ x ∈ g, lineBlank x = true)
    (hb : lineBlank b = false) : b ∉ g := by
  intro hm
  rw [h b hm] at hb
  cases hb

private theorem not_blank_of_isAddrByte {b : UInt8} (h : isAddrByte b = true ∨ b = 47) :
    isspace b = false ∧ b ≠ 44 := by
  have hall : ∀ n < 256, (isAddrByte (UInt8.ofNat n) = true ∨ UInt8.ofNat n = 47) →
      isspace (UInt8.ofNat n) = false ∧ UInt8.ofNat n ≠ 44 := by
    decide +kernel
  simpa using hall b.toNat b.toNat_lt (by simpa using h)

theorem NetKey.text_ne_nil (k : NetKey) : k.text ≠ [] := by cases k <;> decide

theorem NetKey.text_bytes (k : NetKey) :
    ∀ b ∈ k.text, isspace b = false ∧ b ≠ 35 ∧ b ≠ 10 ∧ b ≠ 0 ∧ b ≠ 61 := by
  cases k <;> decide +kernel

private theorem NetKey.find_text (k : NetKey) : scalars.find? (·.1 == k.text) = none := by
  cases k <;> decide +kernel

theorem NetKey.applySetting_text (k : NetKey) (c : VgConfig) {val : List UInt8} (hval : val ≠ []) :
    applySetting pton c k.text val = (parseCsvCidrs pton val).map (k.store c) := by
  rw [applySetting, k.find_text]
  cases k with
  | localNetworks =>
    have hports : bytes "local_networks" ≠ bytes "allow_ports" := by decide
    simp only [NetKey.text, if_neg hports, if_true, if_neg hval]
    rfl
  | allowNetworks =>
    have hports : bytes "allow_networks" ≠ bytes "allow_ports" := by decide
    have hlocal : bytes "allow_networks" ≠ bytes "local_networks" := by decide
    simp only [NetKey.text, if_neg hports, if_neg hlocal, if_true, if_neg hval]
    rfl

private theorem NetworksLine.not_skipped (l : NetworksLine) :
    ¬ ((l.text o).head? = none ∨ (l.text o).head? = some 35 ∨
      (l.text o).head? = some 10 ∨ (l.text o).head? = some 0) := by
  have hkey := l.key.text_bytes
  have hhead : ∃ b rest, l.text o = b :: rest ∧ (lineBlank b = true ∨ b ∈ l.key.text) := by
    cases hb : l.before with
    | nil =>
      obtain ⟨b, rest, hk⟩ := List.exists_cons_of_ne_nil l.key.text_ne_nil
      exact ⟨b, _, by rw [text, body, hb, hk]; rfl, .inr (hk ▸ List.mem_cons_self)⟩
    | cons b rest =>
      exact ⟨b, _, by rw [text, body, hb]; rfl, .inl (l.before_blank b (hb ▸ List.mem_cons_self))⟩
  obtain ⟨b, rest, he, hb⟩ := hhead
  have hne : b ≠ 35 ∧ b ≠ 10 ∧ b ≠ 0 := by
    rcases hb with hb | hb
    · refine ⟨?_, ?_, ?_⟩ <;> (rintro rfl; cases hb)
    · exact ⟨(hkey b hb).2.1, (hkey b hb).2.2.1, (hkey b hb).2.2.2.1⟩
  simpa [he] using hne

private theorem NetworksLine.trim_key (l : NetworksLine) :
    trim (l.before ++ l.key.text ++ l.after) = l.key.text := by
  have hb : ∀ b ∈ l.before, isspace b = true := fun b hb =>
    isspace_of_lineBlank (l.before_blank b hb)
  have ha : ∀ b ∈ l.after, isspace b = true := fun b hb =>
    isspace_of_lineBlank (l.after_blank b hb)
  change strip isspace _ = _
  rw [strip_append_right ha, strip_append_left hb]
  exact strip_of_forall fun b hb => (l.key.text_bytes b hb).1

section Load
variable (h : AddressTexts pton) (l : NetworksLine) (hl : ∀ p ∈ l.prefixes, ReadsBack pton o p)
include h

private theorem AddressTexts.isWord_vgCidrToStr {p : VgCidr} (hp : ReadsBack pton o p) :
    IsWord isspace 44 (vgCidrToStr o p) := by
  refine .of_forall ?_ fun b hb => not_blank_of_isAddrByte (h.mem_vgCidrToStr hp hb)
  rw [(h.vgCidrToStr_eq hp).1]
  exact List.append_ne_nil_of_right_ne_nil _ (List.cons_ne_nil _ _)

include hl

private theorem NetworksLine.not_mem_value {b : UInt8} (hb : lineBlank b = false) (hc : b ≠ 44)
    (hp : ¬ (isAddrByte b = true ∨ b = 47)) : b ∉ l.value o := by
  intro hm
  rcases List.mem_append.mp hm with hm | hm
  · obtain ⟨x, hx, hm⟩ := List.mem_flatMap.mp hm
    obtain ⟨y, hy, rfl⟩ := List.mem_map.mp hx
    rcases List.mem_append.mp hm with hm | hm
    · exact not_mem_gap (l.gaps y hy) hb hc hm
    · exact hp (h.mem_vgCidrToStr (hl y.2 (List.mem_map_of_mem hy)) hm)
  · exact not_mem_gap l.last_gap hb hc hm

theorem NetworksLine.not_mem_body {b : UInt8} (hb : lineBlank b = false) (hc : b ≠ 44)
    (hp : ¬ (isAddrByte b = true ∨ b = 47)) (heq : b ≠ 61) (hk : b ∉ l.key.text) :
    b ∉ l.body o := by
  simp only [body, List.mem_append, List.mem_cons, not_or]
  exact ⟨⟨⟨not_mem_lineBlank l.before_blank hb, hk⟩, not_mem_lineBlank l.after_blank hb⟩, heq,
    l.not_mem_value h hl hb hc hp⟩

private theorem NetworksLine.fields_value :
    fields isspace 44 (l.value o) = l.prefixes.map (vgCidrToStr o) := by
  have hwords : (l.items o).map Prod.snd = l.prefixes.map (vgCidrToStr o) := by
    simp [items, prefixes]
  rw [value, fields_spaced (by decide) ?_ ?_ ?_ (gap_isspace l.last_gap), hwords]
  · intro x hx
    obtain ⟨y, hy, rfl⟩ := List.mem_map.mp hx
    exact gap_isspace (l.gaps y hy)
  · intro x hx
    obtain ⟨y, hy, rfl⟩ := List.mem_map.mp hx
    exact h.isWord_vgCidrToStr (hl y.2 (List.mem_map_of_mem hy))
  · intro x hx
    rw [items, ← List.map_tail] at hx
    obtain ⟨y, hy, rfl⟩ := List.mem_map.mp hx
    exact l.commas y hy

private theorem NetworksLine.configSetting_text :
    configSetting (l.text o) =
      some (l.key.text, trim (l.value o ++ if l.newline then [10] else [])) := by
  have hnl : ∀ b ∈ (if l.newline then [10] else [] : List UInt8), b = 10 := by
    split_ifs <;> simp
  have hkey := l.key.text_bytes
  have h0 : 0 ∉ l.text o := by
    rw [text, List.mem_append]
    rintro (hm | hm)
    · exact l.not_mem_body h hl rfl (by decide) (by decide) (by decide)
        (fun hk => (hkey 0 hk).2.2.2.1 rfl) hm
    · cases hnl 0 hm
  have h61 : 61 ∉ l.before ++ l.key.text ++ l.after := by
    simp only [List.mem_append, not_or]
    exact ⟨⟨not_mem_lineBlank l.before_blank rfl, fun hk => (hkey 61 hk).2.2.2.2 rfl⟩,
      not_mem_lineBlank l.after_blank rfl⟩
  have htext : l.text o = (l.before ++ l.key.text ++ l.after) ++
      61 :: (l.value o ++ if l.newline then [10] else []) := by
    rw [text, body, List.append_assoc, List.cons_append]
  rw [configSetting, if_neg l.not_skipped]
  simp only [cstr, takeWhile_of_not_mem h0]
  rw [htext, takeWhile_append_of_not_mem h61, dropWhile_append_of_not_mem h61]
  simp only [List.takeWhile_cons, bne_self_eq_false, Bool.false_eq_true, if_false, List.append_nil,
    l.trim_key, List.dropWhile_cons, List.drop_succ_cons, List.drop_zero, l.key.text_ne_nil, or_false]
  rw [if_neg (by simp)]

private theorem NetworksLine.configLine_text (hm : ∀ p ∈ l.prefixes, p.Masked) (hne : l.prefixes ≠ [])
    (c : VgConfig) : configLine pton c (l.text o) =
      if l.prefixes.length ≤ vgMaxCidrList then some (l.key.store c l.prefixes) else none := by
  have hnl : ∀ b ∈ (if l.newline then [10] else [] : List UInt8), isspace b = true := by
    split_ifs <;> simp [isspace]
  have hfields : fields isspace 44 (trim (l.value o ++ if l.newline then [10] else [])) =
      l.prefixes.map (vgCidrToStr o) :=
    calc fields isspace 44 (strip isspace (l.value o ++ if l.newline then [10] else []))
        = fields isspace 44 (l.value o ++ if l.newline then [10] else []) :=
          fields_strip (by decide) _
      _ = fields isspace 44 (l.value o) := fields_append_right (by decide) hnl
      _ = l.prefixes.map (vgCidrToStr o) := l.fields_value h hl
  have hval : trim (l.value o ++ if l.newline then [10] else []) ≠ [] := by
    intro hnil
    rw [hnil, fields_nil] at hfields
    exact hne (List.map_eq_nil_iff.mp hfields.symm)
  have hread : ∀ p ∈ l.prefixes, vgParseCidr pton (vgCidrToStr o p) = some p := fun p hp =>
    h.vgParseCidr_vgCidrToStr (hl p hp) (hm p hp)
  rw [configLine, l.configSetting_text h hl]
  dsimp only
  rw [l.key.applySetting_text c hval, parseCsvCidrs_eq, hfields,
    foldlM_csvField hread (Nat.zero_le _), List.length_nil, Nat.zero_add, List.nil_append]
  split_ifs <;> rfl

end Load

private theorem getlines_of_not_mem {s : List UInt8} (hne : s ≠ []) (h : 10 ∉ s) :
    getlines s = [s] ∧ getlines (s ++ [10]) = [s ++ [10]] := by
  induction s with
  | nil => exact absurd rfl hne
  | cons b s ih =>
    obtain ⟨hb, hs⟩ := not_or.mp (List.mem_cons.not.mp h)
    by_cases hnil : s = []
    · subst hnil
      simp [getlines, Ne.symm hb]
    · obtain ⟨h₁, h₂⟩ := ih hnil hs
      rw [List.cons_append, getlines, if_neg (Ne.symm hb), h₁, getlines, if_neg (Ne.symm hb), h₂]
      exact ⟨rfl, rfl⟩

theorem vgConfigLoad_eq_none {content line : List UInt8} (readError : Bool)
    (hmem : line ∈ getlines content) (hline : ∀ c, configLine pton c line = none) :
    vgConfigLoad pton (.opened content readError) = none := by
  obtain ⟨pre, post, hsplit⟩ := List.append_of_mem hmem
  have hfold : (getlines content).foldlM (configLine pton) (vgConfigDefaults pton) = none := by
    rw [hsplit, List.foldlM_append, Option.bind_eq_bind, Option.bind_eq_none_iff]
    intro c _
    rw [List.foldlM_cons, hline]
    rfl
  rw [vgConfigLoad, hfold]

/-- Prefixes survive printing, parsing and the config file. What is parsed has the length that is
written, no host bits, and the addresses that the text denotes; what is printed is read back; and a
line with a list of printed prefixes loads exactly the list, unless it is longer than the array. -/
theorem cidr_roundtrip (o : Outside) (h : AddressTexts pton) :
    (∀ s p, vgParseCidrLen pton s = some p → p.Masked ∧
      ∃ a addr, 47 ∉ a ∧ Spells s a p.prefixlen ∧ p.family = textFamily a ∧
        pton p.family a = some addr ∧
        ∀ x, p.Has x ↔ x.family = p.family ∧ Agree p.prefixlen (bit addr) (bit x.octets)) ∧
    (∀ p, p.Masked → ReadsBack pton o p → vgParseCidr pton (vgCidrToStr o p) = some p) ∧
    ∀ l : NetworksLine, l.prefixes ≠ [] → (∀ p ∈ l.prefixes, p.Masked ∧ ReadsBack pton o p) →
      (l.prefixes.length ≤ 256 →
        (∀ c, configLine pton c (l.text o) = some (l.key.store c l.prefixes)) ∧
        vgConfigLoad pton (.opened (l.text o) false) =
          some (l.key.store (vgConfigDefaults pton) l.prefixes)) ∧
      (257 ≤ l.prefixes.length →
        (∀ c, configLine pton c (l.text o) = none) ∧
        ∀ content readError, l.text o ∈ getlines content →
          vgConfigLoad pton (.opened content readError) = none) := by
  refine ⟨fun s p => vgParseCidrLen_denotes, fun p hm hp => h.vgParseCidr_vgCidrToStr hp hm,
    fun l hne hl => ?_⟩
  have hline := l.configLine_text h (fun p hp => (hl p hp).2) (fun p hp => (hl p hp).1) hne
  refine ⟨fun hlen => ?_, fun hlen => ?_⟩
  · have hload : ∀ c, configLine pton c (l.text o) = some (l.key.store c l.prefixes) := fun c =>
      (hline c).trans (if_pos hlen)
    have hlines : getlines (l.text o) = [l.text o] := by
      have h10 := l.not_mem_body h (fun p hp => (hl p hp).2) (b := 10) rfl (by decide) (by decide)
        (by decide) fun hk => (l.key.text_bytes 10 hk).2.2.1 rfl
      obtain ⟨h₁, h₂⟩ := getlines_of_not_mem (s := l.body o) (by simp [NetworksLine.body]) h10
      rw [NetworksLine.text]
      split_ifs
      · exact h₂
      · rwa [List.append_nil]
    refine ⟨hload, ?_⟩
    rw [vgConfigLoad, hlines, List.foldlM_cons, hload]
    cases l.key <;> rfl
  · have hload : ∀ c, configLine pton c (l.text o) = none := fun c =>
      (hline c).trans (if_neg (by rw [vgMaxCidrList]; omega))
    exact ⟨hload, fun content readError hmem => vgConfigLoad_eq_none readError hmem hload⟩

/-- A host whose `inet_ntop` prints the two IPv4 networks of the default configuration. -/
def printingOutside : Outside :=
  { steadyOutside with
    inetNtop := fun _ a => if octet a 0 = 127 then bytes "127.0.0.0" else bytes "169.254.169.254" }

/-- The prefix of an IPv4 text that the small host can read. -/
def sampleNet (s : String) : VgCidr := (vgParseCidr samplePton (bytes s)).getD (zeroCidr .inet)

def sampleNetsLine : NetworksLine where
  key := .allowNetworks
  before := []
  after := [32]
  nets := [([32], sampleNet "127.0.0.0/8"), ([32, 44, 9, 44], sampleNet "169.254.169.254")]
  last := [44, 32]
  newline := true
  before_blank := by decide +kernel
  after_blank := by decide +kernel
  gaps := by
    intro x hx
    simp only [List.mem_cons, List.not_mem_nil, or_false] at hx
    rcases hx with rfl | rfl <;> (unfold IsGap; decide +kernel)
  commas := by decide +kernel
  last_gap := by
    unfold IsGap
    decide +kernel

theorem cidr_roundtrip_sample : AddressTexts samplePton ∧
    vgConfigLoad samplePton (.opened (bytes "allow_networks = 127.0.0.0/8 ,\t,169.254.169.254/32, \n")
      false) = some { vgConfigDefaults samplePton with
        allowCidr := [sampleNet "127.0.0.0/8", sampleNet "169.254.169.254/32"] } := by
  have htext : sampleNetsLine.text printingOutside =
      bytes "allow_networks = 127.0.0.0/8 ,\t,169.254.169.254/32, \n" := by decide +kernel
  have hnets : sampleNetsLine.prefixes =
      [sampleNet "127.0.0.0/8", sampleNet "169.254.169.254/32"] := by decide +kernel
  have hback : ∀ p ∈ sampleNetsLine.prefixes, p.Masked ∧ ReadsBack samplePton printingOutside p := by
    rw [hnets]
    simp only [List.forall_mem_cons, List.not_mem_nil, IsEmpty.forall_iff, implies_true, and_true]
    exact ⟨⟨masked_vgParseCidr_getD _ _ _, octetsOf [127, 0, 0, 0], by decide +kernel, by decide +kernel⟩,
      masked_vgParseCidr_getD _ _ _, octetsOf [169, 254, 169, 254], by decide +kernel, by decide +kernel⟩
  refine ⟨addressTexts_samplePton, ?_⟩
  have hload := (((cidr_roundtrip printingOutside addressTexts_samplePton).2.2 sampleNetsLine
    (by rw [hnets]; simp) hback).1 (by rw [hnets]; decide)).2
  rwa [htext, hnets] at hload

end VoidGate
