import VoidGate.ConfigSpec
import VoidGate.NetworkLists

/-!
# Numbers in the config file

A number is read by `strtoull`, and the range of its key is tested on what `strtoull`
returns. A sign is accepted there, a minus negates modulo 2^64, and a value that does
not fit is replaced by the largest one. So the loader stores the number that is
written, or refuses it, on every text but those that `strtoull` turns into another
number within the range.
-/

namespace VoidGate

open Runs

inductive Sign where
  | absent
  | plus
  | minus
  deriving DecidableEq

namespace Sign

def text : Sign → List UInt8
  | absent => []
  | plus => bytes "+"
  | minus => bytes "-"

/-- What `strtoull` returns for a number of value `n` behind this sign. -/
def value (s : Sign) (n : ℕ) : ℕ :=
  if 2 ^ 64 ≤ n then 2 ^ 64 - 1 else if s = minus then (2 ^ 64 - n) % 2 ^ 64 else n

end Sign

/-- Some decimal digits, and nothing else, of value `v`. -/
def Numeral (t : List UInt8) (v : ℕ) : Prop :=
  t ≠ [] ∧ (∀ d ∈ t, isdigit d = true) ∧ decimal t = v

private theorem exists_sign (t : List UInt8) : ∃ (s : Sign) (r : List UInt8), t = s.text ++ r ∧
    (s = .absent → r.head? ≠ some 43 ∧ r.head? ≠ some 45) := by
  cases t with
  | nil => exact ⟨.absent, [], rfl, fun _ => by simp⟩
  | cons b r =>
    by_cases hplus : b = 43
    · exact ⟨.plus, r, by rw [hplus]; rfl, fun h => by cases h⟩
    · by_cases hminus : b = 45
      · exact ⟨.minus, r, by rw [hminus]; rfl, fun h => by cases h⟩
      · exact ⟨.absent, b :: r, rfl, fun _ => by simp [hplus, hminus]⟩

theorem strtoull_sign (s : Sign) {r : List UInt8} (hblank : (s.text ++ r).dropWhile isspace = s.text ++ r)
    (hsign : s = .absent → r.head? ≠ some 43 ∧ r.head? ≠ some 45) :
    strtoull (s.text ++ r) =
      if r.takeWhile isdigit = [] then (0, s.text ++ r)
      else (s.value (decimal (r.takeWhile isdigit)), r.dropWhile isdigit) := by
  simp only [strtoull, hblank]
  cases s with
  | absent =>
    obtain ⟨hplus, hminus⟩ := hsign rfl
    simp [Sign.text, Sign.value, hplus, hminus]
  | plus => simp [Sign.text, Sign.value, bytes]
  | minus => simp [Sign.text, Sign.value, bytes]

private theorem parseU64_eq_some_iff {t : List UInt8} (hblank : t.dropWhile isspace = t) {v : ℕ} :
    parseU64 t = some v ↔ ∃ (s : Sign) (ds : List UInt8), t = s.text ++ ds ∧ ds ≠ [] ∧
      (∀ d ∈ ds, isdigit d = true) ∧ v = s.value (decimal ds) := by
  constructor
  · intro h
    obtain ⟨s, r, rfl, hsign⟩ := exists_sign t
    simp only [parseU64, strtoull_sign s hblank hsign] at h
    by_cases hdigits : r.takeWhile isdigit = []
    · simp [hdigits] at h
    · simp only [if_neg hdigits] at h
      split_ifs at h with hnil hend
      have hds := List.dropWhile_eq_nil_iff.mp (not_not.mp (not_or.mp hend).2)
      rw [List.takeWhile_eq_self_iff.mpr hds] at h hdigits
      exact ⟨s, r, rfl, hdigits, hds, (Option.some.inj h).symm⟩
  · rintro ⟨s, ds, rfl, hne, hds, rfl⟩
    have htake := List.takeWhile_eq_self_iff.mpr hds
    have hdrop := List.dropWhile_eq_nil_iff.mpr hds
    have hsign : s = .absent → ds.head? ≠ some 43 ∧ ds.head? ≠ some 45 := by
      refine fun _ => ⟨fun h => ?_, fun h => ?_⟩
      · cases hds _ (List.mem_of_head? h)
      · cases hds _ (List.mem_of_head? h)
    have hnil : s.text ++ ds ≠ [] := fun h => hne (List.append_eq_nil_iff.mp h).2
    rw [parseU64, if_neg hnil, strtoull_sign s hblank hsign, htake, hdrop, if_neg hne]
    exact if_neg (by simpa using Ne.symm hnil)

theorem dropWhile_trim (s : List UInt8) : (trim s).dropWhile isspace = trim s := by
  rw [trim]
  obtain ⟨r, hr⟩ := List.rdropWhile_prefix isspace (s.dropWhile isspace)
  cases hu : (s.dropWhile isspace).rdropWhile isspace with
  | nil => rfl
  | cons b u =>
    have hhead : (s.dropWhile isspace).head? = some b := by rw [← hr, hu]; rfl
    have hb := List.head?_dropWhile_not isspace s
    rw [hhead] at hb
    exact List.dropWhile_cons_of_neg (by simpa using hb)

/-- The kinds of numbers: `CFG_U64`, `CFG_U32`, `CFG_I32`, and a token of `allow_ports`. -/
inductive NumKind where
  | u64
  | u32
  | i32
  | port
  deriving DecidableEq

namespace NumKind

def InRange : NumKind → ℕ → Prop
  | u64, v => v < 2 ^ 64
  | u32, v => v < 2 ^ 32
  | i32, v => v ≤ 2 ^ 31 - 1
  | port, v => 1 ≤ v ∧ v ≤ 65535

instance : (kind : NumKind) → (v : ℕ) → Decidable (kind.InRange v)
  | u64, v => inferInstanceAs (Decidable (v < 2 ^ 64))
  | u32, v => inferInstanceAs (Decidable (v < 2 ^ 32))
  | i32, v => inferInstanceAs (Decidable (v ≤ 2 ^ 31 - 1))
  | port, v => inferInstanceAs (Decidable (1 ≤ v ∧ v ≤ 65535))

/-- The number that is stored for a text. -/
def read (kind : NumKind) (t : List UInt8) : Option ℕ :=
  (parseU64 t).filter fun v => kind.InRange v

end NumKind

/-- `strtoull` makes a number of this range out of a sign and digits, or out of digits whose value
does not fit 64 bits. -/
def Misread (kind : NumKind) (t : List UInt8) : Prop :=
  ∃ (s : Sign) (ds : List UInt8), t = s.text ++ ds ∧ ds ≠ [] ∧ (∀ d ∈ ds, isdigit d = true) ∧
    kind.InRange (s.value (decimal ds)) ∧ (s ≠ .absent ∨ 2 ^ 64 ≤ decimal ds)

section Read
variable {kind : NumKind} {t : List UInt8} {v : ℕ}

theorem NumKind.InRange.lt (h : kind.InRange v) : v < 2 ^ 64 := by
  cases kind <;> simp only [InRange] at h <;> omega

theorem value_absent {n : ℕ} (h : n < 2 ^ 64) : Sign.absent.value n = n := by
  rw [Sign.value, if_neg (by omega), if_neg (by simp)]

theorem read_eq_some_iff (hblank : t.dropWhile isspace = t) : kind.read t = some v ↔
    kind.InRange v ∧ ∃ (s : Sign) (ds : List UInt8), t = s.text ++ ds ∧ ds ≠ [] ∧
      (∀ d ∈ ds, isdigit d = true) ∧ v = s.value (decimal ds) := by
  rw [NumKind.read, Option.filter_eq_some_iff, parseU64_eq_some_iff hblank, and_comm]
  simp

theorem read_of_numeral (hblank : t.dropWhile isspace = t) (ht : Numeral t v)
    (hv : kind.InRange v) : kind.read t = some v := by
  obtain ⟨hne, hds, rfl⟩ := ht
  exact (read_eq_some_iff hblank).mpr ⟨hv, .absent, t, rfl, hne, hds, (value_absent hv.lt).symm⟩

theorem numeral_of_read (hblank : t.dropWhile isspace = t) (h : ¬ Misread kind t)
    (hr : kind.read t = some v) : Numeral t v ∧ kind.InRange v := by
  obtain ⟨hv, s, ds, hs, hne, hds, rfl⟩ := (read_eq_some_iff hblank).mp hr
  have hplain : s = .absent ∧ decimal ds < 2 ^ 64 := by
    by_contra hbad
    refine h ⟨s, ds, hs, hne, hds, hv, ?_⟩
    by_cases hsign : s = .absent
    · exact .inr (not_lt.mp fun hlt => hbad ⟨hsign, hlt⟩)
    · exact .inl hsign
  obtain ⟨rfl, hlt⟩ := hplain
  obtain rfl : t = ds := hs
  exact ⟨⟨hne, hds, (value_absent hlt).symm⟩, hv⟩

theorem Misread.read (hblank : t.dropWhile isspace = t) (h : Misread kind t) :
    ∃ v, kind.read t = some v ∧ ¬ ∃ n, Numeral t n ∧ kind.InRange n := by
  obtain ⟨s, ds, rfl, hne, hds, hv, hbad⟩ := h
  refine ⟨s.value (decimal ds), (read_eq_some_iff hblank).mpr ⟨hv, s, ds, rfl, hne, hds, rfl⟩, ?_⟩
  rintro ⟨n, ⟨-, hdigits, rfl⟩, hn⟩
  cases s with
  | absent => exact absurd hn.lt (not_lt.mpr (hbad.resolve_left fun h => h rfl))
  | plus => cases hdigits 43 List.mem_cons_self
  | minus => cases hdigits 45 List.mem_cons_self

end Read

/-- The kind of number that a key takes, and where it is stored. -/
def Key.number : Key → Option (NumKind × (VgConfig → ℕ → VgConfig))
  | .wakePps => some (.u64, fun c v => { c with wakePps := v })
  | .wakeMbps => some (.u64, fun c v => { c with wakeMbps := v })
  | .idlePollMs => some (.i32, fun c v => { c with idlePollMs := v })
  | .clearSeconds => some (.i32, fun c v => { c with clearSeconds := v })
  | .thresholdPps => some (.u64, fun c v => { c with thresholdPps := v })
  | .thresholdMbps => some (.u64, fun c v => { c with thresholdMbps := v })
  | .banTime => some (.i32, fun c v => { c with banTime := v })
  | .aggregateK => some (.i32, fun c v => { c with aggregateK := v })
  | .metricsPort => some (.i32, fun c v => { c with metricsPort := v })
  | .remoteMapSize => some (.u32, fun c v => { c with remoteMapSize := v })
  | .dropMapSize => some (.u32, fun c v => { c with dropMapSize := v })
  | _ => none

section Stored
variable {c : VgConfig} {val : List UInt8}

private theorem parseU64_lt {v : ℕ} (h : parseU64 val = some v) : v < 2 ^ 64 := by
  simp only [parseU64, strtoull] at h
  split_ifs at h <;> obtain rfl := Option.some.inj h <;> omega

theorem applyU64_eq (store : VgConfig → ℕ → VgConfig) :
    applyU64 store c val = (NumKind.u64.read val).map (store c) := by
  rw [applyU64, NumKind.read]
  cases h : parseU64 val with
  | none => rfl
  | some v =>
    have hv : NumKind.u64.InRange v := parseU64_lt h
    rw [Option.filter_some, if_pos (decide_eq_true hv)]

theorem map_read_eq_bind {α : Type} (kind : NumKind) (f : ℕ → α) {bad : ℕ → Prop}
    [DecidablePred bad] (hbad : ∀ v, bad v ↔ ¬ kind.InRange v) :
    (kind.read val).map f = (parseU64 val).bind fun v => if bad v then none else some (f v) := by
  rw [NumKind.read]
  cases parseU64 val with
  | none => rfl
  | some v =>
    rw [Option.filter_some, Option.bind_some]
    by_cases hv : kind.InRange v
    · rw [if_pos (decide_eq_true hv), if_neg fun h => (hbad v).mp h hv, Option.map_some]
    · rw [if_neg (by simpa using hv), if_pos ((hbad v).mpr hv), Option.map_none]

theorem applyU32_eq (store : VgConfig → ℕ → VgConfig) :
    applyU32 store c val = (NumKind.u32.read val).map (store c) := by
  have hbad : ∀ v, 0xffffffff < v ↔ ¬ NumKind.u32.InRange v := fun v => by
    simp only [NumKind.InRange]
    omega
  rw [applyU32, map_read_eq_bind _ _ hbad]
  cases parseU64 val <;> rfl

theorem applyI32_eq (store : VgConfig → ℤ → VgConfig) :
    applyI32 store c val = (NumKind.i32.read val).map fun v : ℕ => store c v := by
  have hbad : ∀ v, 2 ^ 31 - 1 < v ↔ ¬ NumKind.i32.InRange v := fun v => not_le.symm
  rw [applyI32, parseInt, map_read_eq_bind _ _ hbad]
  cases parseU64 val with
  | none => rfl
  | some v =>
    simp only [Option.bind_some]
    split_ifs <;> rfl

private theorem scalar_number {e : List UInt8 × (VgConfig → List UInt8 → Option VgConfig)}
    (he : e ∈ scalars) {k : Key} (htext : e.1 = k.text) {kind : NumKind}
    {store : VgConfig → ℕ → VgConfig} (h : k.number = some (kind, store)) :
    e.2 c val = (kind.read val).map (store c) := by
  have hk (k' : Key) (htext' : e.1 = k'.text) : k = k' :=
    Key.text_injective (htext.symm.trans htext')
  simp only [scalars, List.mem_cons, List.not_mem_nil, or_false] at he
  rcases he with rfl | rfl | rfl | rfl | rfl | rfl | rfl | rfl | rfl | rfl | rfl | rfl | rfl |
    rfl | rfl | rfl
  all_goals dsimp only
  · obtain rfl := hk .interface rfl
    cases h
  · obtain rfl := hk .xdpMode rfl
    cases h
  · obtain rfl := hk .logFile rfl
    cases h
  · obtain rfl := hk .pidFile rfl
    cases h
  · obtain rfl := hk .ctlSocketGroup rfl
    cases h
  · obtain rfl := hk .wakePps rfl
    cases h
    exact applyU64_eq _
  · obtain rfl := hk .wakeMbps rfl
    cases h
    exact applyU64_eq _
  · obtain rfl := hk .idlePollMs rfl
    cases h
    exact applyI32_eq _
  · obtain rfl := hk .clearSeconds rfl
    cases h
    exact applyI32_eq _
  · obtain rfl := hk .thresholdPps rfl
    cases h
    exact applyU64_eq _
  · obtain rfl := hk .thresholdMbps rfl
    cases h
    exact applyU64_eq _
  · obtain rfl := hk .banTime rfl
    cases h
    exact applyI32_eq _
  · obtain rfl := hk .aggregateK rfl
    cases h
    exact applyI32_eq _
  · obtain rfl := hk .metricsPort rfl
    cases h
    exact applyI32_eq _
  · obtain rfl := hk .remoteMapSize rfl
    cases h
    exact applyU32_eq _
  · obtain rfl := hk .dropMapSize rfl
    cases h
    exact applyU32_eq _

private theorem applySetting_number (pton : InetPton) {k : Key} {kind : NumKind}
    {store : VgConfig → ℕ → VgConfig} (h : k.number = some (kind, store)) :
    applySetting pton c k.text val = (kind.read val).map (store c) := by
  have hsome : (scalars.find? (·.1 == k.text)).isSome := by
    refine find_text_isSome ?_ ?_ ?_ <;> rintro rfl <;> cases h
  obtain ⟨e, he⟩ := Option.isSome_iff_exists.mp hsome
  have htext : e.1 = k.text := by simpa using List.find?_some he
  rw [applySetting, he]
  exact scalar_number (List.mem_of_find?_eq_some he) htext h

theorem allowPortStep_eq {ports : List UInt16} {tok : List UInt8} (htok : trim tok ≠ [])
    (hroom : ports.length < vgMaxAllowPorts) : allowPortStep ports tok =
      (NumKind.port.read (trim tok)).map fun v => ports ++ [UInt16.ofNat v] := by
  have hbad : ∀ v, (v < 1 ∨ 65535 < v) ↔ ¬ NumKind.port.InRange v := fun v => by
    simp only [NumKind.InRange]
    omega
  simp only [allowPortStep, if_neg htok, if_neg (not_le.mpr hroom), map_read_eq_bind _ _ hbad]
  cases parseU64 (trim tok) <;> rfl

end Stored

/-- The line stores the number that its value `val` spells if that is a number of the range, and is
accepted only then; another value makes the load of every file with this line fail. -/
structure NumberExact (pton : InetPton) (kind : NumKind) (store : VgConfig → ℕ → VgConfig)
    (line val : List UInt8) : Prop where
  kept : ∀ v, Numeral val v → kind.InRange v → ∀ c, configLine pton c line = some (store c v)
  stored : ∀ c c', configLine pton c line = some c' →
    ∃ v, Numeral val v ∧ kind.InRange v ∧ c' = store c v
  refused : (¬ ∃ v, Numeral val v ∧ kind.InRange v) → ∀ content readError,
    line ∈ getlines content → vgConfigLoad pton (.opened content readError) = none

/-- The same for a token of `allow_ports`, which adds its number to the ports. -/
structure PortExact (pton : InetPton) (tok : List UInt8) : Prop where
  kept : ∀ v, Numeral (trim tok) v → 1 ≤ v → v ≤ 65535 → ∀ ports, ports.length < vgMaxAllowPorts →
    allowPortStep ports tok = some (ports ++ [UInt16.ofNat v])
  stored : ∀ ports ports', allowPortStep ports tok = some ports' →
    ∃ v, Numeral (trim tok) v ∧ 1 ≤ v ∧ v ≤ 65535 ∧ ports' = ports ++ [UInt16.ofNat v]
  refused : (¬ ∃ v, Numeral (trim tok) v ∧ 1 ≤ v ∧ v ≤ 65535) → ∀ content readError line val,
    line ∈ getlines content → configSetting line = some (bytes "allow_ports", val) →
    tok ∈ strtokComma val → vgConfigLoad pton (.opened content readError) = none

section Exact
variable {pton : InetPton} {line val tok : List UInt8}

private theorem dropWhile_configSetting {key : List UInt8} (h : configSetting line = some (key, val)) :
    val.dropWhile isspace = val := by
  simp only [configSetting] at h
  split_ifs at h
  cases h
  exact dropWhile_trim _

private theorem numberExact_iff {k : Key} {kind : NumKind} {store : VgConfig → ℕ → VgConfig}
    (hk : k.number = some (kind, store)) (hline : configSetting line = some (k.text, val)) :
    NumberExact pton kind store line val ↔ ¬ Misread kind val := by
  have hblank := dropWhile_configSetting hline
  have heq : ∀ c, configLine pton c line = (kind.read val).map (store c) := by
    intro c
    rw [configLine, hline]
    exact applySetting_number pton hk
  constructor
  · rintro ⟨-, hstored, -⟩ hmis
    obtain ⟨v, hv, hno⟩ := hmis.read hblank
    obtain ⟨n, hn, hrange, -⟩ := hstored (vgConfigDefaults pton) _ (by rw [heq, hv]; rfl)
    exact hno ⟨n, hn, hrange⟩
  · intro hmis
    constructor
    · intro v hnum hrange c
      rw [heq, read_of_numeral hblank hnum hrange]
      rfl
    · intro c c' hc
      rw [heq] at hc
      obtain ⟨v, hv, rfl⟩ := Option.map_eq_some_iff.mp hc
      obtain ⟨hnum, hrange⟩ := numeral_of_read hblank hmis hv
      exact ⟨v, hnum, hrange, rfl⟩
    · intro hno content readError hmem
      refine vgConfigLoad_eq_none readError hmem fun c => ?_
      rw [heq, Option.map_eq_none_iff]
      cases hv : kind.read val with
      | none => rfl
      | some v => exact absurd ⟨v, numeral_of_read hblank hmis hv⟩ hno

private theorem parseAllowPorts_eq_none (h : ∀ ports, allowPortStep ports tok = none)
    (hmem : tok ∈ strtokComma val) : parseAllowPorts val = none := by
  obtain ⟨pre, post, hsplit⟩ := List.append_of_mem hmem
  rw [parseAllowPorts, hsplit, List.foldlM_append, Option.bind_eq_bind, Option.bind_eq_none_iff]
  intro ports _
  rw [List.foldlM_cons, h]
  rfl

private theorem portExact_iff (htok : trim tok ≠ []) :
    PortExact pton tok ↔ ¬ Misread .port (trim tok) := by
  have hblank := dropWhile_trim tok
  constructor
  · rintro ⟨-, hstored, -⟩ hmis
    obtain ⟨v, hv, hno⟩ := hmis.read hblank
    have hstep : allowPortStep [] tok = (NumKind.port.read (trim tok)).map fun v =>
        [] ++ [UInt16.ofNat v] := allowPortStep_eq htok (by decide)
    rw [hv] at hstep
    obtain ⟨n, hn, hlow, hhigh, -⟩ := hstored [] _ hstep
    exact hno ⟨n, hn, hlow, hhigh⟩
  · intro hmis
    have hstored : ∀ ports ports', allowPortStep ports tok = some ports' →
        ∃ v, Numeral (trim tok) v ∧ 1 ≤ v ∧ v ≤ 65535 ∧ ports' = ports ++ [UInt16.ofNat v] := by
      intro ports ports' hstep
      have hroom : ports.length < vgMaxAllowPorts := by
        by_contra hfull
        simp only [allowPortStep, if_neg htok, if_pos (not_lt.mp hfull)] at hstep
        cases hstep
      rw [allowPortStep_eq htok hroom] at hstep
      obtain ⟨v, hv, rfl⟩ := Option.map_eq_some_iff.mp hstep
      obtain ⟨hnum, hlow, hhigh⟩ := numeral_of_read hblank hmis hv
      exact ⟨v, hnum, hlow, hhigh, rfl⟩
    refine ⟨fun v hnum hlow hhigh ports hroom => ?_, hstored,
      fun hno content readError line val hmem hline htoks => ?_⟩
    · have hrange : NumKind.port.InRange v := ⟨hlow, hhigh⟩
      rw [allowPortStep_eq htok hroom, read_of_numeral hblank hnum hrange]
      rfl
    have hnone : ∀ ports, allowPortStep ports tok = none := by
      intro ports
      cases hstep : allowPortStep ports tok with
      | none => rfl
      | some ports' =>
        obtain ⟨v, hnum, hlow, hhigh, -⟩ := hstored ports ports' hstep
        exact absurd ⟨v, hnum, hlow, hhigh⟩ hno
    refine vgConfigLoad_eq_none readError hmem fun c => ?_
    have hfind : scalars.find? (·.1 == bytes "allow_ports") = none := by decide +kernel
    rw [configLine, hline]
    simp only [applySetting, hfind, if_true, parseAllowPorts_eq_none hnone htoks, Option.map_none]

end Exact

/-- A number of the config file is stored as it is written or refused, for every key that takes
one and for every token of `allow_ports`, exactly when it is not misread. A blank token of
`allow_ports` is skipped and says nothing. What a line stores is its own: the end of
`vg_config_load` still sets an `idle_poll_ms` that is not positive to 1000. -/
theorem config_numbers_iff (pton : InetPton) :
    (∀ k kind store line val, Key.number k = some (kind, store) →
      configSetting line = some (k.text, val) →
      (NumberExact pton kind store line val ↔ ¬ Misread kind val)) ∧
    ∀ tok, trim tok ≠ [] → (PortExact pton tok ↔ ¬ Misread .port (trim tok)) :=
  ⟨fun _ _ _ _ _ hk hline => numberExact_iff hk hline, fun _ htok => portExact_iff htok⟩

theorem config_numbers_iff_threshold :
    NumberExact samplePton .u64 (fun c v => { c with thresholdPps := v })
      (bytes "threshold_pps = 5000") (bytes "5000") := by
  refine ((config_numbers_iff samplePton).1 .thresholdPps .u64 _ _ _ rfl (by decide +kernel)).mpr ?_
  rintro ⟨s, ds, htext, -, -, -, hodd⟩
  cases s with
  | absent =>
    obtain rfl : bytes "5000" = ds := htext
    exact hodd.elim (absurd rfl) (by decide +kernel)
  | plus =>
    have hfirst : some (53 : UInt8) = some 43 := congrArg List.head? htext
    exact absurd hfirst (by decide)
  | minus =>
    have hfirst : some (53 : UInt8) = some 45 := congrArg List.head? htext
    exact absurd hfirst (by decide)

/-- A threshold of -1 is the largest number, and so is one that does not fit; a size and a port
that are far below 0 come out small and positive. -/
theorem signed_numbers_accepted :
    (vgConfigLoad samplePton (.opened (bytes "threshold_pps = -1\n") false)).map
        (fun c => c.thresholdPps) = some 18446744073709551615 ∧
      (vgConfigLoad samplePton (.opened (bytes "threshold_pps = 18446744073709551616\n") false)).map
        (fun c => c.thresholdPps) = some 18446744073709551615 ∧
      (vgConfigLoad samplePton (.opened (bytes "drop_map_size = -18446744073709551615\n") false)).map
        (fun c => c.dropMapSize) = some 1 ∧
      (vgConfigLoad samplePton (.opened (bytes "allow_ports = -18446744073709551594\n") false)).map
        (fun c => c.allowPorts) = some [22] := by
  decide +kernel

end VoidGate
