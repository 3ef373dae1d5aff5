import VoidGate.DropsListing
import Mathlib.Data.Rat.Floor

/-!
# Status and statistics

`ctl_status` and `ctl_stats` print keys with their values, and `kv` makes a table of
them again. It guesses types: a value that `tonumber` reads becomes a number. That is
right for every value of the two replies but one, the name of the interface.
-/

namespace VoidGate

open Patterns

variable {o : Outside} {lua : LuaMachine} {c : VgCtrl} {m : XdpMetrics}

/-- Members of `struct vg_ctrl` within their C types, `int` and `double`. -/
structure CtrlRanges (c : VgCtrl) : Prop where
  count : c.drops.count < 2 ^ 31
  rxPps : |c.rxPps| < 2 ^ 1024
  rxBps : |c.rxBps| < 2 ^ 1024

/-- A name that an interface can have. -/
structure IfName (s : List UInt8) : Prop where
  ne_nil : s ≠ []
  length_le : s.length ≤ 15
  plain : ∀ b ∈ s, isspace b = false ∧ b ≠ 47

/-- What is assumed of `tonumber`. -/
structure ReadsTexts (lua : LuaMachine) : Prop where
  integers : ReadsIntegers lua
  active : lua.ofString (bytes "active") = none
  idle : lua.ofString (bytes "idle") = none

/-- The table says what `ctl_status` was to print. -/
structure StatusDecoded (c : VgCtrl) (t : LuaTable) : Prop where
  state : t (bytes "state") = .string (stateText c)
  armed : t (bytes "armed") = .boolean (c.state = .active)
  prefixes : t (bytes "prefixes") = .number (.finite c.drops.count)
  iface : t (bytes "iface") = .string c.cfg.interface.val

/-- The table says what `ctl_stats` was to print. -/
structure StatsDecoded (c : VgCtrl) (m : XdpMetrics) (t : LuaTable) : Prop where
  rxPkts : t (bytes "rx_pkts") = .string (Decimals.text m.rxPkts.toNat)
  rxBytes : t (bytes "rx_bytes") = .string (Decimals.text m.rxBytes.toNat)
  passed : t (bytes "passed") = .string (Decimals.text m.passed.toNat)
  dropped : t (bytes "dropped") = .string (Decimals.text m.dropped.toNat)
  nonIp : t (bytes "non_ip") = .string (Decimals.text m.nonIp.toNat)
  mapFull : t (bytes "map_full") = .string (Decimals.text m.mapFull.toNat)
  parseErr : t (bytes "parse_err") = .string (Decimals.text m.parseErr.toNat)
  state : t (bytes "state") = .string (stateText c)
  prefixes : t (bytes "prefixes") = .number (.finite c.drops.count)

def armedText (c : VgCtrl) : List UInt8 := if c.state = .active then bytes "1" else bytes "0"

def statusPairs (c : VgCtrl) : List (Pair UInt8) :=
  [⟨bytes "state", stateText c, 32⟩, ⟨bytes "armed", armedText c, 32⟩,
    ⟨bytes "rx_pps", roundText c.rxPps, 32⟩, ⟨bytes "rx_bps", roundText c.rxBps, 32⟩,
    ⟨bytes "prefixes", Decimals.text c.drops.count, 32⟩, ⟨bytes "iface", c.cfg.interface.val, 10⟩]

def statsPairs (m : XdpMetrics) (c : VgCtrl) : List (Pair UInt8) :=
  [⟨bytes "rx_pkts", Decimals.text m.rxPkts.toNat, 32⟩,
    ⟨bytes "rx_bytes", Decimals.text m.rxBytes.toNat, 32⟩,
    ⟨bytes "passed", Decimals.text m.passed.toNat, 32⟩,
    ⟨bytes "dropped", Decimals.text m.dropped.toNat, 32⟩,
    ⟨bytes "non_ip", Decimals.text m.nonIp.toNat, 32⟩,
    ⟨bytes "map_full", Decimals.text m.mapFull.toNat, 32⟩,
    ⟨bytes "parse_err", Decimals.text m.parseErr.toNat, 10⟩,
    ⟨bytes "rx_pps", roundText c.rxPps, 32⟩, ⟨bytes "rx_bps", roundText c.rxBps, 32⟩,
    ⟨bytes "state", stateText c, 32⟩, ⟨bytes "prefixes", Decimals.text c.drops.count, 10⟩]

private theorem exists_roundText (q : ℚ) {B : ℕ} (h : |q| < B) :
    ∃ z : ℤ, roundText q = intText z ∧ z.natAbs ≤ B := by
  obtain ⟨hlow, hhigh⟩ := abs_lt.mp h
  have hle : (q.floor : ℚ) ≤ q := Int.floor_le q
  have hlt : q < (q.floor : ℚ) + 1 := Int.lt_floor_add_one q
  have hf : (q.floor : ℤ) < B := by exact_mod_cast hle.trans_lt hhigh
  have hf' : -(B : ℤ) < q.floor + 1 := by exact_mod_cast hlow.trans hlt
  simp only [roundText]
  split_ifs
  · exact ⟨_, rfl, by omega⟩
  · exact ⟨_, rfl, by omega⟩

/-- A value that `%S+` takes as a whole, of at most 310 bytes. -/
structure PlainText (v : List UInt8) : Prop where
  ne_nil : v ≠ []
  plain : ∀ b ∈ v, isspace b = false
  length_le : v.length ≤ 310

theorem plainText_roundText {q : ℚ} (h : |q| < 2 ^ 1024) : PlainText (roundText q) := by
  refine ⟨intText_ne_nil _, fun _ hb => isspace_of_mem_intText hb, ?_⟩
  have hB : |q| < ((2 ^ 1024 : ℕ) : ℚ) := by exact_mod_cast h
  obtain ⟨z, hz, hle⟩ := exists_roundText q hB
  have hlen : (Decimals.text z.natAbs).length ≤ 309 :=
    Decimals.length_text_le (by decide) (hle.trans_lt (by decide +kernel))
  rw [hz, intText]
  split_ifs
  · rw [List.length_cons]
    omega
  · omega

theorem plainText_text {n : ℕ} (h : n < 2 ^ 64) : PlainText (Decimals.text n) := by
  refine ⟨Decimals.text_ne_nil n, fun _ hb => isspace_of_isDigit (Decimals.isDigit_of_mem_text hb),
    ?_⟩
  exact (Decimals.length_text_le (d := 20) (by decide) (h.trans (by decide))).trans (by decide)

theorem plainText_stateText (c : VgCtrl) : PlainText (stateText c) := by
  rw [stateText]
  split_ifs <;> exact ⟨by decide +kernel, by decide +kernel, by decide +kernel⟩

theorem plainText_armedText (c : VgCtrl) : PlainText (armedText c) := by
  rw [armedText]
  split_ifs <;> exact ⟨by decide +kernel, by decide +kernel, by decide +kernel⟩

private theorem IfName.plainText {s : List UInt8} (h : IfName s) : PlainText s :=
  ⟨h.ne_nil, fun b hb => (h.plain b hb).1, h.length_le.trans (by decide)⟩

/-- A pair that `kv` takes apart as it was printed. -/
structure Printed (l : Pair UInt8) : Prop extends l.Cut wordByte nonSpace where
  length_le : (l.text 61).length ≤ 330

theorem printed_pair {k v : List UInt8} {sep : UInt8}
    (hk : k ≠ [] ∧ (∀ b ∈ k, wordByte b = true) ∧ k.length ≤ 10) (hv : PlainText v)
    (hsep : sep = 32 ∨ sep = 10) : Printed ⟨k, v, sep⟩ where
  key_ne := hk.1
  key := hk.2.1
  val_ne := hv.ne_nil
  val b hb := by rw [nonSpace, hv.plain b hb]; rfl
  sep_key := by rcases hsep with rfl | rfl <;> rfl
  sep_val := by rcases hsep with rfl | rfl <;> rfl
  length_le := by
    have hkey := hk.2.2
    have hval := hv.length_le
    simp only [Pair.text, List.length_append, List.length_cons, List.length_nil]
    omega

private theorem length_flatMap_text_le {ls : List (Pair UInt8)} (h : ∀ l ∈ ls, Printed l) :
    (ls.flatMap (Pair.text 61)).length ≤ 330 * ls.length := by
  induction ls with
  | nil => exact le_rfl
  | cons l ls ih =>
    obtain ⟨hl, hls⟩ := List.forall_mem_cons.mp h
    have hrest := ih hls
    have hlen := hl.length_le
    rw [List.flatMap_cons, List.length_append, List.length_cons]
    omega

theorem printed_statusPairs (hc : CtrlRanges c) (hname : IfName c.cfg.interface.val) :
    ∀ l ∈ statusPairs c, Printed l := by
  have hcount := plainText_text (hc.count.trans (by decide))
  simp only [statusPairs, List.forall_mem_cons, List.not_mem_nil, false_implies, implies_true,
    and_true]
  exact ⟨printed_pair (by decide +kernel) (plainText_stateText c) (.inl rfl),
    printed_pair (by decide +kernel) (plainText_armedText c) (.inl rfl),
    printed_pair (by decide +kernel) (plainText_roundText hc.rxPps) (.inl rfl),
    printed_pair (by decide +kernel) (plainText_roundText hc.rxBps) (.inl rfl),
    printed_pair (by decide +kernel) hcount (.inl rfl),
    printed_pair (by decide +kernel) hname.plainText (.inr rfl)⟩

theorem printed_statsPairs (hc : CtrlRanges c) (m : XdpMetrics) :
    ∀ l ∈ statsPairs m c, Printed l := by
  have hcount := plainText_text (hc.count.trans (by decide))
  have hcounter (n : UInt64) : PlainText (Decimals.text n.toNat) := plainText_text n.toNat_lt
  simp only [statsPairs, List.forall_mem_cons, List.not_mem_nil, false_implies, implies_true,
    and_true]
  exact ⟨printed_pair (by decide +kernel) (hcounter _) (.inl rfl),
    printed_pair (by decide +kernel) (hcounter _) (.inl rfl),
    printed_pair (by decide +kernel) (hcounter _) (.inl rfl),
    printed_pair (by decide +kernel) (hcounter _) (.inl rfl),
    printed_pair (by decide +kernel) (hcounter _) (.inl rfl),
    printed_pair (by decide +kernel) (hcounter _) (.inl rfl),
    printed_pair (by decide +kernel) (hcounter _) (.inr rfl),
    printed_pair (by decide +kernel) (plainText_roundText hc.rxPps) (.inl rfl),
    printed_pair (by decide +kernel) (plainText_roundText hc.rxBps) (.inl rfl),
    printed_pair (by decide +kernel) (plainText_stateText c) (.inl rfl),
    printed_pair (by decide +kernel) hcount (.inr rfl)⟩

theorem printReply_pairs {text : List UInt8} {ls : List (Pair UInt8)}
    (h : text = ls.flatMap (Pair.text 61)) (hls : ∀ l ∈ ls, Printed l) (hfew : ls.length ≤ 24) :
    printReply text = ls.flatMap (Pair.text 61) := by
  have hlen := length_flatMap_text_le hls
  rw [h, printReply]
  exact List.take_of_length_le (hlen.trans (by rw [replySize]; omega))

private theorem ctlStatus_eq (hc : CtrlRanges c) (hname : IfName c.cfg.interface.val) :
    ctlStatus c = (statusPairs c).flatMap (Pair.text 61) := by
  rw [ctlStatus]
  refine printReply_pairs ?_ (printed_statusPairs hc hname) (by simp [statusPairs])
  have hcut : bytes "state=" = bytes "state" ++ [61] ∧
      bytes " armed=" = [32] ++ bytes "armed" ++ [61] ∧
      bytes " rx_pps=" = [32] ++ bytes "rx_pps" ++ [61] ∧
      bytes " rx_bps=" = [32] ++ bytes "rx_bps" ++ [61] ∧
      bytes " prefixes=" = [32] ++ bytes "prefixes" ++ [61] ∧
      bytes " iface=" = [32] ++ bytes "iface" ++ [61] ∧ bytes "\n" = [10] := by decide
  obtain ⟨h1, h2, h3, h4, h5, h6, h7⟩ := hcut
  rw [h1, h2, h3, h4, h5, h6, h7, ← armedText]
  simp only [statusPairs, List.flatMap_cons, List.flatMap_nil, Pair.text, List.append_assoc,
    List.cons_append, List.nil_append, List.append_nil]

private theorem ctlStats_eq (hc : CtrlRanges c) (hm : o.metrics = some m) :
    ctlStats o c = (statsPairs m c).flatMap (Pair.text 61) := by
  simp only [ctlStats, hm]
  refine printReply_pairs ?_ (printed_statsPairs hc m) (by simp [statsPairs])
  have hcut : bytes "rx_pkts=" = bytes "rx_pkts" ++ [61] ∧
      bytes " rx_bytes=" = [32] ++ bytes "rx_bytes" ++ [61] ∧
      bytes " passed=" = [32] ++ bytes "passed" ++ [61] ∧
      bytes " dropped=" = [32] ++ bytes "dropped" ++ [61] ∧
      bytes " non_ip=" = [32] ++ bytes "non_ip" ++ [61] ∧
      bytes " map_full=" = [32] ++ bytes "map_full" ++ [61] ∧
      bytes " parse_err=" = [32] ++ bytes "parse_err" ++ [61] ∧
      bytes "\nrx_pps=" = [10] ++ bytes "rx_pps" ++ [61] ∧
      bytes " rx_bps=" = [32] ++ bytes "rx_bps" ++ [61] ∧
      bytes " state=" = [32] ++ bytes "state" ++ [61] ∧
      bytes " prefixes=" = [32] ++ bytes "prefixes" ++ [61] ∧ bytes "\n" = [10] := by decide
  obtain ⟨h1, h2, h3, h4, h5, h6, h7, h8, h9, h10, h11, h12⟩ := hcut
  rw [h1, h2, h3, h4, h5, h6, h7, h8, h9, h10, h11, h12]
  simp only [statsPairs, List.flatMap_cons, List.flatMap_nil, Pair.text, List.append_assoc,
    List.cons_append, List.nil_append, List.append_nil]

theorem clientTable_pairs (lua : LuaMachine) {ls : List (Pair UInt8)} (hls : ∀ l ∈ ls, Printed l)
    (hnodup : (ls.map Pair.key).Nodup) (herr : ¬ bytes "error" <+: ls.flatMap (Pair.text 61)) :
    ∃ t, clientTable lua (.ok (ls.flatMap (Pair.text 61))) = .ok t ∧
      ∀ l ∈ ls, t l.key = kvValue lua l.key l.val := by
  refine ⟨kv lua (ls.flatMap (Pair.text 61)), by rw [clientTable, request_ok herr]; rfl, ?_⟩
  exact fun l hl => kv_pairs lua (fun l hl => (hls l hl).toCut) hnodup hl

theorem numberOr_stateText (h : ReadsTexts lua) (c : VgCtrl) :
    lua.numberOr (stateText c) = .string (stateText c) := by
  have hnone : lua.ofString (stateText c) = none := by
    rw [stateText]
    split_ifs
    · exact h.active
    · exact h.idle
  rw [LuaMachine.numberOr, LuaMachine.tonumber, hnone]

theorem numberOr_count (h : ReadsTexts lua) (hc : CtrlRanges c) :
    lua.numberOr (Decimals.text c.drops.count) = .number (.finite c.drops.count) := by
  have hint := h.integers c.drops.count
    (by rw [Int.natAbs_natCast]; exact hc.count.trans (by decide))
  rw [intText_natCast] at hint
  rw [LuaMachine.numberOr, LuaMachine.tonumber, hint]
  rfl

private theorem numberOr_eq_string_iff {s : List UInt8} :
    lua.numberOr s = .string s ↔ lua.ofString s = none := by
  rw [LuaMachine.numberOr, LuaMachine.tonumber]
  cases lua.ofString s <;> simp

private theorem kvValue_counter {k : List UInt8} (v : List UInt8) (hk : k ∈ counters) :
    kvValue lua k v = .string v := if_pos hk

theorem kvValue_other {k : List UInt8} (v : List UInt8) (hk : k ∉ counters) (hk' : k ≠ bytes "armed") :
    kvValue lua k v = lua.numberOr v := by
  rw [kvValue, if_neg hk, if_neg hk']

private theorem kvValue_armedText (c : VgCtrl) :
    kvValue lua (bytes "armed") (armedText c) = .boolean (c.state = .active) := by
  rw [kvValue, if_neg (by decide), if_pos rfl, armedText]
  by_cases hs : c.state = .active
  · rw [if_pos hs, decide_eq_true hs]
    rfl
  · rw [if_neg hs, decide_eq_false hs]
    rfl

/-- The table of `status` has the name of the interface as a string if and only if `tonumber` does
not read it, and all else as it was printed. -/
private theorem clientStatus_table (hlua : ReadsTexts lua) (hc : CtrlRanges c)
    (hname : IfName c.cfg.interface.val) : ∃ t, clientStatus lua (.ok (ctlStatus c)) = .ok t ∧
      (StatusDecoded c t ↔ lua.ofString c.cfg.interface.val = none) := by
  have hnodup : ((statusPairs c).map Pair.key).Nodup := by
    simp only [statusPairs, List.map_cons, List.map_nil]
    decide
  have herr : ¬ bytes "error" <+: (statusPairs c).flatMap (Pair.text 61) := by
    rintro ⟨rest, h⟩
    cases h
  obtain ⟨t, ht, hvals⟩ := clientTable_pairs lua (printed_statusPairs hc hname) hnodup herr
  refine ⟨t, by rw [clientStatus, ctlStatus_eq hc hname, ht], ?_⟩
  simp only [statusPairs, List.forall_mem_cons, List.not_mem_nil, false_implies, implies_true,
    and_true] at hvals
  obtain ⟨hstate, harmed, -, -, hprefixes, hiface⟩ := hvals
  rw [kvValue_other _ (by decide) (by decide)] at hstate hprefixes hiface
  rw [← numberOr_eq_string_iff, ← hiface]
  refine ⟨StatusDecoded.iface, fun hi => ⟨?_, ?_, ?_, hi⟩⟩
  · exact hstate.trans (numberOr_stateText hlua c)
  · exact harmed.trans (kvValue_armedText c)
  · exact hprefixes.trans (numberOr_count hlua hc)

private theorem clientStats_table (hlua : ReadsTexts lua) (hc : CtrlRanges c) (hm : o.metrics = some m) :
    ∃ t, clientStats lua (.ok (ctlStats o c)) = .ok t ∧ StatsDecoded c m t := by
  have hnodup : ((statsPairs m c).map Pair.key).Nodup := by
    simp only [statsPairs, List.map_cons, List.map_nil]
    decide
  have herr : ¬ bytes "error" <+: (statsPairs m c).flatMap (Pair.text 61) := by
    rintro ⟨rest, h⟩
    cases h
  obtain ⟨t, ht, hvals⟩ := clientTable_pairs lua (printed_statsPairs hc m) hnodup herr
  refine ⟨t, by rw [clientStats, ctlStats_eq hc hm, ht], ?_⟩
  simp only [statsPairs, List.forall_mem_cons, List.not_mem_nil, false_implies, implies_true,
    and_true] at hvals
  obtain ⟨h1, h2, h3, h4, h5, h6, h7, -, -, hstate, hprefixes⟩ := hvals
  rw [kvValue_counter _ (by decide)] at h1 h2 h3 h4 h5 h6 h7
  rw [kvValue_other _ (by decide) (by decide)] at hstate hprefixes
  exact ⟨h1, h2, h3, h4, h5, h6, h7, hstate.trans (numberOr_stateText hlua c),
    hprefixes.trans (numberOr_count hlua hc)⟩

/-- `status` and `stats` decode what the daemon encoded, `stats` in every state and for all
counters, and `status` exactly where the name of the interface is no Lua numeral. -/
theorem status_stats_decode (hlua : ReadsTexts lua) (hc : CtrlRanges c)
    (hname : IfName c.cfg.interface.val) :
    ((∃ t, clientStatus lua (.ok (ctlStatus c)) = .ok t ∧ StatusDecoded c t) ↔
        lua.ofString c.cfg.interface.val = none) ∧
      ∀ o m, o.metrics = some m →
        ∃ t, clientStats lua (.ok (ctlStats o c)) = .ok t ∧ StatsDecoded c m t := by
  refine ⟨?_, fun o m hm => clientStats_table hlua hc hm⟩
  obtain ⟨t, ht, hiff⟩ := clientStatus_table hlua hc hname
  rw [← hiff]
  constructor
  · rintro ⟨t', ht', hdec⟩
    cases ht.symm.trans ht'
    exact hdec
  · exact fun hdec => ⟨t, ht, hdec⟩

/-- A Lua machine that reads integer numerals and nothing else. -/
def numeralLua : LuaMachine where
  ofString s :=
    let digits := if s.head? = some 45 then s.tail else s
    if digits ≠ [] ∧ digits.all Decimals.isDigit = true then integerLua.ofString s else none
  ofOther _ := none

theorem readsTexts_numeralLua : ReadsTexts numeralLua where
  integers z hz := by
    have hdigits : ∀ n, Decimals.text n ≠ [] ∧ (Decimals.text n).all Decimals.isDigit = true :=
      fun n => ⟨Decimals.text_ne_nil n,
        List.all_eq_true.mpr fun _ hb => Decimals.isDigit_of_mem_text hb⟩
    have hhead : ∀ n, (Decimals.text n).head? ≠ some 45 := fun n hn => by
      cases Decimals.isDigit_of_mem_text (List.mem_of_mem_head? hn)
    have hnum : (if (intText z).head? = some 45 then (intText z).tail else intText z) =
        Decimals.text z.natAbs := by
      rw [intText]
      split_ifs with hneg hno hyes
      · rfl
      · exact absurd rfl hno
      · exact absurd hyes (hhead _)
      · rfl
    rw [← readsIntegers_integerLua z hz]
    simp only [numeralLua, hnum]
    exact if_pos (hdigits _)
  active := by decide +kernel
  idle := by decide +kernel

private theorem ctrlRanges_of_startUp {env : Env} {cfgPath : List UInt8} {ifaceOv : Option (List UInt8)}
    {file : ConfigFile} {nic : Option (List IfAddr)}
    (h : startUp env cfgPath ifaceOv file nic = some c) : CtrlRanges c := by
  have hinit := (startUp_initial h).1
  have hcount : c.drops.count = 0 := by rw [hinit.drops_ok.count_eq, hinit.records, List.length_nil]
  refine ⟨by rw [hcount]; decide, ?_, ?_⟩
  · rw [hinit.rates.1, abs_zero]
    exact pow_pos two_pos _
  · rw [hinit.rates.2, abs_zero]
    exact pow_pos two_pos _

theorem status_stats_decode_eth : ∃ t, clientStatus numeralLua (.ok (ctlStatus steadyStart)) = .ok t ∧
    StatusDecoded steadyStart t := by
  have hname : steadyStart.cfg.interface.val = bytes "eth0" := by decide +kernel
  refine (status_stats_decode readsTexts_numeralLua (ctrlRanges_of_startUp steadyStart_eq) ?_).1.mpr ?_
  · rw [hname]
    exact ⟨by decide +kernel, by decide +kernel, by decide +kernel⟩
  · rw [hname]
    decide +kernel

/-- The small host with `10` as the name of its interface. -/
def numberedStart : VgCtrl :=
  (startUp steadyEnv (bytes "/etc/voidgate/voidgate.conf") (some (bytes "10")) .missing
    (some [⟨some (bytes "10"), some (.inet, octetsOf [10, 0, 0, 5])⟩])).get (by decide +kernel)

/-- Its name comes back as a number. -/
theorem numbered_iface_decoded : ReadsTexts numeralLua ∧ IfName numberedStart.cfg.interface.val ∧
    ctlStatus numberedStart =
      bytes "state=idle armed=0 rx_pps=0 rx_bps=0 prefixes=0 iface=10\n" ∧
    ∃ t, clientStatus numeralLua (.ok (ctlStatus numberedStart)) = .ok t ∧
      t (bytes "iface") = .number (.finite 10) ∧ ¬ StatusDecoded numberedStart t := by
  have hname : numberedStart.cfg.interface.val = bytes "10" := by decide +kernel
  have htext : ctlStatus numberedStart =
      bytes "state=idle armed=0 rx_pps=0 rx_bps=0 prefixes=0 iface=10\n" := by decide +kernel
  have hiface : kv numeralLua (ctlStatus numberedStart) (bytes "iface") = .number (.finite 10) := by
    rw [htext]
    decide +kernel
  have herr : ¬ bytes "error" <+: ctlStatus numberedStart := by
    rw [htext]
    decide
  refine ⟨readsTexts_numeralLua, ?_, htext, _, by rw [clientStatus, clientTable, request_ok herr]; rfl,
    hiface, fun h => ?_⟩
  · rw [hname]
    exact ⟨by decide +kernel, by decide +kernel, by decide +kernel⟩
  · cases hiface.symm.trans h.iface

end VoidGate
