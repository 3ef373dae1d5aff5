import VoidGate.CidrText

/-!
# The drop command

`ctl_drop` reads its arguments with `strchr`, the prefix parser and `parse_ttl`, and
then makes one of two calls or none. Here the reading is separated from the call, with
the accumulator of `parse_ttl` as the 32-bit number it is, and compared with the forms
of the command in the comment of the source.
-/

namespace VoidGate

/-- What `ctl_drop` does once it has read its arguments. -/
inductive DropCall where
  | badCidr
  | badTtl
  | drop (p : VgCidr)
  | dropTtl (p : VgCidr) (ttl : ℕ)
  deriving DecidableEq

/-- `parse_ttl` with its `uint32_t v`. -/
def parseTtlWord (s : List UInt8) : Option (BitVec 32) :=
  if (bytes "ttl=").isPrefixOf s then
    match Decimals.readWord vgMaxDropTtl (s.drop 4) 0 with
    | none => none
    | some v => if v.toNat < 1 ∨ vgMaxDropTtl < v.toNat then none else some v
  else none

/-- `ctl_drop` up to its call. A lifetime of 0 stands for none. -/
def dropCall (pton : InetPton) (args : List UInt8) : DropCall :=
  match vgParseCidrLen pton (args.takeWhile (· != 32)) with
  | none => .badCidr
  | some p =>
    match if 32 ∈ args then parseTtlWord ((args.dropWhile (· != 32)).drop 1) else some 0 with
    | none => .badTtl
    | some ttl => if ttl ≠ 0 then .dropTtl p ttl.toNat else .drop p

/-- The call, and the reply. -/
def DropCall.run (env : Env) (c : VgCtrl) : DropCall → VgCtrl × List UInt8
  | badCidr => (c, bytes "error: bad cidr\n")
  | badTtl => (c, bytes "error: bad ttl\n")
  | drop p => answer (bytes "error: refused or map update failed\n") (vgCtrlDrop env c p .manual)
  | dropTtl p ttl =>
    answer (bytes "error: refused or map update failed\n") (vgCtrlDropTtl env c p ttl)

private theorem parseTtlWord_eq (s : List UInt8) : (parseTtlWord s).map BitVec.toNat = parseTtl s := by
  have hread : _ = Decimals.readBounded vgMaxDropTtl (s.drop 4) 0 :=
    Decimals.readWord_eq (w := 32) (by decide) (s.drop 4) 0
  rw [parseTtlWord, parseTtl, ← hread]
  split_ifs with hs
  · cases Decimals.readWord (w := 32) vgMaxDropTtl (s.drop 4) 0 with
    | none => rfl
    | some v =>
      simp only [Option.map_some]
      split_ifs <;> rfl
  · rfl

theorem parseTtl_eq_some_iff {s : List UInt8} {v : ℕ} : parseTtl s = some v ↔
    ∃ ds, s = bytes "ttl=" ++ ds ∧ (∀ d ∈ ds, isdigit d = true) ∧ decimal ds = v ∧
      1 ≤ v ∧ v ≤ vgMaxDropTtl := by
  constructor
  · intro h
    rw [parseTtl] at h
    split_ifs at h with hs
    split at h
    · cases h
    · rename_i v' hread
      split_ifs at h with hrange
      obtain rfl := Option.some.inj h
      obtain ⟨ds, rfl⟩ := List.isPrefixOf_iff_prefix.mp hs
      obtain ⟨hds, hv⟩ := Decimals.of_readBounded hread
      exact ⟨ds, rfl, hds, hv.symm, by omega, by omega⟩
  · rintro ⟨ds, rfl, hds, rfl, hlow, hhigh⟩
    have hread : Decimals.readBounded vgMaxDropTtl ((bytes "ttl=" ++ ds).drop 4) 0 =
        some (decimal ds) := Decimals.readBounded_eq hds hhigh
    rw [parseTtl, if_pos (List.isPrefixOf_iff_prefix.mpr (List.prefix_append _ _)), hread]
    exact if_neg (by omega)

-- 2^32 + 60 would be 60 in 32 bits
example : parseTtlWord (bytes "ttl=4294967356") = none := by decide

example : parseTtlWord (bytes "ttl=0060") = some 60 := by decide

/-- The text `s` is the prefix `p`: an address that `inet_pton` accepts, alone or with a length
in decimal digits that its family allows, in a text that fits the parser's buffer. The host bits
are cleared. -/
def CidrText (pton : InetPton) (s : List UInt8) (p : VgCidr) : Prop :=
  s.length < 128 ∧ 0 ∉ s ∧ ∃ a n addr, 47 ∉ a ∧ Spells s a n ∧
    pton (textFamily a) a = some addr ∧
    ∃ h : n ≤ (textFamily a).width, p = parsedCidr (textFamily a) addr n h

/-- `<cidr>`. -/
def ManualForm (pton : InetPton) (args : List UInt8) (p : VgCidr) : Prop :=
  32 ∉ args ∧ CidrText pton args p

/-- `<cidr> ttl=<seconds>`: any number of decimal digits, of a value from one second to a year. -/
def TimedForm (pton : InetPton) (args : List UInt8) (p : VgCidr) (v : ℕ) : Prop :=
  ∃ word ds, args = word ++ bytes " ttl=" ++ ds ∧ 32 ∉ word ∧ CidrText pton word p ∧ ds ≠ [] ∧
    (∀ d ∈ ds, isdigit d = true) ∧ decimal ds = v ∧ 1 ≤ v ∧ v ≤ 31536000

variable {pton : InetPton} {args : List UInt8}

theorem dropCall_eq (pton : InetPton) (args : List UInt8) : dropCall pton args =
    match vgParseCidrLen pton (args.takeWhile (· != 32)) with
    | none => .badCidr
    | some p =>
      match if 32 ∈ args then parseTtl ((args.dropWhile (· != 32)).drop 1) else some 0 with
      | none => .badTtl
      | some ttl => if ttl ≠ 0 then .dropTtl p ttl else .drop p := by
  rw [dropCall, ← parseTtlWord_eq]
  cases vgParseCidrLen pton (args.takeWhile (· != 32)) with
  | none => rfl
  | some p =>
    by_cases hspace : 32 ∈ args
    · simp only [if_pos hspace]
      cases parseTtlWord ((args.dropWhile (· != 32)).drop 1) with
      | none => rfl
      | some ttl => simp only [Option.map_some, ne_eq, ← BitVec.toNat_inj, BitVec.ofNat_eq_ofNat,
          BitVec.toNat_ofNat, Nat.zero_mod]
    · simp only [if_neg hspace]
      rfl

theorem ctlDrop_eq (env : Env) (c : VgCtrl) (args : List UInt8) :
    ctlDrop env c args = (dropCall env.inetPton args).run env c := by
  rw [ctlDrop, dropCall_eq]
  cases vgParseCidrLen env.inetPton (args.takeWhile (· != 32)) with
  | none => rfl
  | some p =>
    dsimp only
    cases if 32 ∈ args then parseTtl ((args.dropWhile (· != 32)).drop 1) else some 0 with
    | none => rfl
    | some ttl =>
      dsimp only
      split_ifs <;> rfl

theorem dropCall_word (h : 32 ∉ args) : dropCall pton args =
    match vgParseCidrLen pton args with
    | none => .badCidr
    | some p => .drop p := by
  rw [dropCall_eq, takeWhile_of_not_mem h, if_neg h]
  rfl

/-- Arguments with a space: what follows the first one is a lifetime, and one that was read is
never the 0 that stands for none. -/
theorem dropCall_space {word rest : List UInt8} (h : 32 ∉ word) :
    dropCall pton (word ++ 32 :: rest) =
      match vgParseCidrLen pton word, parseTtl rest with
      | none, _ => .badCidr
      | some _, none => .badTtl
      | some p, some v => .dropTtl p v := by
  have hword : (word ++ 32 :: rest).takeWhile (· != 32) = word := by
    rw [takeWhile_append_of_not_mem h]
    exact List.append_nil word
  have hrest : ((word ++ 32 :: rest).dropWhile (· != 32)).drop 1 = rest := by
    rw [dropWhile_append_of_not_mem h]
    rfl
  have hspace : 32 ∈ word ++ 32 :: rest := List.mem_append_right _ List.mem_cons_self
  rw [dropCall_eq, hword, if_pos hspace, hrest]
  cases vgParseCidrLen pton word with
  | none => rfl
  | some p =>
    cases httl : parseTtl rest with
    | none => rfl
    | some v =>
      obtain ⟨-, -, -, -, hpos, -⟩ := parseTtl_eq_some_iff.mp httl
      exact if_pos (by omega)

theorem dropCall_eq_drop_iff {p : VgCidr} :
    dropCall pton args = .drop p ↔ ManualForm pton args p := by
  rw [ManualForm, CidrText, ← vgParseCidrLen_eq_some_iff]
  obtain ⟨word, hword, rfl | ⟨rest, rfl⟩⟩ := exists_cut 32 args
  · rw [dropCall_word hword]
    cases vgParseCidrLen pton args with
    | none => simp
    | some q => simp [hword]
  · rw [dropCall_space hword]
    cases vgParseCidrLen pton word with
    | none => simp
    | some q => cases parseTtl rest <;> simp

theorem dropCall_eq_dropTtl_iff {p : VgCidr} {v : ℕ} :
    dropCall pton args = .dropTtl p v ↔ TimedForm pton args p v := by
  constructor
  · intro h
    obtain ⟨word, hword, rfl | ⟨rest, rfl⟩⟩ := exists_cut 32 args
    · rw [dropCall_word hword] at h
      split at h <;> cases h
    · rw [dropCall_space hword] at h
      split at h <;> cases h
      rename_i hp httl
      obtain ⟨ds, rfl, hds, hv, hlow, hhigh⟩ := parseTtl_eq_some_iff.mp httl
      have hne : ds ≠ [] := by
        rintro rfl
        exact absurd (hv ▸ hlow) (by decide)
      exact ⟨word, ds, (List.append_assoc word (bytes " ttl=") ds).symm, hword,
        vgParseCidrLen_eq_some_iff.mp hp, hne, hds, hv, hlow, hhigh⟩
  · rintro ⟨word, ds, rfl, hword, hp, -, hds, hv, hlow, hhigh⟩
    have httl : parseTtl (bytes "ttl=" ++ ds) = some v :=
      parseTtl_eq_some_iff.mpr ⟨ds, rfl, hds, hv, hlow, hhigh⟩
    have hargs : word ++ bytes " ttl=" ++ ds = word ++ 32 :: (bytes "ttl=" ++ ds) :=
      List.append_assoc _ _ _
    rw [hargs, dropCall_space hword, httl, vgParseCidrLen_eq_some_iff.mpr hp]

theorem dropCall_eq_badCidr_iff :
    dropCall pton args = .badCidr ↔ ¬ ∃ p, CidrText pton (args.takeWhile (· != 32)) p := by
  simp only [CidrText, ← vgParseCidrLen_eq_some_iff]
  rw [dropCall_eq]
  cases vgParseCidrLen pton (args.takeWhile (· != 32)) with
  | none => simp
  | some p =>
    dsimp only
    split
    · simp
    · split_ifs <;> simp

/-- The drop command does what it says: a prefix alone is a manual drop, a prefix with a lifetime
is a timed drop of that many seconds, and anything else is refused without a change of state. -/
theorem drop_command_exact (env : Env) (c : VgCtrl) (args : List UInt8) :
    (∀ p, dropCall env.inetPton args = .drop p ↔ ManualForm env.inetPton args p) ∧
    (∀ p v, dropCall env.inetPton args = .dropTtl p v ↔ TimedForm env.inetPton args p v) ∧
    ctlDrop env c args = (dropCall env.inetPton args).run env c ∧
    ((∀ p, ¬ ManualForm env.inetPton args p) → (∀ p v, ¬ TimedForm env.inetPton args p v) →
      ((∀ p, ¬ CidrText env.inetPton (args.takeWhile (· != 32)) p) ∧
        ctlDrop env c args = (c, bytes "error: bad cidr\n")) ∨
      ((∃ p, CidrText env.inetPton (args.takeWhile (· != 32)) p) ∧
        ctlDrop env c args = (c, bytes "error: bad ttl\n"))) := by
  refine ⟨fun p => dropCall_eq_drop_iff, fun p v => dropCall_eq_dropTtl_iff, ctlDrop_eq env c args,
    fun hmanual htimed => ?_⟩
  rw [ctlDrop_eq]
  cases hcall : dropCall env.inetPton args with
  | badCidr => exact .inl ⟨not_exists.mp (dropCall_eq_badCidr_iff.mp hcall), rfl⟩
  | badTtl =>
    refine .inr ⟨?_, rfl⟩
    by_contra hnone
    rw [dropCall_eq_badCidr_iff.mpr hnone] at hcall
    cases hcall
  | drop p => exact absurd (dropCall_eq_drop_iff.mp hcall) (hmanual p)
  | dropTtl p v => exact absurd (dropCall_eq_dropTtl_iff.mp hcall) (htimed p v)

/-- A lifetime of no seconds is refused. -/
theorem drop_command_exact_zero :
    ctlDrop steadyEnv steadyStart (bytes "127.0.0.0/8 ttl=0") =
      (steadyStart, bytes "error: bad ttl\n") := by
  have hcall : dropCall steadyEnv.inetPton (bytes "127.0.0.0/8 ttl=0") = .badTtl := by decide +kernel
  obtain ⟨hdrop, httl, -, hother⟩ :=
    drop_command_exact steadyEnv steadyStart (bytes "127.0.0.0/8 ttl=0")
  have hmanual : ∀ p, ¬ ManualForm steadyEnv.inetPton (bytes "127.0.0.0/8 ttl=0") p := fun p h => by
    cases hcall.symm.trans ((hdrop p).mpr h)
  have htimed : ∀ p v, ¬ TimedForm steadyEnv.inetPton (bytes "127.0.0.0/8 ttl=0") p v :=
    fun p v h => by cases hcall.symm.trans ((httl p v).mpr h)
  rcases hother hmanual htimed with ⟨hno, -⟩ | ⟨-, hreply⟩
  · have hbad := dropCall_eq_badCidr_iff.mpr (not_exists.mpr hno)
    cases hcall.symm.trans hbad
  · exact hreply

end VoidGate
