import VoidGate.CidrText

/-!
# The Lua client

`client:drop`, `ban` and `ban_now` of `voidgate.lua`, with the bytes they send and
what the daemon makes of them. A Lua program may pass any value at all; what it can
cause is an error or one drop with a lifetime, and through `ban` and `ban_now` only of
a single address.
-/

namespace VoidGate

inductive LuaNumber where
  | nan
  | inf (negative : Bool)
  | finite (q : ℚ)
  deriving DecidableEq

/-- A Lua value; `other` stands for tables, functions and the boxed integers of LuaJIT. -/
inductive LuaValue where
  | nil
  | boolean (b : Bool)
  | number (n : LuaNumber)
  | string (s : List UInt8)
  | other (id : ℕ)
  deriving DecidableEq

/-- How `tonumber` reads a string and a boxed integer. -/
structure LuaMachine where
  ofString : List UInt8 → Option LuaNumber
  ofOther : ℕ → Option LuaNumber

namespace LuaNumber

/-- `math.floor`. -/
def floor : LuaNumber → LuaNumber
  | finite q => finite q.floor
  | n => n

/-- `==`, which no NaN satisfies. -/
def eq : LuaNumber → LuaNumber → Bool
  | inf s, inf t => s == t
  | finite q, finite r => q == r
  | _, _ => false

/-- `<`. -/
def lt : LuaNumber → LuaNumber → Bool
  | inf s, inf t => s && !t
  | inf s, finite _ => s
  | finite _, inf t => !t
  | finite q, finite r => q < r
  | _, _ => false

/-- `%d` of `string.format`: the fraction is cut off, and what no 64-bit integer can hold becomes
the least of them. -/
def formatInt : LuaNumber → List UInt8
  | finite q => intText (q.num.tdiv q.den)
  | _ => bytes "-9223372036854775808"

end LuaNumber

section Client
variable (lua : LuaMachine)

def LuaMachine.tonumber : LuaValue → Option LuaNumber
  | .number n => some n
  | .string s => lua.ofString s
  | .other id => lua.ofOther id
  | .nil => none
  | .boolean _ => none

/-- `MAX_TTL`. -/
def maxTtl : LuaNumber := .finite 31536000

def checkTtl (ttl : LuaValue) : Option LuaNumber :=
  match lua.tonumber ttl with
  | none => none
  | some ttl =>
    if !ttl.eq ttl.floor || ttl.lt (.finite 1) || maxTtl.lt ttl then none else some ttl

/-- The request that `client:drop` sends, or the error it returns instead. -/
def clientDrop (cidr ttl : LuaValue) : Except (List UInt8) (List UInt8) :=
  match cidr with
  | .string cidr =>
    if cidr.any isspace then .error (bytes "bad cidr")
    else
      match checkTtl lua ttl with
      | none => .error (bytes "bad ttl")
      | some ttl =>
        .ok (bytes "drop " ++ cidr ++ bytes " ttl=" ++ ttl.formatInt ++ bytes "\n")
  | _ => .error (bytes "bad cidr")

/-- `host_cidr`. -/
def hostCidr (ip : LuaValue) : Option (List UInt8) :=
  match ip with
  | .string ip =>
    if ip = [] ∨ ip.any (fun b => isspace b || b == 47) = true then none
    else some (ip ++ if 58 ∈ ip then bytes "/128" else bytes "/32")
  | _ => none

/-- What `M.ban_now` sends. -/
def banNow (ip ttl : LuaValue) : Except (List UInt8) (List UInt8) :=
  match hostCidr ip with
  | none => .error (bytes "bad ip")
  | some cidr => clientDrop lua (.string cidr) ttl

/-- What `dict:add` does: there is no such dict, or the address is new to it, known, or cannot be
stored. -/
inductive DictAdd where
  | noDict (name : List UInt8)
  | added
  | present
  | failed (err : List UInt8)
  deriving DecidableEq

/-- What a call of `M.ban` ends with: an error, `true` without a timer of its own, or the timer it
asks for. -/
inductive BanResult where
  | error (err : List UInt8)
  | known
  | timer (cidr : List UInt8) (ttl : LuaNumber)
  deriving DecidableEq

/-- `M.ban` up to `ngx.timer.at`; `dict` is the outcome of `dict:add`, which is called only with
`opt.dict`. -/
def ban (ip ttl : LuaValue) (dict : Option DictAdd) : BanResult :=
  match hostCidr ip with
  | none => .error (bytes "bad ip")
  | some cidr =>
    match checkTtl lua ttl with
    | none => .error (bytes "bad ttl")
    | some ttl =>
      match dict with
      | some (.noDict name) => .error (bytes "no lua_shared_dict " ++ name)
      | some .present => .known
      | some (.failed err) => .error err
      | some .added => .timer cidr ttl
      | none => .timer cidr ttl

/-- What `ban_timer` sends when the timer fires; a worker that shuts down calls it early. -/
def banTimer (premature : Bool) (cidr : List UInt8) (ttl : LuaNumber) :
    Option (Except (List UInt8) (List UInt8)) :=
  if premature then none else some (clientDrop lua (.string cidr) (.number ttl))

theorem checkTtl_some {ttl : LuaValue} {t : LuaNumber} (h : checkTtl lua ttl = some t) :
    lua.tonumber ttl = some t ∧ ∃ v : ℕ, t = .finite v ∧ 1 ≤ v ∧ v ≤ vgMaxDropTtl := by
  rw [checkTtl] at h
  split at h
  · cases h
  · rename_i t' ht
    split_ifs at h with hbad
    obtain rfl := Option.some.inj h
    refine ⟨ht, ?_⟩
    simp only [Bool.or_eq_true, Bool.not_eq_true', not_or, Bool.not_eq_false,
      Bool.not_eq_true] at hbad
    obtain ⟨⟨hfloor, hlow⟩, hhigh⟩ := hbad
    cases t' with
    | nan => cases hfloor
    | inf s => cases s <;> simp_all [LuaNumber.lt, maxTtl]
    | finite q =>
      simp only [LuaNumber.lt, LuaNumber.eq, LuaNumber.floor, maxTtl, beq_iff_eq,
        decide_eq_false_iff_not, not_lt] at hfloor hlow hhigh
      rw [hfloor] at hlow hhigh
      have hone : 1 ≤ q.floor := by exact_mod_cast hlow
      have hmax : q.floor ≤ 31536000 := by exact_mod_cast hhigh
      obtain ⟨v, hv⟩ := Int.eq_ofNat_of_zero_le (show 0 ≤ q.floor by omega)
      rw [hv] at hone hmax
      refine ⟨v, ?_, by exact_mod_cast hone, by exact_mod_cast hmax⟩
      rw [hfloor, hv, Int.cast_natCast]

private theorem formatInt_natCast (v : ℕ) : (LuaNumber.finite v).formatInt = Decimals.text v := by
  simp [LuaNumber.formatInt, intText]

theorem clientDrop_ok {cidr ttl : LuaValue} {sent : List UInt8}
    (h : clientDrop lua cidr ttl = .ok sent) : ∃ (s : List UInt8) (v : ℕ), cidr = .string s ∧
      (∀ b ∈ s, isspace b = false) ∧ lua.tonumber ttl = some (.finite v) ∧ 1 ≤ v ∧
      v ≤ vgMaxDropTtl ∧
      sent = bytes "drop " ++ s ++ bytes " ttl=" ++ Decimals.text v ++ bytes "\n" := by
  cases cidr with
  | string s =>
    rw [clientDrop] at h
    split_ifs at h with hspace
    split at h
    · cases h
    · rename_i t ht
      obtain ⟨hnum, v, rfl, hlow, hhigh⟩ := checkTtl_some lua ht
      obtain rfl := Except.ok.inj h
      refine ⟨s, v, rfl, fun b hb => ?_, hnum, hlow, hhigh, by rw [formatInt_natCast]⟩
      by_contra hb'
      exact hspace (List.any_eq_true.mpr ⟨b, hb, by simpa using hb'⟩)
  | _ => cases h

theorem hostCidr_some {ip : LuaValue} {s : List UInt8} (h : hostCidr ip = some s) :
    ∃ a, ip = .string a ∧ 47 ∉ a ∧ s = a ++ if 58 ∈ a then bytes "/128" else bytes "/32" := by
  cases ip with
  | string a =>
    by_cases hbad : a = [] ∨ a.any (fun b => isspace b || b == 47) = true
    · rw [hostCidr, if_pos hbad] at h
      cases h
    · rw [hostCidr, if_neg hbad] at h
      refine ⟨a, rfl, fun hm => hbad (.inr ?_), (Option.some.inj h).symm⟩
      exact List.any_eq_true.mpr ⟨47, hm, by decide⟩
  | _ => cases h

private theorem ban_timer {ip ttl : LuaValue} {dict : Option DictAdd} {cidr : List UInt8} {t : LuaNumber}
    (h : ban lua ip ttl dict = .timer cidr t) :
    hostCidr ip = some cidr ∧ lua.tonumber ttl = some t := by
  rw [ban] at h
  split at h
  · cases h
  · rename_i s hip
    split at h
    · cases h
    · rename_i t' ht
      split at h <;> cases h <;> exact ⟨hip, (checkTtl_some lua ht).1⟩

end Client

theorem vgParseCidrLen_width {pton : InetPton} {a digits : List UInt8} {p : VgCidr} (ha : 47 ∉ a)
    (hne : digits ≠ []) (hplen : parsePlen digits 0 = some (textFamily a).width)
    (h : vgParseCidrLen pton (a ++ 47 :: digits) = some p) :
    p.prefixlen = p.family.width ∧ vgParseCidrLen pton a = some p := by
  have hok : ¬ (128 ≤ (a ++ 47 :: digits).length ∨ 0 ∈ a ++ 47 :: digits) := by
    intro hbad
    rw [vgParseCidrLen, if_pos hbad] at h
    cases h
  have hshort : ¬ (128 ≤ a.length ∨ 0 ∈ a) := by
    rintro (hlen | h0)
    · exact hok (.inl (by rw [List.length_append]; omega))
    · exact hok (.inr (List.mem_append_left _ h0))
  rw [vgParseCidrLen_slash ha hok hne, hplen, Option.bind_some] at h
  obtain ⟨addr, haddr, h⟩ := Option.bind_eq_some_iff.mp h
  rw [dif_pos le_rfl] at h
  obtain rfl := Option.some.inj h
  rw [vgParseCidrLen_bare ha hshort, haddr]
  exact ⟨rfl, rfl⟩

theorem vgParseCidrLen_host {pton : InetPton} {a : List UInt8} {p : VgCidr} (ha : 47 ∉ a)
    (h : vgParseCidrLen pton (a ++ if 58 ∈ a then bytes "/128" else bytes "/32") = some p) :
    p.prefixlen = p.family.width ∧ vgParseCidrLen pton a = some p := by
  split_ifs at h with hcolon
  · have hplen : parsePlen (bytes "128") 0 = some (textFamily a).width := by
      rw [textFamily, if_pos hcolon]
      decide
    exact vgParseCidrLen_width ha (by decide) hplen h
  · have hplen : parsePlen (bytes "32") 0 = some (textFamily a).width := by
      rw [textFamily, if_neg hcolon]
      decide
    exact vgParseCidrLen_width ha (by decide) hplen h

private theorem parseTtl_text {v : ℕ} (hlow : 1 ≤ v) (hhigh : v ≤ vgMaxDropTtl) :
    parseTtl (bytes "ttl=" ++ Decimals.text v) = some v := by
  have hread : Decimals.readBounded vgMaxDropTtl (Decimals.text v) 0 = some v := by
    rw [Decimals.readBounded_eq (fun _ hd => Decimals.isDigit_of_mem_text hd)
      (by rwa [Decimals.valueFrom_text]), Decimals.valueFrom_text]
  have hdrop : (bytes "ttl=" ++ Decimals.text v).drop 4 = Decimals.text v := rfl
  rw [parseTtl, if_pos (List.isPrefixOf_iff_prefix.mpr (List.prefix_append _ _)), hdrop, hread]
  exact if_neg (by omega)

section Daemon
variable (env : Env) (o : Outside) (c : VgCtrl)

theorem dispatch_drop (args : List UInt8) :
    dispatch env o c (bytes "drop " ++ args) = ctlDrop env c args := by
  rfl

theorem ctlDrop_ttl {s : List UInt8} (hs : 32 ∉ s) {v : ℕ} (hlow : 1 ≤ v) (hhigh : v ≤ vgMaxDropTtl) :
    ctlDrop env c (s ++ bytes " ttl=" ++ Decimals.text v) =
      match vgParseCidrLen env.inetPton s with
      | none => (c, bytes "error: bad cidr\n")
      | some p => answer (bytes "error: refused or map update failed\n") (vgCtrlDropTtl env c p v) := by
  have hword : (s ++ bytes " ttl=" ++ Decimals.text v).takeWhile (· != 32) = s := by
    rw [List.append_assoc, takeWhile_append_of_not_mem hs]
    exact List.append_nil s
  have hrest : ((s ++ bytes " ttl=" ++ Decimals.text v).dropWhile (· != 32)).drop 1 =
      bytes "ttl=" ++ Decimals.text v := by
    rw [List.append_assoc, dropWhile_append_of_not_mem hs]
    rfl
  have hspace : 32 ∈ s ++ bytes " ttl=" ++ Decimals.text v :=
    List.mem_append_left _ (List.mem_append_right _ List.mem_cons_self)
  rw [ctlDrop, hword]
  cases vgParseCidrLen env.inetPton s with
  | none => rfl
  | some p =>
    simp only [if_pos hspace, hrest, parseTtl_text hlow hhigh]
    rw [if_pos (by omega)]

/-- The daemon refuses `sent` as a request or for its address and does nothing, or it carries out
exactly the timed drop of the prefix that `s` denotes. -/
def TimedDropOnly (reads : List ReadEvent) (s : List UInt8) (v : ℕ) (sent : List UInt8) : Prop :=
  (∃ text ∈ [badCommand, commandTooLong, bytes "error: bad cidr\n"],
      vgCtlServerHandle env o c ⟨sent, reads⟩ = (c, some text)) ∨
    ∃ p, vgParseCidrLen env.inetPton s = some p ∧
      readRequest ⟨sent, reads⟩ [] =
        .line (bytes "drop " ++ (s ++ bytes " ttl=" ++ Decimals.text v)) ∧
      vgCtlServerHandle env o c ⟨sent, reads⟩ = ((vgCtrlDropTtl env c p v).1,
        some (if (vgCtrlDropTtl env c p v).2 = true then okReply
          else bytes "error: refused or map update failed\n"))

theorem timedDropOnly {reads : List ReadEvent} (herr : .error ∉ reads) {s : List UInt8}
    (hs : ∀ b ∈ s, isspace b = false) {v : ℕ} (hlow : 1 ≤ v) (hhigh : v ≤ vgMaxDropTtl) :
    TimedDropOnly env o c reads s v
      (bytes "drop " ++ s ++ bytes " ttl=" ++ Decimals.text v ++ bytes "\n") := by
  have h32 : 32 ∉ s := fun hm => by cases hs 32 hm
  have h10 : 10 ∉ bytes "drop " ++ (s ++ bytes " ttl=" ++ Decimals.text v) := by
    simp only [List.mem_append, not_or]
    refine ⟨by decide, ⟨fun hm => ?_, by decide⟩, fun hm => ?_⟩
    · cases hs 10 hm
    · cases Decimals.isDigit_of_mem_text hm
  have hsent : bytes "drop " ++ s ++ bytes " ttl=" ++ Decimals.text v ++ bytes "\n" =
      bytes "drop " ++ (s ++ bytes " ttl=" ++ Decimals.text v) ++ bytes "\n" := by
    simp only [List.append_assoc]
  rw [hsent, TimedDropOnly, vgCtlServerHandle, readRequest_nil herr]
  rcases frame_cases h10 with h | h | h
  · exact .inl ⟨badCommand, by simp, by rw [h]; rfl⟩
  · exact .inl ⟨commandTooLong, by simp, by rw [h]; rfl⟩
  · rw [h, respond, dispatch_drop, ctlDrop_ttl env c h32 hlow hhigh]
    cases vgParseCidrLen env.inetPton s with
    | none => exact .inl ⟨bytes "error: bad cidr\n", by simp, rfl⟩
    | some p =>
      refine .inr ⟨p, rfl, rfl, ?_⟩
      dsimp only [answer]
      split_ifs <;> rfl

/-- A ban of `ip` is at most a timed drop of that one address. -/
def BanOnly (lua : LuaMachine) (reads : List ReadEvent) (ip ttl : LuaValue)
    (sent : List UInt8) : Prop :=
  ∃ (a s : List UInt8) (v : ℕ), ip = .string a ∧ hostCidr ip = some s ∧
    lua.tonumber ttl = some (.finite v) ∧ 1 ≤ v ∧ v ≤ 31536000 ∧
    TimedDropOnly env o c reads s v sent ∧
    ∀ p, vgParseCidrLen env.inetPton s = some p →
      p.prefixlen = p.family.width ∧ vgParseCidrLen env.inetPton a = some p

theorem banOnly {lua : LuaMachine} {reads : List ReadEvent} (herr : .error ∉ reads)
    {ip ttl ttl' : LuaValue} {s sent : List UInt8} (hip : hostCidr ip = some s)
    (httl : ∀ v : ℕ, lua.tonumber ttl' = some (.finite v) → lua.tonumber ttl = some (.finite v))
    (h : clientDrop lua (.string s) ttl' = .ok sent) : BanOnly env o c lua reads ip ttl sent := by
  obtain ⟨a, ha, hslash, hs⟩ := hostCidr_some hip
  obtain ⟨s', v, hs', hspace, hnum, hlow, hhigh, rfl⟩ := clientDrop_ok lua h
  obtain rfl := LuaValue.string.inj hs'
  refine ⟨a, s, v, ha, hip, httl v hnum, hlow, hhigh, ?_, ?_⟩
  · exact timedDropOnly env o c herr hspace hlow hhigh
  · intro p hp
    exact vgParseCidrLen_host hslash (hs ▸ hp)

/-- Whatever a Lua program passes, what it sends is refused or one timed drop. -/
theorem lua_timed_drops_only (lua : LuaMachine) (reads : List ReadEvent) (herr : .error ∉ reads) :
    (∀ cidr ttl sent, clientDrop lua cidr ttl = .ok sent →
      ∃ (s : List UInt8) (v : ℕ), cidr = .string s ∧ lua.tonumber ttl = some (.finite v) ∧
        1 ≤ v ∧ v ≤ 31536000 ∧ TimedDropOnly env o c reads s v sent) ∧
    (∀ ip ttl sent, banNow lua ip ttl = .ok sent → BanOnly env o c lua reads ip ttl sent) ∧
    ∀ ip ttl dict cidr t premature sent, ban lua ip ttl dict = .timer cidr t →
      banTimer lua premature cidr t = some (.ok sent) → BanOnly env o c lua reads ip ttl sent := by
  refine ⟨?_, ?_, ?_⟩
  · intro cidr ttl sent h
    obtain ⟨s, v, hs, hspace, hnum, hlow, hhigh, rfl⟩ := clientDrop_ok lua h
    exact ⟨s, v, hs, hnum, hlow, hhigh, timedDropOnly env o c herr hspace hlow hhigh⟩
  · intro ip ttl sent h
    rw [banNow] at h
    split at h
    · cases h
    · rename_i s hip
      exact banOnly env o c herr hip (fun v hv => hv) h
  · intro ip ttl dict cidr t premature sent hban hsent
    obtain ⟨hip, hnum⟩ := ban_timer lua hban
    rw [banTimer] at hsent
    split_ifs at hsent
    have httl : ∀ v : ℕ, lua.tonumber (.number t) = some (.finite v) →
        lua.tonumber ttl = some (.finite v) := fun v hv => hnum.trans hv
    exact banOnly env o c herr hip httl (Option.some.inj hsent)

end Daemon

/-- A Lua machine that reads no strings as numbers. -/
def plainLua : LuaMachine := ⟨fun _ => none, fun _ => none⟩

theorem lua_timed_drops_only_banNow :
    ReadEvent.error ∉ [.upTo 3] ∧
      banNow plainLua (.string (bytes "127.0.0.0")) (.number (.finite 60)) =
        .ok (bytes "drop 127.0.0.0/32 ttl=60\n") ∧
      BanOnly steadyEnv steadyOutside steadyStart plainLua [.upTo 3]
        (.string (bytes "127.0.0.0")) (.number (.finite 60)) (bytes "drop 127.0.0.0/32 ttl=60\n") := by
  have hsent : banNow plainLua (.string (bytes "127.0.0.0")) (.number (.finite 60)) =
      .ok (bytes "drop 127.0.0.0/32 ttl=60\n") := by decide +kernel
  exact ⟨by decide, hsent, (lua_timed_drops_only steadyEnv steadyOutside steadyStart plainLua
    [.upTo 3] (by decide)).2.1 _ _ _ hsent⟩

end VoidGate
