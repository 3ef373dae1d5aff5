import VoidGate.LuaClient
import VoidGate.Patterns

/-!
# Replies in the Lua client

What `voidgate.lua` makes of the text it receives: `request`, which tells errors from
replies, `client:drops`, which cuts a listing into lines and a line into its fields, and
`kv`, which makes a table of a text of keys and values.
-/

namespace VoidGate

open Patterns

/-- `%S`. -/
def nonSpace (b : UInt8) : Bool := !isspace b

/-- `"^error"`. -/
def errorPattern : Pattern UInt8 := ⟨literal (bytes "error"), false⟩

/-- `"\n+$"`. -/
def lastNewlines : Pattern UInt8 := ⟨[.plus (· == 10) false], true⟩

/-- `request`, of which the socket calls are known: they end with an error text or with the data
that `receive` has read. -/
def request (received : Except (List UInt8) (List UInt8)) : Except (List UInt8) (List UInt8) :=
  match received with
  | .error err => .error err
  | .ok data =>
    if (errorPattern.matchStart data).isSome then .error (lastNewlines.erase 0 data)
    else .ok data

theorem request_ok {data : List UInt8} (h : ¬ bytes "error" <+: data) :
    request (.ok data) = .ok data := by
  have hno : (errorPattern.matchStart data).isSome = false := by
    rw [Pattern.matchStart, Option.isSome_map, ← Bool.not_eq_true]
    exact fun hm => h (isSome_matchItems_literal.mp hm)
  simp [request, hno]

/-- An entry of the array that `client:drops` returns. -/
structure LuaDrop where
  cidr : List UInt8
  reason : LuaValue
  age : LuaValue
  deriving DecidableEq

/-- `tonumber(s) or s`. -/
def LuaMachine.numberOr (lua : LuaMachine) (s : List UInt8) : LuaValue :=
  match lua.tonumber (.string s) with
  | some n => .number n
  | none => .string s

/-- `"^(%S+) reason=(%S+) age=(%S+)$"`. -/
def dropPattern : Pattern UInt8 where
  items := .plus nonSpace true :: (literal (bytes " reason=") ++
    .plus nonSpace true :: (literal (bytes " age=") ++ [.plus nonSpace true]))
  atEnd := true

/-- What the loop of `client:drops` appends for a line. -/
def luaDrop (lua : LuaMachine) (line : List UInt8) : Option LuaDrop :=
  match dropPattern.matchStart line with
  | some ([cidr, reason, age], _) => some ⟨cidr, lua.numberOr reason, lua.numberOr age⟩
  | _ => none

/-- The loop of `client:drops`. -/
def luaDrops (lua : LuaMachine) (data : List UInt8) : List LuaDrop :=
  ((runs 10).gmatch 0 data).filterMap fun found => found.head?.bind (luaDrop lua)

def clientDrops (lua : LuaMachine) (received : Except (List UInt8) (List UInt8)) :
    Except (List UInt8) (List LuaDrop) :=
  (request received).map (luaDrops lua)

theorem luaDrop_fields (lua : LuaMachine) {cidr reason age : List UInt8} (hcidr : cidr ≠ [])
    (hreason : reason ≠ []) (hage : age ≠ []) (hcidr' : ∀ b ∈ cidr, isspace b = false)
    (hreason' : ∀ b ∈ reason, isspace b = false) (hage' : ∀ b ∈ age, isspace b = false) :
    luaDrop lua (cidr ++ bytes " reason=" ++ reason ++ bytes " age=" ++ age) =
      some ⟨cidr, lua.numberOr reason, lua.numberOr age⟩ := by
  have hplain : ∀ w : List UInt8, (∀ b ∈ w, isspace b = false) → ∀ b ∈ w, nonSpace b = true :=
    fun w hw b hb => by rw [nonSpace, hw b hb]; rfl
  have hage'' : matchItems true [.plus nonSpace true] age = some ([age], []) := by
    have h := matchItems_plus true hage (hplain age hage') rfl
      (show matchItems true [] ([] : List UInt8) = some ([], []) from rfl)
    rwa [List.append_nil] at h
  have hreason'' := matchItems_plus true hreason (hplain reason hreason')
    (show (bytes " age=" ++ age).takeWhile nonSpace = [] from rfl)
    ((matchItems_literal (bytes " age=")).trans hage'')
  have hcidr'' := matchItems_plus true hcidr (hplain cidr hcidr')
    (show (bytes " reason=" ++ (reason ++ (bytes " age=" ++ age))).takeWhile nonSpace = [] from rfl)
    ((matchItems_literal (bytes " reason=")).trans hreason'')
  have hline : cidr ++ bytes " reason=" ++ reason ++ bytes " age=" ++ age =
      cidr ++ (bytes " reason=" ++ (reason ++ (bytes " age=" ++ age))) := by
    simp only [List.append_assoc]
  rw [hline, luaDrop, Pattern.matchStart, dropPattern, hcidr'']
  rfl

theorem luaDrops_lines (lua : LuaMachine) {ls : List (List UInt8)} {es : List LuaDrop}
    (hne : ∀ l ∈ ls, l ≠ []) (hnl : ∀ l ∈ ls, 10 ∉ l) (h : ls.map (luaDrop lua) = es.map some) :
    luaDrops lua (ls.flatMap (· ++ [10])) = es := by
  rw [luaDrops, gmatch_runs hne hnl, List.filterMap_map]
  have hfound : ls.filterMap (luaDrop lua) = (es.map some).filterMap id := by
    rw [← h, List.filterMap_map]
    rfl
  rw [List.filterMap_map, Function.id_comp, List.filterMap_some] at hfound
  exact hfound

abbrev LuaTable := List UInt8 → LuaValue

/-- The table `counters`. -/
def counters : List (List UInt8) :=
  [bytes "rx_pkts", bytes "rx_bytes", bytes "passed", bytes "dropped", bytes "non_ip",
    bytes "map_full", bytes "parse_err"]

/-- `[%w_]`. -/
def wordByte (b : UInt8) : Bool :=
  isdigit b || (65 ≤ b && b ≤ 90) || (97 ≤ b && b ≤ 122) || b == 95

/-- `"([%w_]+)=(%S+)"`. -/
def kvPattern : Pattern UInt8 := pairs wordByte 61 nonSpace

/-- What the loop of `kv` stores for a key. -/
def kvValue (lua : LuaMachine) (k v : List UInt8) : LuaValue :=
  if k ∈ counters then .string v
  else if k = bytes "armed" then .boolean (v == bytes "1")
  else lua.numberOr v

def kv (lua : LuaMachine) (data : List UInt8) : LuaTable :=
  (kvPattern.gmatch 0 data).foldl (fun t found =>
    match found with
    | [k, v] => Function.update t k (kvValue lua k v)
    | _ => t) fun _ => .nil

def clientTable (lua : LuaMachine) (received : Except (List UInt8) (List UInt8)) :
    Except (List UInt8) LuaTable :=
  (request received).map (kv lua)

def clientStatus (lua : LuaMachine) (received : Except (List UInt8) (List UInt8)) :
    Except (List UInt8) LuaTable := clientTable lua received

def clientStats (lua : LuaMachine) (received : Except (List UInt8) (List UInt8)) :
    Except (List UInt8) LuaTable := clientTable lua received

private theorem foldl_update_of_notMem {κ β γ : Type*} [DecidableEq κ] (f : β → κ) (g : β → γ) {l : List β}
    {t : κ → γ} {k : κ} (hk : k ∉ l.map f) :
    l.foldl (fun t b => Function.update t (f b) (g b)) t k = t k := by
  induction l generalizing t with
  | nil => rfl
  | cons b l ih =>
    rw [List.map_cons, List.mem_cons, not_or] at hk
    rw [List.foldl_cons, ih hk.2, Function.update_of_ne hk.1]

private theorem foldl_update_of_mem {κ β γ : Type*} [DecidableEq κ] (f : β → κ) (g : β → γ) {l : List β}
    {t : κ → γ} (hnodup : (l.map f).Nodup) {b : β} (hb : b ∈ l) :
    l.foldl (fun t b => Function.update t (f b) (g b)) t (f b) = g b := by
  induction l generalizing t with
  | nil => cases hb
  | cons c l ih =>
    rw [List.map_cons, List.nodup_cons] at hnodup
    rw [List.foldl_cons]
    rcases List.mem_cons.mp hb with rfl | hb
    · rw [foldl_update_of_notMem f g hnodup.1, Function.update_self]
    · exact ih hnodup.2 hb

theorem kv_pairs (lua : LuaMachine) {ls : List (Pair UInt8)} (hcut : ∀ l ∈ ls, l.Cut wordByte nonSpace)
    (hnodup : (ls.map Pair.key).Nodup) {l : Pair UInt8} (hl : l ∈ ls) :
    kv lua (ls.flatMap (Pair.text 61)) l.key = kvValue lua l.key l.val := by
  rw [kv, kvPattern, gmatch_pairs rfl hcut, List.foldl_map]
  exact foldl_update_of_mem Pair.key (fun l => kvValue lua l.key l.val) hnodup hl

end VoidGate
