import VoidGate.IpAddr
import VoidGate.Runs
import Mathlib.Data.List.DropRight

/-!
# The configuration and its loader

`config.c`: the settings record, its defaults, the key/value file parser, the
addresses of the interface, and the test whether a prefix touches a protected
network. Text is a list of bytes. `inet_pton` is a parameter of everything that
parses an address; the other library calls have their own definitions here.
-/

namespace VoidGate

open Runs

/-- The bytes of an ASCII text. -/
def bytes (s : String) : List UInt8 := s.toList.map fun c => UInt8.ofNat c.toNat

/-- `isspace` in the C locale. -/
def isspace (b : UInt8) : Bool := b == 32 || (9 ≤ b && b ≤ 13)

def isdigit (b : UInt8) : Bool := 48 ≤ b && b ≤ 57

/-- The C string at the start of a buffer: everything before the first NUL. -/
def cstr (s : List UInt8) : List UInt8 := s.takeWhile (· != 0)

/-- `char buf[n]` with a terminated string in it. -/
structure CStr (n : ℕ) where
  val : List UInt8
  length_lt : val.length < n
  nonul : 0 ∉ val
  deriving DecidableEq

-- the sizes of the buffers that the configuration and the control plane hold
instance neZero16 : NeZero 16 := ⟨by decide⟩
instance neZero32 : NeZero 32 := ⟨by decide⟩
instance neZero64 : NeZero 64 := ⟨by decide⟩
instance neZero256 : NeZero 256 := ⟨by decide⟩

/-- `snprintf(buf, n, "%s", s)`. -/
def snprintf (n : ℕ) [NeZero n] (s : List UInt8) : CStr n where
  val := (cstr s).take (n - 1)
  length_lt := by
    have hn := NeZero.ne n
    simp only [List.length_take]
    omega
  nonul := by
    intro h
    simpa using List.mem_takeWhile_imp (List.mem_of_mem_take h)

@[simp] theorem snprintf_val {n : ℕ} [NeZero n] (s : CStr n) : snprintf n s.val = s := by
  have hc : cstr s.val = s.val := by
    rw [cstr, List.takeWhile_eq_self_iff]
    intro b hb
    simpa using fun he : b = 0 => s.nonul (he ▸ hb)
  have hlt := s.length_lt
  cases s
  simp only [snprintf, hc, CStr.mk.injEq]
  exact List.take_of_length_le (by omega)

/-- `inet_pton`: the address bytes of a text, or `none` for anything but return value 1. -/
abbrev InetPton := Family → List UInt8 → Option Octets

/-- The decimal length after the slash; the bound is tested before each digit is added. -/
def parsePlen : List UInt8 → ℕ → Option ℕ
  | [], plen => some plen
  | d :: ds, plen =>
    if isdigit d = false ∨ 128 < plen then none else parsePlen ds (plen * 10 + (d.toNat - 48))

/-- A colon in the address part makes it IPv6. -/
def textFamily (tmp : List UInt8) : Family := if 58 ∈ tmp then .inet6 else .inet

def vgParseCidrLen (pton : InetPton) (s : List UInt8) : Option VgCidr :=
  if 128 ≤ s.length ∨ 0 ∈ s then none
  else
    let tmp := s.takeWhile (· != 47)
    let slash := s.dropWhile (· != 47)
    let family := textFamily tmp
    let plen := match slash with
      | [] => some family.width
      | _ :: digits => if digits = [] then none else parsePlen digits 0
    match plen, pton family tmp with
    | some plen, some addr =>
      if h : plen ≤ family.width then some (vgCidrMask ⟨family, clip family.nbytes addr, plen, h⟩)
      else none
    | _, _ => none

def vgParseCidr (pton : InetPton) (s : List UInt8) : Option VgCidr := vgParseCidrLen pton (cstr s)

/-- A prefix that was parsed has no host bits. -/
theorem masked_vgParseCidrLen {pton : InetPton} {s : List UInt8} {p : VgCidr}
    (h : vgParseCidrLen pton s = some p) : p.Masked := by
  rw [vgParseCidrLen] at h
  split_ifs at h with hs
  dsimp only at h
  split at h
  · split_ifs at h with hle
    cases h
    apply masked_vgCidrMask
    intro i hi
    simp [octet_clip, Nat.not_lt.mpr (show Family.nbytes _ ≤ i from hi)]
  · cases h

def vgMaxCidrList : ℕ := 256
def vgMaxAllowPorts : ℕ := 8

/-- `struct vg_config`. The counted arrays are lists of the entries in use. -/
structure VgConfig where
  interface : CStr 32
  xdpMode : CStr 16
  logFile : CStr 256
  pidFile : CStr 256
  ctlSocketGroup : CStr 64
  wakePps : ℕ
  wakeMbps : ℕ
  idlePollMs : ℤ
  clearSeconds : ℤ
  thresholdPps : ℕ
  thresholdMbps : ℕ
  banTime : ℤ
  aggregateK : ℤ
  metricsPort : ℤ
  remoteMapSize : ℕ
  dropMapSize : ℕ
  allowPorts : List UInt16
  localCidr : List VgCidr
  allowCidr : List VgCidr
  autoLocal : Bool
  deriving DecidableEq

/-- The whole of one family's address space, the zeroed entry a failed parse leaves behind. -/
def zeroCidr (f : Family) : VgCidr := ⟨f, Vector.replicate 16 0, 0, Nat.zero_le _⟩

def vgConfigDefaults (pton : InetPton) : VgConfig where
  interface := snprintf 32 (bytes "eth0")
  xdpMode := snprintf 16 (bytes "auto")
  logFile := snprintf 256 (bytes "/var/log/voidgate.log")
  pidFile := snprintf 256 (bytes "/run/voidgate.pid")
  ctlSocketGroup := snprintf 64 []
  wakePps := 2000
  wakeMbps := 25
  idlePollMs := 1000
  clearSeconds := 30
  thresholdPps := 500
  thresholdMbps := 5
  banTime := 1900
  aggregateK := 8
  metricsPort := 9105
  remoteMapSize := 262144
  dropMapSize := 65536
  allowPorts := [22]
  localCidr := []
  allowCidr :=
    [(vgParseCidr pton (bytes "169.254.169.254/32")).getD (zeroCidr .inet),
      (vgParseCidr pton (bytes "127.0.0.0/8")).getD (zeroCidr .inet),
      (vgParseCidr pton (bytes "::1/128")).getD (zeroCidr .inet6),
      (vgParseCidr pton (bytes "fe80::/10")).getD (zeroCidr .inet6),
      (vgParseCidr pton (bytes "ff02::/16")).getD (zeroCidr .inet6)]
  autoLocal := true

def trim (s : List UInt8) : List UInt8 := (s.dropWhile isspace).rdropWhile isspace

/-- The value of a digit string. -/
def decimal (digits : List UInt8) : ℕ := digits.foldl (fun v d => v * 10 + (d.toNat - 48)) 0

/-- `strtoull(s, &end, 10)`: the value and the text at `end`. A sign is accepted and a minus
negates modulo 2^64, a value that does not fit is replaced by the largest one, and without
digits nothing is consumed. -/
def strtoull (s : List UInt8) : ℕ × List UInt8 :=
  let t := s.dropWhile isspace
  let neg := t.head? == some 45
  let t := if neg || t.head? == some 43 then t.tail else t
  let digits := t.takeWhile isdigit
  if digits = [] then (0, s)
  else
    let v := decimal digits
    (if 2 ^ 64 ≤ v then 2 ^ 64 - 1 else if neg then (2 ^ 64 - v) % 2 ^ 64 else v,
      t.dropWhile isdigit)

def parseU64 (s : List UInt8) : Option ℕ :=
  if s = [] then none
  else
    let r := strtoull s
    if r.2 = s ∨ r.2 ≠ [] then none else some r.1

def parseInt (s : List UInt8) : Option ℤ :=
  match parseU64 s with
  | none => none
  | some v => if 2 ^ 31 - 1 < v then none else some v

/-- The tokens `strtok_r(val, ",", &save)` hands out: no token is empty. -/
def strtokComma (val : List UInt8) : List (List UInt8) := (val.splitOn 44).filter (· ≠ [])

/-- One round of the loop of `parse_csv_cidrs`. -/
def csvCidrStep (pton : InetPton) (arr : List VgCidr) (tok : List UInt8) : Option (List VgCidr) :=
  let tok := trim tok
  if tok = [] then some arr
  else if vgMaxCidrList ≤ arr.length then none
  else (vgParseCidr pton tok).map fun p => arr ++ [p]

def parseCsvCidrs (pton : InetPton) (val : List UInt8) : Option (List VgCidr) :=
  (strtokComma val).foldlM (csvCidrStep pton) []

/-- One round of the loop of `parse_allow_ports`. -/
def allowPortStep (ports : List UInt16) (tok : List UInt8) : Option (List UInt16) :=
  let tok := trim tok
  if tok = [] then some ports
  else if vgMaxAllowPorts ≤ ports.length then none
  else match parseU64 tok with
    | none => none
    | some v => if v < 1 ∨ 65535 < v then none else some (ports ++ [UInt16.ofNat v])

def parseAllowPorts (val : List UInt8) : Option (List UInt16) :=
  (strtokComma val).foldlM allowPortStep []

/-- `apply_scalar` for `CFG_STR`. -/
def applyStr {n : ℕ} [NeZero n] (store : VgConfig → CStr n → VgConfig) (c : VgConfig)
    (val : List UInt8) : Option VgConfig :=
  if val = [] ∨ n ≤ val.length then none else some (store c (snprintf n val))

/-- `apply_scalar` for `CFG_U64`. -/
def applyU64 (store : VgConfig → ℕ → VgConfig) (c : VgConfig) (val : List UInt8) :
    Option VgConfig :=
  (parseU64 val).map (store c)

/-- `apply_scalar` for `CFG_I32`. -/
def applyI32 (store : VgConfig → ℤ → VgConfig) (c : VgConfig) (val : List UInt8) :
    Option VgConfig :=
  (parseInt val).map (store c)

/-- `apply_scalar` for `CFG_U32`. -/
def applyU32 (store : VgConfig → ℕ → VgConfig) (c : VgConfig) (val : List UInt8) :
    Option VgConfig :=
  match parseU64 val with
  | none => none
  | some v => if 0xffffffff < v then none else some (store c v)

/-- The table `scalars`: a key and what its value does to the settings. -/
def scalars : List (List UInt8 × (VgConfig → List UInt8 → Option VgConfig)) :=
  [(bytes "interface", applyStr fun c v => { c with interface := v }),
    (bytes "xdp_mode", applyStr fun c v => { c with xdpMode := v }),
    (bytes "log_file", applyStr fun c v => { c with logFile := v }),
    (bytes "pid_file", applyStr fun c v => { c with pidFile := v }),
    (bytes "ctl_socket_group", applyStr fun c v => { c with ctlSocketGroup := v }),
    (bytes "wake_pps", applyU64 fun c v => { c with wakePps := v }),
    (bytes "wake_mbps", applyU64 fun c v => { c with wakeMbps := v }),
    (bytes "idle_poll_ms", applyI32 fun c v => { c with idlePollMs := v }),
    (bytes "clear_seconds", applyI32 fun c v => { c with clearSeconds := v }),
    (bytes "threshold_pps", applyU64 fun c v => { c with thresholdPps := v }),
    (bytes "threshold_mbps", applyU64 fun c v => { c with thresholdMbps := v }),
    (bytes "ban_time", applyI32 fun c v => { c with banTime := v }),
    (bytes "aggregate_k", applyI32 fun c v => { c with aggregateK := v }),
    (bytes "metrics_port", applyI32 fun c v => { c with metricsPort := v }),
    (bytes "remote_map_size", applyU32 fun c v => { c with remoteMapSize := v }),
    (bytes "drop_map_size", applyU32 fun c v => { c with dropMapSize := v })]

/-- Key and value of one line, or `none` for a line the loader skips: empty, a comment,
without `=`, or with a blank key. -/
def configSetting (line : List UInt8) : Option (List UInt8 × List UInt8) :=
  if line.head? = none ∨ line.head? = some 35 ∨ line.head? = some 10 ∨ line.head? = some 0 then none
  else
    let s := cstr line
    let key := trim (s.takeWhile (· != 61))
    if 61 ∉ s ∨ key = [] then none
    else some (key, trim ((s.dropWhile (· != 61)).drop 1))

/-- What one key and value do to the settings; `none` aborts the load. An unknown key is only
logged. -/
def applySetting (pton : InetPton) (c : VgConfig) (key val : List UInt8) : Option VgConfig :=
  match scalars.find? (·.1 == key) with
  | some scalar => scalar.2 c val
  | none =>
    if key = bytes "allow_ports" then
      (parseAllowPorts val).map fun ports => { c with allowPorts := ports }
    else if key = bytes "local_networks" then
      if val = [] then some c
      else (parseCsvCidrs pton val).map fun nets => { c with autoLocal := false, localCidr := nets }
    else if key = bytes "allow_networks" then
      if val = [] then some c
      else (parseCsvCidrs pton val).map fun nets => { c with allowCidr := nets }
    else some c

def configLine (pton : InetPton) (c : VgConfig) (line : List UInt8) : Option VgConfig :=
  match configSetting line with
  | none => some c
  | some s => applySetting pton c s.1 s.2

/-- The lines `getline` returns, each with its newline. -/
def getlines : List UInt8 → List (List UInt8)
  | [] => []
  | b :: rest =>
    if b = 10 then [b] :: getlines rest
    else match getlines rest with
      | [] => [[b]]
      | line :: lines => (b :: line) :: lines

/-- What opening and reading the config path meets: `fopen` fails, or the file yields its
content and then ends or fails with a read error. -/
inductive ConfigFile where
  | missing
  | opened (content : List UInt8) (readError : Bool)
  deriving DecidableEq

def vgConfigLoad (pton : InetPton) : ConfigFile → Option VgConfig
  | .missing => some (vgConfigDefaults pton)
  | .opened content readError =>
    match (getlines content).foldlM (configLine pton) (vgConfigDefaults pton) with
    | none => none
    | some c =>
      if readError then none
      else some (if c.idlePollMs ≤ 0 then { c with idlePollMs := 1000 } else c)

/-- One entry of `getifaddrs`: its name, and its address when it is IPv4 or IPv6. -/
structure IfAddr where
  name : Option (List UInt8)
  addr : Option (Family × Octets)
  deriving DecidableEq

def skippedAddr : Family → Octets → Bool
  | .inet, a => octet a 0 == 127
  | .inet6, a => (octet a 0 == 0xfe && octet a 1 &&& 0xc0 == 0x80) ||
      (memEq a (Vector.replicate 16 0) 15 && octet a 15 == 1)

/-- One round of the loop of `local_cidr_from_nic`. -/
def localCidrStep (nic : List UInt8) (out : List VgCidr) (p : IfAddr) : List VgCidr :=
  if vgMaxCidrList ≤ out.length then out
  else match p.addr with
    | none => out
    | some (f, a) =>
      if p.name ≠ some nic ∨ skippedAddr f a = true then out
      else out ++ [(IpAddr.ofOctets f a).host]

/-- `local_cidr_from_nic`; the addresses are `none` when `getifaddrs` failed. -/
def localCidrFromNic (nic : List UInt8) (ifaddrs : Option (List IfAddr)) : Option (List VgCidr) :=
  ifaddrs.map fun l => l.foldl (localCidrStep nic) []

def vgConfigAutoLocal (ifaddrs : Option (List IfAddr)) (c : VgConfig) : Option VgConfig :=
  if c.autoLocal = false then some c
  else (localCidrFromNic c.interface.val ifaddrs).map fun nets => { c with localCidr := nets }

def vgCidrIsProtected (cfg : VgConfig) (p : VgCidr) : Bool :=
  cfg.localCidr.any (vgCidrCoversOrOverlaps p) || cfg.allowCidr.any (vgCidrCoversOrOverlaps p)

/-- The networks that must never be dropped. -/
def VgConfig.protectedNets (cfg : VgConfig) : List VgCidr := cfg.localCidr ++ cfg.allowCidr

theorem vgCidrIsProtected_iff (cfg : VgConfig) (p : VgCidr) :
    vgCidrIsProtected cfg p = true ↔ ∃ q ∈ cfg.protectedNets, ∃ x, p.Has x ∧ q.Has x := by
  simp only [vgCidrIsProtected, VgConfig.protectedNets, Bool.or_eq_true, List.any_eq_true,
    vgCidrCoversOrOverlaps_iff, List.mem_append, or_and_right, exists_or]

/-- The protection test and the containment test are exact, whether or not host bits are set: a
prefix is protected when it shares an address with a local or an allowed network, and a prefix
contains another when it has all of its addresses. -/
theorem protection_exact (cfg : VgConfig) (p : VgCidr) :
    (vgCidrIsProtected cfg p = true ↔ ∃ x : IpAddr, x.family = p.family ∧ p.Has x ∧
      ∃ q, (q ∈ cfg.localCidr ∨ q ∈ cfg.allowCidr) ∧ q.Has x) ∧
    ∀ a b : VgCidr, vgCidrContains a b = true ↔ a.family = b.family ∧ ∀ x, b.Has x → a.Has x := by
  refine ⟨?_, vgCidrContains_iff_forall⟩
  rw [vgCidrIsProtected_iff]
  simp only [VgConfig.protectedNets, List.mem_append]
  constructor
  · rintro ⟨q, hq, x, hp, hx⟩
    exact ⟨x, hp.1.symm, hp, q, hq, hx⟩
  · rintro ⟨x, -, hp, q, hq, hx⟩
    exact ⟨q, hq, x, hp, hx⟩

/-- The ports fit the array of the kernel and are none of them 0. -/
def VgConfig.PortsOk (c : VgConfig) : Prop :=
  c.allowPorts.length ≤ vgMaxAllowPorts ∧ ∀ port ∈ c.allowPorts, port ≠ 0

private theorem portsOk_vgConfigDefaults (pton : InetPton) : (vgConfigDefaults pton).PortsOk := by
  simp [VgConfig.PortsOk, vgConfigDefaults, vgMaxAllowPorts]

private theorem allowPortStep_ok {ports ports' : List UInt16} {tok : List UInt8}
    (hp : ports.length ≤ vgMaxAllowPorts ∧ ∀ port ∈ ports, port ≠ 0)
    (h : allowPortStep ports tok = some ports') :
    ports'.length ≤ vgMaxAllowPorts ∧ ∀ port ∈ ports', port ≠ 0 := by
  simp only [allowPortStep] at h
  split_ifs at h with hempty hfull
  · cases h
    exact hp
  · split at h
    · cases h
    · rename_i v _
      split_ifs at h with hv
      cases h
      refine ⟨by simp; omega, fun port hport => ?_⟩
      rcases List.mem_append.mp hport with hport | hport
      · exact hp.2 port hport
      · obtain rfl := List.mem_singleton.mp hport
        intro h0
        have := congrArg UInt16.toNat h0
        rw [UInt16.toNat_ofNat', Nat.mod_eq_of_lt (by omega)] at this
        simp at this
        omega

def VgConfig.SameLists (c c' : VgConfig) : Prop :=
  c'.allowPorts = c.allowPorts ∧ c'.localCidr = c.localCidr ∧ c'.allowCidr = c.allowCidr ∧
    c'.autoLocal = c.autoLocal

section Scalars
variable {c c' : VgConfig} {val : List UInt8}

theorem applyStr_some {n : ℕ} [NeZero n] {store : VgConfig → CStr n → VgConfig} {c : VgConfig}
    (h : applyStr store c val = some c') : c' = store c (snprintf n val) := by
  rw [applyStr] at h
  split_ifs at h
  exact (Option.some.inj h).symm

theorem applyU64_some {store : VgConfig → ℕ → VgConfig} {c : VgConfig}
    (h : applyU64 store c val = some c') : ∃ v, parseU64 val = some v ∧ c' = store c v := by
  obtain ⟨v, hv, hc⟩ := Option.map_eq_some_iff.mp h
  exact ⟨v, hv, hc.symm⟩

theorem applyI32_some {store : VgConfig → ℤ → VgConfig} {c : VgConfig}
    (h : applyI32 store c val = some c') : ∃ v, parseInt val = some v ∧ c' = store c v := by
  obtain ⟨v, hv, hc⟩ := Option.map_eq_some_iff.mp h
  exact ⟨v, hv, hc.symm⟩

theorem applyU32_some {store : VgConfig → ℕ → VgConfig} {c : VgConfig}
    (h : applyU32 store c val = some c') : ∃ v, parseU64 val = some v ∧ c' = store c v := by
  rw [applyU32] at h
  split at h
  · cases h
  · rename_i v hv
    split_ifs at h
    exact ⟨v, hv, (Option.some.inj h).symm⟩

theorem scalars_keep {e : List UInt8 × (VgConfig → List UInt8 → Option VgConfig)}
    (he : e ∈ scalars) (h : e.2 c val = some c') : c.SameLists c' := by
  simp only [scalars, List.mem_cons, List.not_mem_nil, or_false] at he
  rcases he with rfl | rfl | rfl | rfl | rfl | rfl | rfl | rfl | rfl | rfl | rfl | rfl | rfl |
    rfl | rfl | rfl
  all_goals dsimp only at h
  iterate 5
    obtain rfl := applyStr_some h
    exact ⟨rfl, rfl, rfl, rfl⟩
  iterate 2
    obtain ⟨v, -, rfl⟩ := applyU64_some h
    exact ⟨rfl, rfl, rfl, rfl⟩
  iterate 2
    obtain ⟨v, -, rfl⟩ := applyI32_some h
    exact ⟨rfl, rfl, rfl, rfl⟩
  iterate 2
    obtain ⟨v, -, rfl⟩ := applyU64_some h
    exact ⟨rfl, rfl, rfl, rfl⟩
  iterate 3
    obtain ⟨v, -, rfl⟩ := applyI32_some h
    exact ⟨rfl, rfl, rfl, rfl⟩
  iterate 2
    obtain ⟨v, -, rfl⟩ := applyU32_some h
    exact ⟨rfl, rfl, rfl, rfl⟩

end Scalars

private theorem applySetting_portsOk {pton : InetPton} {c c' : VgConfig} {key val : List UInt8}
    (hc : c.PortsOk) (h : applySetting pton c key val = some c') : c'.PortsOk := by
  rw [applySetting] at h
  split at h
  · rename_i e he
    obtain ⟨hports, -⟩ := scalars_keep (List.mem_of_find?_eq_some he) h
    rwa [VgConfig.PortsOk, hports]
  · split_ifs at h
    · obtain ⟨ports, hports, rfl⟩ := Option.map_eq_some_iff.mp h
      exact foldlM_invariant (fun _ _ _ => allowPortStep_ok) hports ⟨Nat.zero_le _, by simp⟩
    all_goals
      first
      | (cases h; exact hc)
      | (obtain ⟨nets, -, rfl⟩ := Option.map_eq_some_iff.mp h; exact hc)

/-- A property of the defaults that every setting preserves holds of every configuration that
is loaded. -/
theorem vgConfigLoad_invariant {P : VgConfig → Prop} {pton : InetPton} {file : ConfigFile}
    {c : VgConfig} (h : vgConfigLoad pton file = some c) (start : P (vgConfigDefaults pton))
    (next : ∀ c c' key val, P c → applySetting pton c key val = some c' → P c')
    (idle : ∀ c, P c → P { c with idlePollMs := 1000 }) : P c := by
  cases file with
  | missing =>
    cases h
    exact start
  | opened content readError =>
    rw [vgConfigLoad] at h
    split at h
    · cases h
    · rename_i c' hc'
      have hfile : P c' := by
        refine foldlM_invariant (fun b line b' hb hstep => ?_) hc' start
        rw [configLine] at hstep
        split at hstep
        · cases hstep
          exact hb
        · exact next _ _ _ _ hb hstep
      split_ifs at h
      · cases h
        exact idle c' hfile
      · cases h
        exact hfile

theorem vgConfigLoad_portsOk {pton : InetPton} {file : ConfigFile} {c : VgConfig}
    (h : vgConfigLoad pton file = some c) : c.PortsOk :=
  vgConfigLoad_invariant h (portsOk_vgConfigDefaults pton)
    (fun _ _ _ _ hc hset => applySetting_portsOk hc hset) fun _ hc => hc

/-- The local and the allowed networks have no host bits. -/
def VgConfig.NetsMasked (c : VgConfig) : Prop := ∀ q ∈ c.protectedNets, q.Masked

private theorem masked_zeroCidr (f : Family) : (zeroCidr f).Masked := by
  intro i _
  have hzero : octet (zeroCidr f).addr (i / 8) = 0 := by
    by_cases hi : i / 8 < 16
    · rw [octet_of_lt _ hi]
      exact Vector.getElem_replicate hi
    · exact octet_of_ge _ (Nat.not_lt.mp hi)
  rw [bit, hzero]
  exact Nat.zero_testBit _

theorem masked_vgParseCidr_getD (pton : InetPton) (s : List UInt8) (f : Family) :
    ((vgParseCidr pton s).getD (zeroCidr f)).Masked := by
  cases h : vgParseCidr pton s with
  | none => exact masked_zeroCidr f
  | some p => exact masked_vgParseCidrLen h

private theorem netsMasked_vgConfigDefaults (pton : InetPton) : (vgConfigDefaults pton).NetsMasked := by
  intro q hq
  simp only [VgConfig.protectedNets, vgConfigDefaults, List.nil_append, List.mem_cons,
    List.not_mem_nil, or_false] at hq
  rcases hq with rfl | rfl | rfl | rfl | rfl <;> exact masked_vgParseCidr_getD pton _ _

theorem parseCsvCidrs_masked {pton : InetPton} {val : List UInt8} {nets : List VgCidr}
    (h : parseCsvCidrs pton val = some nets) : ∀ q ∈ nets, q.Masked := by
  refine foldlM_invariant (I := fun nets : List VgCidr => ∀ q ∈ nets, q.Masked)
    (fun arr tok arr' harr hstep => ?_) h (by simp)
  simp only [csvCidrStep] at hstep
  split_ifs at hstep
  · cases hstep
    exact harr
  · obtain ⟨p, hp, rfl⟩ := Option.map_eq_some_iff.mp hstep
    intro q hq
    rcases List.mem_append.mp hq with hq | hq
    · exact harr q hq
    · rw [List.mem_singleton.mp hq]
      exact masked_vgParseCidrLen hp

private theorem applySetting_netsMasked {pton : InetPton} {c c' : VgConfig} {key val : List UInt8}
    (hc : c.NetsMasked) (h : applySetting pton c key val = some c') : c'.NetsMasked := by
  rw [applySetting] at h
  split at h
  · rename_i e he
    obtain ⟨-, hlocal, hallow, -⟩ := scalars_keep (List.mem_of_find?_eq_some he) h
    rwa [VgConfig.NetsMasked, VgConfig.protectedNets, hlocal, hallow]
  · split_ifs at h
    · obtain ⟨ports, -, rfl⟩ := Option.map_eq_some_iff.mp h
      exact hc
    · cases h
      exact hc
    · obtain ⟨nets, hnets, rfl⟩ := Option.map_eq_some_iff.mp h
      intro q hq
      rcases List.mem_append.mp hq with hq | hq
      · exact parseCsvCidrs_masked hnets q hq
      · exact hc q (List.mem_append_right _ hq)
    · cases h
      exact hc
    · obtain ⟨nets, hnets, rfl⟩ := Option.map_eq_some_iff.mp h
      intro q hq
      rcases List.mem_append.mp hq with hq | hq
      · exact hc q (List.mem_append_left _ hq)
      · exact parseCsvCidrs_masked hnets q hq
    · cases h
      exact hc

theorem vgConfigLoad_netsMasked {pton : InetPton} {file : ConfigFile} {c : VgConfig}
    (h : vgConfigLoad pton file = some c) : c.NetsMasked :=
  vgConfigLoad_invariant h (netsMasked_vgConfigDefaults pton)
    (fun _ _ _ _ hc hset => applySetting_netsMasked hc hset) fun _ hc => hc

end VoidGate
