import VoidGate.Maps

/-!
# The XDP program

`voidgate_xdp` on one frame: counters, header parsing by offsets into the frame,
exemptions, the drop maps, and the per-host accounting of passed frames. The
program never trusts a port it did not read: where no transport header could be
parsed the ports stay 0.
-/

namespace VoidGate

/-- `frame[i]`; the program only reads offsets it has compared with `data_end`. -/
def byteAt (frame : List UInt8) (i : ℕ) : UInt8 := frame.getD i 0

/-- `bpf_ntohs` of the two bytes at an offset. -/
def be16At (frame : List UInt8) (i : ℕ) : UInt16 :=
  UInt16.ofNat (256 * (byteAt frame i).toNat + (byteAt frame (i + 1)).toNat)

/-- The address of a family stored at an offset. -/
def addrAt (f : Family) (frame : List UInt8) (i : ℕ) : IpAddr :=
  .ofOctets f (Vector.ofFn fun j => byteAt frame (i + j.val))

@[simp] theorem byteAt_drop (frame : List UInt8) (n i : ℕ) :
    byteAt (frame.drop n) i = byteAt frame (n + i) := by
  simp [byteAt, List.getD_eq_getElem?_getD]

@[simp] theorem be16At_drop (frame : List UInt8) (n i : ℕ) :
    be16At (frame.drop n) i = be16At frame (n + i) := by
  simp only [be16At, byteAt_drop, Nat.add_assoc]

@[simp] theorem addrAt_drop (f : Family) (frame : List UInt8) (n i : ℕ) :
    addrAt f (frame.drop n) i = addrAt f frame (n + i) := by
  simp only [addrAt, byteAt_drop, Nat.add_assoc]

@[simp] theorem addrAt_family (f : Family) (frame : List UInt8) (i : ℕ) :
    (addrAt f frame i).family = f := rfl

def vgIpprotoTcp : UInt8 := 6
def vgIpprotoUdp : UInt8 := 17
def vgIpprotoIcmpv6 : UInt8 := 58
def vgIpprotoFragment : UInt8 := 44
def vgIpprotoHopopts : UInt8 := 0
def vgIpprotoRouting : UInt8 := 43
def vgIpprotoAh : UInt8 := 51
def vgIpprotoDstopts : UInt8 := 60

def vgEthPIp : UInt16 := 0x0800
def vgEthPIpv6 : UInt16 := 0x86dd
def vgEthP8021q : UInt16 := 0x8100
def vgEthP8021ad : UInt16 := 0x88a8

def vgNdiscRs : UInt8 := 133
def vgNdiscRedirect : UInt8 := 137
def vgNdiscHopLimit : UInt8 := 255

def vgMaxVlans : ℕ := 2
def vgMaxIpv6Ext : ℕ := 8

def portAllowed (c : VgCfg) (port : UInt16) : Bool :=
  (List.finRange 8).any fun i => i.val < c.allowPortCount && c.allowPorts.get i == port

/-- `v4_in_lpm` and `v6_in_lpm`: a full-length lookup in the map of the address's family. -/
def inLpm (k : Kernel) (fd : Family → MapFd) (x : IpAddr) : Bool :=
  (k.lpm (fd x.family)).lookup x.octets

def v6IsLinklocal (x : IpAddr) : Bool :=
  octet x.octets 0 == 0xfe && octet x.octets 1 &&& 0xc0 == 0x80

def v6IsMcastLink (x : IpAddr) : Bool := octet x.octets 0 == 0xff && octet x.octets 1 == 0x02

def broadcast : IpAddr := .ofOctets .inet (Vector.replicate 16 0xff)

def v4DhcpAllowed (k : Kernel) (daddr : IpAddr) (sport dport : UInt16) : Bool :=
  ((dport == 68 && sport == 67) || (dport == 67 && (sport == 68 || sport == 67))) &&
    (daddr == broadcast || inLpm k .localNets daddr)

def v6DhcpAllowed (k : Kernel) (daddr : IpAddr) (sport dport : UInt16) : Bool :=
  ((dport == 546 && sport == 547) || (dport == 547 && (sport == 546 || sport == 547))) &&
    inLpm k .localNets daddr

/-- `v4_tcp_allowed` and `v6_tcp_allowed`. -/
def tcpAllowed (k : Kernel) (saddr daddr : IpAddr) (sport dport : UInt16) : Bool :=
  (portAllowed k.cfg dport && inLpm k .localNets daddr) ||
    (portAllowed k.cfg sport && inLpm k .localNets saddr)

/-- What `parse_l4` stores through its pointers. -/
structure L4Fields where
  sport : UInt16
  dport : UInt16
  icmp6Type : UInt8

def L4Fields.zero : L4Fields := ⟨0, 0, 0⟩

/-- `parse_l4`; `none` is the return value -1, which leaves zeros behind. The flag says whether
the caller passed a place for the ICMPv6 type. -/
def parseL4 (frame : List UInt8) (l4 : ℕ) (proto : UInt8) (wantType : Bool) : Option L4Fields :=
  if proto = vgIpprotoTcp then
    if frame.length < l4 + 20 then none
    else some { L4Fields.zero with sport := be16At frame l4, dport := be16At frame (l4 + 2) }
  else if proto = vgIpprotoUdp then
    if frame.length < l4 + 8 then none
    else some { L4Fields.zero with sport := be16At frame l4, dport := be16At frame (l4 + 2) }
  else if proto = vgIpprotoIcmpv6 ∧ wantType then
    if frame.length < l4 + 4 then none
    else some { L4Fields.zero with icmp6Type := byteAt frame l4 }
  else some .zero

/-- How `v6_walk_ext` ends: -1, or 0 or 1 with the position and protocol it stores. -/
inductive ExtWalk where
  | truncated
  | fragment (l4 : ℕ) (proto : UInt8)
  | reached (l4 : ℕ) (proto : UInt8)
  deriving DecidableEq

def isLengthExt (proto : UInt8) : Bool :=
  proto == vgIpprotoHopopts || proto == vgIpprotoRouting || proto == vgIpprotoDstopts ||
    proto == vgIpprotoAh

def extLen (proto lenByte : UInt8) : ℕ :=
  if proto = vgIpprotoAh then (lenByte.toNat + 2) * 4 else (lenByte.toNat + 1) * 8

/-- The loop of `v6_walk_ext` with this many rounds left. -/
def v6WalkExt (frame : List UInt8) : ℕ → ℕ → UInt8 → ExtWalk
  | 0, l4, proto => .reached l4 proto
  | n + 1, l4, proto =>
    if proto = vgIpprotoFragment then
      if frame.length < l4 + 8 then .truncated
      else if be16At frame (l4 + 2) &&& 0xfff8 ≠ 0 then .fragment (l4 + 8) (byteAt frame l4)
      else v6WalkExt frame n (l4 + 8) (byteAt frame l4)
    else if isLengthExt proto = false then .reached l4 proto
    else if frame.length < l4 + 2 then .truncated
    else
      let len := extLen proto (byteAt frame (l4 + 1))
      if frame.length < l4 + len then .truncated
      else v6WalkExt frame n (l4 + len) (byteAt frame l4)

/-- The VLAN loop of `voidgate_xdp`: position and EtherType after at most this many tags, or
`none` for a tag cut off by the end of the frame. -/
def skipVlans (frame : List UInt8) : ℕ → ℕ → UInt16 → Option (ℕ × UInt16)
  | 0, nh, ethProto => some (nh, ethProto)
  | n + 1, nh, ethProto =>
    if ethProto ≠ vgEthP8021q ∧ ethProto ≠ vgEthP8021ad then some (nh, ethProto)
    else if frame.length < nh + 4 then none
    else skipVlans frame n (nh + 4) (be16At frame (nh + 2))

/-- The local variables of the IPv4 and the IPv6 branch once the headers are read. `parseErr`
says whether `parse_err` was counted on the way. -/
structure Locals where
  saddr : IpAddr
  daddr : IpAddr
  proto : UInt8
  hopLimit : UInt8
  ports : L4Fields
  parseErr : Bool

/-- The IPv4 branch up to the first exemption, for a fixed header inside the frame. -/
def v4Locals (frame : List UInt8) (nh : ℕ) : Locals :=
  let proto := byteAt frame (nh + 9)
  let ihl := (byteAt frame nh &&& 0x0f).toNat
  let l4 := nh + ihl * 4
  let firstFrag := be16At frame (nh + 6) &&& 0x1fff == 0
  -- without a transport header the ports keep their initial value
  let parsed := if ihl < 5 ∨ frame.length < l4 then none
    else if firstFrag then parseL4 frame l4 proto false
    else some .zero
  { saddr := addrAt .inet frame (nh + 12)
    daddr := addrAt .inet frame (nh + 16)
    proto := proto
    hopLimit := byteAt frame (nh + 8)
    ports := parsed.getD .zero
    parseErr := parsed.isNone }

/-- Addresses and hop limit of the IPv6 branch, with what the rest of the headers gave. -/
def v6Found (frame : List UInt8) (nh : ℕ) (proto : UInt8) (parsed : Option L4Fields) : Locals where
  saddr := addrAt .inet6 frame (nh + 8)
  daddr := addrAt .inet6 frame (nh + 24)
  proto := proto
  hopLimit := byteAt frame (nh + 7)
  ports := parsed.getD .zero
  parseErr := parsed.isNone

/-- The IPv6 branch up to the first exemption. A cut-off extension header leaves the protocol of
the fixed header. -/
def v6Locals (frame : List UInt8) (nh : ℕ) : Locals :=
  let nexthdr := byteAt frame (nh + 6)
  match v6WalkExt frame vgMaxIpv6Ext (nh + 40) nexthdr with
  | .truncated => v6Found frame nh nexthdr none
  | .fragment _ proto => v6Found frame nh proto (some .zero)
  | .reached l4 proto => v6Found frame nh proto (parseL4 frame l4 proto true)

/-- The conditions of the IPv4 branch that jump to `v4_count`. -/
def v4Exempt (k : Kernel) (p : Locals) : Bool :=
  inLpm k .allow p.saddr || inLpm k .allow p.daddr ||
    (p.proto == vgIpprotoTcp && tcpAllowed k p.saddr p.daddr p.ports.sport p.ports.dport) ||
    (p.proto == vgIpprotoUdp && v4DhcpAllowed k p.daddr p.ports.sport p.ports.dport)

/-- The conditions of the IPv6 branch that jump to `v6_count`. -/
def v6Exempt (k : Kernel) (p : Locals) : Bool :=
  v6IsLinklocal p.saddr || v6IsLinklocal p.daddr || v6IsMcastLink p.saddr ||
    v6IsMcastLink p.daddr ||
    (p.hopLimit == vgNdiscHopLimit &&
      (vgNdiscRs ≤ p.ports.icmp6Type && p.ports.icmp6Type ≤ vgNdiscRedirect)) ||
    inLpm k .allow p.saddr || inLpm k .allow p.daddr ||
    (p.proto == vgIpprotoTcp && tcpAllowed k p.saddr p.daddr p.ports.sport p.ports.dport) ||
    (p.proto == vgIpprotoUdp && v6DhcpAllowed k p.daddr p.ports.sport p.ports.dport)

/-- `XDP_PASS` and `XDP_DROP`. -/
inductive Verdict where
  | pass
  | drop
  deriving DecidableEq, Repr

theorem Verdict.eq_of_drop_iff {v v' : Verdict} (h : v = .drop ↔ v' = .drop) : v = v' := by
  cases v <;> cases v' <;> simp at h ⊢

/-- `struct vg_metrics` of one CPU. -/
structure XdpMetrics where
  rxPkts : UInt64
  rxBytes : UInt64
  passed : UInt64
  dropped : UInt64
  nonIp : UInt64
  mapFull : UInt64
  parseErr : UInt64
  deriving DecidableEq

/-- `struct host_counters`. -/
structure HostCounters where
  inPkts : UInt64
  inBytes : UInt64
  deriving DecidableEq

/-- What the kernel decides when a counter map needs a new entry: whether the host map has room,
and which remote entries the insertion evicts, if it succeeds. -/
structure HashRoom where
  host : Bool
  remote : Bool
  evicted : IpAddr → Bool

/-- The maps as one CPU sees them. The metrics entry is looked up, so it may be absent. -/
structure XdpState where
  kernel : Kernel
  metrics : Option XdpMetrics
  host : IpAddr → Option HostCounters
  remote : IpAddr → Option HostCounters

namespace XdpState

def bump (s : XdpState) (f : XdpMetrics → XdpMetrics) : XdpState :=
  { s with metrics := s.metrics.map f }

def pass (s : XdpState) : XdpState × Verdict :=
  (s.bump fun m => { m with passed := m.passed + 1 }, .pass)

def parseFail (s : XdpState) : XdpState × Verdict :=
  (s.bump fun m => { m with parseErr := m.parseErr + 1 }, .pass)

end XdpState

/-- `acc_in` on the entry of a key, if there is one. -/
def accIn (t : IpAddr → Option HostCounters) (x : IpAddr) (bytes : UInt64) :
    IpAddr → Option HostCounters :=
  Function.update t x ((t x).map fun c => ⟨c.inPkts + 1, c.inBytes + bytes⟩)

/-- `VG_HASH_GET`: insert a zero entry for a missing key if there is room. -/
def hashGet (t : IpAddr → Option HostCounters) (room : Bool) (evicted : IpAddr → Bool)
    (x : IpAddr) : IpAddr → Option HostCounters :=
  if (t x).isSome || !room then t
  else Function.update (fun y => if evicted y then none else t y) x (some ⟨0, 0⟩)

/-- The code at `v4_count` and `v6_count`. -/
def XdpState.count (s : XdpState) (saddr daddr : IpAddr) (len : UInt64) (room : HashRoom) :
    XdpState × Verdict :=
  if inLpm s.kernel .localNets daddr then
    let host := hashGet s.host room.host (fun _ => false) daddr
    let remote := hashGet s.remote room.remote room.evicted saddr
    let missed (b : Bool) (m : XdpMetrics) : XdpMetrics :=
      if b then { m with mapFull := m.mapFull + 1 } else m
    (({ s with host := accIn host daddr len, remote := accIn remote saddr len }.bump
      (missed (host daddr).isNone)).bump (missed (remote saddr).isNone)).pass
  else s.pass

/-- Both branches from the exemptions on. -/
def XdpState.enforce (s : XdpState) (p : Locals) (exempt : Bool) (len : UInt64)
    (room : HashRoom) : XdpState × Verdict :=
  let s := if p.parseErr then s.bump fun m => { m with parseErr := m.parseErr + 1 } else s
  if !exempt && (inLpm s.kernel .drop p.saddr || inLpm s.kernel .drop p.daddr) then
    (s.bump fun m => { m with dropped := m.dropped + 1 }, .drop)
  else s.count p.saddr p.daddr len room

def voidgateXdp (s : XdpState) (frame : List UInt8) (room : HashRoom) : XdpState × Verdict :=
  let len := UInt64.ofNat frame.length
  let s := s.bump fun m => { m with rxPkts := m.rxPkts + 1, rxBytes := m.rxBytes + len }
  if s.kernel.cfg.armed = 0 then s.pass
  else if frame.length < 14 then s.parseFail
  else match skipVlans frame vgMaxVlans 14 (be16At frame 12) with
    | none => s.parseFail
    | some (nh, ethProto) =>
      if ethProto = vgEthPIp then
        if frame.length < nh + 20 then s.parseFail
        else s.enforce (v4Locals frame nh) (v4Exempt s.kernel (v4Locals frame nh)) len room
      else if ethProto = vgEthPIpv6 then
        if frame.length < nh + 40 then s.parseFail
        else s.enforce (v6Locals frame nh) (v6Exempt s.kernel (v6Locals frame nh)) len room
      else (s.bump fun m => { m with nonIp := m.nonIp + 1 }).pass

@[simp] theorem XdpState.bump_kernel (s : XdpState) (f : XdpMetrics → XdpMetrics) :
    (s.bump f).kernel = s.kernel := rfl

@[simp] theorem XdpState.pass_verdict (s : XdpState) : s.pass.2 = .pass := rfl

@[simp] theorem XdpState.parseFail_verdict (s : XdpState) : s.parseFail.2 = .pass := rfl

@[simp] theorem XdpState.count_verdict (s : XdpState) (x y : IpAddr) (len : UInt64) (room : HashRoom) :
    (s.count x y len room).2 = .pass := by
  rw [count]
  split_ifs <;> rfl

theorem XdpState.enforce_drop_iff (s : XdpState) (p : Locals) (exempt : Bool) (len : UInt64)
    (room : HashRoom) : (s.enforce p exempt len room).2 = .drop ↔
      exempt = false ∧ (inLpm s.kernel .drop p.saddr = true ∨ inLpm s.kernel .drop p.daddr = true) := by
  have hs : (if p.parseErr then s.bump fun m => { m with parseErr := m.parseErr + 1 } else s).kernel =
      s.kernel := by
    split_ifs <;> rfl
  rw [enforce, hs]
  by_cases h : (!exempt && (inLpm s.kernel .drop p.saddr || inLpm s.kernel .drop p.daddr)) = true
  · rw [if_pos h]
    simpa using h
  · rw [if_neg h, count_verdict]
    simpa using h

/-- What the program has read when it comes to the exemptions; `none` where it never does. -/
def xdpLocals (frame : List UInt8) : Option Locals :=
  if frame.length < 14 then none
  else match skipVlans frame vgMaxVlans 14 (be16At frame 12) with
    | none => none
    | some (nh, ethProto) =>
      if ethProto = vgEthPIp then
        if frame.length < nh + 20 then none else some (v4Locals frame nh)
      else if ethProto = vgEthPIpv6 then
        if frame.length < nh + 40 then none else some (v6Locals frame nh)
      else none

/-- The exemptions of the branch that the addresses belong to. -/
def exempted (k : Kernel) (p : Locals) : Bool :=
  match p.saddr.family with
  | .inet => v4Exempt k p
  | .inet6 => v6Exempt k p

@[simp] theorem exempted_v4Locals (k : Kernel) (frame : List UInt8) (nh : ℕ) :
    exempted k (v4Locals frame nh) = v4Exempt k (v4Locals frame nh) := rfl

@[simp] theorem exempted_v6Locals (k : Kernel) (frame : List UInt8) (nh : ℕ) :
    exempted k (v6Locals frame nh) = v6Exempt k (v6Locals frame nh) := by
  have hf : (v6Locals frame nh).saddr.family = .inet6 := by
    rw [v6Locals]
    split <;> rfl
  rw [exempted, hf]

/-- A frame is dropped exactly when the gate is armed, the program reaches the exemptions, none
of them applies, and one of the addresses is in the drop map. -/
theorem voidgateXdp_drop_iff (s : XdpState) (frame : List UInt8) (room : HashRoom) :
    (voidgateXdp s frame room).2 = .drop ↔ s.kernel.cfg.armed ≠ 0 ∧ ∃ p, xdpLocals frame = some p ∧
      exempted s.kernel p = false ∧
      (inLpm s.kernel .drop p.saddr = true ∨ inLpm s.kernel .drop p.daddr = true) := by
  simp only [voidgateXdp, xdpLocals, XdpState.bump_kernel]
  by_cases harmed : s.kernel.cfg.armed = 0
  · simp [harmed]
  by_cases hlen : frame.length < 14
  · simp [harmed, hlen]
  simp only [if_neg harmed, if_neg hlen]
  cases hv : skipVlans frame vgMaxVlans 14 (be16At frame 12) with
  | none => simp
  | some r =>
    obtain ⟨nh, ethProto⟩ := r
    by_cases h4 : ethProto = vgEthPIp
    · by_cases hl : frame.length < nh + 20
      · simp [h4, hl]
      · simp [h4, hl, harmed, XdpState.enforce_drop_iff]
    by_cases h6 : ethProto = vgEthPIpv6
    · subst h6
      by_cases hl : frame.length < nh + 40
      · simp [h4, hl]
      · simp [h4, hl, harmed, XdpState.enforce_drop_iff]
    · simp [h4, h6]

end VoidGate
