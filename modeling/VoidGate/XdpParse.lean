import VoidGate.Xdp

/-!
# The headers against a reference parse

A packet is read from a frame by recursive descent over the remaining bytes; a
transport header that cannot be reached is absent rather than zero. The XDP program,
which compares offsets with the end of the frame, reads the same packet.
-/

namespace VoidGate

inductive L4 where
  | tcp (sport dport : UInt16)
  | udp (sport dport : UInt16)
  | icmpv6 (type : UInt8)
  | other
  deriving DecidableEq

/-- The parts of an IP packet that matter for filtering. -/
structure Packet where
  src : IpAddr
  dst : IpAddr
  hopLimit : UInt8
  /-- Absent for a later fragment and for a header that is cut off or too deep. -/
  l4 : Option L4
  deriving DecidableEq

namespace Reference

/-- EtherType and payload behind at most this many VLAN tags. -/
def vlans : ℕ → UInt16 → List UInt8 → Option (UInt16 × List UInt8)
  | 0, etherType, payload => some (etherType, payload)
  | n + 1, etherType, payload =>
    if etherType = 0x8100 ∨ etherType = 0x88a8 then
      if 4 ≤ payload.length then vlans n (be16At payload 2) (payload.drop 4) else none
    else some (etherType, payload)

/-- The transport header of this protocol at the front of the bytes, if it is all there. -/
def transport (f : Family) (proto : UInt8) (bytes : List UInt8) : Option L4 :=
  if proto = 6 then
    if 20 ≤ bytes.length then some (.tcp (be16At bytes 0) (be16At bytes 2)) else none
  else if proto = 17 then
    if 8 ≤ bytes.length then some (.udp (be16At bytes 0) (be16At bytes 2)) else none
  else if proto = 58 ∧ f = .inet6 then
    if 4 ≤ bytes.length then some (.icmpv6 (byteAt bytes 0)) else none
  else some .other

/-- Hop-by-hop, routing, fragment, authentication and destination options headers. -/
def IsExtension (proto : UInt8) : Prop :=
  proto = 0 ∨ proto = 43 ∨ proto = 44 ∨ proto = 51 ∨ proto = 60

instance (proto : UInt8) : Decidable (IsExtension proto) :=
  inferInstanceAs (Decidable (_ ∨ _))

/-- The length of an extension header. -/
def extensionLength (proto : UInt8) (bytes : List UInt8) : ℕ :=
  if proto = 44 then 8
  else if proto = 51 then 4 * ((byteAt bytes 1).toNat + 2)
  else 8 * ((byteAt bytes 1).toNat + 1)

/-- Protocol and bytes behind at most this many extension headers. There is no transport header
behind a longer chain, a header that is cut off, or the header of a later fragment. -/
def extensions : ℕ → UInt8 → List UInt8 → Option (UInt8 × List UInt8)
  | n, proto, bytes =>
    if IsExtension proto then
      match n with
      | 0 => none
      | n + 1 =>
        if bytes.length < 2 ∨ bytes.length < extensionLength proto bytes then none
        else if proto = 44 ∧ be16At bytes 2 &&& 0xfff8 ≠ 0 then none
        else extensions n (byteAt bytes 0) (bytes.drop (extensionLength proto bytes))
    else some (proto, bytes)

/-- The packet of bytes that start with a fixed IPv4 header. Its options must be all there, and
only a first fragment carries a transport header. -/
def ipv4 (bytes : List UInt8) : Packet where
  src := addrAt .inet bytes 12
  dst := addrAt .inet bytes 16
  hopLimit := byteAt bytes 8
  l4 :=
    let headerLength := 4 * (byteAt bytes 0 &&& 0x0f).toNat
    if (20 ≤ headerLength ∧ headerLength ≤ bytes.length) ∧ be16At bytes 6 &&& 0x1fff = 0 then
      transport .inet (byteAt bytes 9) (bytes.drop headerLength)
    else none

def ipv6 (bytes : List UInt8) : Packet where
  src := addrAt .inet6 bytes 8
  dst := addrAt .inet6 bytes 24
  hopLimit := byteAt bytes 7
  l4 := (extensions 8 (byteAt bytes 6) (bytes.drop 40)).bind fun r => transport .inet6 r.1 r.2

/-- The IP packet in a frame, behind at most two VLAN tags. -/
def packet (frame : List UInt8) : Option Packet :=
  if frame.length < 14 then none
  else match vlans 2 (be16At frame 12) (frame.drop 14) with
    | none => none
    | some (etherType, bytes) =>
      if etherType = 0x0800 then if bytes.length < 20 then none else some (ipv4 bytes)
      else if etherType = 0x86dd then if bytes.length < 40 then none else some (ipv6 bytes)
      else none

end Reference

theorem skipVlans_vlans (frame : List UInt8) (n nh : ℕ) (ethProto : UInt16) :
    (skipVlans frame n nh ethProto).map (fun r => (r.2, frame.drop r.1)) =
      Reference.vlans n ethProto (frame.drop nh) := by
  induction n generalizing nh ethProto with
  | zero => rfl
  | succ n ih =>
    rw [skipVlans, Reference.vlans]
    by_cases ht : ethProto = 0x8100 ∨ ethProto = 0x88a8
    · have ht' : ¬ (ethProto ≠ vgEthP8021q ∧ ethProto ≠ vgEthP8021ad) := by
        rw [vgEthP8021q, vgEthP8021ad]
        tauto
      rw [if_neg ht', if_pos ht, List.length_drop]
      by_cases hl : frame.length < nh + 4
      · rw [if_pos hl, if_neg (by omega), Option.map_none]
      · rw [if_neg hl, if_pos (by omega), ih, be16At_drop, List.drop_drop]
    · have ht' : ethProto ≠ vgEthP8021q ∧ ethProto ≠ vgEthP8021ad := by
        rw [vgEthP8021q, vgEthP8021ad]
        tauto
      rw [if_pos ht', if_neg ht, Option.map_some]

def Locals.Sees (proto : UInt8) (ports : L4Fields) : Option L4 → Prop
  | some (.tcp s d) => proto = vgIpprotoTcp ∧ ports = ⟨s, d, 0⟩
  | some (.udp s d) => proto = vgIpprotoUdp ∧ ports = ⟨s, d, 0⟩
  | some (.icmpv6 t) => proto = vgIpprotoIcmpv6 ∧ ports = ⟨0, 0, t⟩
  | some .other => proto ≠ vgIpprotoTcp ∧ proto ≠ vgIpprotoUdp ∧ ports = .zero
  | none => ports = .zero

theorem parseL4_sees (f : Family) (frame : List UInt8) (l4 : ℕ) (proto : UInt8) :
    Locals.Sees proto ((parseL4 frame l4 proto (decide (f = .inet6))).getD .zero)
      (Reference.transport f proto (frame.drop l4)) := by
  simp only [parseL4, Reference.transport, vgIpprotoTcp, vgIpprotoUdp, vgIpprotoIcmpv6,
    List.length_drop, be16At_drop, byteAt_drop, Nat.add_zero, decide_eq_true_eq]
  by_cases htcp : proto = 6
  · by_cases hl : frame.length < l4 + 20
    · simp [htcp, hl, show ¬ 20 ≤ frame.length - l4 by omega, Locals.Sees]
    · simp [htcp, hl, show 20 ≤ frame.length - l4 by omega, Locals.Sees, vgIpprotoTcp,
        L4Fields.zero]
  by_cases hudp : proto = 17
  · by_cases hl : frame.length < l4 + 8
    · simp [hudp, hl, show ¬ 8 ≤ frame.length - l4 by omega, Locals.Sees]
    · simp [hudp, hl, show 8 ≤ frame.length - l4 by omega, Locals.Sees, vgIpprotoUdp,
        L4Fields.zero]
  by_cases hicmp : proto = 58 ∧ f = .inet6
  · by_cases hl : frame.length < l4 + 4
    · simp [hicmp, hl, show ¬ 4 ≤ frame.length - l4 by omega, Locals.Sees]
    · simp [hicmp, hl, show 4 ≤ frame.length - l4 by omega, Locals.Sees, vgIpprotoIcmpv6,
        L4Fields.zero]
  · simp [htcp, hudp, hicmp, Locals.Sees, vgIpprotoTcp, vgIpprotoUdp]

theorem isExtension_iff (proto : UInt8) :
    Reference.IsExtension proto ↔ proto = vgIpprotoFragment ∨ isLengthExt proto = true := by
  simp only [Reference.IsExtension, isLengthExt, vgIpprotoFragment, vgIpprotoHopopts,
    vgIpprotoRouting, vgIpprotoDstopts, vgIpprotoAh, Bool.or_eq_true, beq_iff_eq]
  tauto

theorem v6WalkExt_round (frame : List UInt8) (n l4 : ℕ) {proto : UInt8}
    (h : Reference.IsExtension proto) : v6WalkExt frame (n + 1) l4 proto =
      let bytes := frame.drop l4
      if bytes.length < 2 ∨ bytes.length < Reference.extensionLength proto bytes then .truncated
      else if proto = 44 ∧ be16At bytes 2 &&& 0xfff8 ≠ 0 then .fragment (l4 + 8) (byteAt bytes 0)
      else v6WalkExt frame n (l4 + Reference.extensionLength proto bytes) (byteAt bytes 0) := by
  simp only [v6WalkExt, List.length_drop, be16At_drop, byteAt_drop, Nat.add_zero]
  by_cases hfrag : proto = vgIpprotoFragment
  · have hlen : Reference.extensionLength proto (frame.drop l4) = 8 := by
      rw [hfrag]
      rfl
    rw [if_pos hfrag, hlen]
    by_cases hl : frame.length < l4 + 8
    · have hcut : frame.length - l4 < 2 ∨ frame.length - l4 < 8 := by omega
      rw [if_pos hl, if_pos hcut]
    · have hwhole : ¬ (frame.length - l4 < 2 ∨ frame.length - l4 < 8) := by omega
      rw [if_neg hl, if_neg hwhole]
      by_cases hoff : be16At frame (l4 + 2) &&& 0xfff8 ≠ 0
      · rw [if_pos hoff, if_pos ⟨hfrag, hoff⟩]
      · rw [if_neg hoff, if_neg fun hf => hoff hf.2]
  · have hext := ((isExtension_iff proto).mp h).resolve_left hfrag
    have hlen : Reference.extensionLength proto (frame.drop l4) =
        extLen proto (byteAt frame (l4 + 1)) := by
      rw [Reference.extensionLength, if_neg (show ¬ proto = 44 from hfrag), extLen, vgIpprotoAh,
        byteAt_drop]
      split_ifs <;> omega
    rw [if_neg hfrag, if_neg (by simp [hext]), hlen]
    generalize extLen proto (byteAt frame (l4 + 1)) = len
    by_cases hl : frame.length < l4 + 2
    · have hcut : frame.length - l4 < 2 ∨ frame.length - l4 < len := by omega
      rw [if_pos hl, if_pos hcut]
    · by_cases hl' : frame.length < l4 + len
      · have hcut : frame.length - l4 < 2 ∨ frame.length - l4 < len := by omega
        rw [if_neg hl, if_pos hl', if_pos hcut]
      · have hwhole : ¬ (frame.length - l4 < 2 ∨ frame.length - l4 < len) := by omega
        rw [if_neg hl, if_neg hl', if_neg hwhole, if_neg fun hf => hfrag hf.1]

/-- The walk finds the transport header of the reference, or stops at an extension header when
its rounds are used up, where the reference finds none. -/
private theorem v6WalkExt_extensions (frame : List UInt8) (n l4 : ℕ) (proto : UInt8) :
    Reference.extensions n proto (frame.drop l4) = match v6WalkExt frame n l4 proto with
      | .truncated => none
      | .fragment _ _ => none
      | .reached l4' proto' =>
        if Reference.IsExtension proto' then none else some (proto', frame.drop l4') := by
  induction n generalizing l4 proto with
  | zero =>
    rw [Reference.extensions, v6WalkExt]
  | succ n ih =>
    by_cases hext : Reference.IsExtension proto
    · rw [Reference.extensions, if_pos hext, v6WalkExt_round frame n l4 hext]
      dsimp only
      split_ifs
      · rfl
      · rfl
      · rw [List.drop_drop, ih]
    · have hno := (isExtension_iff proto).not.mp hext
      rw [not_or, Bool.not_eq_true] at hno
      rw [Reference.extensions, if_neg hext, v6WalkExt, if_neg hno.1, if_pos hno.2]
      exact (if_neg hext).symm

/-- The program's variables describe the packet. -/
structure Reads (p : Locals) (pkt : Packet) : Prop where
  saddr : p.saddr = pkt.src
  daddr : p.daddr = pkt.dst
  family : pkt.dst.family = pkt.src.family
  hopLimit : p.hopLimit = pkt.hopLimit
  sees : Locals.Sees p.proto p.ports pkt.l4

private theorem v4Locals_reads (frame : List UInt8) (nh : ℕ) :
    Reads (v4Locals frame nh) (Reference.ipv4 (frame.drop nh)) where
  saddr := by simp only [v4Locals, Reference.ipv4, addrAt_drop]
  daddr := by simp only [v4Locals, Reference.ipv4, addrAt_drop]
  family := by simp only [Reference.ipv4, addrAt_family]
  hopLimit := by simp only [v4Locals, Reference.ipv4, byteAt_drop]
  sees := by
    simp only [v4Locals, Reference.ipv4, List.length_drop, be16At_drop, byteAt_drop,
      List.drop_drop, Nat.add_zero]
    generalize (byteAt frame nh &&& 0x0f).toNat = ihl
    rw [Nat.mul_comm ihl 4]
    by_cases hbad : ihl < 5 ∨ frame.length < nh + 4 * ihl
    · have hwhole : ¬ (20 ≤ 4 * ihl ∧ 4 * ihl ≤ frame.length - nh) := by omega
      simp [hbad, hwhole, Locals.Sees]
    · have hwhole : 20 ≤ 4 * ihl ∧ 4 * ihl ≤ frame.length - nh := by omega
      by_cases hfrag : be16At frame (nh + 6) &&& 0x1fff = 0
      · have hparse := parseL4_sees .inet frame (nh + 4 * ihl) (byteAt frame (nh + 9))
        simpa [hbad, hwhole, hfrag] using hparse
      · simp [hbad, hfrag, Locals.Sees]

theorem v6Found_reads (frame : List UInt8) (nh : ℕ) {proto : UInt8} {parsed : Option L4Fields}
    (hs : Locals.Sees proto (parsed.getD .zero) (Reference.ipv6 (frame.drop nh)).l4) :
    Reads (v6Found frame nh proto parsed) (Reference.ipv6 (frame.drop nh)) where
  saddr := by simp only [v6Found, Reference.ipv6, addrAt_drop]
  daddr := by simp only [v6Found, Reference.ipv6, addrAt_drop]
  family := by simp only [Reference.ipv6, addrAt_family]
  hopLimit := by simp only [v6Found, Reference.ipv6, byteAt_drop]
  sees := hs

private theorem v6Locals_reads (frame : List UInt8) (nh : ℕ) :
    Reads (v6Locals frame nh) (Reference.ipv6 (frame.drop nh)) := by
  have hwalk := v6WalkExt_extensions frame 8 (nh + 40) (byteAt frame (nh + 6))
  have hl4 : (Reference.ipv6 (frame.drop nh)).l4 =
      (Reference.extensions 8 (byteAt frame (nh + 6)) (frame.drop (nh + 40))).bind fun r =>
        Reference.transport .inet6 r.1 r.2 := by
    simp only [Reference.ipv6, List.drop_drop, byteAt_drop]
  rw [v6Locals, vgMaxIpv6Ext]
  cases hw : v6WalkExt frame 8 (nh + 40) (byteAt frame (nh + 6)) with
  | truncated =>
    rw [hw] at hwalk
    exact v6Found_reads frame nh (by rw [hl4, hwalk]; rfl)
  | fragment l4 proto =>
    rw [hw] at hwalk
    exact v6Found_reads frame nh (by rw [hl4, hwalk]; rfl)
  | reached l4 proto =>
    rw [hw] at hwalk
    dsimp only at hwalk
    refine v6Found_reads frame nh ?_
    rw [hl4, hwalk]
    by_cases hext : Reference.IsExtension proto
    · -- the ninth header is no transport header, so nothing was read
      have hnone : parseL4 frame l4 proto true = some .zero := by
        rcases hext with rfl | rfl | rfl | rfl | rfl <;> rfl
      rw [if_pos hext, hnone]
      rfl
    · rw [if_neg hext]
      exact parseL4_sees .inet6 frame l4 proto

theorem xdpLocals_packet (frame : List UInt8) :
    (xdpLocals frame = none ∧ Reference.packet frame = none) ∨
      ∃ p pkt, xdpLocals frame = some p ∧ Reference.packet frame = some pkt ∧ Reads p pkt := by
  rw [xdpLocals, Reference.packet]
  by_cases hlen : frame.length < 14
  · exact .inl (by simp [hlen])
  rw [if_neg hlen, if_neg hlen, ← skipVlans_vlans, ← vgMaxVlans]
  cases skipVlans frame vgMaxVlans 14 (be16At frame 12) with
  | none => exact .inl ⟨rfl, rfl⟩
  | some r =>
    obtain ⟨nh, ethProto⟩ := r
    simp only [Option.map_some, List.length_drop, vgEthPIp, vgEthPIpv6]
    by_cases h4 : ethProto = 0x0800
    · by_cases hl : frame.length < nh + 20
      · exact .inl (by simp [h4, hl, show frame.length - nh < 20 by omega])
      · refine .inr ⟨_, _, ?_, ?_, v4Locals_reads frame nh⟩
        · simp [h4, hl]
        · simp [h4, show ¬ frame.length - nh < 20 by omega]
    by_cases h6 : ethProto = 0x86dd
    · subst h6
      by_cases hl : frame.length < nh + 40
      · exact .inl (by simp [hl, show frame.length - nh < 40 by omega])
      · refine .inr ⟨_, _, ?_, ?_, v6Locals_reads frame nh⟩
        · simp [hl]
        · simp [show ¬ frame.length - nh < 40 by omega]
    · exact .inl (by simp [h4, h6])

end VoidGate
