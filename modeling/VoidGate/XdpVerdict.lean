import VoidGate.XdpParse

/-!
# The verdict

The drop and exemption rules are stated over packets and stored prefixes, and the
XDP program is shown to drop exactly the frames these rules drop. The argument needs
that port 0, the value left by a transport header that was not read, is never an
allowed port.
-/

namespace VoidGate

open BitPrefixes

/-- A prefix stored in the map of the address's family contains the address. -/
def Kernel.Matches (k : Kernel) (fd : Family → MapFd) (x : IpAddr) : Prop :=
  ∃ q ∈ (k.lpm (fd x.family)).keys, Agree q.prefixlen (bit q.addr) (bit x.octets)

def VgCfg.AllowsPort (c : VgCfg) (port : UInt16) : Prop :=
  ∃ i : Fin 8, i.val < c.allowPortCount ∧ c.allowPorts.get i = port

def linkLocal : VgCidr :=
  ⟨.inet6, (Vector.replicate 16 0).set 0 0xfe |>.set 1 0x80, 10, by decide⟩

def linkMulticast : VgCidr :=
  ⟨.inet6, (Vector.replicate 16 0).set 0 0xff |>.set 1 0x02, 16, by decide⟩

def DhcpPorts (sport dport client server : UInt16) : Prop :=
  (sport = server ∧ dport = client) ∨ (sport = client ∧ dport = server) ∨
    (sport = server ∧ dport = server)

/-- The packet passes whatever the drop map says. -/
inductive Exempt (k : Kernel) (p : Packet) : Prop
  | linkScope (x : IpAddr) (hx : x = p.src ∨ x = p.dst)
      (h : linkLocal.Has x ∨ linkMulticast.Has x)
  | neighbourDiscovery (type : UInt8) (hf : p.src.family = .inet6)
      (h : p.l4 = some (.icmpv6 type)) (htype : 133 ≤ type ∧ type ≤ 137) (hhop : p.hopLimit = 255)
  | allowed (x : IpAddr) (hx : x = p.src ∨ x = p.dst) (h : k.Matches .allow x)
  | toService (sport dport : UInt16) (h : p.l4 = some (.tcp sport dport))
      (hport : k.cfg.AllowsPort dport) (hlocal : k.Matches .localNets p.dst)
  | fromService (sport dport : UInt16) (h : p.l4 = some (.tcp sport dport))
      (hport : k.cfg.AllowsPort sport) (hlocal : k.Matches .localNets p.src)
  | dhcpv4 (sport dport : UInt16) (hf : p.src.family = .inet) (h : p.l4 = some (.udp sport dport))
      (hports : DhcpPorts sport dport 68 67)
      (hdst : p.dst = broadcast ∨ k.Matches .localNets p.dst)
  | dhcpv6 (sport dport : UInt16) (hf : p.src.family = .inet6) (h : p.l4 = some (.udp sport dport))
      (hports : DhcpPorts sport dport 546 547) (hdst : k.Matches .localNets p.dst)

/-- The rules drop the frame. -/
def Kernel.Drops (k : Kernel) (frame : List UInt8) : Prop :=
  k.cfg.armed ≠ 0 ∧ ∃ p, Reference.packet frame = some p ∧
    (k.Matches .drop p.src ∨ k.Matches .drop p.dst) ∧ ¬ Exempt k p

/-- What the control plane can leave in the array entry: the zeros of a fresh map, or the ports
of a configuration that took its ports from some file. -/
inductive VgCfg.Written : VgCfg → Prop
  | fresh : Written Kernel.fresh.cfg
  | commit (armed : ℕ) {pton : InetPton} {file : ConfigFile} {n c : VgConfig}
      (hload : vgConfigLoad pton file = some n) (hports : c.allowPorts = n.allowPorts) :
      Written (cfgEntry armed c)

/-- No port 0 below the port count. -/
def VgCfg.Writable (c : VgCfg) : Prop := ∀ i : Fin 8, i.val < c.allowPortCount → c.allowPorts.get i ≠ 0

theorem inLpm_iff (k : Kernel) (fd : Family → MapFd) (x : IpAddr) :
    inLpm k fd x = true ↔ k.Matches fd x := by
  rw [inLpm, Lpm.lookup_iff]
  constructor
  · rintro ⟨e, he, ha⟩
    exact ⟨e.1, List.mem_map_of_mem he, ha⟩
  · rintro ⟨q, hq, ha⟩
    obtain ⟨e, he, rfl⟩ := List.mem_map.mp hq
    exact ⟨e, he, ha⟩

theorem portAllowed_iff (c : VgCfg) (port : UInt16) :
    portAllowed c port = true ↔ c.AllowsPort port := by
  simp [portAllowed, VgCfg.AllowsPort]

theorem VgCfg.Writable.not_allowsPort_zero {c : VgCfg} (hc : c.Writable) : ¬ c.AllowsPort 0 :=
  fun ⟨i, hi, h⟩ => hc i hi h

theorem VgCidr.has_iff_bitsEqual {p : VgCidr} {x : IpAddr} (h : p.family = x.family) :
    p.Has x ↔ bitsEqual p.addr x.octets p.prefixlen = true := by
  rw [VgCidr.Has, bitsEqual_iff _ _ p.prefixlen_le_128]
  exact and_iff_right h

theorem v6IsLinklocal_iff {x : IpAddr} (hx : x.family = .inet6) :
    v6IsLinklocal x = true ↔ linkLocal.Has x := by
  have hmem : memEq linkLocal.addr x.octets 1 = true ↔ octet x.octets 0 = 0xfe := by
    rw [memEq_iff _ _ (by decide)]
    simp only [Nat.lt_one_iff, forall_eq]
    exact eq_comm
  have hbits : bitsEqual linkLocal.addr x.octets 10 =
      (memEq linkLocal.addr x.octets 1 && (0x80 == octet x.octets 1 &&& 0xc0)) := by
    rw [bitsEqual]
    cases memEq linkLocal.addr x.octets 1 <;> rfl
  rw [VgCidr.has_iff_bitsEqual hx.symm, show linkLocal.prefixlen = 10 from rfl, hbits,
    Bool.and_eq_true, hmem, v6IsLinklocal, Bool.and_eq_true, beq_iff_eq, beq_iff_eq, beq_iff_eq]
  exact and_congr_right' eq_comm

theorem v6IsMcastLink_iff {x : IpAddr} (hx : x.family = .inet6) :
    v6IsMcastLink x = true ↔ linkMulticast.Has x := by
  have hmem : memEq linkMulticast.addr x.octets 2 = true ↔
      octet x.octets 0 = 0xff ∧ octet x.octets 1 = 0x02 := by
    rw [memEq_iff _ _ (by decide)]
    simp only [Nat.forall_lt_succ_right, Nat.not_lt_zero, IsEmpty.forall_iff, implies_true,
      true_and]
    exact and_congr eq_comm eq_comm
  have hbits : bitsEqual linkMulticast.addr x.octets 16 = memEq linkMulticast.addr x.octets 2 := by
    rw [bitsEqual]
    cases memEq linkMulticast.addr x.octets 2 <;> rfl
  rw [VgCidr.has_iff_bitsEqual hx.symm, show linkMulticast.prefixlen = 16 from rfl, hbits, hmem,
    v6IsMcastLink, Bool.and_eq_true, beq_iff_eq, beq_iff_eq]

namespace Locals.Sees
variable {proto : UInt8} {ports : L4Fields} {l4 : Option L4}

/-- A test that port 0 does not pass sees the ports of a TCP header or none at all. Only a later
fragment can be of protocol TCP without a header. -/
private theorem tcp_iff (hs : Sees proto ports l4) {Q : UInt16 → UInt16 → Prop}
    (h0 : l4 = none → proto = vgIpprotoTcp → ¬ Q 0 0) :
    proto = vgIpprotoTcp ∧ Q ports.sport ports.dport ↔ ∃ s d, l4 = some (.tcp s d) ∧ Q s d := by
  rcases l4 with _ | ⟨s, d⟩ | ⟨s, d⟩ | t | _
  · rw [show ports = .zero from hs]
    exact ⟨fun ⟨hp, hq⟩ => absurd hq (h0 rfl hp), by simp⟩
  · obtain ⟨rfl, rfl⟩ := hs
    simp
  · obtain ⟨rfl, rfl⟩ := hs
    simp [vgIpprotoUdp, vgIpprotoTcp]
  · obtain ⟨rfl, rfl⟩ := hs
    simp [vgIpprotoIcmpv6, vgIpprotoTcp]
  · simp [hs.1]

theorem udp_iff (hs : Sees proto ports l4) {Q : UInt16 → UInt16 → Prop} (h0 : ¬ Q 0 0) :
    proto = vgIpprotoUdp ∧ Q ports.sport ports.dport ↔ ∃ s d, l4 = some (.udp s d) ∧ Q s d := by
  rcases l4 with _ | ⟨s, d⟩ | ⟨s, d⟩ | t | _
  · simp [show ports = .zero from hs, L4Fields.zero, h0]
  · obtain ⟨rfl, rfl⟩ := hs
    simp [vgIpprotoUdp, vgIpprotoTcp]
  · obtain ⟨rfl, rfl⟩ := hs
    simp
  · obtain ⟨rfl, rfl⟩ := hs
    simp [vgIpprotoIcmpv6, vgIpprotoUdp]
  · simp [hs.2.1]

private theorem icmpv6_iff (hs : Sees proto ports l4) {Q : UInt8 → Prop} (h0 : ¬ Q 0) :
    Q ports.icmp6Type ↔ ∃ t, l4 = some (.icmpv6 t) ∧ Q t := by
  rcases l4 with _ | ⟨s, d⟩ | ⟨s, d⟩ | t | _
  · simp [show ports = .zero from hs, L4Fields.zero, h0]
  · simp [hs.2, h0]
  · simp [hs.2, h0]
  · simp [hs.2]
  · simp [hs.2.2, L4Fields.zero, h0]

end Locals.Sees

section Exemptions
variable {k : Kernel} {p : Locals} {pkt : Packet}

def PortsKnown (k : Kernel) (p : Locals) (pkt : Packet) : Prop :=
  pkt.l4 = none → p.proto = vgIpprotoTcp → ¬ k.cfg.AllowsPort 0

private theorem VgCfg.Writable.portsKnown (hk : k.cfg.Writable) : PortsKnown k p pkt :=
  fun _ _ => hk.not_allowsPort_zero

theorem Reads.tcpAllowed_iff (hr : Reads p pkt) (hk : PortsKnown k p pkt) :
    p.proto = vgIpprotoTcp ∧ tcpAllowed k p.saddr p.daddr p.ports.sport p.ports.dport = true ↔
      ∃ s d, pkt.l4 = some (.tcp s d) ∧ ((k.cfg.AllowsPort d ∧ k.Matches .localNets pkt.dst) ∨
        (k.cfg.AllowsPort s ∧ k.Matches .localNets pkt.src)) := by
  simp only [tcpAllowed, Bool.or_eq_true, Bool.and_eq_true, portAllowed_iff, inLpm_iff, hr.saddr,
    hr.daddr]
  refine hr.sees.tcp_iff (Q := fun s d => (k.cfg.AllowsPort d ∧ k.Matches .localNets pkt.dst) ∨
    (k.cfg.AllowsPort s ∧ k.Matches .localNets pkt.src)) fun hnone hp => ?_
  have h0 := hk hnone hp
  tauto

private theorem Reads.v4DhcpAllowed_iff (hr : Reads p pkt) :
    p.proto = vgIpprotoUdp ∧ v4DhcpAllowed k p.daddr p.ports.sport p.ports.dport = true ↔
      ∃ s d, pkt.l4 = some (.udp s d) ∧ DhcpPorts s d 68 67 ∧
        (pkt.dst = broadcast ∨ k.Matches .localNets pkt.dst) := by
  rw [← hr.sees.udp_iff (Q := fun s d => DhcpPorts s d 68 67 ∧
    (pkt.dst = broadcast ∨ k.Matches .localNets pkt.dst)) (by simp [DhcpPorts])]
  simp only [v4DhcpAllowed, DhcpPorts, Bool.or_eq_true, Bool.and_eq_true, beq_iff_eq, inLpm_iff,
    hr.daddr]
  tauto

private theorem Reads.v6DhcpAllowed_iff (hr : Reads p pkt) :
    p.proto = vgIpprotoUdp ∧ v6DhcpAllowed k p.daddr p.ports.sport p.ports.dport = true ↔
      ∃ s d, pkt.l4 = some (.udp s d) ∧ DhcpPorts s d 546 547 ∧ k.Matches .localNets pkt.dst := by
  rw [← hr.sees.udp_iff (Q := fun s d => DhcpPorts s d 546 547 ∧ k.Matches .localNets pkt.dst)
    (by simp [DhcpPorts])]
  simp only [v6DhcpAllowed, DhcpPorts, Bool.or_eq_true, Bool.and_eq_true, beq_iff_eq, inLpm_iff,
    hr.daddr]
  tauto

private theorem Reads.neighbourDiscovery_iff (hr : Reads p pkt) :
    p.hopLimit = vgNdiscHopLimit ∧ (vgNdiscRs ≤ p.ports.icmp6Type ∧
        p.ports.icmp6Type ≤ vgNdiscRedirect) ↔
      ∃ t, pkt.l4 = some (.icmpv6 t) ∧ (133 ≤ t ∧ t ≤ 137) ∧ pkt.hopLimit = 255 := by
  rw [hr.hopLimit, and_comm, hr.sees.icmpv6_iff (Q := fun t => vgNdiscRs ≤ t ∧ t ≤ vgNdiscRedirect)
    (by decide)]
  simp only [exists_and_right, ← and_assoc]
  rfl

private theorem v4Exempt_iff (hr : Reads p pkt) (hf : pkt.src.family = .inet) (hk : PortsKnown k p pkt) :
    v4Exempt k p = true ↔ Exempt k pkt := by
  simp only [v4Exempt, Bool.or_eq_true, Bool.and_eq_true, beq_iff_eq, hr.tcpAllowed_iff hk,
    hr.v4DhcpAllowed_iff, inLpm_iff]
  rw [hr.saddr, hr.daddr]
  constructor
  · rintro (((h | h) | ⟨s, d, hl4, ⟨hp, hl⟩ | ⟨hp, hl⟩⟩) | ⟨s, d, hl4, hp, hd⟩)
    · exact .allowed _ (.inl rfl) h
    · exact .allowed _ (.inr rfl) h
    · exact .toService s d hl4 hp hl
    · exact .fromService s d hl4 hp hl
    · exact .dhcpv4 s d hf hl4 hp hd
  · intro h
    have hx6 {x : IpAddr} (hx : x = pkt.src ∨ x = pkt.dst) : x.family ≠ .inet6 := by
      rcases hx with rfl | rfl
      · simp [hf]
      · simp [hr.family, hf]
    cases h with
    | linkScope x hx h => exact absurd (h.elim (·.1.symm) (·.1.symm)) (hx6 hx)
    | neighbourDiscovery t hf' => simp [hf] at hf'
    | allowed x hx h =>
      rcases hx with rfl | rfl
      · exact .inl (.inl (.inl h))
      · exact .inl (.inl (.inr h))
    | toService s d hl4 hp hl => exact .inl (.inr ⟨s, d, hl4, .inl ⟨hp, hl⟩⟩)
    | fromService s d hl4 hp hl => exact .inl (.inr ⟨s, d, hl4, .inr ⟨hp, hl⟩⟩)
    | dhcpv4 s d hf' hl4 hp hd => exact .inr ⟨s, d, hl4, hp, hd⟩
    | dhcpv6 s d hf' => simp [hf] at hf'

private theorem v6Exempt_iff (hr : Reads p pkt) (hf : pkt.src.family = .inet6) (hk : PortsKnown k p pkt) :
    v6Exempt k p = true ↔ Exempt k pkt := by
  have hfd : pkt.dst.family = .inet6 := hr.family.trans hf
  simp only [v6Exempt, Bool.or_eq_true, Bool.and_eq_true, beq_iff_eq, decide_eq_true_eq,
    hr.neighbourDiscovery_iff, hr.tcpAllowed_iff hk, hr.v6DhcpAllowed_iff, inLpm_iff]
  rw [hr.saddr, hr.daddr, v6IsLinklocal_iff hf, v6IsLinklocal_iff hfd, v6IsMcastLink_iff hf,
    v6IsMcastLink_iff hfd]
  constructor
  · rintro ((((((((h | h) | h) | h) | ⟨t, hl4, ht, hhop⟩) | h) | h) |
      ⟨s, d, hl4, ⟨hp, hl⟩ | ⟨hp, hl⟩⟩) | ⟨s, d, hl4, hp, hd⟩)
    · exact .linkScope _ (.inl rfl) (.inl h)
    · exact .linkScope _ (.inr rfl) (.inl h)
    · exact .linkScope _ (.inl rfl) (.inr h)
    · exact .linkScope _ (.inr rfl) (.inr h)
    · exact .neighbourDiscovery t hf hl4 ht hhop
    · exact .allowed _ (.inl rfl) h
    · exact .allowed _ (.inr rfl) h
    · exact .toService s d hl4 hp hl
    · exact .fromService s d hl4 hp hl
    · exact .dhcpv6 s d hf hl4 hp hd
  · intro h
    cases h with
    | linkScope x hx h => rcases hx with rfl | rfl <;> tauto
    | neighbourDiscovery t hf' hl4 ht hhop =>
      exact .inl (.inl (.inl (.inl (.inr ⟨t, hl4, ht, hhop⟩))))
    | allowed x hx h => rcases hx with rfl | rfl <;> tauto
    | toService s d hl4 hp hl => exact .inl (.inr ⟨s, d, hl4, .inl ⟨hp, hl⟩⟩)
    | fromService s d hl4 hp hl => exact .inl (.inr ⟨s, d, hl4, .inr ⟨hp, hl⟩⟩)
    | dhcpv4 s d hf' => simp [hf] at hf'
    | dhcpv6 s d hf' hl4 hp hd => exact .inr ⟨s, d, hl4, hp, hd⟩

private theorem exempted_iff (hr : Reads p pkt) (hk : PortsKnown k p pkt) :
    exempted k p = true ↔ Exempt k pkt := by
  rw [exempted, hr.saddr]
  cases hf : pkt.src.family with
  | inet => exact v4Exempt_iff hr hf hk
  | inet6 => exact v6Exempt_iff hr hf hk

end Exemptions

theorem packet_of_drop {s : XdpState} {frame : List UInt8} {room : HashRoom}
    (h : (voidgateXdp s frame room).2 = .drop) : s.kernel.cfg.armed ≠ 0 ∧
      ∃ pkt, Reference.packet frame = some pkt ∧
        (s.kernel.Matches .drop pkt.src ∨ s.kernel.Matches .drop pkt.dst) := by
  obtain ⟨harmed, p, hp, -, hdrop⟩ := (voidgateXdp_drop_iff s frame room).mp h
  rcases xdpLocals_packet frame with ⟨hnone, -⟩ | ⟨p', pkt, hp', hpkt, hr⟩
  · simp [hnone] at hp
  obtain rfl : p = p' := by simpa [hp] using hp'
  rw [inLpm_iff, inLpm_iff, hr.saddr, hr.daddr] at hdrop
  exact ⟨harmed, pkt, hpkt, hdrop⟩

theorem voidgateXdp_drops_of_known (s : XdpState) (frame : List UInt8) (room : HashRoom)
    (hk : ∀ p pkt, xdpLocals frame = some p → Reference.packet frame = some pkt →
      PortsKnown s.kernel p pkt) :
    (voidgateXdp s frame room).2 = .drop ↔ s.kernel.Drops frame := by
  rw [voidgateXdp_drop_iff, Kernel.Drops]
  refine and_congr_right fun _ => ?_
  rcases xdpLocals_packet frame with ⟨hnone, hnone'⟩ | ⟨p, pkt, hp, hpkt, hr⟩
  · simp [hnone, hnone']
  · simp only [hp, hpkt, Option.some.injEq, exists_eq_left', inLpm_iff, hr.saddr, hr.daddr,
      ← exempted_iff hr (hk p pkt hp hpkt), Bool.not_eq_true]
    exact and_comm

theorem voidgateXdp_drops (s : XdpState) (frame : List UInt8) (room : HashRoom)
    (hk : s.kernel.cfg.Writable) :
    (voidgateXdp s frame room).2 = .drop ↔ s.kernel.Drops frame :=
  voidgateXdp_drops_of_known s frame room fun _ _ _ _ => hk.portsKnown

theorem cfgEntry_writable (armed : ℕ) {c : VgConfig} (hc : c.PortsOk) :
    (cfgEntry armed c).Writable := by
  intro i hi
  obtain ⟨hlen, hpos⟩ := hc
  have hlt : i.val < c.allowPorts.length := by
    simp only [cfgEntry] at hi
    omega
  have hget : (cfgEntry armed c).allowPorts.get i = c.allowPorts[i.val] := by
    change (cfgEntry armed c).allowPorts[i] = _
    simp [cfgEntry, hlt]
  rw [hget]
  exact hpos _ (List.getElem_mem hlt)

theorem VgCfg.Written.writable {c : VgCfg} (h : c.Written) : c.Writable := by
  cases h with
  | fresh => exact fun i hi => absurd hi (Nat.not_lt_zero _)
  | commit armed hload hports =>
    refine cfgEntry_writable armed ?_
    rw [VgConfig.PortsOk, hports]
    exact vgConfigLoad_portsOk hload

/-- The verdict of the XDP program on every frame and every map content: a frame is dropped
exactly when the gate is armed, the frame holds an IP packet behind at most two VLAN tags, an
address of the packet is in the drop map, and the packet is not exempt. -/
theorem xdp_drops_exactly (s : XdpState) (frame : List UInt8) (room : HashRoom)
    (hcfg : s.kernel.cfg.Written) :
    (voidgateXdp s frame room).2 = .drop ↔
      s.kernel.cfg.armed ≠ 0 ∧ ∃ p, Reference.packet frame = some p ∧
        (s.kernel.Matches .drop p.src ∨ s.kernel.Matches .drop p.dst) ∧ ¬ Exempt s.kernel p :=
  voidgateXdp_drops s frame room hcfg.writable

/-- An armed gate with the default ports that drops 203.0.113.9. -/
def sampleXdp : XdpState where
  kernel :=
    { cfg := cfgEntry 1 (vgConfigDefaults fun _ _ => none)
      lpm := fun fd =>
        if fd = .drop .inet then
          Lpm.empty.update 0 (addrAt .inet [203, 0, 113, 9] 0).host (.dropEntry .manual 0)
        else .empty }
  metrics := none
  host _ := none
  remote _ := none

/-- A UDP datagram from 203.0.113.9 to 10.0.0.5. -/
def sampleFrame : List UInt8 :=
  List.replicate 12 2 ++ [8, 0, 0x45, 0, 0, 28, 0, 0, 0, 0, 64, 17, 0, 0, 203, 0, 113, 9, 10, 0, 0, 5,
    0, 53, 4, 0, 0, 8, 0, 0]

theorem xdp_drops_exactly_sample : sampleXdp.kernel.cfg.Written ∧
    ∃ p, Reference.packet sampleFrame = some p ∧
      (sampleXdp.kernel.Matches .drop p.src ∨ sampleXdp.kernel.Matches .drop p.dst) ∧
      ¬ Exempt sampleXdp.kernel p := by
  have hcfg : sampleXdp.kernel.cfg.Written := @VgCfg.Written.commit 1 (fun _ _ => none) .missing _ _ rfl rfl
  have hdrop : (voidgateXdp sampleXdp sampleFrame ⟨true, true, fun _ => false⟩).2 = .drop := by
    decide +kernel
  exact ⟨hcfg, ((xdp_drops_exactly _ _ _ hcfg).mp hdrop).2⟩

end VoidGate
