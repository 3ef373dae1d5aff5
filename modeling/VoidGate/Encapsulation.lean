import VoidGate.XdpVerdict

/-!
# Encapsulation

VLAN tags in front of the EtherType and extension headers in front of the transport
header decide where the program finds a packet, not what it does with it. The
reference parse takes tags and headers off one at a time, so it finds the same packet
behind all of them. Where it finds no transport header the program is left with the
addresses, unless a later fragment of protocol TCP meets port 0 among the allowed ones.
-/

namespace VoidGate

theorem byteAt_append_left {l : List UInt8} {i : ℕ} (h : i < l.length) (r : List UInt8) :
    byteAt (l ++ r) i = byteAt l i := by
  simp [byteAt, List.getD_eq_getElem?_getD, List.getElem?_append_left h]

theorem byteAt_append_right (l r : List UInt8) (i : ℕ) :
    byteAt (l ++ r) (l.length + i) = byteAt r i := by
  rw [← byteAt_drop, List.drop_left]

theorem be16At_append_left {l : List UInt8} {i : ℕ} (h : i + 1 < l.length) (r : List UInt8) :
    be16At (l ++ r) i = be16At l i := by
  rw [be16At, byteAt_append_left (by omega), byteAt_append_left h, be16At]

theorem be16At_append_right (l r : List UInt8) (i : ℕ) :
    be16At (l ++ r) (l.length + i) = be16At r i := by
  rw [← be16At_drop, List.drop_left]

theorem addrAt_append (f : Family) (l : List UInt8) (v : Octets) (r : List UInt8) :
    addrAt f (l ++ v.toList ++ r) l.length = .ofOctets f v := by
  refine congrArg (IpAddr.ofOctets f) (Vector.ext fun i hi => ?_)
  have hlen : i < v.toList.length := by simpa using hi
  rw [Vector.getElem_ofFn, List.append_assoc, byteAt_append_right, byteAt_append_left hlen, byteAt,
    List.getD_eq_getElem _ _ hlen, Vector.getElem_toList]

structure VlanTag where
  bytes : List UInt8
  length_eq : bytes.length = 4
  tpid : be16At bytes 0 = 0x8100 ∨ be16At bytes 0 = 0x88a8

/-- A frame with these addresses and tags; the rest begins with the EtherType. -/
def tagged (macs : Vector UInt8 12) (tags : List VlanTag) (rest : List UInt8) : List UInt8 :=
  macs.toList ++ (tags.flatMap VlanTag.bytes ++ rest)

section Tags
variable {rest : List UInt8}

private theorem vlans_tags (hrest : 2 ≤ rest.length) {tags : List VlanTag} {n : ℕ} (hn : tags.length ≤ n) :
    Reference.vlans n (be16At (tags.flatMap VlanTag.bytes ++ rest) 0)
        ((tags.flatMap VlanTag.bytes ++ rest).drop 2) =
      Reference.vlans (n - tags.length) (be16At rest 0) (rest.drop 2) := by
  induction tags generalizing n with
  | nil => rfl
  | cons t tags ih =>
    obtain ⟨n, rfl⟩ : ∃ k, n = k + 1 := ⟨n - 1, by simp at hn; omega⟩
    have hlen := t.length_eq
    have hshift : ∀ X : List UInt8, be16At ((t.bytes ++ X).drop 2) 2 = be16At X 0 ∧
        ((t.bytes ++ X).drop 2).drop 4 = X.drop 2 := by
      intro X
      rw [be16At_drop, ← be16At_append_right t.bytes X 0, hlen, List.drop_drop]
      refine ⟨rfl, ?_⟩
      rw [show 2 + 4 = t.bytes.length + 2 by omega, ← List.drop_drop, List.drop_left]
    rw [List.flatMap_cons, List.append_assoc, be16At_append_left (by omega), Reference.vlans,
      if_pos t.tpid, if_pos (by simp; omega), (hshift _).1, (hshift _).2, ih (by simpa using hn)]
    simp

theorem vlans_tagged (macs : Vector UInt8 12) {tags : List VlanTag} (htags : tags.length ≤ 2)
    (hrest : 2 ≤ rest.length) (hplain : be16At rest 0 ≠ 0x8100 ∧ be16At rest 0 ≠ 0x88a8) :
    ¬ (tagged macs tags rest).length < 14 ∧
      Reference.vlans 2 (be16At (tagged macs tags rest) 12) ((tagged macs tags rest).drop 14) =
        some (be16At rest 0, rest.drop 2) := by
  have hmacs : macs.toList.length = 12 := by simp
  have hbe := be16At_append_right macs.toList (tags.flatMap VlanTag.bytes ++ rest) 0
  rw [hmacs] at hbe
  have hdrop : (tagged macs tags rest).drop 14 = (tags.flatMap VlanTag.bytes ++ rest).drop 2 := by
    rw [tagged, show 14 = macs.toList.length + 2 by simp, ← List.drop_drop, List.drop_left]
  refine ⟨by simp [tagged]; omega, ?_⟩
  rw [hdrop, tagged, hbe, vlans_tags hrest htags]
  cases 2 - tags.length with
  | zero => rfl
  | succ k => rw [Reference.vlans, if_neg (not_or.mpr hplain)]

private theorem packet_tagged (macs : Vector UInt8 12) {tags : List VlanTag} (htags : tags.length ≤ 2)
    (hrest : 2 ≤ rest.length) (hplain : be16At rest 0 ≠ 0x8100 ∧ be16At rest 0 ≠ 0x88a8) :
    Reference.packet (tagged macs tags rest) = Reference.packet (tagged macs [] rest) := by
  obtain ⟨hlen, hv⟩ := vlans_tagged macs htags hrest hplain
  obtain ⟨hlen₀, hv₀⟩ := @vlans_tagged rest macs [] (Nat.zero_le 2) hrest hplain
  rw [Reference.packet, if_neg hlen, hv, Reference.packet, if_neg hlen₀, hv₀]

end Tags

/-- An extension header from its second byte on. It is as long as it says, and a fragment header is
that of a first fragment. -/
structure ExtHeader where
  proto : UInt8
  body : List UInt8
  isExtension : Reference.IsExtension proto
  length_eq : body.length + 1 = Reference.extensionLength proto (0 :: body)
  first : proto = 44 → be16At (0 :: body) 2 &&& 0xfff8 = 0

/-- The protocol that announces the headers, in front of protocol `p`. -/
def chainProto : List ExtHeader → UInt8 → UInt8
  | [], p => p
  | h :: _, _ => h.proto

def chainBytes : List ExtHeader → UInt8 → List UInt8 → List UInt8
  | [], _, rest => rest
  | h :: hs, p, rest => chainProto hs p :: h.body ++ chainBytes hs p rest

/-- The header announced by `p` is cut off by the end of the bytes. -/
def CutOff (p : UInt8) (bytes : List UInt8) : Prop :=
  Reference.IsExtension p ∧
    (bytes.length < 2 ∨ bytes.length < Reference.extensionLength p bytes)

/-- The header announced by `p` is that of a later fragment. -/
def LaterFragment (p : UInt8) (bytes : List UInt8) : Prop :=
  p = 44 ∧ 8 ≤ bytes.length ∧ be16At bytes 2 &&& 0xfff8 ≠ 0

instance (p : UInt8) (bytes : List UInt8) : Decidable (CutOff p bytes) :=
  inferInstanceAs (Decidable (_ ∧ _))

instance (p : UInt8) (bytes : List UInt8) : Decidable (LaterFragment p bytes) :=
  inferInstanceAs (Decidable (_ ∧ _))

namespace ExtHeader
variable (h : ExtHeader) (next : UInt8) (rest : List UInt8)

theorem length_body : 7 ≤ h.body.length := by
  have hlen := h.length_eq
  simp only [Reference.extensionLength] at hlen
  split_ifs at hlen <;> omega

private theorem byteAt_one : byteAt (next :: h.body ++ rest) 1 = byteAt (0 :: h.body) 1 := by
  have hlen := h.length_body
  rw [byteAt_append_left (by simp; omega)]
  rfl

theorem extensionLength_eq :
    Reference.extensionLength h.proto (next :: h.body ++ rest) = h.body.length + 1 := by
  rw [h.length_eq, Reference.extensionLength, Reference.extensionLength, h.byteAt_one]

theorem offset_eq_zero (hp : h.proto = 44) :
    be16At (next :: h.body ++ rest) 2 &&& 0xfff8 = 0 := by
  have hlen := h.length_body
  rw [← h.first hp, be16At_append_left (by simp; omega)]
  rfl

theorem not_short : ¬ ((next :: h.body ++ rest).length < 2 ∨
    (next :: h.body ++ rest).length < h.body.length + 1) := by
  have hlen := h.length_body
  rw [List.length_append, List.length_cons]
  omega

theorem extensions_eq (n : ℕ) : Reference.extensions (n + 1) h.proto (next :: h.body ++ rest) =
    Reference.extensions n next rest := by
  have hdrop : (next :: h.body ++ rest).drop (h.body.length + 1) = rest :=
    List.drop_left' (by simp)
  rw [Reference.extensions, if_pos h.isExtension, h.extensionLength_eq,
    if_neg (h.not_short next rest), if_neg fun hf => hf.2 (h.offset_eq_zero next rest hf.1), hdrop]
  rfl

end ExtHeader

section Chains
variable {hs : List ExtHeader} {p : UInt8} {rest : List UInt8} {n : ℕ}

theorem extensions_chain (hn : hs.length ≤ n) :
    Reference.extensions n (chainProto hs p) (chainBytes hs p rest) =
      Reference.extensions (n - hs.length) p rest := by
  induction hs generalizing n with
  | nil => rfl
  | cons h hs ih =>
    obtain ⟨n, rfl⟩ : ∃ k, n = k + 1 := ⟨n - 1, by simp at hn; omega⟩
    rw [chainProto, chainBytes, h.extensions_eq, ih (by simpa using hn)]
    simp

private theorem extensions_long (hn : n < hs.length) :
    Reference.extensions n (chainProto hs p) (chainBytes hs p rest) = none := by
  induction hs generalizing n with
  | nil => simp at hn
  | cons h hs ih =>
    cases n with
    | zero => rw [chainProto, Reference.extensions, if_pos h.isExtension]
    | succ n => rw [chainProto, chainBytes, h.extensions_eq, ih (by simpa using hn)]

private theorem extensions_of_not_isExtension (h : ¬ Reference.IsExtension p) (n : ℕ) :
    Reference.extensions n p rest = some (p, rest) := by
  cases n <;> rw [Reference.extensions, if_neg h]

theorem CutOff.extensions (h : CutOff p rest) (n : ℕ) : Reference.extensions n p rest = none := by
  cases n with
  | zero => rw [Reference.extensions, if_pos h.1]
  | succ n => rw [Reference.extensions, if_pos h.1, if_pos h.2]

theorem LaterFragment.extensions (h : LaterFragment p rest) (n : ℕ) :
    Reference.extensions n p rest = none := by
  obtain ⟨rfl, hlen, hoff⟩ := h
  have hlength : Reference.extensionLength 44 rest = 8 := rfl
  cases n with
  | zero => rw [Reference.extensions, if_pos (by decide)]
  | succ n =>
    rw [Reference.extensions, if_pos (by decide), hlength, if_neg (by omega), if_pos ⟨rfl, hoff⟩]

private theorem extensions_eq_none (h : 8 < hs.length ∨ (hs.length = 8 ∧ Reference.IsExtension p) ∨
      CutOff p rest ∨ LaterFragment p rest) :
    Reference.extensions 8 (chainProto hs p) (chainBytes hs p rest) = none := by
  by_cases hn : hs.length ≤ 8
  · rw [extensions_chain hn]
    rcases h with hlong | ⟨height, hp⟩ | hcut | hlater
    · omega
    · rw [height, Nat.sub_self, Reference.extensions, if_pos hp]
    · exact hcut.extensions _
    · exact hlater.extensions _
  · exact extensions_long (by omega)

end Chains

/-- An IPv6 packet with these headers in front of protocol `p`. The first six bytes hold version,
class, flow label and payload length. -/
def ipv6Packet (start : Vector UInt8 6) (hop : UInt8) (src dst : Octets) (hs : List ExtHeader)
    (p : UInt8) (rest : List UInt8) : List UInt8 :=
  start.toList ++ chainProto hs p :: hop :: (src.toList ++ (dst.toList ++ chainBytes hs p rest))

/-- The packet behind its EtherType. -/
def ipv6Bytes (start : Vector UInt8 6) (hop : UInt8) (src dst : Octets) (hs : List ExtHeader)
    (p : UInt8) (rest : List UInt8) : List UInt8 :=
  0x86 :: 0xdd :: ipv6Packet start hop src dst hs p rest

section Ipv6
variable (start : Vector UInt8 6) (hop : UInt8) (src dst : Octets) (hs : List ExtHeader) (p : UInt8)
  (rest : List UInt8)

theorem byteAt_ipv6Packet (i : ℕ) : byteAt (ipv6Packet start hop src dst hs p rest) (6 + i) =
    byteAt (chainProto hs p :: hop :: (src.toList ++ (dst.toList ++ chainBytes hs p rest))) i := by
  have h := byteAt_append_right start.toList
    (chainProto hs p :: hop :: (src.toList ++ (dst.toList ++ chainBytes hs p rest))) i
  rwa [Vector.length_toList] at h

theorem drop_ipv6Packet :
    (ipv6Packet start hop src dst hs p rest).drop 40 = chainBytes hs p rest := by
  have h : ipv6Packet start hop src dst hs p rest =
      (start.toList ++ chainProto hs p :: hop :: (src.toList ++ dst.toList)) ++
        chainBytes hs p rest := by
    simp [ipv6Packet]
  rw [h]
  exact List.drop_left' (by simp)

private theorem addrAt_ipv6Packet :
    addrAt .inet6 (ipv6Packet start hop src dst hs p rest) 8 = .ofOctets .inet6 src ∧
      addrAt .inet6 (ipv6Packet start hop src dst hs p rest) 24 = .ofOctets .inet6 dst := by
  have hsrc := addrAt_append .inet6 (start.toList ++ [chainProto hs p, hop]) src
    (dst.toList ++ chainBytes hs p rest)
  have hdst := addrAt_append .inet6 (start.toList ++ [chainProto hs p, hop] ++ src.toList) dst
    (chainBytes hs p rest)
  simp only [List.length_append, Vector.length_toList, List.length_cons, List.length_nil,
    List.append_assoc, List.cons_append, List.nil_append] at hsrc hdst
  exact ⟨hsrc, hdst⟩

private theorem ipv6_ipv6Packet : Reference.ipv6 (ipv6Packet start hop src dst hs p rest) =
    ⟨.ofOctets .inet6 src, .ofOctets .inet6 dst, hop,
      (Reference.extensions 8 (chainProto hs p) (chainBytes hs p rest)).bind fun r =>
        Reference.transport .inet6 r.1 r.2⟩ := by
  obtain ⟨hsrc, hdst⟩ := addrAt_ipv6Packet start hop src dst hs p rest
  rw [Reference.ipv6, hsrc, hdst, drop_ipv6Packet, byteAt_ipv6Packet _ _ _ _ _ _ _ 0,
    byteAt_ipv6Packet _ _ _ _ _ _ _ 1]
  rfl

theorem vlans_ipv6Bytes (macs : Vector UInt8 12) {tags : List VlanTag} (htags : tags.length ≤ 2) :
    ¬ (tagged macs tags (ipv6Bytes start hop src dst hs p rest)).length < 14 ∧
      Reference.vlans 2 (be16At (tagged macs tags (ipv6Bytes start hop src dst hs p rest)) 12)
          ((tagged macs tags (ipv6Bytes start hop src dst hs p rest)).drop 14) =
        some (0x86dd, ipv6Packet start hop src dst hs p rest) := by
  have htype : be16At (ipv6Bytes start hop src dst hs p rest) 0 = 0x86dd := rfl
  have h := @vlans_tagged (ipv6Bytes start hop src dst hs p rest) macs tags htags
    (by simp [ipv6Bytes])
  rw [htype] at h
  exact h (by decide)

theorem length_ipv6Packet : ¬ (ipv6Packet start hop src dst hs p rest).length < 40 := by
  simp only [ipv6Packet, List.length_append, Vector.length_toList, List.length_cons]
  omega

theorem packet_ipv6Bytes (macs : Vector UInt8 12) {tags : List VlanTag} (htags : tags.length ≤ 2) :
    Reference.packet (tagged macs tags (ipv6Bytes start hop src dst hs p rest)) =
      some ⟨.ofOctets .inet6 src, .ofOctets .inet6 dst, hop,
        (Reference.extensions 8 (chainProto hs p) (chainBytes hs p rest)).bind fun r =>
          Reference.transport .inet6 r.1 r.2⟩ := by
  obtain ⟨hlen, hv⟩ := vlans_ipv6Bytes start hop src dst hs p rest macs htags
  have h40 := length_ipv6Packet start hop src dst hs p rest
  rw [Reference.packet, if_neg hlen, hv]
  dsimp only
  rw [if_neg (by decide), if_pos rfl, if_neg h40, ipv6_ipv6Packet]

private theorem xdpLocals_ipv6Bytes (macs : Vector UInt8 12) {tags : List VlanTag}
    (htags : tags.length ≤ 2) : ∃ nh,
      xdpLocals (tagged macs tags (ipv6Bytes start hop src dst hs p rest)) =
        some (v6Locals (tagged macs tags (ipv6Bytes start hop src dst hs p rest)) nh) ∧
      (tagged macs tags (ipv6Bytes start hop src dst hs p rest)).drop nh =
        ipv6Packet start hop src dst hs p rest := by
  obtain ⟨hlen, hv⟩ := vlans_ipv6Bytes start hop src dst hs p rest macs htags
  have h40 := length_ipv6Packet start hop src dst hs p rest
  rw [← skipVlans_vlans] at hv
  obtain ⟨⟨nh, ethProto⟩, hskip, hr⟩ := Option.map_eq_some_iff.mp hv
  obtain ⟨htype, hdrop⟩ := Prod.mk.inj hr
  dsimp only at htype hdrop
  refine ⟨nh, ?_, hdrop⟩
  rw [← hdrop, List.length_drop] at h40
  rw [xdpLocals, if_neg hlen, vgMaxVlans, hskip]
  dsimp only
  rw [htype, if_neg (by decide), if_pos (by decide), if_neg (by omega)]

end Ipv6

section Walk
variable {frame : List UInt8} {hs : List ExtHeader} {p : UInt8} {rest : List UInt8} {n l4 : ℕ}

private theorem ExtHeader.v6WalkExt_eq (h : ExtHeader) {next : UInt8}
    (hdrop : frame.drop l4 = next :: h.body ++ rest) :
    v6WalkExt frame (n + 1) l4 h.proto = v6WalkExt frame n (l4 + (h.body.length + 1)) next := by
  rw [v6WalkExt_round frame n l4 h.isExtension, hdrop]
  dsimp only
  rw [h.extensionLength_eq, if_neg (h.not_short next rest),
    if_neg fun hf => hf.2 (h.offset_eq_zero next rest hf.1)]
  rfl

def ExtWalk.Stuck (w : ExtWalk) : Prop :=
  w = .truncated ∨ ∃ l4 p, w = .reached l4 p ∧ Reference.IsExtension p

private theorem CutOff.v6WalkExt_stuck (h : CutOff p rest) (hdrop : frame.drop l4 = rest) :
    (v6WalkExt frame n l4 p).Stuck := by
  cases n with
  | zero => exact .inr ⟨l4, p, rfl, h.1⟩
  | succ n =>
    rw [v6WalkExt_round frame n l4 h.1, hdrop]
    exact .inl (if_pos h.2)

private theorem v6WalkExt_chain (h : n < hs.length ∨ (hs.length = n ∧ Reference.IsExtension p) ∨ CutOff p rest)
    (hdrop : frame.drop l4 = chainBytes hs p rest) :
    (v6WalkExt frame n l4 (chainProto hs p)).Stuck := by
  induction hs generalizing n l4 with
  | nil =>
    rcases h with hlong | ⟨rfl, hp⟩ | hcut
    · simp at hlong
    · exact .inr ⟨l4, p, rfl, hp⟩
    · exact hcut.v6WalkExt_stuck hdrop
  | cons e hs ih =>
    cases n with
    | zero => exact .inr ⟨l4, e.proto, rfl, e.isExtension⟩
    | succ n =>
      have hnext : frame.drop (l4 + (e.body.length + 1)) = chainBytes hs p rest := by
        rw [← List.drop_drop, hdrop]
        exact List.drop_left' (by simp)
      rw [chainProto, e.v6WalkExt_eq hdrop]
      exact ih (by simpa using h) hnext

theorem ne_tcp_of_isExtension (h : Reference.IsExtension p) : p ≠ vgIpprotoTcp := by
  rintro rfl
  exact absurd h (by decide)

private theorem isExtension_chainProto
    (h : n < hs.length ∨ (hs.length = n ∧ Reference.IsExtension p) ∨ CutOff p rest) :
    Reference.IsExtension (chainProto hs p) := by
  cases hs with
  | nil =>
    rcases h with hlong | ⟨-, hp⟩ | hcut
    · simp at hlong
    · exact hp
    · exact hcut.1
  | cons e hs => exact e.isExtension

private theorem v6Locals_proto_ne_tcp {nh : ℕ} (hext : Reference.IsExtension (byteAt frame (nh + 6)))
    (h : (v6WalkExt frame vgMaxIpv6Ext (nh + 40) (byteAt frame (nh + 6))).Stuck) :
    (v6Locals frame nh).proto ≠ vgIpprotoTcp := by
  rw [v6Locals]
  rcases h with hw | ⟨l4, p, hw, hp⟩
  · rw [hw]
    exact ne_tcp_of_isExtension hext
  · rw [hw]
    exact ne_tcp_of_isExtension hp

end Walk

/-- Frames that hold the same packet, with a transport header that can be read, get the same
verdict. -/
theorem verdict_congr (s : XdpState) {frame frame' : List UInt8} {pkt : Packet}
    (h : Reference.packet frame = some pkt) (h' : Reference.packet frame' = some pkt)
    (hl4 : pkt.l4 ≠ none) (room room' : HashRoom) :
    (voidgateXdp s frame room).2 = (voidgateXdp s frame' room').2 := by
  have hdrops (frame : List UInt8) (room : HashRoom) (hp : Reference.packet frame = some pkt) :
      (voidgateXdp s frame room).2 = .drop ↔ s.kernel.cfg.armed ≠ 0 ∧
        (s.kernel.Matches .drop pkt.src ∨ s.kernel.Matches .drop pkt.dst) ∧
          ¬ Exempt s.kernel pkt := by
    rw [voidgateXdp_drops_of_known s frame room, Kernel.Drops, hp]
    · simp
    · intro p pkt' _ hp' hnone
      obtain rfl := Option.some.inj (hp.symm.trans hp')
      exact absurd hnone hl4
  have hiff := (hdrops frame room h).trans (hdrops frame' room' h').symm
  cases hv : (voidgateXdp s frame room).2 with
  | drop => exact (hiff.mp hv).symm
  | pass =>
    cases hv' : (voidgateXdp s frame' room').2 with
    | pass => rfl
    | drop => rw [hiff.mpr hv'] at hv; cases hv

/-- The verdict on a packet of these addresses and hop limit of which nothing else is known. -/
def DropsBare (k : Kernel) (src dst : IpAddr) (hop : UInt8) : Prop :=
  k.cfg.armed ≠ 0 ∧ (k.Matches .drop src ∨ k.Matches .drop dst) ∧
    ¬ Exempt k ⟨src, dst, hop, none⟩

theorem drops_bare (s : XdpState) (room : HashRoom) (macs : Vector UInt8 12) {tags : List VlanTag}
    (htags : tags.length ≤ 2) (start : Vector UInt8 6) (hop : UInt8) (src dst : Octets)
    {hs : List ExtHeader} {p : UInt8} {rest : List UInt8}
    (h : 8 < hs.length ∨ (hs.length = 8 ∧ Reference.IsExtension p) ∨ CutOff p rest ∨
      (LaterFragment p rest ∧ ¬ s.kernel.cfg.AllowsPort 0)) :
    (voidgateXdp s (tagged macs tags (ipv6Bytes start hop src dst hs p rest)) room).2 = .drop ↔
      DropsBare s.kernel (.ofOctets .inet6 src) (.ofOctets .inet6 dst) hop := by
  have hpkt := packet_ipv6Bytes start hop src dst hs p rest macs htags
  rw [extensions_eq_none (h.imp_right (Or.imp_right (Or.imp_right And.left)))] at hpkt
  rw [voidgateXdp_drops_of_known s _ room, Kernel.Drops, hpkt]
  · simp [DropsBare]
  · intro l pkt hl _ _ htcp
    obtain ⟨nh, hlocals, hdrop⟩ := xdpLocals_ipv6Bytes start hop src dst hs p rest macs htags
    obtain rfl := Option.some.inj (hlocals.symm.trans hl)
    obtain hstuck | hport : (8 < hs.length ∨ (hs.length = 8 ∧ Reference.IsExtension p) ∨
        CutOff p rest) ∨ ¬ s.kernel.cfg.AllowsPort 0 := by tauto
    · have hproto : byteAt (ipv6Packet start hop src dst hs p rest) 6 = chainProto hs p :=
        byteAt_ipv6Packet start hop src dst hs p rest 0
      have hbytes := drop_ipv6Packet start hop src dst hs p rest
      rw [← hdrop, byteAt_drop] at hproto
      rw [← hdrop, List.drop_drop] at hbytes
      have hwalk := @v6WalkExt_chain _ hs p rest vgMaxIpv6Ext _ hstuck hbytes
      rw [← hproto] at hwalk
      exact absurd htcp (v6Locals_proto_ne_tcp (hproto ▸ isExtension_chainProto hstuck) hwalk)
    · exact hport

/-- The frame holds an IP packet with a complete transport header. -/
def HasTransport (frame : List UInt8) : Prop :=
  ∃ pkt, Reference.packet frame = some pkt ∧ pkt.l4 ≠ none

/-- For all map contents: up to two VLAN tags, and up to eight extension headers in front of a
complete transport header, do not change the verdict; and behind a chain that is longer or cut off
the verdict is that of the addresses alone, as it is for a later fragment if port 0 is not an allowed
port. Eight headers with a ninth announced behind them are a chain that is longer, whatever the
ninth is. -/
theorem encapsulation_keeps_verdict (s : XdpState) (room room' : HashRoom) (macs : Vector UInt8 12)
    {tags : List VlanTag} (htags : tags.length ≤ 2) :
    (∀ rest : List UInt8, 2 ≤ rest.length → be16At rest 0 ≠ 0x8100 ∧ be16At rest 0 ≠ 0x88a8 →
      HasTransport (tagged macs [] rest) →
        (voidgateXdp s (tagged macs tags rest) room).2 =
          (voidgateXdp s (tagged macs [] rest) room').2) ∧
      (∀ start start' hop src dst hs p rest, hs.length ≤ 8 → ¬ Reference.IsExtension p →
        Reference.transport .inet6 p rest ≠ none →
          (voidgateXdp s (tagged macs tags (ipv6Bytes start hop src dst hs p rest)) room).2 =
            (voidgateXdp s (tagged macs tags (ipv6Bytes start' hop src dst [] p rest)) room').2) ∧
      ∀ start hop src dst hs p rest,
        8 < hs.length ∨ (hs.length = 8 ∧ Reference.IsExtension p) ∨ CutOff p rest ∨
            (LaterFragment p rest ∧ ¬ s.kernel.cfg.AllowsPort 0) →
          ((voidgateXdp s (tagged macs tags (ipv6Bytes start hop src dst hs p rest)) room).2 =
              .drop ↔
            DropsBare s.kernel (.ofOctets .inet6 src) (.ofOctets .inet6 dst) hop) := by
  refine ⟨fun rest hrest hplain htransport => ?_, ?_, ?_⟩
  · obtain ⟨pkt, hpkt, hl4⟩ := htransport
    exact verdict_congr s ((packet_tagged macs htags hrest hplain).trans hpkt) hpkt hl4 room room'
  · intro start start' hop src dst hs p rest hlen hp hl4
    have hchain (hs : List ExtHeader) (hlen : hs.length ≤ 8) :
        Reference.extensions 8 (chainProto hs p) (chainBytes hs p rest) = some (p, rest) := by
      rw [extensions_chain hlen, extensions_of_not_isExtension hp]
    have hpkt := packet_ipv6Bytes start hop src dst hs p rest macs htags
    have hpkt' := packet_ipv6Bytes start' hop src dst [] p rest macs htags
    rw [hchain hs hlen] at hpkt
    rw [hchain [] (Nat.zero_le 8)] at hpkt'
    exact verdict_congr s hpkt hpkt' hl4 room room'
  · intro start hop src dst hs p rest h
    exact drops_bare s room macs htags start hop src dst h

/-- A tag of VLAN 5. -/
def sampleTag : VlanTag := ⟨[0x81, 0, 0, 5], rfl, .inl rfl⟩

/-- A hop-by-hop header of eight bytes. -/
def sampleHop : ExtHeader := ⟨0, [0, 1, 4, 0, 0, 0, 0], by decide, by decide, by decide⟩

/-- 2001:db8::9 and 2001:db8::5. -/
def sampleSrc : Octets := #v[0x20, 1, 0x0d, 0xb8, 0, 0, 0, 0, 0, 0, 0, 0, 0, 0, 0, 9]

def sampleDst : Octets := #v[0x20, 1, 0x0d, 0xb8, 0, 0, 0, 0, 0, 0, 0, 0, 0, 0, 0, 5]

/-- An armed gate that drops the first of them, with the second one local, and with port 0 in its
list of allowed ports. -/
def portZeroXdp : XdpState where
  kernel :=
    { cfg := { cfgEntry 1 (vgConfigDefaults fun _ _ => none) with
        allowPorts := Vector.replicate 8 0
        allowPortCount := 1 }
      lpm := fun fd =>
        if fd = .drop .inet6 then
          Lpm.empty.update 0 (IpAddr.ofOctets .inet6 sampleSrc).host (.dropEntry .manual 0)
        else if fd = .localNets .inet6 then
          Lpm.empty.update 0 (IpAddr.ofOctets .inet6 sampleDst).host .one
        else .empty }
  metrics := none
  host _ := none
  remote _ := none

def sampleMacs : Vector UInt8 12 := Vector.replicate 12 2

def sampleRoom : HashRoom := ⟨true, true, fun _ => false⟩

/-- UDP from port 53 to port 1024. -/
def sampleUdp : List UInt8 := [0, 53, 4, 0, 0, 8, 0, 0]

theorem encapsulation_keeps_verdict_sample :
    (voidgateXdp portZeroXdp (tagged sampleMacs [sampleTag] (ipv6Bytes (Vector.replicate 6 0x60) 64
      sampleSrc sampleDst [sampleHop, sampleHop] 17 sampleUdp)) sampleRoom).2 = .drop := by
  have h := (@encapsulation_keeps_verdict portZeroXdp sampleRoom sampleRoom sampleMacs [sampleTag]
    (by decide)).2.1 (Vector.replicate 6 0x60) (Vector.replicate 6 0x60) 64 sampleSrc sampleDst
    [sampleHop, sampleHop] 17 sampleUdp (by decide) (by decide) (by decide)
  rw [h]
  decide +kernel

/-- A later fragment of protocol TCP passes where port 0 is allowed, although its addresses alone
are dropped. -/
theorem later_fragment_meets_port_zero : LaterFragment 44 [6, 0, 0, 8, 0, 0, 0, 1] ∧
    (voidgateXdp portZeroXdp (tagged sampleMacs [] (ipv6Bytes (Vector.replicate 6 0x60) 64
      sampleSrc sampleDst [] 44 [6, 0, 0, 8, 0, 0, 0, 1])) sampleRoom).2 = .pass ∧
    DropsBare portZeroXdp.kernel (.ofOctets .inet6 sampleSrc) (.ofOctets .inet6 sampleDst) 64 := by
  have hcut : CutOff 44 [] := by decide
  refine ⟨by decide, by decide +kernel, ?_⟩
  refine (@drops_bare portZeroXdp sampleRoom sampleMacs [] (by decide) (Vector.replicate 6 0x60) 64
    sampleSrc sampleDst [] 44 [] (.inr (.inr (.inl hcut)))).mp ?_
  decide +kernel

end VoidGate
