import VoidGate.Encapsulation
import VoidGate.FloodResponse
import VoidGate.KernelPorts

/-!
# Cut frames and payloads

The program compares every offset with the end of the frame before it reads there. What
it has read from a frame it reads from every longer one, so neither the payload nor any
padding has a say in the verdict. A frame that ends before its transport header leaves the
ports at 0, and with these no exemption applies that the whole frame would not have.
-/

namespace VoidGate

section Reads
variable {frame : List UInt8} (more : List UInt8)

theorem addrAt_append_left (f : Family) {i : ℕ} (h : i + f.nbytes ≤ frame.length) :
    addrAt f (frame ++ more) i = addrAt f frame i := by
  have hclip : clip f.nbytes (Vector.ofFn fun j => byteAt (frame ++ more) (i + j.val)) =
      clip f.nbytes (Vector.ofFn fun j => byteAt frame (i + j.val)) := by
    refine Vector.ext fun j hj => ?_
    simp only [clip, Vector.getElem_ofFn, Fin.getElem_fin]
    split_ifs with hlt
    · exact byteAt_append_left (by omega) more
    · rfl
  simp only [addrAt, IpAddr.ofOctets, hclip]

theorem parseL4_append {l4 : ℕ} {proto : UInt8} {wantType : Bool} {ports : L4Fields}
    (h : parseL4 frame l4 proto wantType = some ports) :
    parseL4 (frame ++ more) l4 proto wantType = some ports := by
  rw [parseL4] at h ⊢
  rw [List.length_append]
  split_ifs at h with htcp hlen hudp hlen hicmp hlen
  · rw [if_pos htcp, if_neg (by omega), be16At_append_left (by omega), be16At_append_left (by omega)]
    exact h
  · rw [if_neg htcp, if_pos hudp, if_neg (by omega), be16At_append_left (by omega),
      be16At_append_left (by omega)]
    exact h
  · rw [if_neg htcp, if_neg hudp, if_pos hicmp, if_neg (by omega), byteAt_append_left (by omega)]
    exact h
  · rw [if_neg htcp, if_neg hudp, if_neg hicmp]
    exact h

private theorem skipVlans_append {n nh : ℕ} {ethProto : UInt16} {r : ℕ × UInt16}
    (h : skipVlans frame n nh ethProto = some r) : skipVlans (frame ++ more) n nh ethProto = some r := by
  induction n generalizing nh ethProto with
  | zero => exact h
  | succ n ih =>
    rw [skipVlans] at h ⊢
    rw [List.length_append]
    split_ifs at h ⊢ with htag hlen hlen'
    · exact h
    · omega
    · rw [be16At_append_left (by omega)]
      exact ih h

private theorem v6WalkExt_append {n l4 : ℕ} {proto : UInt8} (h : v6WalkExt frame n l4 proto ≠ .truncated) :
    v6WalkExt (frame ++ more) n l4 proto = v6WalkExt frame n l4 proto := by
  induction n generalizing l4 proto with
  | zero => rfl
  | succ n ih =>
    simp only [v6WalkExt] at h ⊢
    rw [List.length_append]
    split_ifs at h with hfrag hlen hlater hext hlen hbody
    · exact absurd rfl h
    · rw [if_pos hfrag, if_pos hfrag, if_neg (by omega), if_neg hlen, be16At_append_left (by omega),
        if_pos hlater, if_pos hlater, byteAt_append_left (by omega)]
    · rw [if_pos hfrag, if_pos hfrag, if_neg (by omega), if_neg hlen, be16At_append_left (by omega),
        if_neg hlater, if_neg hlater, byteAt_append_left (by omega)]
      exact ih h
    · rw [if_neg hfrag, if_neg hfrag, if_pos hext, if_pos hext]
    · exact absurd rfl h
    · exact absurd rfl h
    · rw [if_neg hfrag, if_neg hfrag, if_neg hext, if_neg hext, if_neg (by omega), if_neg hlen,
        byteAt_append_left (by omega), if_neg (by omega), if_neg hbody, byteAt_append_left (by omega)]
      exact ih h

/-- `p'` was read from the frame of `p` with more bytes behind it. -/
structure Locals.Extends (p p' : Locals) : Prop where
  saddr : p'.saddr = p.saddr
  daddr : p'.daddr = p.daddr
  whole : p.parseErr = false → p' = p
  bare : p.parseErr = true → p.ports = .zero

/-- Two readings that differ in the transport header only, the second of which finds what the first
finds. -/
theorem Locals.Extends.of_parsed {p p' : Locals} {parsed parsed' : Option L4Fields}
    (hsaddr : p'.saddr = p.saddr) (hdaddr : p'.daddr = p.daddr) (hhop : p'.hopLimit = p.hopLimit)
    (hp : p.ports = parsed.getD .zero ∧ p.parseErr = parsed.isNone)
    (hp' : p'.ports = parsed'.getD .zero ∧ p'.parseErr = parsed'.isNone)
    (hfound : ∀ x, parsed = some x → parsed' = some x ∧ p'.proto = p.proto) : p.Extends p' := by
  refine ⟨hsaddr, hdaddr, fun hok => ?_, fun herr => ?_⟩
  · rw [hp.2] at hok
    obtain ⟨x, hx⟩ := Option.isSome_iff_exists.mp (Option.isNone_eq_false_iff.mp hok)
    obtain ⟨hx', hproto⟩ := hfound x hx
    rw [hx] at hp
    rw [hx'] at hp'
    cases p
    cases p'
    simp_all
  · rw [hp.2] at herr
    rw [hp.1, Option.isNone_iff_eq_none.mp herr]
    rfl

private theorem v4Locals_append {nh : ℕ} (h : nh + 20 ≤ frame.length) :
    (v4Locals frame nh).Extends (v4Locals (frame ++ more) nh) := by
  have hproto := byteAt_append_left (show nh + 9 < frame.length by omega) more
  have hihl := byteAt_append_left (show nh < frame.length by omega) more
  have hfrag := be16At_append_left (show nh + 6 + 1 < frame.length by omega) more
  refine .of_parsed (addrAt_append_left more .inet (by simp [Family.nbytes]; omega))
    (addrAt_append_left more .inet (by simp [Family.nbytes]; omega))
    (byteAt_append_left (by omega) more) ⟨rfl, rfl⟩ ⟨rfl, rfl⟩ fun x hx => ⟨?_, hproto⟩
  rw [hproto, hihl, hfrag, List.length_append]
  split_ifs at hx with hbad hfirst
  · rw [if_neg (by omega), if_pos hfirst]
    exact parseL4_append more hx
  · rw [if_neg (by omega), if_neg hfirst]
    exact hx

theorem v6Found_append {nh : ℕ} (h : nh + 40 ≤ frame.length) {proto proto' : UInt8}
    {parsed parsed' : Option L4Fields}
    (hfound : ∀ x, parsed = some x → parsed' = some x ∧ proto' = proto) :
    (v6Found frame nh proto parsed).Extends (v6Found (frame ++ more) nh proto' parsed') :=
  .of_parsed (addrAt_append_left more .inet6 (by simp [Family.nbytes]; omega))
    (addrAt_append_left more .inet6 (by simp [Family.nbytes]; omega))
    (byteAt_append_left (by omega) more) ⟨rfl, rfl⟩ ⟨rfl, rfl⟩ hfound

private theorem v6Locals_append {nh : ℕ} (h : nh + 40 ≤ frame.length) :
    (v6Locals frame nh).Extends (v6Locals (frame ++ more) nh) := by
  have hnext := byteAt_append_left (show nh + 6 < frame.length by omega) more
  have hwalk := @v6WalkExt_append frame more vgMaxIpv6Ext (nh + 40) (byteAt frame (nh + 6))
  rw [v6Locals, v6Locals, hnext]
  cases hw : v6WalkExt frame vgMaxIpv6Ext (nh + 40) (byteAt frame (nh + 6)) with
  | truncated =>
    -- the longer frame may hold the header that this one lacks
    dsimp only
    split <;> exact v6Found_append more h fun x hx => absurd hx (Option.some_ne_none x).symm
  | fragment l4 proto =>
    rw [hwalk (by rw [hw]; simp), hw]
    exact v6Found_append more h fun x hx => ⟨hx, rfl⟩
  | reached l4 proto =>
    rw [hwalk (by rw [hw]; simp), hw]
    exact v6Found_append more h fun x hx => ⟨parseL4_append more hx, rfl⟩

theorem xdpLocals_append {p : Locals} (h : xdpLocals frame = some p) :
    ∃ p', xdpLocals (frame ++ more) = some p' ∧ p.Extends p' := by
  rw [xdpLocals] at h ⊢
  rw [List.length_append]
  by_cases hlen : frame.length < 14
  · rw [if_pos hlen] at h
    cases h
  rw [if_neg hlen] at h
  rw [if_neg (by omega), be16At_append_left (by omega)]
  cases hv : skipVlans frame vgMaxVlans 14 (be16At frame 12) with
  | none =>
    rw [hv] at h
    cases h
  | some r =>
    obtain ⟨nh, ethProto⟩ := r
    rw [hv] at h
    rw [skipVlans_append more hv]
    dsimp only at h ⊢
    split_ifs at h with hip hshort hip6 hshort
    · obtain rfl := Option.some.inj h
      rw [if_pos hip, if_neg (by omega)]
      exact ⟨_, rfl, v4Locals_append more (by omega)⟩
    · obtain rfl := Option.some.inj h
      rw [if_neg hip, if_pos hip6, if_neg (by omega)]
      exact ⟨_, rfl, v6Locals_append more (by omega)⟩

end Reads

private theorem exempted_of_bare {k : Kernel} (hk : k.cfg.Writable) {p p' : Locals} (hports : p.ports = .zero)
    (hsaddr : p'.saddr = p.saddr) (hdaddr : p'.daddr = p.daddr) (h : exempted k p = true) :
    exempted k p' = true := by
  have hzero : portAllowed k.cfg 0 = false :=
    Bool.eq_false_iff.mpr fun hp => hk.not_allowsPort_zero ((portAllowed_iff _ _).mp hp)
  rw [exempted] at h ⊢
  rw [hsaddr]
  cases hf : p.saddr.family with
  | inet =>
    have haddr : inLpm k .allow p.saddr = true ∨ inLpm k .allow p.daddr = true := by
      simpa [hf, v4Exempt, hports, L4Fields.zero, tcpAllowed, v4DhcpAllowed, hzero] using h
    simp only [v4Exempt, hsaddr, hdaddr, Bool.or_eq_true]
    exact .inl (.inl haddr)
  | inet6 =>
    have haddr : ((((v6IsLinklocal p.saddr = true ∨ v6IsLinklocal p.daddr = true) ∨
        v6IsMcastLink p.saddr = true) ∨ v6IsMcastLink p.daddr = true) ∨
        inLpm k .allow p.saddr = true) ∨ inLpm k .allow p.daddr = true := by
      simpa [hf, v6Exempt, hports, L4Fields.zero, tcpAllowed, v6DhcpAllowed, hzero, vgNdiscRs] using h
    simp only [v6Exempt, hsaddr, hdaddr, Bool.or_eq_true]
    exact .inl (.inl (haddr.imp_left (Or.imp_left .inl)))

theorem Locals.Extends.exempted {k : Kernel} (hk : k.cfg.Writable) {p p' : Locals}
    (h : p.Extends p') (hp : exempted k p = true) : exempted k p' = true := by
  cases herr : p.parseErr with
  | false =>
    rw [h.whole herr]
    exact hp
  | true => exact exempted_of_bare hk (h.bare herr) h.saddr h.daddr hp

theorem Gateway.Tracks.safePorts {env : Env} {g : Gateway} (h : g.Tracks env) : SafePorts g.ctrl := by
  cases hw : g.walk with
  | none => exact (h.of_none hw).safePorts
  | some dt =>
    obtain ⟨c, t, hreach, -, -, hctrl⟩ := h.of_some hw
    have hrun := (visitIn_trace env c t t.remotes.length).invariant
      (I := fun x => x.drops.Ok ∧ SafePorts x) ⟨hreach.inForce.drops_ok, hreach.safePorts⟩
      fun x x' a hx ha hm => ⟨hm.drops_ok hx.1, hm.safePorts ha.2 hx.1 hx.2⟩
    rw [hctrl]
    exact hrun.2

/-- In every state of the gateway the end of a frame cannot save it: a dropped frame that is cut
anywhere is dropped still, as long as its IP header is left. Bytes behind headers that could be read
change no verdict at all. -/
theorem cutting_saves_no_frame {env : Env} {possible : ℤ} {s : ℕ → Gateway} {es : ℕ → GateEvent}
    (h : Gateway.Run env possible s es) (h₀ : (s 0).Started env) (n i j : ℕ)
    (frame more : List UInt8) (room room' : HashRoom) :
    ((voidgateXdp ((s n).cpu i) (frame ++ more) room).2 = .drop →
      ((voidgateXdp ((s n).cpu j) frame room').2 = .drop ↔ ∃ p, xdpLocals frame = some p)) ∧
    ∀ p, xdpLocals frame = some p → p.parseErr = false →
      (voidgateXdp ((s n).cpu i) (frame ++ more) room).2 =
        (voidgateXdp ((s n).cpu j) frame room').2 := by
  have hk : (s n).ctrl.maps.kernel.cfg.Writable := (h.tracks h₀ n).safePorts.kernel
  constructor
  · intro hdrop
    obtain ⟨harmed, q, hq, hexempt, hmatch⟩ := (voidgateXdp_drop_iff _ _ _).mp hdrop
    constructor
    · intro hcut
      obtain ⟨-, p, hp, -⟩ := (voidgateXdp_drop_iff _ _ _).mp hcut
      exact ⟨p, hp⟩
    · rintro ⟨p, hp⟩
      obtain ⟨p', hp', hext⟩ := xdpLocals_append more hp
      obtain rfl := Option.some.inj (hp'.symm.trans hq)
      refine (voidgateXdp_drop_iff _ _ _).mpr ⟨harmed, p, hp, ?_, ?_⟩
      · refine Bool.eq_false_iff.mpr fun he => ?_
        exact absurd (hext.exempted hk he) (Bool.eq_false_iff.mp hexempt)
      · rw [← hext.saddr, ← hext.daddr]
        exact hmatch
  · intro p hp hok
    obtain ⟨p', hp', hext⟩ := xdpLocals_append more hp
    obtain rfl := hext.whole hok
    refine Verdict.eq_of_drop_iff ?_
    rw [voidgateXdp_drop_iff, voidgateXdp_drop_iff, hp, hp']
    rfl

/-- The flooding host's frame, cut behind its IP header, and padded. -/
theorem cutting_saves_no_frame_sample :
    (voidgateXdp ((gateRun 10).cpu 0) sampleFrame freeRoom).2 = .drop ∧
      (voidgateXdp ((gateRun 10).cpu 1) (sampleFrame.take 34) freeRoom).2 = .drop ∧
      (voidgateXdp ((gateRun 10).cpu 1) (sampleFrame ++ [0, 0]) freeRoom).2 = .drop := by
  have hdrop : (voidgateXdp ((gateRun 10).cpu 0) sampleFrame freeRoom).2 = .drop := by decide +kernel
  have hheader : ∃ p, xdpLocals (sampleFrame.take 34) = some p :=
    Option.isSome_iff_exists.mp (by decide +kernel)
  obtain ⟨p, hp, hok⟩ : ∃ p, xdpLocals sampleFrame = some p ∧ p.parseErr = false :=
    Option.map_eq_some_iff.mp (by decide +kernel)
  have hstart : (gateRun 0).Started steadyEnv := ⟨rfl, _, _, _, _, steadyStart_eq⟩
  have hcut := (cutting_saves_no_frame gateRun_run hstart 10 0 1 (sampleFrame.take 34)
    (sampleFrame.drop 34) freeRoom freeRoom).1
  rw [List.take_append_drop] at hcut
  have hpad := (cutting_saves_no_frame gateRun_run hstart 10 1 0 sampleFrame [0, 0] freeRoom
    freeRoom).2 p hp hok
  exact ⟨hdrop, (hcut hdrop).mpr hheader, hpad.trans hdrop⟩

end VoidGate
