import VoidGate.ExitStatus
import VoidGate.LuaReplies

/-!
# What `true` means to a Lua program

The methods of the Lua client that change something return `true` for the reply of a
command that succeeded and for nothing else. So `true` says that the command has been
carried out, as far as the daemon reports its writes and whatever broke on the way; an
error of a request that was answered whole says that it has not.
-/

namespace VoidGate

open Runs

/-- `commit`, from what the socket calls have brought. -/
def commit (received : Except (List UInt8) (List UInt8)) : Except (List UInt8) Unit :=
  match request received with
  | .error err => .error err
  | .ok data => if data = okReply then .ok () else .error (bytes "unexpected response")

/-- The request that `client:undrop` sends, or the error it returns instead. -/
def clientUndrop (cidr : LuaValue) : Except (List UInt8) (List UInt8) :=
  match cidr with
  | .string cidr =>
    if cidr.any isspace then .error (bytes "bad cidr") else .ok (bytes "undrop " ++ cidr ++ bytes "\n")
  | _ => .error (bytes "bad cidr")

/-- The calls that end in `commit`. -/
inductive LuaCall where
  | arm
  | disarm
  | reload
  | drop (cidr ttl : LuaValue)
  | undrop (cidr : LuaValue)
  | banNow (ip ttl : LuaValue)

def LuaCall.sent (lua : LuaMachine) : LuaCall → Except (List UInt8) (List UInt8)
  | arm => .ok (bytes "arm" ++ bytes "\n")
  | disarm => .ok (bytes "disarm" ++ bytes "\n")
  | reload => .ok (bytes "reload" ++ bytes "\n")
  | drop cidr ttl => clientDrop lua cidr ttl
  | undrop cidr => clientUndrop cidr
  | banNow ip ttl => VoidGate.banNow lua ip ttl

/-- How the socket calls of `request` end: the daemon gets no request, or the answer is lost, or
`receive` reads until the daemon closes the connection. -/
inductive LuaLink where
  | unsent (err : List UInt8)
  | lost (err : List UInt8)
  | received

/-- A call against the daemon, whose `read` and `send` meet `reads` and `sends`: the daemon's new state
and what the call returns. -/
def LuaCall.run (lua : LuaMachine) (env : Env) (o : Outside) (c : VgCtrl) (call : LuaCall)
    (link : LuaLink) (reads : List ReadEvent) (sends : List SendEvent) :
    VgCtrl × Except (List UInt8) Unit :=
  match call.sent lua with
  | .error err => (c, .error err)
  | .ok sent =>
    match link with
    | .unsent err => (c, commit (.error err))
    | .lost err => ((vgCtlServerHandle env o c ⟨sent, reads⟩).1, commit (.error err))
    | .received =>
      let r := vgCtlServerHandle env o c ⟨sent, reads⟩
      (r.1, commit (.ok (sendReply sends (r.2.getD []))))

/-- The command that a call stands for. -/
inductive LuaCall.Means (lua : LuaMachine) (pton : InetPton) (o : Outside) : LuaCall → Cmd → Prop where
  | arm : Means lua pton o .arm .arm
  | disarm : Means lua pton o .disarm .disarm
  | reload : Means lua pton o .reload (.reload o.file o.nic)
  | drop {s : List UInt8} {ttl : LuaValue} {p : MaskedCidr} {v : ℕ} (text : CidrText pton s p.1)
      (number : lua.tonumber ttl = some (.finite v)) (low : 1 ≤ v) (high : v ≤ vgMaxDropTtl) :
      Means lua pton o (.drop (.string s) ttl) (.dropTtl p v)
  | undrop {s : List UInt8} {p : MaskedCidr} (text : CidrText pton s p.1) :
      Means lua pton o (.undrop (.string s)) (.undrop p)
  | banNow {a : List UInt8} {ttl : LuaValue} {p : MaskedCidr} {v : ℕ} (text : CidrText pton a p.1)
      (host : p.1.prefixlen = p.1.family.width) (number : lua.tonumber ttl = some (.finite v))
      (low : 1 ≤ v) (high : v ≤ vgMaxDropTtl) :
      Means lua pton o (.banNow (.string a) ttl) (.dropTtl p v)

private theorem readRequest_hangUp_or_frame {conn : Conn} {req : List UInt8} (h : Pending req) :
    readRequest conn req = .hangUp ∨ readRequest conn req = frame (req ++ conn.stream) := by
  fun_induction readRequest conn req with
  | case1 conn req conn' hread ih => exact (Conn.read_eintr hread).1 ▸ ih h
  | case2 => exact .inl rfl
  | case3 => exact .inl rfl
  | case4 conn req conn' hreq hread =>
    have hshort := h.short
    rw [(Conn.read_bytes hread).2.2.2 rfl (by omega), List.append_nil, frame_end h, if_neg hreq]
    exact .inr rfl
  | case5 conn req chunk conn' hread hne part h0 =>
    obtain ⟨hs, hroom, -, -⟩ := Conn.read_bytes hread
    exact .inr (by rw [hs, frame_nul h hne hroom h0])
  | case6 conn req chunk conn' hread hne part h0 h10 =>
    obtain ⟨hs, hroom, -, -⟩ := Conn.read_bytes hread
    exact .inr (by rw [hs, frame_newline h hroom h0 h10])
  | case7 conn req chunk conn' hread hne part h0 h10 hfull =>
    obtain ⟨hs, -, -, -⟩ := Conn.read_bytes hread
    have hpart : part = chunk := takeWhile_of_not_mem h10
    rw [hpart] at h0 hfull
    exact .inr (by rw [hs, frame_full h h0 h10 hfull])
  | case8 conn req chunk conn' hread hne part h0 h10 hfull ih =>
    obtain ⟨hs, hroom, -, -⟩ := Conn.read_bytes hread
    have hpart : part = chunk := takeWhile_of_not_mem h10
    rw [hpart] at h0 hfull ih ⊢
    have hlen : (req ++ chunk).length ≤ 254 := by
      have hshort := h.short
      rw [List.length_append] at hfull ⊢
      omega
    rw [hs, ← List.append_assoc]
    exact ih (h.append h10 h0 hlen)

private theorem not_mem_of_frame {line : List UInt8} (h10 : 10 ∉ line)
    (h : frame (line ++ bytes "\n") = .line line) : 0 ∉ line := by
  intro h0
  have hlen : line.length < 255 := by
    by_contra hlong
    have hcut : (line ++ bytes "\n").take 255 = line.take 255 :=
      List.take_append_of_le_length (by omega)
    have hno : 10 ∉ line.take 255 := fun hm => h10 (List.mem_of_mem_take hm)
    have hlong' : ¬ (line ++ bytes "\n").length ≤ 254 := by
      rw [List.length_append]
      omega
    rw [frame, hcut, if_neg hno, if_neg hlong'] at h
    split_ifs at h
  have htake : (line ++ bytes "\n").take 255 = line ++ bytes "\n" :=
    List.take_of_length_le (by simp [bytes]; omega)
  rw [frame, htake, takeWhile_append_of_not_mem h10, if_pos (List.mem_append_left _ h0)] at h
  split_ifs at h

private theorem respond_line (env : Env) (o : Outside) (c : VgCtrl) {line : List UInt8} (h10 : 10 ∉ line) :
    (∃ reply, ErrorText reply ∧ respond env o c (frame (line ++ bytes "\n")) = (c, some reply)) ∨
      0 ∉ line ∧ respond env o c (frame (line ++ bytes "\n")) =
        ((dispatch env o c line).1, some (dispatch env o c line).2) := by
  rcases frame_cases h10 with h | h | h
  · exact .inl ⟨printReply badCommand, by decide, by rw [h]; rfl⟩
  · exact .inl ⟨printReply commandTooLong, by decide, by rw [h]; rfl⟩
  · exact .inr ⟨not_mem_of_frame h10 h, by rw [h]; rfl⟩

section Results
variable {lua : LuaMachine} {env : Env} {o : Outside} {c : VgCtrl} {call : LuaCall}

/-- What the daemon makes of a request: the call it stands for, or a refusal. -/
inductive Serves (lua : LuaMachine) (env : Env) (o : Outside) (c : VgCtrl) (call : LuaCall) :
    VgCtrl × List UInt8 → Prop where
  | call {cmd : Cmd} {error : List UInt8} (means : call.Means lua env.inetPton o cmd)
      (text : ErrorText (printReply error)) :
      Serves lua env o c call (answer error (step env c cmd, returned env c cmd))
  | refused {reply : List UInt8} (text : ErrorText reply) : Serves lua env o c call (c, reply)

private theorem serves_dropTtl {s : List UInt8} (hs : 32 ∉ s) {v : ℕ} (hlow : 1 ≤ v) (hhigh : v ≤ vgMaxDropTtl)
    (hmeans : ∀ p : MaskedCidr, CidrText env.inetPton s p.1 →
      call.Means lua env.inetPton o (.dropTtl p v)) :
    Serves lua env o c call
      (dispatch env o c (bytes "drop " ++ (s ++ bytes " ttl=" ++ Decimals.text v))) := by
  rw [dispatch_drop, ctlDrop_ttl env c hs hlow hhigh]
  cases hp : vgParseCidrLen env.inetPton s with
  | none => exact .refused (by decide)
  | some p =>
    exact .call (hmeans ⟨p, masked_vgParseCidrLen hp⟩ (vgParseCidrLen_eq_some_iff.mp hp)) (by decide)

theorem serves_clientDrop {cidr ttl : LuaValue} {sent : List UInt8}
    (h : clientDrop lua cidr ttl = .ok sent)
    (hmeans : ∀ s, cidr = .string s → ∀ (p : MaskedCidr) (v : ℕ), CidrText env.inetPton s p.1 →
      lua.tonumber ttl = some (.finite v) → 1 ≤ v → v ≤ vgMaxDropTtl →
      call.Means lua env.inetPton o (.dropTtl p v)) :
    ∃ line, sent = line ++ bytes "\n" ∧ 10 ∉ line ∧ Serves lua env o c call (dispatch env o c line) := by
  obtain ⟨s, v, hs, hspace, hnum, hlow, hhigh, rfl⟩ := clientDrop_ok lua h
  have h32 : 32 ∉ s := fun hm => by cases hspace 32 hm
  refine ⟨bytes "drop " ++ (s ++ bytes " ttl=" ++ Decimals.text v), by simp only [List.append_assoc],
    ?_, serves_dropTtl h32 hlow hhigh fun p hp => hmeans s hs p v hp hnum hlow hhigh⟩
  simp only [List.mem_append, not_or]
  refine ⟨by decide, ⟨fun hm => ?_, by decide⟩, fun hm => ?_⟩
  · cases hspace 10 hm
  · cases Decimals.isDigit_of_mem_text hm

private theorem clientUndrop_ok {cidr : LuaValue} {sent : List UInt8} (h : clientUndrop cidr = .ok sent) :
    ∃ s, cidr = .string s ∧ (∀ b ∈ s, isspace b = false) ∧ sent = bytes "undrop " ++ s ++ bytes "\n" := by
  cases cidr with
  | string s =>
    rw [clientUndrop] at h
    split_ifs at h with hspace
    refine ⟨s, rfl, fun b hb => ?_, (Except.ok.inj h).symm⟩
    by_contra hb'
    exact hspace (List.any_eq_true.mpr ⟨b, hb, by simpa using hb'⟩)
  | _ => cases h

/-- A request is one line, and the daemon that gets it does what it stands for. -/
private theorem LuaCall.serves (env : Env) (o : Outside) (c : VgCtrl) {sent : List UInt8}
    (h : call.sent lua = .ok sent) :
    ∃ line, sent = line ++ bytes "\n" ∧ 10 ∉ line ∧
      (0 ∉ line → Serves lua env o c call (dispatch env o c line)) := by
  cases call with
  | arm =>
    obtain rfl := Except.ok.inj h
    refine ⟨bytes "arm", rfl, by decide, fun _ => ?_⟩
    exact show Serves lua env o c .arm (ctlArm env c) from .call .arm (by decide)
  | disarm =>
    obtain rfl := Except.ok.inj h
    refine ⟨bytes "disarm", rfl, by decide, fun _ => ?_⟩
    exact show Serves lua env o c .disarm (ctlDisarm env c) from .call .disarm (by decide)
  | reload =>
    obtain rfl := Except.ok.inj h
    refine ⟨bytes "reload", rfl, by decide, fun _ => ?_⟩
    exact show Serves lua env o c .reload (ctlReload env o c) from .call .reload (by decide)
  | drop cidr ttl =>
    have hmeans : ∀ s, cidr = .string s → ∀ (p : MaskedCidr) (v : ℕ), CidrText env.inetPton s p.1 →
        lua.tonumber ttl = some (.finite v) → 1 ≤ v → v ≤ vgMaxDropTtl →
        (LuaCall.drop cidr ttl).Means lua env.inetPton o (.dropTtl p v) := by
      rintro s rfl p v htext hnum hlow hhigh
      exact .drop htext hnum hlow hhigh
    obtain ⟨line, hsent, h10, hserves⟩ := serves_clientDrop (c := c) h hmeans
    exact ⟨line, hsent, h10, fun _ => hserves⟩
  | undrop cidr =>
    obtain ⟨s, rfl, hspace, rfl⟩ := clientUndrop_ok h
    refine ⟨bytes "undrop " ++ s, rfl, ?_, fun h0 => ?_⟩
    · rw [List.mem_append, not_or]
      exact ⟨by decide, fun hm => by cases hspace 10 hm⟩
    · have hs : 0 ∉ s := fun hm => h0 (List.mem_append_right _ hm)
      have hdispatch : dispatch env o c (bytes "undrop " ++ s) = ctlUndrop env c s := rfl
      rw [hdispatch, ctlUndrop, vgParseCidr, cstr, takeWhile_of_not_mem hs]
      cases hp : vgParseCidrLen env.inetPton s with
      | none => exact .refused (by decide)
      | some p =>
        exact .call (.undrop (p := ⟨p, masked_vgParseCidrLen hp⟩) (vgParseCidrLen_eq_some_iff.mp hp))
          (by decide)
  | banNow ip ttl =>
    rw [LuaCall.sent, VoidGate.banNow] at h
    split at h
    · cases h
    rename_i s hip
    have hmeans : ∀ t, LuaValue.string s = .string t → ∀ (p : MaskedCidr) (v : ℕ),
        CidrText env.inetPton t p.1 → lua.tonumber ttl = some (.finite v) → 1 ≤ v →
        v ≤ vgMaxDropTtl → (LuaCall.banNow ip ttl).Means lua env.inetPton o (.dropTtl p v) := by
      rintro t ⟨⟩ p v htext hnum hlow hhigh
      obtain ⟨a, rfl, hslash, rfl⟩ := hostCidr_some hip
      obtain ⟨hhost, hp⟩ := vgParseCidrLen_host hslash (vgParseCidrLen_eq_some_iff.mpr htext)
      exact .banNow (vgParseCidrLen_eq_some_iff.mp hp) hhost hnum hlow hhigh
    obtain ⟨line, hsent, h10, hserves⟩ := serves_clientDrop (c := c) h hmeans
    exact ⟨line, hsent, h10, fun _ => hserves⟩

private theorem LuaCall.handled (env : Env) (o : Outside) (c : VgCtrl) {sent : List UInt8}
    (h : call.sent lua = .ok sent) (reads : List ReadEvent) :
    (.error ∈ reads ∧ vgCtlServerHandle env o c ⟨sent, reads⟩ = (c, none)) ∨
      ∃ r, vgCtlServerHandle env o c ⟨sent, reads⟩ = (r.1, some r.2) ∧ Serves lua env o c call r := by
  obtain ⟨line, rfl, h10, hserves⟩ := LuaCall.serves env o c h
  rw [vgCtlServerHandle]
  by_cases hreq : readRequest ⟨line ++ bytes "\n", reads⟩ [] = .hangUp
  · refine .inl ⟨?_, by rw [hreq]; rfl⟩
    by_contra herr
    rw [readRequest_nil herr] at hreq
    rcases frame_cases h10 with hf | hf | hf <;> cases hf.symm.trans hreq
  · have hframe : readRequest ⟨line ++ bytes "\n", reads⟩ [] = frame (line ++ bytes "\n") :=
      (readRequest_hangUp_or_frame .nil).resolve_left hreq
    rw [hframe]
    rcases respond_line env o c h10 with ⟨reply, htext, hr⟩ | ⟨h0, hr⟩
    · exact .inr ⟨(c, reply), hr, .refused htext⟩
    · exact .inr ⟨dispatch env o c line, hr, hserves h0⟩

theorem sendReply_isPrefix_reply (sends : List SendEvent) (reply : List UInt8) :
    sendReply sends reply <+: reply := by
  induction sends generalizing reply with
  | nil => exact List.prefix_refl reply
  | cons e sends ih =>
    cases e with
    | eintr => exact ih reply
    | error => exact List.nil_prefix
    | upTo more =>
      have htail := (List.prefix_append_right_inj (reply.take (more + 1))).mpr (ih (reply.drop (more + 1)))
      rwa [List.take_append_drop] at htail

theorem commit_okReply : commit (.ok okReply) = .ok () := by
  rw [commit, request_ok (by decide)]
  rfl

theorem of_commit_ok {data : List UInt8} (h : commit (.ok data) = .ok ()) : data = okReply := by
  rw [commit, request] at h
  by_contra hdata
  split_ifs at h
  simp [hdata] at h

theorem ErrorText.sendReply_ne {reply : List UInt8} (h : ErrorText reply) (sends : List SendEvent) :
    sendReply sends reply ≠ okReply := by
  intro heq
  obtain ⟨rest, hrest⟩ := heq ▸ sendReply_isPrefix_reply sends reply
  rw [ErrorText, ← hrest] at h
  cases h

theorem LuaCall.Means.ne_tick {pton : InetPton} {cmd : Cmd} (h : call.Means lua pton o cmd) (t : TickIn) :
    cmd ≠ .tick t := by
  cases h <;> simp

private theorem Serves.of_true {r : VgCtrl × List UInt8} (hr : Serves lua env o c call r)
    (h : Reachable env c) {sends : List SendEvent}
    (hok : commit (.ok (sendReply sends r.2)) = .ok ()) : ∃ cmd, call.Means lua env.inetPton o cmd ∧
      r.1 = step env c cmd ∧ Done env c cmd r.1 := by
  have hreply := of_commit_ok hok
  cases hr with
  | refused htext => exact absurd hreply (htext.sendReply_ne sends)
  | @call cmd error hmeans htext =>
    cases hret : returned env c cmd with
    | true => exact ⟨cmd, hmeans, rfl, done_of_returned h hmeans.ne_tick hret⟩
    | false =>
      rw [hret] at hreply
      exact absurd hreply (htext.sendReply_ne sends)

private theorem Serves.of_error {r : VgCtrl × List UInt8} (hr : Serves lua env o c call r)
    {sends : List SendEvent} (hsends : .error ∉ sends) {err : List UInt8}
    (herr : commit (.ok (sendReply sends r.2)) = .error err) : r.1 = c ∨
      ∃ cmd, call.Means lua env.inetPton o cmd ∧ r.1 = step env c cmd ∧ returned env c cmd = false := by
  rw [sendReply_eq hsends] at herr
  cases hr with
  | refused htext => exact .inl rfl
  | @call cmd error hmeans htext =>
    refine .inr ⟨cmd, hmeans, rfl, Bool.eq_false_iff.mpr fun hret => ?_⟩
    rw [hret] at herr
    cases commit_okReply.symm.trans herr

end Results

/-- A ban of the guest for a minute, over a connection that is interrupted on the daemon's side. -/
def guestBan : LuaCall := .banNow (.string (bytes "203.0.113.9")) (.number (.finite 60))

end VoidGate
