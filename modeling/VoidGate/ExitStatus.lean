import VoidGate.CtlClient
import VoidGate.DropCommand
import VoidGate.FloodResponse
import VoidGate.ReloadProtection

/-!
# What the exit status of the client says

A command of the operator goes to the daemon in one line and comes back as a reply that
both sides may cut into pieces. The daemon sends until everything is out, and the client
looks at the first piece it reads. If that piece holds the first five bytes of the reply,
the exit status is 0 exactly for a command that succeeded, and a command that succeeded
has done what it says, up to the deletes of a disarm and the rebuild of a reload, whose
failures the daemon does not report.
-/

namespace VoidGate

open Runs

/-- What the next call of `send` meets. -/
inductive SendEvent where
  | eintr
  | error
  | upTo (more : ℕ)
  deriving DecidableEq

/-- The loop at `send_reply`: what of the reply goes out. After the listed events `send` takes
everything. -/
def sendReply : List SendEvent → List UInt8 → List UInt8
  | [], reply => reply
  | .eintr :: sends, reply => sendReply sends reply
  | .error :: _, _ => []
  | .upTo more :: sends, reply => reply.take (more + 1) ++ sendReply sends (reply.drop (more + 1))

/-- The read loop of `voidgatectl`: whether its exit status is 1, and what it has printed. A call
that is interrupted ends it like one that fails. -/
def readReply (conn : Conn) (replied failed : Bool) (out : List UInt8) : Bool × List UInt8 :=
  match _h : conn.read 8191 with
  | (.eintr, _) => (failed || !replied, out)
  | (.error, _) => (failed || !replied, out)
  | (.bytes chunk, conn') =>
    if _hend : chunk = [] then (failed || !replied, out)
    else
      readReply conn' true (failed || (!replied && (bytes "error").isPrefixOf chunk))
        (out ++ chunk.takeWhile (· != 0))
termination_by conn.stream.length
decreasing_by
  obtain ⟨hs, -, -, -⟩ := Conn.read_bytes _h
  have hpos := List.length_pos_iff.mpr _hend
  rw [hs, List.length_append]
  omega

/-- How the bytes of one command travel. -/
structure Channel where
  request : List ReadEvent
  sends : List SendEvent
  reply : List ReadEvent

/-- A run of `voidgatectl` against the daemon: the daemon's new state, whether the exit status is 1,
and the output. -/
def runVoidgatectl (env : Env) (o : Outside) (c : VgCtrl) (argv : List (List UInt8)) (ch : Channel) :
    VgCtrl × Bool × List UInt8 :=
  match voidgatectl argv with
  | none => (c, true, [])
  | some sent =>
    let r := vgCtlServerHandle env o c ⟨sent, ch.request⟩
    (r.1, readReply ⟨sendReply ch.sends (r.2.getD []), ch.reply⟩ false false [])

/-- Nothing breaks on the way, and the first piece of the reply that the client reads has five bytes
or is all of it. -/
structure Channel.Clear (ch : Channel) : Prop where
  request : .error ∉ ch.request
  sends : .error ∉ ch.sends
  reply : ∀ e ∈ ch.reply.head?, ∃ k, e = .upTo (k + 4)

theorem sendReply_eq {sends : List SendEvent} (h : .error ∉ sends) (reply : List UInt8) :
    sendReply sends reply = reply := by
  induction sends generalizing reply with
  | nil => rfl
  | cons e sends ih =>
    rw [List.mem_cons, not_or] at h
    cases e with
    | eintr => exact ih h.2 reply
    | error => exact absurd rfl h.1
    | upTo more => rw [sendReply, ih h.2, List.take_append_drop]

@[simp] theorem readReply_replied (conn : Conn) (failed : Bool) (out : List UInt8) :
    (readReply conn true failed out).1 = failed := by
  suffices h : ∀ replied, replied = true → (readReply conn replied failed out).1 = failed from
    h true rfl
  intro replied
  fun_induction readReply conn replied failed out with
  | case1 => rintro rfl; simp
  | case2 => rintro rfl; simp
  | case3 => rintro rfl; simp
  | case4 conn replied failed out chunk conn' _ _ ih =>
    rintro rfl
    simpa using ih rfl

private theorem readReply_status {stream : List UInt8} {reads : List ReadEvent} (hs : stream ≠ [])
    (h : ∀ e ∈ reads.head?, ∃ k, e = ReadEvent.upTo (k + 4)) :
    (readReply ⟨stream, reads⟩ false false []).1 = (bytes "error").isPrefixOf stream := by
  obtain ⟨n, hn, conn', hread⟩ : ∃ n, 5 ≤ n ∧ ∃ conn',
      Conn.read ⟨stream, reads⟩ 8191 = (.bytes (stream.take n), conn') := by
    cases reads with
    | nil => exact ⟨8191, by decide, _, rfl⟩
    | cons e reads =>
      obtain ⟨k, rfl⟩ := h e rfl
      exact ⟨min 8191 (k + 4 + 1), by omega, _, rfl⟩
  have hne : stream.take n ≠ [] := by
    rw [Ne, List.take_eq_nil_iff]
    rintro (h0 | h0)
    · omega
    · exact hs h0
  have hfirst : (bytes "error").isPrefixOf (stream.take n) = (bytes "error").isPrefixOf stream := by
    rw [Bool.eq_iff_iff, List.isPrefixOf_iff_prefix, List.isPrefixOf_iff_prefix,
      List.prefix_take_iff]
    exact and_iff_left (by exact hn)
  rw [readReply]
  split
  · rename_i heq
    simp [hread] at heq
  · rename_i heq
    simp [hread] at heq
  · rename_i chunk conn'' heq
    rw [hread, Prod.mk.injEq, ReadResult.bytes.injEq] at heq
    obtain ⟨rfl, -⟩ := heq
    rw [dif_neg hne, readReply_replied, ← hfirst]
    rfl

-- an error whose first piece is shorter looks like a success
example : (readReply ⟨bytes "error: reload failed\n", [.upTo 3]⟩ false false []).1 = false := by
  rw [readReply]
  exact readReply_replied _ _ _

/-- The commands that only report. -/
def queries : List (List UInt8) := [bytes "status", bytes "stats", bytes "drops"]

/-- The line is this command. -/
inductive Asks (pton : InetPton) (o : Outside) : List UInt8 → Cmd → Prop where
  | arm : Asks pton o (bytes "arm") .arm
  | disarm : Asks pton o (bytes "disarm") .disarm
  | drop {args : List UInt8} {p : MaskedCidr} (form : ManualForm pton args p.1) :
      Asks pton o (bytes "drop " ++ args) (.drop p)
  | dropTtl {args : List UInt8} {p : MaskedCidr} {ttl : ℕ} (form : TimedForm pton args p.1 ttl) :
      Asks pton o (bytes "drop " ++ args) (.dropTtl p ttl)
  | undrop {args : List UInt8} {p : MaskedCidr} (text : CidrText pton args p.1) :
      Asks pton o (bytes "undrop " ++ args) (.undrop p)
  | reload : Asks pton o (bytes "reload") (.reload o.file o.nic)

section Commands
variable {env : Env} {o : Outside} {c : VgCtrl} {req : List UInt8}

/-- What the call behind a command returns; a tick returns nothing. -/
def returned (env : Env) (c : VgCtrl) : Cmd → Bool
  | .drop p => (vgCtrlDrop env c p.1 .manual).2
  | .dropTtl p ttl => (vgCtrlDropTtl env c p.1 ttl).2
  | .undrop p => (vgCtrlUndrop env c p.1).2
  | .arm => (vgCtrlArm env c).2
  | .disarm => (vgCtrlDisarm env c).2
  | .reload file nic => (vgCtrlReload env c file nic).2
  | .tick _ => true

def ErrorText (text : List UInt8) : Prop := (bytes "error").isPrefixOf text = true

instance (text : List UInt8) : Decidable (ErrorText text) := inferInstanceAs (Decidable (_ = true))

inductive Replied (env : Env) (o : Outside) (c : VgCtrl) (req : List UInt8) :
    VgCtrl × List UInt8 → Prop where
  | call {cmd : Cmd} {error : List UInt8} (asks : Asks env.inetPton o req cmd)
      (text : ErrorText (printReply error)) :
      Replied env o c req (answer error (step env c cmd, returned env c cmd))
  | refused {reply : List UInt8} (text : ErrorText reply) : Replied env o c req (c, reply)

private theorem ctlDrop_replied (env : Env) (o : Outside) (c : VgCtrl) (args : List UInt8) :
    Replied env o c (bytes "drop " ++ args) (ctlDrop env c args) := by
  rw [ctlDrop_eq]
  cases hcall : dropCall env.inetPton args with
  | badCidr => exact .refused (by decide)
  | badTtl => exact .refused (by decide)
  | drop p =>
    have hform := dropCall_eq_drop_iff.mp hcall
    have hmasked : p.Masked := masked_vgParseCidrLen (vgParseCidrLen_eq_some_iff.mpr hform.2)
    exact .call (.drop (p := ⟨p, hmasked⟩) hform) (by decide)
  | dropTtl p ttl =>
    have hform := dropCall_eq_dropTtl_iff.mp hcall
    have ⟨_, _, _, _, htext, _⟩ := hform
    have hmasked : p.Masked := masked_vgParseCidrLen (vgParseCidrLen_eq_some_iff.mpr htext)
    exact .call (.dropTtl (p := ⟨p, hmasked⟩) hform) (by decide)

private theorem ctlUndrop_replied (env : Env) (o : Outside) (c : VgCtrl) {args : List UInt8} (h : 0 ∉ args) :
    Replied env o c (bytes "undrop " ++ args) (ctlUndrop env c args) := by
  rw [ctlUndrop, vgParseCidr, cstr, takeWhile_of_not_mem h]
  cases hp : vgParseCidrLen env.inetPton args with
  | none => exact .refused (by decide)
  | some p =>
    exact .call (.undrop (p := ⟨p, masked_vgParseCidrLen hp⟩) (vgParseCidrLen_eq_some_iff.mp hp))
      (by decide)

private theorem dispatch_replied (hq : req ∉ queries) (h0 : 0 ∉ req) :
    Replied env o c req (dispatch env o c req) := by
  rw [dispatch]
  split
  · exact .refused (by decide)
  · rename_i cmd hfind
    have hmem := List.mem_of_find?_eq_some hfind
    have hmatch := List.find?_some hfind
    simp only [vgCtlCommands, List.mem_cons, List.not_mem_nil, or_false] at hmem
    rcases hmem with rfl | rfl | rfl | rfl | rfl | rfl | rfl | rfl
    · exact absurd (eq_of_beq hmatch) fun he => hq (by simp [he, queries])
    · exact absurd (eq_of_beq hmatch) fun he => hq (by simp [he, queries])
    · exact absurd (eq_of_beq hmatch) fun he => hq (by simp [he, queries])
    · obtain rfl := eq_of_beq hmatch
      exact .call .arm (by decide)
    · obtain rfl := eq_of_beq hmatch
      exact .call .disarm (by decide)
    · obtain ⟨args, rfl⟩ := List.isPrefixOf_iff_prefix.mp hmatch
      exact ctlDrop_replied env o c args
    · obtain ⟨args, rfl⟩ := List.isPrefixOf_iff_prefix.mp hmatch
      exact ctlUndrop_replied env o c fun hm => h0 (List.mem_append_right _ hm)
    · obtain rfl := eq_of_beq hmatch
      exact .call .reload (by decide)

structure Banned (c : VgCtrl) (p : VgCidr) (t : WithTop ℤ) : Prop where
  listed : ∃ r ∈ c.drops.records, r.cidr = p ∧ t ≤ r.deadline c.cfg
  entry : ∃ v, (p, v) ∈ (c.maps.kernel.lpm (.drop p.family)).entries
  armed : c.maps.kernel.cfg.armed = 1

/-- What a command of the operator that succeeds has done. The deletes of a disarm, and the deletes of
a reload and its rebuild of the allow and local maps, are not in the report: the maps are as they should
be exactly if these writes have ended well, and for a reload if no protected prefix was in a drop map
without being listed. -/
def Done (env : Env) (c : VgCtrl) : Cmd → VgCtrl → Prop
  | .drop p, c' => Banned c' p.1 ⊤
  | .dropTtl p ttl, c' => Banned c' p.1 (env.wall c.clock + ttl : ℤ)
  | .undrop p, c' => p.1 ∉ c'.drops.prefixes ∧ p.1 ∉ (c'.maps.kernel.lpm (.drop p.1.family)).keys
  | .arm, c' => c'.state = .active ∧ c'.maps.kernel.cfg.armed = 1
  | .disarm, c' => c'.state = .idle ∧ c'.drops.prefixes = [] ∧ c'.maps.kernel.cfg.armed = 0 ∧
      ((∀ f, (c'.maps.kernel.lpm (.drop f)).keys = []) ↔ FlushOk env c)
  | .reload file nic, c' => reloadConfig env c file nic = some c'.cfg ∧
      c'.maps.kernel.cfg = cfgEntry (armedFlag c') c'.cfg ∧
      (ProtectionInPlace c' ↔ ReloadClean env c c'.cfg)
  | .tick _, _ => False

/-- The deadline that a drop asks for. -/
def asked (reason : Reason) (expires : ℤ) : WithTop ℤ := if reason = .manual then ⊤ else expires

private theorem redropped_asked {cfg : VgConfig} {r : VgDropRec} {reason : Reason} {expires now : ℤ}
    (h : reason = .manual ∨ reason = .timed) :
    asked reason expires ≤ (redropped cfg r reason expires now).deadline cfg := by
  rcases h with rfl | rfl
  · simp [asked, redropped, VgDropRec.deadline]
  · simp only [asked, redropped, VgDropRec.deadline, reduceCtorEq, if_false, or_true, if_true,
      true_and, WithTop.coe_le_coe]
    split_ifs <;> omega

private theorem dropAdd_done (h : Sound c) {p : VgCidr} (hp : p.Masked) {reason : Reason} {expires : ℤ}
    (hreason : reason = .manual ∨ reason = .timed)
    (hok : (dropAdd env c p reason expires).2 = true) :
    ∃ r ∈ (dropAdd env c p reason expires).1.drops.records, r.cidr = p ∧
      asked reason expires ≤ r.deadline c.cfg := by
  rw [dropAdd_eq] at hok ⊢
  split_ifs at hok ⊢
  have hdrops : c.ticked.armed.drops = c.drops := VgCtrl.armed_drops _
  have hcfg : c.ticked.armed.cfg = c.cfg := VgCtrl.armed_cfg _
  have hcase : DropCase env c.ticked.armed p reason expires (env.wall c.clock) _ :=
    dropListed_case (hdrops ▸ h.drops_ok) p reason expires (env.wall c.clock)
  generalize dropListed env c.ticked.armed p reason expires (env.wall c.clock) = out at hcase hok
  cases hcase with
  | full => cases hok
  | refused => cases hok
  | listed d _ _ _ _ hrecords =>
    refine ⟨⟨p, reason, env.wall c.clock, expires⟩, ?_, rfl, ?_⟩
    · rw [hrecords]
      exact List.mem_append_right _ List.mem_cons_self
    · rcases hreason with rfl | rfl
      · exact le_rfl
      · exact le_rfl
  | manual r hr hk _ hmanual =>
    rw [hdrops] at hr
    refine ⟨r, by rwa [hdrops], h.eq_of_key hr hp hk, ?_⟩
    rw [VgDropRec.deadline, hmanual]
    exact le_top
  | again d r hr hk _ _ _ hrecords =>
    have hfault : env.fault c.ticked.armed.maps.writes = false := by simpa using hok
    rw [hdrops] at hr
    refine ⟨redropped c.cfg r reason expires (env.wall c.clock), ?_, ?_, redropped_asked hreason⟩
    · rw [hrecords, hdrops]
      exact List.mem_map.mpr ⟨r, hr, by rw [if_pos hk, hfault, hcfg]; rfl⟩
    · rw [redropped_cidr]
      exact h.eq_of_key hr hp hk

theorem dropAdd_banned (h : Sound c) {p : VgCidr} (hp : p.Masked) {reason : Reason} {expires : ℤ}
    (hreason : reason = .manual ∨ reason = .timed)
    (hok : (dropAdd env c p reason expires).2 = true)
    (hnext : InForce (dropAdd env c p reason expires).1) :
    Banned (dropAdd env c p reason expires).1 p (asked reason expires) := by
  obtain ⟨r, hr, hcidr, hlate⟩ := dropAdd_done h hp hreason hok
  have hcfg : (dropAdd env c p reason expires).1.cfg = c.cfg :=
    (dropAdd_trace env c p reason expires).cfg_eq fun _ _ => id
  have hlisted : p ∈ (dropAdd env c p reason expires).1.drops.prefixes :=
    List.mem_map.mpr ⟨r, hr, hcidr⟩
  exact ⟨⟨r, hr, hcidr, hcfg ▸ hlate⟩, hnext.enforced p hlisted, hnext.armed hlisted⟩

private theorem vgCtrlUndrop_done (h : Sound c) (hk : c.maps.kernel.KeysMasked) {p : VgCidr} (hp : p.Masked)
    (hok : (vgCtrlUndrop env c p).2 = true) : p ∉ (vgCtrlUndrop env c p).1.drops.prefixes ∧
      p ∉ ((vgCtrlUndrop env c p).1.maps.kernel.lpm (.drop p.family)).keys := by
  have hgone : (vgDropDel env c.maps p).2 ≠ .error →
      p ∉ ((vgDropDel env c.maps p).1.kernel.lpm (.drop p.family)).keys := by
    intro hdel hm
    have hfault : env.fault c.maps.writes = false :=
      Bool.eq_false_iff.mpr fun hf => hdel ((vgDropDel_error_iff env c.maps p).mpr hf)
    exact ((mem_keys_dropDel (fun f q hq => hk (.drop f) q hq) hp hfault _ p).mp hm).2 rfl
  rw [vgCtrlUndrop] at hok ⊢
  cases hfind : c.drops.dropsFind p with
  | some i =>
    obtain ⟨hi, hr, hkey⟩ := h.drops_ok.dropsFind_some hfind
    have hcidr := h.eq_of_key hr hp hkey
    rw [hfind] at hok
    simp only [dropRemove, hcidr] at hok ⊢
    split_ifs at hok ⊢ with herr
    exact ⟨fun hm => ((h.mem_prefixes_lift hi).mp hm).2 hcidr.symm, hgone herr⟩
  | none =>
    rw [hfind] at hok
    refine ⟨fun hm => ?_, hgone (by simpa using hok)⟩
    obtain ⟨r, hr, rfl⟩ := List.mem_map.mp hm
    exact h.drops_ok.dropsFind_none hfind r hr rfl

private theorem vgCtrlDisarm_done (h : c.drops.Ok) (hok : (vgCtrlDisarm env c).2 = true) :
    Done env c .disarm (vgCtrlDisarm env c).1 := by
  have hflush := vgDropFlush_empty_iff env c
  simp only [Done, vgCtrlDisarm, vgCfgCommit_eq] at hok ⊢
  cases hf : env.fault (vgDropFlush env c.maps).writes with
  | true => simp [hf] at hok
  | false => exact ⟨rfl, by rw [DropTable.prefixes]; simp [h.reset.2], rfl, hflush⟩

theorem reloadApply_done (hok : (reloadApply env c).2 = true) :
    (reloadApply env c).1.maps.kernel.cfg =
      cfgEntry (armedFlag (reloadApply env c).1) (reloadApply env c).1.cfg := by
  simp only [reloadApply, vgCfgCommit_eq] at hok ⊢
  generalize vgCtrlPruneProtected env c = pruned at hok ⊢
  cases hf : env.fault pruned.maps.writes with
  | true => simp [hf] at hok
  | false => exact (vgPopulate_frame env _ _).1

private theorem vgCtrlReload_done (h : Reachable env c) {file : ConfigFile} {nic : Option (List IfAddr)}
    (hok : (vgCtrlReload env c file nic).2 = true) :
    Done env c (.reload file nic) (vgCtrlReload env c file nic).1 := by
  have hcfg : (vgCtrlReload env c file nic).1.cfg = _ := vgCtrlReload_cfg h.sound.drops_ok file nic
  rw [vgCtrlReload] at hok hcfg ⊢
  cases hn : reloadConfig env c file nic with
  | none => simp [hn] at hok
  | some n =>
    rw [hn] at hok hcfg
    have hnew : (reloadApply env (c.swapped n)).1.cfg = n := hcfg
    obtain ⟨f, hf⟩ := reloadConfig_loaded hn
    have hcommit := (reloadApply_result h.sound.drops_ok n).1.mp hok
    have hplace : ProtectionInPlace (reloadApply env (c.swapped n)).1 ↔
        ReloadClean env c (reloadApply env (c.swapped n)).1.cfg := by
      rw [hnew]
      exact reloadApply_inPlace_iff h.sound h.plainKeys hf.netsMasked hcommit
    exact ⟨hn.trans (congrArg some hnew.symm), reloadApply_done hok, hplace⟩

theorem done_of_returned (h : Reachable env c) {cmd : Cmd} (hcmd : ∀ t, cmd ≠ .tick t)
    (hok : returned env c cmd = true) : Done env c cmd (step env c cmd) := by
  have hsound := h.sound
  have hnext := (h.step cmd).inForce
  cases cmd with
  | arm =>
    have hactive : (vgCtrlArm env c).1.state = .active := by
      have heq := vgCtrlArm_eq env c
      split_ifs at heq with hf
      · rw [returned, heq] at hok
        cases hok
      · rw [heq]
        exact VgCtrl.armed_state c
    exact ⟨hactive, hnext.gate.armed.mpr hactive⟩
  | disarm => exact vgCtrlDisarm_done hsound.drops_ok hok
  | drop p => exact dropAdd_banned hsound p.2 (.inl rfl) hok hnext
  | dropTtl p ttl =>
    have hticked : Sound { c with clock := c.clock + 1 } := ⟨hsound.drops_ok, hsound.masked⟩
    exact dropAdd_banned hticked p.2 (.inr rfl) hok hnext
  | undrop p => exact vgCtrlUndrop_done hsound h.plainKeys.kernel p.2 hok
  | reload file nic => exact vgCtrlReload_done h hok
  | tick t => exact absurd rfl (hcmd t)

theorem Asks.ne_tick {pton : InetPton} {cmd : Cmd} (h : Asks pton o req cmd) (t : TickIn) :
    cmd ≠ .tick t := by
  cases h <;> simp

end Commands

section Status
variable {env : Env} {o : Outside} {c : VgCtrl} {argv : List (List UInt8)} {ch : Channel}

theorem status_eq (hch : ch.Clear) {reply : List UInt8} (hne : reply ≠ []) :
    (readReply ⟨sendReply ch.sends reply, ch.reply⟩ false false []).1 =
      (bytes "error").isPrefixOf reply := by
  rw [sendReply_eq hch.sends]
  exact readReply_status hne hch.reply

theorem ErrorText.ne_nil {text : List UInt8} (h : ErrorText text) : text ≠ [] := by
  rintro rfl
  cases h

private theorem answer_status {error : List UInt8} (h : ErrorText (printReply error)) (r : VgCtrl × Bool) :
    (answer error r).2 ≠ [] ∧ (bytes "error").isPrefixOf (answer error r).2 = !r.2 := by
  obtain ⟨c', ok⟩ := r
  cases ok with
  | true =>
    have hokay : printReply okReply ≠ [] ∧ (bytes "error").isPrefixOf (printReply okReply) = false := by
      decide
    exact hokay
  | false => exact ⟨h.ne_nil, h⟩

/-- A run of the client ends with the state and the status of the answer to its line, or with the
old state and an error. -/
theorem runVoidgatectl_cases (hnul : ∀ a ∈ argv.tail, 0 ∉ a) (hline : ∀ a ∈ argv.tail, 10 ∉ a)
    (hch : ch.Clear) {c' : VgCtrl} {status : Bool} {out : List UInt8}
    (hrun : runVoidgatectl env o c argv ch = (c', status, out)) :
    ((argv.tail = [] ∨ 254 < (joined argv.tail).length) ∧ c' = c ∧ status = true) ∨
      c' = (dispatch env o c (joined argv.tail)).1 ∧
      ((dispatch env o c (joined argv.tail)).2 ≠ [] →
        status = (bytes "error").isPrefixOf (dispatch env o c (joined argv.tail)).2) := by
  have h10 := not_mem_joined (b := 10) (by decide) hline
  have h0 := not_mem_joined (b := 0) (by decide) hnul
  rw [runVoidgatectl, voidgatectl_eq] at hrun
  by_cases hargs : argv.tail = []
  · rw [if_pos hargs] at hrun
    cases hrun
    exact .inl ⟨.inl hargs, rfl, rfl⟩
  simp only [if_neg hargs, vgCtlServerHandle, readRequest_nil hch.request, Prod.mk.injEq] at hrun
  obtain ⟨hstate, hreply⟩ := hrun
  have hstatus := congrArg Prod.fst hreply
  by_cases hlen : (joined argv.tail).length ≤ 254
  · have hframe : frame ((joined argv.tail ++ bytes "\n").take 255) = .line (joined argv.tail) := by
      rw [List.take_of_length_le (by simp [bytes]; omega), frame_line ⟨h10, h0, hlen⟩]
    rw [hframe] at hstate hstatus
    exact .inr ⟨hstate.symm, fun hne => hstatus.symm.trans (status_eq hch hne)⟩
  · rw [frame_cut h10 h0 (by omega)] at hstate hstatus
    have hlong : printReply commandTooLong ≠ [] := by decide
    exact .inl ⟨.inr (by omega), hstate.symm, hstatus.symm.trans (status_eq hch hlong)⟩

end Status

/-- The small host with a resolver that also knows two guests. -/
def guestEnv : Env :=
  { steadyEnv with
    inetPton := fun f s =>
      if f = .inet ∧ s = bytes "203.0.113.9" then some (octetsOf [203, 0, 113, 9])
      else if f = .inet ∧ s = bytes "198.18.0.1" then some (octetsOf [198, 18, 0, 1])
      else samplePton f s }

def guestStart : VgCtrl :=
  (startUp guestEnv (bytes "/etc/voidgate/voidgate.conf") none .missing sampleNic).get (by decide +kernel)

def timedArgv : List (List UInt8) :=
  [bytes "voidgatectl", bytes "drop", bytes "203.0.113.9", bytes "ttl=60"]

/-- A channel that cuts the request and the reply and is interrupted on both sides. -/
def splitChannel : Channel := ⟨[.upTo 5, .eintr], [.upTo 0, .eintr], [.upTo 4]⟩

end VoidGate
