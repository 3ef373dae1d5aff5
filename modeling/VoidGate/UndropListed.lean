import VoidGate.CidrText
import VoidGate.DropsListing
import VoidGate.LuaResults

/-!
# From the listing to the undrop

What `client:drops` returns can be given to `client:undrop`: the text of a prefix goes
through `inet_ntop` and the listing, through the pattern of the Lua client, through the
request and its pieces, and through `vg_parse_cidr`, and it still names the drop it was
printed for. A program that lists and lifts takes off exactly what it has chosen.
-/

namespace VoidGate

/-- A call of `client:undrop`, and how the daemon's `read` and `send` cut it. -/
structure UndropCall where
  cidr : List UInt8
  reads : List ReadEvent
  sends : List SendEvent

/-- Calls of `client:undrop` one after the other: the daemon's last state and what each returns. -/
def undropAll (lua : LuaMachine) (env : Env) (o : Outside) (c : VgCtrl) :
    List UndropCall → VgCtrl × List (Except (List UInt8) Unit)
  | [] => (c, [])
  | u :: us =>
    let r := (LuaCall.undrop (.string u.cidr)).run lua env o c .received u.reads u.sends
    let rest := undropAll lua env o r.1 us
    (rest.1, r.2 :: rest.2)

section Undrop
variable {lua : LuaMachine} {env : Env} {o : Outside} {c : VgCtrl} {p : VgCidr} {s : List UInt8}

structure LiftsOnly (c : VgCtrl) (p : VgCidr) (c' : VgCtrl) : Prop where
  records : c'.drops.records = c.drops.records.filter fun r => decide (r.cidr ≠ p)
  keys : ∀ f q, q ∈ (c'.maps.kernel.lpm (.drop f)).keys ↔
    q ∈ (c.maps.kernel.lpm (.drop f)).keys ∧ q ≠ p
  writes : c.maps.writes ≤ c'.maps.writes

private theorem vgCtrlUndrop_calm (h : Sound c) (hk : c.maps.kernel.KeysMasked) (hp : p.Masked)
    (hfault : env.fault c.maps.writes = false) :
    (vgCtrlUndrop env c p).2 = true ∧ LiftsOnly c p (vgCtrlUndrop env c p).1 := by
  have hdel : (vgDropDel env c.maps p).2 ≠ .error := fun he => by
    rw [(vgDropDel_error_iff env c.maps p).mp he] at hfault
    cases hfault
  have hkeys := mem_keys_dropDel (fun f q hq => hk (.drop f) q hq) hp hfault
  have hwrites : c.maps.writes ≤ (vgDropDel env c.maps p).1.writes := by
    rw [vgDropDel, lpmDelete_writes]
    exact Nat.le_succ _
  -- the keys of the records tell their prefixes apart
  have hsame {r : VgDropRec} (hr : r ∈ c.drops.records) : r.cidr.key = p.key ↔ r.cidr = p :=
    ⟨h.eq_of_key hr hp, congrArg _⟩
  rw [vgCtrlUndrop]
  cases hfind : c.drops.dropsFind p with
  | some i =>
    obtain ⟨hi, hr, hkey⟩ := h.drops_ok.dropsFind_some hfind
    have hcidr := h.eq_of_key hr hp hkey
    simp only [dropRemove, hcidr, if_neg hdel]
    refine ⟨trivial, ?_, hkeys, hwrites⟩
    rw [(h.drops_ok.lift hi).2, hcidr]
    exact List.filter_congr fun r hr => decide_eq_decide.mpr (not_congr (hsame hr))
  | none =>
    refine ⟨by simpa using hdel, ?_, hkeys, hwrites⟩
    refine (List.filter_eq_self.mpr fun r hr => ?_).symm
    exact decide_eq_true fun he => h.drops_ok.dropsFind_none hfind r hr (congrArg _ he)

/-- A request to undrop a text that `vg_parse_cidr` reads. -/
structure Undroppable (pton : InetPton) (s : List UInt8) (p : VgCidr) : Prop where
  parsed : vgParseCidr pton s = some p
  plain : ∀ b ∈ s, isspace b = false
  nul : 0 ∉ s
  short : s.length ≤ 127

private theorem Undroppable.run_eq (lua : LuaMachine) (o : Outside) (c : VgCtrl)
    (h : Undroppable env.inetPton s p) (hp : p.Masked) {reads : List ReadEvent}
    {sends : List SendEvent} (hreads : .error ∉ reads) (hsends : .error ∉ sends)
    (hok : (vgCtrlUndrop env c p).2 = true) :
    (LuaCall.undrop (.string s)).run lua env o c .received reads sends =
      (step env c (.undrop ⟨p, hp⟩), .ok ()) := by
  have hspace : ¬ s.any isspace = true := by simpa using h.plain
  have hpending : Pending (bytes "undrop " ++ s) := by
    have hnewline : 10 ∉ s := fun hm => by cases h.plain 10 hm
    have hshort := h.short
    have hlen : (bytes "undrop ").length = 7 := by decide
    refine ⟨?_, ?_, ?_⟩
    · exact List.not_mem_append (by decide) hnewline
    · exact List.not_mem_append (by decide) h.nul
    · rw [List.length_append]
      omega
  have hline : frame (bytes "undrop " ++ s ++ bytes "\n") = .line (bytes "undrop " ++ s) :=
    frame_line hpending
  have hdispatch : dispatch env o c (bytes "undrop " ++ s) = ctlUndrop env c s := rfl
  have hhandle : vgCtlServerHandle env o c ⟨bytes "undrop " ++ s ++ bytes "\n", reads⟩ =
      (step env c (.undrop ⟨p, hp⟩), some okReply) := by
    rw [vgCtlServerHandle, readRequest_nil hreads, hline, respond, hdispatch, ctlUndrop, h.parsed]
    simp only [answer, hok]
    rfl
  simp only [LuaCall.run, LuaCall.sent, clientUndrop, if_neg hspace, hhandle, Option.getD_some,
    sendReply_eq hsends, commit_okReply]

private theorem undropAll_spec (lua : LuaMachine) (o : Outside) (h : Reachable env c)
    (hcalm : ∀ k, c.maps.writes ≤ k → env.fault k = false) {us : List UndropCall}
    (hus : ∀ u ∈ us, (∃ p, Undroppable env.inetPton u.cidr p) ∧ .error ∉ u.reads ∧ .error ∉ u.sends) :
    (∀ r ∈ (undropAll lua env o c us).2, r = .ok ()) ∧
      (undropAll lua env o c us).1.drops.records = c.drops.records.filter
        (fun r => decide (∀ u ∈ us, vgParseCidr env.inetPton u.cidr ≠ some r.cidr)) ∧
      ∀ f q, q ∈ ((undropAll lua env o c us).1.maps.kernel.lpm (.drop f)).keys ↔
        q ∈ (c.maps.kernel.lpm (.drop f)).keys ∧ ∀ u ∈ us, vgParseCidr env.inetPton u.cidr ≠ some q := by
  induction us generalizing c with
  | nil => simp [undropAll]
  | cons u us ih =>
    obtain ⟨⟨⟨p, hu⟩, hreads, hsends⟩, hrest⟩ := List.forall_mem_cons.mp hus
    have hp : p.Masked := masked_vgParseCidrLen hu.parsed
    obtain ⟨hok, hlifts⟩ := vgCtrlUndrop_calm h.sound h.plainKeys.kernel hp (hcalm _ le_rfl)
    have hrun := hu.run_eq lua o c hp hreads hsends hok
    obtain ⟨hres, hrecords, hkeys⟩ := ih (h.step (.undrop ⟨p, hp⟩))
      (fun k hk => hcalm k (hlifts.writes.trans hk)) hrest
    have hsame (q : VgCidr) : vgParseCidr env.inetPton u.cidr ≠ some q ↔ q ≠ p := by
      rw [hu.parsed, ne_eq, Option.some.injEq]
      exact ne_comm
    have hstep : (undropAll lua env o c (u :: us)).1 =
        (undropAll lua env o (step env c (.undrop ⟨p, hp⟩)) us).1 := by
      simp only [undropAll, hrun]
    refine ⟨?_, ?_, fun f q => ?_⟩
    · simp only [undropAll, hrun, List.forall_mem_cons]
      exact ⟨trivial, hres⟩
    · have hnow : (step env c (.undrop ⟨p, hp⟩)).drops.records = _ := hlifts.records
      rw [hstep, hrecords, hnow, List.filter_filter]
      refine List.filter_congr fun r _ => ?_
      rw [← Bool.decide_and, decide_eq_decide, List.forall_mem_cons, hsame]
      exact and_comm
    · have hnow : q ∈ ((step env c (.undrop ⟨p, hp⟩)).maps.kernel.lpm (.drop f)).keys ↔ _ :=
        hlifts.keys f q
      rw [hstep, hkeys, hnow, List.forall_mem_cons, hsame, and_assoc]

/-- What is assumed of the printing and reading of addresses, for the drops on the list. -/
structure PrintsList (pton : InetPton) (o : Outside) (c : VgCtrl) : Prop where
  ntopTexts : NtopTexts o.inetNtop
  noError : ∀ f a, ¬ bytes "error" <+: o.inetNtop f a
  smallAges : SmallAges o c.drops
  addressTexts : AddressTexts pton
  readsBack : ∀ p ∈ c.drops.prefixes, ReadsBack pton o p

private theorem PrintsList.undroppable (h : PrintsList env.inetPton o c) (hs : Sound c)
    (hp : p ∈ c.drops.prefixes) : Undroppable env.inetPton (vgCidrToStr o p) p where
  parsed := h.addressTexts.vgParseCidr_vgCidrToStr (h.readsBack p hp) (hs.masked p hp)
  plain := (h.ntopTexts.vgCidrToStr_plain p).2
  nul hm := by
    rcases h.addressTexts.mem_vgCidrToStr (h.readsBack p hp) hm with hb | hb
    · cases hb
    · cases hb
  short := (h.ntopTexts.vgCidrToStr_eq p).2.trans (by decide)

private theorem mem_luaEntries {t : DropTable} {d : LuaDrop} (hd : d ∈ luaEntries o t) :
    ∃ r ∈ t.records, d.cidr = vgCidrToStr o r.cidr := by
  obtain ⟨i, hi, rfl⟩ := List.mem_mapIdx.mp hd
  exact ⟨t.records[i], List.getElem_mem hi, rfl⟩

/-- Where no write fails, every drop that `client:drops` returns can be lifted with `client:undrop` by
the text it is listed with, however the requests and the replies are cut. The calls return `true`, and
they take off exactly the chosen drops, of the list as well as of the maps: every other entry stays. -/
theorem listed_drops_lift (h : Reachable env c) (hcalm : ∀ k, c.maps.writes ≤ k → env.fault k = false)
    (hlua : ReadsIntegers lua) (hprint : PrintsList env.inetPton o c) :
    ∃ j, Listing o lua c.drops (ctlDrops o c) j ∧
      (∀ reads sends, .error ∉ reads → .error ∉ sends → clientDrops lua (.ok (sendReply sends
        ((vgCtlServerHandle env o c ⟨bytes "drops\n", reads⟩).2.getD []))) =
          .ok ((luaEntries o c.drops).take j)) ∧
      ∀ us : List UndropCall, (∀ u ∈ us, (∃ d ∈ (luaEntries o c.drops).take j, u.cidr = d.cidr) ∧
          .error ∉ u.reads ∧ .error ∉ u.sends) →
        (∀ r ∈ (undropAll lua env o c us).2, r = .ok ()) ∧
        (undropAll lua env o c us).1.drops.records = c.drops.records.filter
          (fun r => decide (vgCidrToStr o r.cidr ∉ us.map UndropCall.cidr)) ∧
        ∀ f q, q ∈ ((undropAll lua env o c us).1.maps.kernel.lpm (.drop f)).keys ↔
          q ∈ (c.maps.kernel.lpm (.drop f)).keys ∧
            ∀ r ∈ c.drops.records, vgCidrToStr o r.cidr ∈ us.map UndropCall.cidr → r.cidr ≠ q := by
  have hsound := h.sound
  have hlist := hprint.ntopTexts.listing hlua hsound.drops_ok hprint.smallAges
  refine ⟨_, hlist, fun reads sends hreads hsends => ?_, fun us hus => ?_⟩
  · have hhandle : vgCtlServerHandle env o c ⟨bytes "drops\n", reads⟩ = (c, some (ctlDrops o c)) := by
      rw [vgCtlServerHandle, readRequest_nil hreads]
      rfl
    rw [hhandle, Option.getD_some, sendReply_eq hsends, clientDrops,
      request_ok (hlist.not_error hprint.ntopTexts hprint.noError), Except.map, hlist.decoded]
  · have hundroppable (r : VgDropRec) (hr : r ∈ c.drops.records) :
        Undroppable env.inetPton (vgCidrToStr o r.cidr) r.cidr :=
      hprint.undroppable hsound (List.mem_map_of_mem hr)
    have hlisted (u : UndropCall) (hu : u ∈ us) :
        ∃ r ∈ c.drops.records, u.cidr = vgCidrToStr o r.cidr := by
      obtain ⟨⟨d, hd, hcidr⟩, -⟩ := hus u hu
      obtain ⟨r, hr, hd'⟩ := mem_luaEntries (List.mem_of_mem_take hd)
      exact ⟨r, hr, hcidr.trans hd'⟩
    -- a text names the drop that prints it, and no other
    have hnames (q : VgCidr) : (∀ u ∈ us, vgParseCidr env.inetPton u.cidr ≠ some q) ↔
        ∀ r ∈ c.drops.records, vgCidrToStr o r.cidr ∈ us.map UndropCall.cidr → r.cidr ≠ q := by
      constructor
      · rintro hnone r hr hmem rfl
        obtain ⟨u, hu, hcidr⟩ := List.mem_map.mp hmem
        exact hnone u hu (hcidr ▸ (hundroppable r hr).parsed)
      · intro hnone u hu hparse
        obtain ⟨r, hr, hcidr⟩ := hlisted u hu
        rw [hcidr, (hundroppable r hr).parsed, Option.some.injEq] at hparse
        exact hnone r hr (hcidr ▸ List.mem_map_of_mem hu) hparse
    obtain ⟨hres, hrecords, hkeys⟩ := undropAll_spec lua o h hcalm fun u hu => by
      obtain ⟨r, hr, hcidr⟩ := hlisted u hu
      rw [hcidr]
      exact ⟨⟨r.cidr, hundroppable r hr⟩, (hus u hu).2⟩
    refine ⟨hres, ?_, fun f q => (hkeys f q).trans (and_congr_right fun _ => hnames q)⟩
    rw [hrecords]
    refine List.filter_congr fun r hr => decide_eq_decide.mpr ((hnames r.cidr).trans ?_)
    refine ⟨fun hnone hmem => hnone r hr hmem rfl, fun hnot r' _ hmem heq => ?_⟩
    exact hnot (heq ▸ hmem)

end Undrop

/-- A host that prints the addresses of the guests, at a fixed time. -/
def guestOutside : Outside :=
  { steadyOutside with
    inetNtop := fun _ a => if a = octetsOf [198, 18, 0, 1] then bytes "198.18.0.1" else bytes "203.0.113.9"
    time := fun _ => 1000001 }

/-- Both guests are dropped. -/
def guestListed : VgCtrl :=
  step guestEnv (step guestEnv guestStart (.drop (sampleHost [203, 0, 113, 9])))
    (.drop (sampleHost [198, 18, 0, 1]))

private theorem addressTexts_guestEnv : AddressTexts guestEnv.inetPton := by
  have hguest : ∀ t ∈ [bytes "203.0.113.9", bytes "198.18.0.1"],
      (∀ b ∈ t, isAddrByte b = true) ∧ t.length ≤ 45 ∧ textFamily t = .inet := by decide +kernel
  have hcases {f : Family} {t : List UInt8} {addr : Octets} (h : guestEnv.inetPton f t = some addr) :
      (f = .inet ∧ t ∈ [bytes "203.0.113.9", bytes "198.18.0.1"]) ∨ samplePton f t = some addr := by
    simp only [guestEnv] at h
    split_ifs at h with hfirst hsecond
    · exact .inl ⟨hfirst.1, by simp [hfirst.2]⟩
    · exact .inl ⟨hsecond.1, by simp [hsecond.2]⟩
    · exact .inr h
  constructor
  · intro f t addr h
    rcases hcases h with ⟨-, ht⟩ | h
    · exact (hguest t ht).1
    · exact addressTexts_samplePton.addrBytes h
  · intro f t addr h
    rcases hcases h with ⟨-, ht⟩ | h
    · exact (hguest t ht).2.1
    · exact addressTexts_samplePton.length_le h
  · intro f t addr h
    rcases hcases h with ⟨rfl, ht⟩ | h
    · exact (hguest t ht).2.2.symm
    · exact addressTexts_samplePton.family_eq h

/-- The first guest is lifted. -/
def guestLift : List UndropCall := [⟨bytes "203.0.113.9/32", [.upTo 5, .eintr], [.upTo 0]⟩]

private theorem printsList_guestListed : PrintsList guestEnv.inetPton guestOutside guestListed := by
  obtain ⟨hages, hlisted, hfirst, hsecond⟩ :
      (∀ r ∈ guestListed.drops.records, (1000001 - r.inserted).natAbs < 2 ^ 53) ∧
        guestListed.drops.prefixes =
          [(sampleHost [203, 0, 113, 9]).1, (sampleHost [198, 18, 0, 1]).1] ∧
        guestEnv.inetPton .inet (guestOutside.inetNtop .inet (sampleHost [203, 0, 113, 9]).1.addr) =
          some (octetsOf [203, 0, 113, 9]) ∧
        guestEnv.inetPton .inet (guestOutside.inetNtop .inet (sampleHost [198, 18, 0, 1]).1.addr) =
          some (octetsOf [198, 18, 0, 1]) := by
    decide +kernel
  obtain ⟨htexts, hno⟩ : (∀ t ∈ [bytes "198.18.0.1", bytes "203.0.113.9"],
      t.length ≤ 39 ∧ ∀ b ∈ t, isspace b = false) ∧
        ∀ t ∈ [bytes "198.18.0.1", bytes "203.0.113.9"], ¬ bytes "error" <+: t := by decide +kernel
  have hntop (f : Family) (a : Octets) :
      guestOutside.inetNtop f a ∈ [bytes "198.18.0.1", bytes "203.0.113.9"] := by
    simp only [guestOutside]
    split_ifs
    · exact List.mem_cons_self
    · exact List.mem_cons_of_mem _ List.mem_cons_self
  refine ⟨⟨fun f a => (htexts _ (hntop f a)).1, fun f a => (htexts _ (hntop f a)).2⟩,
    fun f a => hno _ (hntop f a), fun i r hr => hages r (List.mem_of_getElem? hr),
    addressTexts_guestEnv, fun p hp => ?_⟩
  rw [hlisted, List.mem_pair] at hp
  rcases hp with rfl | rfl
  · exact ⟨_, hfirst, rfl⟩
  · exact ⟨_, hsecond, rfl⟩

/-- The other guest stays on the list and in the map. -/
theorem listed_drops_lift_guest :
    ctlDrops guestOutside guestListed =
        bytes "203.0.113.9/32 reason=1 age=1\n198.18.0.1/32 reason=1 age=0\n" ∧
      (undropAll integerLua guestEnv guestOutside guestListed guestLift).1.drops.prefixes =
        [(sampleHost [198, 18, 0, 1]).1] ∧
      ∀ q, q ∈ ((undropAll integerLua guestEnv guestOutside guestListed
        guestLift).1.maps.kernel.lpm (.drop .inet)).keys ↔ q = (sampleHost [198, 18, 0, 1]).1 := by
  have hstart : Reachable guestEnv guestStart := ⟨_, _, _, _, _, (Option.some_get _).symm, .start⟩
  have hreach : Reachable guestEnv guestListed := (hstart.step _).step _
  obtain ⟨htext, hentries, hkept, hkeys, hother, hgone⟩ :
      ctlDrops guestOutside guestListed =
          bytes "203.0.113.9/32 reason=1 age=1\n198.18.0.1/32 reason=1 age=0\n" ∧
        (luaEntries guestOutside guestListed.drops).map LuaDrop.cidr =
          [bytes "203.0.113.9/32", bytes "198.18.0.1/32"] ∧
        (guestListed.drops.records.filter fun r => decide (vgCidrToStr guestOutside r.cidr ∉
          guestLift.map UndropCall.cidr)).map VgDropRec.cidr = [(sampleHost [198, 18, 0, 1]).1] ∧
        (guestListed.maps.kernel.lpm (.drop .inet)).keys.Perm
          [(sampleHost [203, 0, 113, 9]).1, (sampleHost [198, 18, 0, 1]).1] ∧
        (∀ r ∈ guestListed.drops.records, vgCidrToStr guestOutside r.cidr ∈
          guestLift.map UndropCall.cidr → r.cidr ≠ (sampleHost [198, 18, 0, 1]).1) ∧
        ∃ r ∈ guestListed.drops.records, vgCidrToStr guestOutside r.cidr ∈
          guestLift.map UndropCall.cidr ∧ r.cidr = (sampleHost [203, 0, 113, 9]).1 := by
    decide +kernel
  obtain ⟨j, hl, -, hlift⟩ :=
    listed_drops_lift hreach (fun _ _ => rfl) readsIntegers_integerLua printsList_guestListed
  obtain ⟨d, rest, hd, hcidr, -⟩ := List.map_eq_cons_iff.mp hentries
  have hlen : 0 < guestListed.drops.records.length := by
    obtain ⟨r, hr, -⟩ := hgone
    exact List.length_pos_of_mem hr
  have hj : 0 < j := (hl.room 0 hlen).mpr (by simp [replySize])
  obtain ⟨-, hrecords, hmaps⟩ := hlift guestLift fun u hu => by
    obtain rfl := List.mem_singleton.mp hu
    refine ⟨⟨d, ?_, hcidr.symm⟩, by decide, by decide⟩
    rw [hd, List.take_cons hj]
    exact List.mem_cons_self
  refine ⟨htext, by rw [DropTable.prefixes, hrecords, hkept], fun q => ?_⟩
  rw [hmaps, hkeys.mem_iff, List.mem_pair]
  constructor
  · rintro ⟨rfl | rfl, hnone⟩
    · obtain ⟨r, hr, hchosen, hcidr'⟩ := hgone
      exact absurd hcidr' (hnone r hr hchosen)
    · rfl
  · rintro rfl
    exact ⟨.inr rfl, hother⟩

end VoidGate
