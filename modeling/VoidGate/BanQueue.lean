import VoidGate.ExpiringMarks
import VoidGate.LuaClient

/-!
# Bans of many workers

With `opt.dict` a call of `M.ban` first marks its address in a dict that all workers
share, for a window, and then asks for a timer; a call that finds the mark returns
`true` at once. The mark and the timer are two effects, and calls of other workers come
between them. The marks alone keep the timers of one address a window apart, but what a
call says that has found a mark depends on the timer of the call that set it.
-/

namespace VoidGate

open ExpiringMarks

/-- `dict:add` fails for a reason of its own. -/
inductive DictFault where
  | noDict (name : List UInt8)
  | failed (err : List UInt8)
  deriving DecidableEq

/-- A call of `M.ban` with `opt.dict`. -/
structure BanCall where
  ip : LuaValue
  ttl : LuaValue
  window : Option ℚ
  fault : Option DictFault
  deriving DecidableEq

/-- `opt.window or 10`. -/
def BanCall.seconds (call : BanCall) : ℚ := call.window.getD 10

/-- How far a call has got. It has returned an error, or `true` for a known address; or it has
marked the address and will call `ngx.timer.at`; or that has queued the timer, or failed. -/
inductive BanPhase where
  | refused (err : List UInt8)
  | known
  | marked (cidr : List UInt8) (ttl : LuaNumber)
  | queued (cidr : List UInt8) (ttl : LuaNumber)
  | failed (cidr : List UInt8) (err : List UInt8)
  deriving DecidableEq

/-- A call that came to the dict at `now`. -/
structure BanRecord where
  call : BanCall
  now : ℚ
  phase : BanPhase
  deriving DecidableEq

structure BanState where
  dict : Marks (List UInt8) ℚ
  clock : ℚ
  calls : List BanRecord

def BanState.start : BanState := ⟨.empty, 0, []⟩

/-- What happens next: a worker makes a call up to its timer, or call number `i` asks for its
timer and gets this error, if any. -/
inductive BanEvent where
  | call (now : ℚ) (call : BanCall)
  | timerAt (i : ℕ) (err : Option (List UInt8))

def dictAdd (dict : Marks (List UInt8) ℚ) (now : ℚ) (call : BanCall) (cidr : List UInt8) :
    Marks (List UInt8) ℚ × DictAdd :=
  match call.fault with
  | some (.noDict name) => (dict, .noDict name)
  | some (.failed err) => (dict, .failed err)
  | none =>
    match dict.add cidr now (now + call.seconds) with
    | none => (dict, .present)
    | some dict => (dict, .added)

def BanResult.phase : BanResult → BanPhase
  | .error err => .refused err
  | .known => .known
  | .timer cidr ttl => .marked cidr ttl

section Steps
variable (lua : LuaMachine)

/-- `M.ban` up to `ngx.timer.at`. The dict comes after the checks of the arguments. -/
def banCall (dict : Marks (List UInt8) ℚ) (now : ℚ) (call : BanCall) :
    Marks (List UInt8) ℚ × BanPhase :=
  match hostCidr call.ip, checkTtl lua call.ttl with
  | some cidr, some _ =>
    let d := dictAdd dict now call cidr
    (d.1, (ban lua call.ip call.ttl (some d.2)).phase)
  | _, _ => (dict, (ban lua call.ip call.ttl none).phase)

/-- What `ngx.timer.at` makes of a call that has marked its address. -/
def BanRecord.timerAt (err : Option (List UInt8)) (a : BanRecord) : BanRecord :=
  match a.phase, err with
  | .marked cidr ttl, none => { a with phase := .queued cidr ttl }
  | .marked cidr _, some err => { a with phase := .failed cidr err }
  | _, _ => a

def banStep (s : BanState) : BanEvent → BanState
  | .call now call =>
    let r := banCall lua s.dict now call
    ⟨r.1, now, s.calls ++ [⟨call, now, r.2⟩]⟩
  | .timerAt i err => { s with calls := s.calls.modify i (BanRecord.timerAt err) }

end Steps

/-- Time does not run backwards. -/
def ClockSteady (s : BanState) : BanEvent → Prop
  | .call now _ => s.clock ≤ now
  | .timerAt _ _ => True

def BanRecord.claim (a : BanRecord) : Option (Claim (List UInt8) ℚ) :=
  match a.phase with
  | .refused _ => none
  | .known => none
  | .marked cidr _ => some ⟨cidr, a.now, a.now + a.call.seconds⟩
  | .queued cidr _ => some ⟨cidr, a.now, a.now + a.call.seconds⟩
  | .failed cidr _ => some ⟨cidr, a.now, a.now + a.call.seconds⟩

/-- The entry of the call marks `cidr` and has not expired at `t`. -/
def BanRecord.Holds (a : BanRecord) (cidr : List UInt8) (t : ℚ) : Prop :=
  ∃ c, a.claim = some c ∧ c.key = cidr ∧ t < c.closes

def BanRecord.Queued (a : BanRecord) (cidr : List UInt8) : Prop := ∃ ttl, a.phase = .queued cidr ttl

def BanRecord.ReturnsTrue (a : BanRecord) : Prop := a.phase = .known ∨ ∃ cidr, a.Queued cidr

/-- The timers of one address lie at least a window apart. -/
def OncePerWindow (s : BanState) : Prop :=
  s.calls.Pairwise fun a b => ∀ cidr, a.Queued cidr → b.Queued cidr →
    a.now + a.call.seconds ≤ b.now

/-- Whoever was told `true` has a timer queued, or some other call has whose entry had not expired
by then. -/
def TrueToQueue (s : BanState) : Prop :=
  ∀ b ∈ s.calls, b.ReturnsTrue → ∃ cidr, hostCidr b.call.ip = some cidr ∧
    (b.Queued cidr ∨ ∃ a ∈ s.calls, a.Queued cidr ∧ a.now ≤ b.now ∧ a.Holds cidr b.now)

/-- The event is no call that finds the entry of a call without a timer. -/
def FindsQueued (s : BanState) : BanEvent → Prop
  | .call now call => ∀ cidr, hostCidr call.ip = some cidr → ∀ a ∈ s.calls, a.Holds cidr now →
      a.Queued cidr
  | .timerAt _ _ => True

variable {lua : LuaMachine} {s : BanState} {now : ℚ}

theorem banCall_cases (lua : LuaMachine) (dict : Marks (List UInt8) ℚ) (now : ℚ) (call : BanCall) :
    (∃ err, banCall lua dict now call = (dict, .refused err)) ∨
      ∃ cidr, hostCidr call.ip = some cidr ∧
        ((dict.Live cidr now ∧ banCall lua dict now call = (dict, .known)) ∨
          ∃ dict' ttl, dict.add cidr now (now + call.seconds) = some dict' ∧
            banCall lua dict now call = (dict', .marked cidr ttl)) := by
  cases hip : hostCidr call.ip with
  | none => exact .inl ⟨bytes "bad ip", by simp [banCall, hip, ban, BanResult.phase]⟩
  | some cidr =>
    cases httl : checkTtl lua call.ttl with
    | none => exact .inl ⟨bytes "bad ttl", by simp [banCall, hip, httl, ban, BanResult.phase]⟩
    | some ttl =>
      have hcall : banCall lua dict now call = ((dictAdd dict now call cidr).1,
          (ban lua call.ip call.ttl (some (dictAdd dict now call cidr).2)).phase) := by
        simp only [banCall, hip, httl]
      rw [hcall, ban, hip, httl]
      rcases hf : call.fault with _ | ⟨name⟩ | ⟨err⟩
      · refine .inr ⟨cidr, rfl, ?_⟩
        cases hadd : dict.add cidr now (now + call.seconds) with
        | none =>
          exact .inl ⟨Marks.add_eq_none_iff.mp hadd, by simp [dictAdd, hf, hadd, BanResult.phase]⟩
        | some dict' =>
          exact .inr ⟨dict', ttl, rfl, by simp [dictAdd, hf, hadd, BanResult.phase]⟩
      · exact .inl ⟨bytes "no lua_shared_dict " ++ name, by simp [dictAdd, hf, BanResult.phase]⟩
      · exact .inl ⟨err, by simp [dictAdd, hf, BanResult.phase]⟩

/-- `ngx.timer.at` has answered a call that had marked its address. -/
inductive Answered (a : BanRecord) : BanRecord → Prop where
  | queued {cidr : List UInt8} {ttl : LuaNumber} (marked : a.phase = .marked cidr ttl) :
      Answered a { a with phase := .queued cidr ttl }
  | failed {cidr : List UInt8} {ttl : LuaNumber} {err : List UInt8}
      (marked : a.phase = .marked cidr ttl) : Answered a { a with phase := .failed cidr err }

private theorem BanRecord.timerAt_cases (a : BanRecord) (err : Option (List UInt8)) :
    a.timerAt err = a ∨ Answered a (a.timerAt err) := by
  rcases hp : a.phase with _ | _ | ⟨cidr, ttl⟩ | _ | _
  · exact .inl (by simp only [timerAt, hp])
  · exact .inl (by simp only [timerAt, hp])
  · cases err with
    | none =>
      simp only [timerAt, hp]
      exact .inr (.queued hp)
    | some err =>
      simp only [timerAt, hp]
      exact .inr (.failed hp)
  · exact .inl (by simp only [timerAt, hp])
  · exact .inl (by simp only [timerAt, hp])

theorem banStep_timerAt (lua : LuaMachine) (s : BanState) (i : ℕ) (err : Option (List UInt8)) :
    banStep lua s (.timerAt i err) = s ∨
      ∃ pre a a' post, s.calls = pre ++ a :: post ∧ Answered a a' ∧
        banStep lua s (.timerAt i err) = { s with calls := pre ++ a' :: post } := by
  rw [banStep]
  by_cases hi : i < s.calls.length
  · obtain ⟨pre, a, post, hcalls, -, hmod⟩ := List.exists_of_modify (BanRecord.timerAt err) hi
    rw [hmod]
    rcases a.timerAt_cases err with he | he
    · exact .inl (by rw [he, ← hcalls])
    · exact .inr ⟨pre, a, _, post, hcalls, he, rfl⟩
  · refine .inl ?_
    rw [List.modify_eq_self (not_lt.mp hi)]

theorem Answered.same {a a' : BanRecord} (h : Answered a a') :
    a'.call = a.call ∧ a'.now = a.now ∧ a'.claim = a.claim := by
  cases h with
  | queued hp => exact ⟨rfl, rfl, by simp only [BanRecord.claim, hp]⟩
  | failed hp => exact ⟨rfl, rfl, by simp only [BanRecord.claim, hp]⟩

theorem Answered.phase {a a' : BanRecord} (h : Answered a a') :
    a.phase ≠ .known ∧ (∀ cidr, ¬ a.Queued cidr) ∧ a'.phase ≠ .known := by
  cases h with
  | queued hp => exact ⟨by simp [hp], by simp [BanRecord.Queued, hp], by simp⟩
  | failed hp => exact ⟨by simp [hp], by simp [BanRecord.Queued, hp], by simp⟩

theorem BanRecord.Queued.claim {a : BanRecord} {cidr : List UInt8} (h : a.Queued cidr) :
    a.claim = some ⟨cidr, a.now, a.now + a.call.seconds⟩ := by
  obtain ⟨ttl, hp⟩ := h
  simp only [BanRecord.claim, hp]

theorem BanRecord.claim_now {a : BanRecord} {c : Claim (List UInt8) ℚ} (h : a.claim = some c) :
    c.opened = a.now ∧ c.closes = a.now + a.call.seconds := by
  rw [BanRecord.claim] at h
  cases hp : a.phase <;> simp only [hp, reduceCtorEq, Option.some.injEq] at h <;>
    exact h ▸ ⟨rfl, rfl⟩

/-- What every run keeps: the dict holds what the calls have marked, each call its own address, and
whoever found a mark was not alone. -/
structure BanBooks (s : BanState) : Prop where
  left : LeftBy s.dict (s.calls.filterMap BanRecord.claim) s.clock
  own : ∀ a ∈ s.calls, ∀ c, a.claim = some c → hostCidr a.call.ip = some c.key
  known : ∀ b ∈ s.calls, b.phase = .known → ∃ cidr, hostCidr b.call.ip = some cidr ∧
    ∃ a ∈ s.calls, a.now ≤ b.now ∧ a.Holds cidr b.now

theorem BanBooks.live_iff (h : BanBooks s) (hnow : s.clock ≤ now) (cidr : List UInt8) :
    s.dict.Live cidr now ↔ ∃ a ∈ s.calls, a.now ≤ now ∧ a.Holds cidr now := by
  rw [h.left.live_iff cidr now hnow]
  constructor
  · rintro ⟨c, hc, hkey, hlt⟩
    obtain ⟨a, ha, hac⟩ := List.mem_filterMap.mp hc
    have hpast := (BanRecord.claim_now hac).1 ▸ h.left.past c hc
    exact ⟨a, ha, hpast.trans hnow, c, hac, hkey, hlt⟩
  · rintro ⟨a, ha, -, c, hac, hkey, hlt⟩
    exact ⟨c, List.mem_filterMap.mpr ⟨a, ha, hac⟩, hkey, hlt⟩

/-- One more record, and earlier ones stay as they are. -/
theorem BanBooks.snoc (h : BanBooks s) {r : BanRecord} {dict : Marks (List UInt8) ℚ}
    (left : LeftBy dict (s.calls.filterMap BanRecord.claim ++ r.claim.toList) now)
    (own : ∀ c, r.claim = some c → hostCidr r.call.ip = some c.key)
    (known : r.phase = .known → ∃ cidr, hostCidr r.call.ip = some cidr ∧
      ∃ a ∈ s.calls, a.now ≤ r.now ∧ a.Holds cidr r.now) :
    BanBooks ⟨dict, now, s.calls ++ [r]⟩ where
  left := by
    have hlast : [r].filterMap BanRecord.claim = r.claim.toList := by
      cases hc : r.claim <;> simp [hc]
    rwa [List.filterMap_append, hlast]
  own a ha := by
    rcases List.mem_append.mp ha with ha | ha
    · exact h.own a ha
    · exact List.mem_singleton.mp ha ▸ own
  known b hb hp := by
    have hfound : ∃ cidr, hostCidr b.call.ip = some cidr ∧
        ∃ a ∈ s.calls, a.now ≤ b.now ∧ a.Holds cidr b.now := by
      rcases List.mem_append.mp hb with hb | hb
      · exact h.known b hb hp
      · obtain rfl := List.mem_singleton.mp hb
        exact known hp
    obtain ⟨cidr, hip, a, ha, hrest⟩ := hfound
    exact ⟨cidr, hip, a, List.mem_append_left _ ha, hrest⟩

theorem BanBooks.called (h : BanBooks s) (hnow : s.clock ≤ now) (call : BanCall) :
    BanBooks (banStep lua s (.call now call)) := by
  have hleft := h.left.later hnow
  rw [banStep]
  rcases banCall_cases lua s.dict now call with
    ⟨err, he⟩ | ⟨cidr, hip, ⟨hlive, he⟩ | ⟨dict', ttl, hadd, he⟩⟩
  all_goals rw [he]
  · exact h.snoc (by simpa [BanRecord.claim] using hleft) (fun c hc => by cases hc)
      (fun hp => by cases hp)
  · refine h.snoc (by simpa [BanRecord.claim] using hleft) (fun c hc => by cases hc) fun _ => ?_
    exact ⟨cidr, hip, (h.live_iff hnow cidr).mp hlive⟩
  · refine h.snoc (hleft.add hadd) (fun c hc => ?_) (fun hp => by cases hp)
    obtain rfl : (⟨cidr, now, now + call.seconds⟩ : Claim (List UInt8) ℚ) = c := Option.some.inj hc
    exact hip

/-- An answer of `ngx.timer.at` changes neither addresses nor entries. -/
theorem BanBooks.answered {pre post : List BanRecord} {a a' : BanRecord} (h : BanBooks s)
    (hcalls : s.calls = pre ++ a :: post) (ha : Answered a a') :
    BanBooks { s with calls := pre ++ a' :: post } := by
  obtain ⟨hcall, hnow, hclaim⟩ := ha.same
  -- every record is there as it was, or it is the one that has its answer
  have hmem : ∀ b ∈ pre ++ a' :: post, ∃ b₀ ∈ s.calls, b.call = b₀.call ∧ b.now = b₀.now ∧
      b.claim = b₀.claim ∧ (b.phase = .known → b₀.phase = .known) := by
    intro b hb
    rw [hcalls]
    rcases List.mem_append.mp hb with hb | hb
    · exact ⟨b, List.mem_append_left _ hb, rfl, rfl, rfl, id⟩
    · rcases List.mem_cons.mp hb with rfl | hb
      · exact ⟨a, by simp, hcall, hnow, hclaim, fun hp => absurd hp ha.phase.2.2⟩
      · exact ⟨b, by simp [hb], rfl, rfl, rfl, id⟩
  refine ⟨?_, fun b hb c hc => ?_, fun b hb hp => ?_⟩
  · have hleft := h.left
    rw [hcalls] at hleft
    simpa [List.filterMap_append, List.filterMap_cons, hclaim] using hleft
  · obtain ⟨b₀, hb₀, hcall₀, -, hclaim₀, -⟩ := hmem b hb
    rw [hcall₀]
    exact h.own b₀ hb₀ c (hclaim₀ ▸ hc)
  · obtain ⟨b₀, hb₀, hcall₀, hnow₀, -, hp₀⟩ := hmem b hb
    obtain ⟨cidr, hip, x, hx, hle, hholds⟩ := h.known b₀ hb₀ (hp₀ hp)
    rw [hcall₀, hnow₀]
    refine ⟨cidr, hip, ?_⟩
    rw [hcalls] at hx
    by_cases hxa : x = a
    · subst hxa
      exact ⟨a', by simp, hnow ▸ hle, by rw [BanRecord.Holds, hclaim]; exact hholds⟩
    · have hx' : x ∈ pre ∨ x ∈ post := by simpa [hxa] using hx
      have hkept : x ∈ pre ++ a' :: post :=
        List.mem_append.mpr (hx'.imp id (List.mem_cons_of_mem a'))
      exact ⟨x, hkept, hle, hholds⟩

theorem BanBooks.step (h : BanBooks s) {e : BanEvent} (he : ClockSteady s e) :
    BanBooks (banStep lua s e) := by
  cases e with
  | call now call => exact h.called he call
  | timerAt i err =>
    rcases banStep_timerAt lua s i err with hs | ⟨pre, a, a', post, hcalls, ha, hs⟩
    · rw [hs]
      exact h
    · rw [hs]
      exact h.answered hcalls ha

/-- The entries of one address do not overlap, so there are no two at any time. -/
theorem BanBooks.apart (h : BanBooks s) : s.calls.Pairwise fun a b => ∀ c c', a.claim = some c →
    b.claim = some c' → c.key = c'.key → c.closes ≤ c'.opened :=
  (List.pairwise_filterMap.mp h.left.apart).imp fun hab c c' hc hc' => hab c hc c' hc'

private theorem BanBooks.oncePerWindow (h : BanBooks s) : OncePerWindow s :=
  h.apart.imp fun hab _ (ha : BanRecord.Queued _ _) (hb : BanRecord.Queued _ _) =>
    hab _ _ ha.claim hb.claim rfl

private theorem BanBooks.holds_unique (h : BanBooks s) {a b : BanRecord} {cidr : List UInt8}
    (ha : a ∈ s.calls) (hb : b ∈ s.calls) (han : a.now ≤ now) (hbn : b.now ≤ now)
    (hah : a.Holds cidr now) (hbh : b.Holds cidr now) : a = b := by
  by_contra hne
  obtain ⟨c, hac, hck, hlt⟩ := hah
  obtain ⟨c', hbc, hck', hlt'⟩ := hbh
  obtain ⟨pre, post, hcalls⟩ := List.append_of_mem ha
  have hapart := h.apart
  rw [hcalls] at hapart hb
  obtain ⟨-, hafter, hbefore⟩ := List.pairwise_append.mp hapart
  rcases List.mem_append.mp hb with hb | hb
  · have hle := hbefore b hb a List.mem_cons_self c' c hbc hac (hck'.trans hck.symm)
    rw [(BanRecord.claim_now hac).1] at hle
    exact absurd (hlt'.trans_le (hle.trans han)) (lt_irrefl _)
  · have hpost : b ∈ post := (List.mem_cons.mp hb).resolve_left (Ne.symm hne)
    have hle := (List.pairwise_cons.mp hafter).1 b hpost c c' hac hbc (hck.trans hck'.symm)
    rw [(BanRecord.claim_now hbc).1] at hle
    exact absurd (hlt.trans_le (hle.trans hbn)) (lt_irrefl _)

theorem TrueToQueue.answered {pre post : List BanRecord} {a a' : BanRecord} (h : TrueToQueue s)
    (hbooks : BanBooks { s with calls := pre ++ a' :: post })
    (hcalls : s.calls = pre ++ a :: post) (ha : Answered a a') :
    TrueToQueue { s with calls := pre ++ a' :: post } := by
  have hkeep : ∀ x ∈ s.calls, x ≠ a → x ∈ pre ++ a' :: post := by
    intro x hx hxa
    have hx' : x ∈ pre ∨ x ∈ post := by simpa [hcalls, hxa] using hx
    exact List.mem_append.mpr (hx'.imp id (List.mem_cons_of_mem a'))
  intro b hb hret
  by_cases hba : b = a'
  · subst hba
    rcases hret with hk | ⟨cidr, hq⟩
    · exact absurd hk ha.phase.2.2
    · exact ⟨cidr, hbooks.own b hb _ hq.claim, .inl hq⟩
  · have hold : b ∈ s.calls := by
      have hb' : b ∈ pre ∨ b ∈ post := by simpa [hba] using hb
      rw [hcalls]
      exact List.mem_append.mpr (hb'.imp id (List.mem_cons_of_mem a))
    obtain ⟨cidr, hip, hq | ⟨x, hx, hq, hrest⟩⟩ := h b hold hret
    · exact ⟨cidr, hip, .inl hq⟩
    · -- a call that has its timer is not the one that waited for the answer
      have hxa : x ≠ a := by
        rintro rfl
        exact ha.phase.2.1 cidr hq
      exact ⟨cidr, hip, .inr ⟨x, hkeep x hx hxa, hq, hrest⟩⟩

/-- A call keeps the promise if the entry it finds, if any, has its timer. -/
theorem TrueToQueue.called (h : TrueToQueue s) (hbooks : BanBooks s) (hnow : s.clock ≤ now)
    {call : BanCall} (hfinds : FindsQueued s (.call now call)) :
    TrueToQueue (banStep lua s (.call now call)) := by
  intro b hb hret
  rw [banStep] at hb ⊢
  rcases List.mem_append.mp hb with hb | hb
  · obtain ⟨cidr, hip, hq | ⟨a, ha, hrest⟩⟩ := h b hb hret
    · exact ⟨cidr, hip, .inl hq⟩
    · exact ⟨cidr, hip, .inr ⟨a, List.mem_append_left _ ha, hrest⟩⟩
  · obtain rfl := List.mem_singleton.mp hb
    rcases banCall_cases lua s.dict now call with
      ⟨err, he⟩ | ⟨cidr, hip, ⟨hlive, he⟩ | ⟨dict', ttl, hadd, he⟩⟩
    · rw [he] at hret
      rcases hret with hk | ⟨cidr, ttl, hk⟩ <;> cases hk
    · obtain ⟨a, ha, hle, hholds⟩ := (hbooks.live_iff hnow cidr).mp hlive
      have hq := hfinds cidr hip a ha hholds
      exact ⟨cidr, hip, .inr ⟨a, List.mem_append_left _ ha, hq, hle, hholds⟩⟩
    · rw [he] at hret
      rcases hret with hk | ⟨cidr, ttl, hk⟩ <;> cases hk

theorem TrueToQueue.step (h : TrueToQueue s) (hbooks : BanBooks s) {e : BanEvent} (he : ClockSteady s e)
    (hfinds : FindsQueued s e) : TrueToQueue (banStep lua s e) := by
  cases e with
  | call now call => exact h.called hbooks he hfinds
  | timerAt i err =>
    have hbooks' : BanBooks (banStep lua s (.timerAt i err)) := hbooks.step he
    rcases banStep_timerAt lua s i err with hs | ⟨pre, a, a', post, hcalls, ha, hs⟩
    · rw [hs]
      exact h
    · rw [hs] at hbooks' ⊢
      exact h.answered hbooks' hcalls ha

private theorem TrueToQueue.findsQueued {call : BanCall} (hbooks : BanBooks s) (hnow : s.clock ≤ now)
    (hknown : (banCall lua s.dict now call).2 = .known)
    (h : TrueToQueue (banStep lua s (.call now call))) : FindsQueued s (.call now call) := by
  intro cidr hip a ha hholds
  obtain ⟨cidr', hip', hq | ⟨x, hx, hq, hle, hx'⟩⟩ :=
    h ⟨call, now, (banCall lua s.dict now call).2⟩ (by simp [banStep]) (.inl hknown)
  · obtain ⟨ttl, hp⟩ := hq
    cases hknown.symm.trans hp
  · obtain rfl : cidr' = cidr := Option.some.inj (hip'.symm.trans hip)
    have hxs : x ∈ s.calls := by
      rcases List.mem_append.mp hx with hx | hx
      · exact hx
      · rw [List.mem_singleton.mp hx] at hq
        obtain ⟨ttl, hp⟩ := hq
        cases hknown.symm.trans hp
    have hpast : a.now ≤ now := by
      obtain ⟨c, hc, -⟩ := hholds
      rw [← (BanRecord.claim_now hc).1]
      exact (hbooks.left.past c (List.mem_filterMap.mpr ⟨a, ha, hc⟩)).trans hnow
    exact hbooks.holds_unique ha hxs hpast hle hholds hx' ▸ hq

private theorem BanBooks.trueToQueue (h : BanBooks s) (hdone : ∀ a ∈ s.calls, ∀ cidr ttl err,
    a.phase ≠ .marked cidr ttl ∧ a.phase ≠ .failed cidr err) : TrueToQueue s := by
  intro b hb hret
  rcases hret with hk | ⟨cidr, hq⟩
  · obtain ⟨cidr, hip, a, ha, hle, hholds⟩ := h.known b hb hk
    refine ⟨cidr, hip, .inr ⟨a, ha, ?_, hle, hholds⟩⟩
    obtain ⟨c, hc, rfl, -⟩ := hholds
    rw [BanRecord.claim] at hc
    cases hp : a.phase with
    | refused err => simp [hp] at hc
    | known => simp [hp] at hc
    | marked cidr ttl => exact absurd hp (hdone a ha cidr ttl []).1
    | queued cidr ttl =>
      simp only [hp, Option.some.injEq] at hc
      exact ⟨ttl, by rw [← hc]; exact hp⟩
    | failed cidr err => exact absurd hp (hdone a ha cidr (.finite 0) err).2
  · exact ⟨cidr, h.own b hb _ hq.claim, .inl hq⟩

theorem banBooks_start : BanBooks .start where
  left := leftBy_empty 0
  own := by simp [BanState.start]
  known := by simp [BanState.start]

/-- Timers of one address are queued at most once per window, in any interleaving and whatever
`ngx.timer.at` answers. In a run in which no call finds the entry of a call without a timer, every
`true` is the truth; so it is once all calls have their timers; and a call that finds an entry
keeps it so only if that call has its timer. -/
theorem ban_tells_truth (hrun : Runs.Reaches (banStep lua) ClockSteady .start s) :
    OncePerWindow s ∧
      (Runs.Reaches (banStep lua) (fun s e => ClockSteady s e ∧ FindsQueued s e) .start s →
        TrueToQueue s) ∧
      ((∀ a ∈ s.calls, ∀ cidr ttl err, a.phase ≠ .marked cidr ttl ∧ a.phase ≠ .failed cidr err) →
        TrueToQueue s) ∧
      ∀ now call, s.clock ≤ now → (banCall lua s.dict now call).2 = .known → TrueToQueue s →
        (TrueToQueue (banStep lua s (.call now call)) ↔ FindsQueued s (.call now call)) := by
  have hbooks : BanBooks s := hrun.invariant banBooks_start fun _ _ h he => h.step he
  refine ⟨hbooks.oncePerWindow, fun hcond => ?_, hbooks.trueToQueue, fun now call hnow hknown h => ?_⟩
  · have hnone : TrueToQueue .start := fun b hb => by cases hb
    exact (hcond.invariant (I := fun s => BanBooks s ∧ TrueToQueue s) ⟨banBooks_start, hnone⟩
      fun _ _ h he => ⟨h.1.step he.1, h.2.step h.1 he.1 he.2⟩).2
  · exact ⟨TrueToQueue.findsQueued hbooks hnow hknown, h.called hbooks hnow⟩

def sampleBan : BanCall := ⟨.string (bytes "203.0.113.7"), .number (.finite 600), none, none⟩

/-- Two workers ban it a second apart; the timer of the first one gets this error, if any. -/
def twoBans (err : Option (List UInt8)) : BanState :=
  [.call 1 sampleBan, .timerAt 0 err, .call 2 sampleBan].foldl (banStep plainLua) .start

theorem twoBans_reached (err : Option (List UInt8)) :
    Runs.Reaches (banStep plainLua) ClockSteady .start (twoBans err) := by
  have hfirst : ClockSteady .start (.call 1 sampleBan) := zero_le_one
  have hsecond : ClockSteady (banStep plainLua (banStep plainLua .start (.call 1 sampleBan))
      (.timerAt 0 err)) (.call 2 sampleBan) := one_le_two
  exact ((Runs.Reaches.start.next _ hfirst).next (BanEvent.timerAt 0 err) trivial).next _ hsecond

theorem ban_tells_truth_queued : Runs.Reaches (banStep plainLua) ClockSteady .start (twoBans none) ∧
    (twoBans none).calls.map BanRecord.phase =
      [.queued (bytes "203.0.113.7/32") (.finite 600), .known] ∧ TrueToQueue (twoBans none) := by
  have hphases : (twoBans none).calls.map BanRecord.phase =
      [.queued (bytes "203.0.113.7/32") (.finite 600), .known] := by decide +kernel
  refine ⟨twoBans_reached none, hphases, (ban_tells_truth (twoBans_reached none)).2.2.1 ?_⟩
  intro a ha cidr ttl err
  have hp : a.phase ∈ (twoBans none).calls.map BanRecord.phase := List.mem_map_of_mem ha
  rw [hphases] at hp
  constructor
  · rintro he
    simp [he] at hp
  · rintro he
    simp [he] at hp

/-- The timer of the first worker fails. The second one finds the mark and returns `true`, and
there is no timer. -/
theorem failed_timer_told_true : Runs.Reaches (banStep plainLua) ClockSteady .start
      (twoBans (some (bytes "too many pending timers"))) ∧
    (twoBans (some (bytes "too many pending timers"))).calls.map BanRecord.phase =
      [.failed (bytes "203.0.113.7/32") (bytes "too many pending timers"), .known] ∧
    ¬ TrueToQueue (twoBans (some (bytes "too many pending timers"))) := by
  have hphases : (twoBans (some (bytes "too many pending timers"))).calls.map BanRecord.phase =
      [.failed (bytes "203.0.113.7/32") (bytes "too many pending timers"), .known] := by
    decide +kernel
  have hnone : ∀ a ∈ (twoBans (some (bytes "too many pending timers"))).calls, ∀ cidr,
      ¬ a.Queued cidr := by
    rintro a ha cidr ⟨ttl, he⟩
    have hp : a.phase ∈ (twoBans (some (bytes "too many pending timers"))).calls.map
        BanRecord.phase := List.mem_map_of_mem ha
    rw [hphases, he] at hp
    simp at hp
  refine ⟨twoBans_reached _, hphases, fun h => ?_⟩
  have hknown : BanPhase.known ∈ (twoBans (some (bytes "too many pending timers"))).calls.map
      BanRecord.phase := by simp [hphases]
  obtain ⟨b, hb, hp⟩ := List.mem_map.mp hknown
  obtain ⟨cidr, -, hq | ⟨a, ha, hq, -⟩⟩ := h b hb (.inl hp)
  · exact hnone b hb cidr hq
  · exact hnone a ha cidr hq

end VoidGate
