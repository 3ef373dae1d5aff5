import VoidGate.OneDaemon

/-!
# Whom `-s stop` signals

`daemon_stop` reads the pid file and only then tests the lock. A start takes the lock
long before it writes its own pid over what an earlier daemon has left. The pid that is
signalled belongs to a process that holds the lock if the owner had written it before it
was read; a stop that falls between lock and pid signals whoever has the old number.
-/

namespace VoidGate

open LockFiles Runs

private theorem length_pidText (pid : Pid) : (pidText pid).length ≤ 31 := by
  have hlt : pid.1 < 10 ^ 10 := pid.2.2.trans (by decide)
  have hlen := Decimals.length_text_le (by decide) hlt
  rw [pidText, List.length_append]
  exact Nat.add_le_add hlen (by decide : (bytes "\n").length ≤ 21)

private theorem isdigit_start {d : UInt8} (h : isdigit d = true) : isspace d = false ∧ d ≠ 45 ∧ d ≠ 43 := by
  simp only [isdigit, Bool.and_eq_true, decide_eq_true_eq, UInt8.le_iff_toNat_le] at h
  refine ⟨?_, ?_, ?_⟩
  · simp only [isspace, Bool.or_eq_false_iff, Bool.and_eq_false_iff, beq_eq_false_iff_ne,
      decide_eq_false_iff_not, UInt8.le_iff_toNat_le]
    refine ⟨?_, .inr ?_⟩
    · rintro rfl
      exact absurd h.1 (by decide)
    · exact fun h13 => absurd (h.1.trans h13) (by decide)
  · rintro rfl
    exact absurd h.1 (by decide)
  · rintro rfl
    exact absurd h.1 (by decide)

private theorem toPidT_strtol_pidText (pid : Pid) : toPidT (strtol (pidText pid)) = pid.1 := by
  have hdigits : ∀ d ∈ Decimals.text pid.1, isdigit d = true :=
    fun _ hd => Decimals.isDigit_of_mem_text hd
  have hnum : (pidText pid).takeWhile isdigit = Decimals.text pid.1 := by
    rw [pidText, List.takeWhile_append_of_pos hdigits]
    exact List.append_nil _
  have hval : decimal (Decimals.text pid.1) = pid.1 := Decimals.valueFrom_text pid.1
  obtain ⟨d, ds, htext⟩ := List.exists_cons_of_ne_nil (Decimals.text_ne_nil pid.1)
  obtain ⟨hspace, hminus, hplus⟩ := isdigit_start (hdigits d (htext ▸ List.mem_cons_self))
  have hcons : pidText pid = d :: (ds ++ bytes "\n") := by rw [pidText, htext, List.cons_append]
  have hdrop : (pidText pid).dropWhile isspace = pidText pid := by
    rw [hcons, List.dropWhile_cons_of_neg (by simp [hspace])]
  have hhead : (pidText pid).head? = some d := by rw [hcons, List.head?_cons]
  have hsign : (some d == some (45 : UInt8)) = false ∧ (some d == some (43 : UInt8)) = false := by
    simp [hminus, hplus]
  have hpid := pid.2.2
  rw [strtol, hdrop]
  simp only [hhead, hsign, Bool.false_or, Bool.false_eq_true, if_false, hnum, hval]
  rw [min_eq_left (by omega), toPidT]
  omega

/-- The start has written its pid and not ended. -/
def Stage.written : Stage → Bool
  | .running | .sockClosed | .sockRemoved | .unlinked => true
  | _ => false

/-- The pid of the start is final. -/
def Stage.settled (s : Stage) : Bool := s.written || s == .gone

/-- The start has not tried the lock. -/
def Stage.early (s : Stage) : Bool := s == .idle || s == .opened

def Start.Tells (p : Start) (content : List UInt8) : Prop :=
  (p.stage = .truncated → content = []) ∧ (p.stage.written = true → content = pidText p.pid)

def Stage.alive (s : Stage) : Bool := s != .idle && s != .gone

private theorem Start.tells_of_file {p : Start} (h : p.phase.file ≠ some p.inode) (bs : List UInt8) :
    p.Tells bs := by
  cases hs : p.stage <;> simp_all [Start.phase, Phase.file, Start.Tells, Stage.written]

theorem Start.alive_of_file {p : Start} {i : ℕ} (h : p.phase.file = some i) :
    p.stage.alive = true := by
  cases hs : p.stage <;> simp_all [Start.phase, Phase.file, Stage.alive]

private theorem Stage.ne_idle_of_early {s : Stage} (h : s.early = false) : s ≠ .idle := by
  rintro rfl
  cases h

/-- A step that writes no file and takes no exclusive lock: the name may go, and locks may be given
back. -/
structure SameFiles (w w₁ : World) : Prop where
  starts : w₁.starts = w.starts
  stops : w₁.stops = w.stops
  content : w₁.content = w.content
  fresh : w₁.fresh = w.fresh
  path : ∀ i, w₁.path = some i → w.path = some i
  exclusive : ∀ i k, w₁.locks.exclusive i = some k → w.locks.exclusive i = some k

/-- A step of start `k`: `w₁` says what happens to the files and `p'` what becomes of the start, and
`acquires` whether it takes the lock of its file. -/
structure Moves (w : World) (k : ℕ) (acquires : Prop) (w₁ : World) (p' : Start) : Prop where
  starts : w₁.starts = w.starts
  stops : w₁.stops = w.stops
  sent : w₁.sent = w.sent
  fresh : w.fresh ≤ w₁.fresh
  path : ∀ i, w₁.path = some i → w.path = some i ∨ i < w₁.fresh
  content : ∀ i, w₁.content i = w.content i ∨ i = w.fresh ∨ (w.starts k).phase.file = some i
  exclusive : ∀ i k', w₁.locks.exclusive i = some k' → w.locks.exclusive i = some k' ∨
    k' = k ∧ (w.starts k).inode = i ∧ p'.inode = i ∧ p'.stage.early = false ∧ acquires
  inode : (w.starts k).stage ≠ .idle → p'.inode = (w.starts k).inode
  alive : p'.stage.alive = true → (w.starts k).stage.alive = true ∨ w₁.path = some p'.inode
  early : (w.starts k).stage.early = false → p'.stage.early = false
  settled : (w.starts k).stage.settled = true →
    p'.stage.settled = true ∧ p'.pid = (w.starts k).pid
  tells : (w.starts k).Tells (w.content (w.starts k).inode) → p'.Tells (w₁.content p'.inode)

/-- A start gets from stage `s` to stage `s'` without a word to its file. -/
def Stage.plain (s s' : Stage) : Bool :=
  (!s'.alive || s.alive) && (s.early || !s'.early) && (!s.settled || s'.settled) &&
    (s' != .truncated || s == .truncated) && (!s'.written || s.written)

section
variable {w w₁ : World} {k : ℕ} {call : Call} {acquires : Prop} {p' : Start}

theorem SameFiles.refl : SameFiles w w := ⟨rfl, rfl, rfl, rfl, fun _ h => h, fun _ _ h => h⟩

theorem SameFiles.unlink : SameFiles w { w with path := none } :=
  ⟨rfl, rfl, rfl, rfl, fun _ h => (nomatch h), fun _ _ h => h⟩

theorem SameFiles.socket (o : Option ℕ) : SameFiles w { w with sockPath := o } :=
  ⟨rfl, rfl, rfl, rfl, fun _ h => h, fun _ _ h => h⟩

private theorem SameFiles.signal (l : List Signal) : SameFiles w { w with sent := l } :=
  ⟨rfl, rfl, rfl, rfl, fun _ h => h, fun _ _ h => h⟩

theorem SameFiles.locks {t : LockTable ℕ ℕ ℕ} (h : t.exclusive = w.locks.exclusive) :
    SameFiles w { w with locks := t } :=
  ⟨rfl, rfl, rfl, rfl, fun _ h => h, fun i _ ho => (congrFun h i).symm.trans ho⟩

theorem SameFiles.dropLock (p : Start) : SameFiles w (w.dropLock k p) := by
  rcases w.dropLock_cases p with h | h <;> rw [h]
  · exact .refl
  · refine ⟨rfl, rfl, rfl, rfl, fun _ h => h, fun i k' hown => ?_⟩
    rcases w.locks.releaseExclusive_cases p.inode k i with heq | ⟨-, hnone⟩
    · exact heq.symm.trans hown
    · cases hnone.symm.trans hown

/-- The steps that do nothing to the file. -/
theorem Moves.plain (hw : SameFiles w w₁) (hsent : w₁.sent = w.sent)
    (hinode : p'.inode = (w.starts k).inode)
    (hpid : (w.starts k).stage.settled = true → p'.pid = (w.starts k).pid)
    (h : (w.starts k).stage.plain p'.stage = true) : Moves w k acquires w₁ p' := by
  simp only [Stage.plain, Bool.and_eq_true, Bool.or_eq_true, Bool.not_eq_true', bne_iff_ne,
    beq_iff_eq] at h
  obtain ⟨⟨⟨⟨halive, hearly⟩, hsettled⟩, htrunc⟩, hwritten⟩ := h
  refine ⟨hw.starts, hw.stops, hsent, hw.fresh.ge, fun i hi => .inl (hw.path i hi),
    fun i => .inl (congrFun hw.content i), fun i k' hi => .inl (hw.exclusive i k' hi),
    fun _ => hinode, ?_, ?_, ?_, ?_⟩
  · intro ha
    exact .inl (halive.resolve_left (by simp [ha]))
  · intro he
    exact hearly.resolve_left (by simp [he])
  · intro hs
    exact ⟨hsettled.resolve_left (by simp [hs]), hpid hs⟩
  · rintro ⟨hempty, htold⟩
    rw [hw.content, hinode]
    refine ⟨fun ht => hempty (htrunc.resolve_left (by simp [ht])), fun hwr => ?_⟩
    have hold := hwritten.resolve_left (by simp [hwr])
    rw [htold hold, hpid (by rw [Stage.settled, hold]; rfl)]

/-- The first system call: the file behind the name, or a new one. -/
theorem Moves.openNamed {pid : Pid} {i : ℕ} (hstage : (w.starts k).stage = .idle)
    (hpath : w.path = some i) : Moves w k acquires w
      { w.starts k with stage := .opened, pid := pid, inode := i } := by
  refine ⟨rfl, rfl, rfl, le_rfl, fun _ h => .inl h, fun _ => .inl rfl, fun _ _ h => .inl h, ?_,
    fun _ => .inr hpath, ?_, ?_, fun _ => ⟨?_, ?_⟩⟩ <;> simp [hstage, Stage.early, Stage.settled,
      Stage.written]

theorem Moves.openNew {pid : Pid} (hstage : (w.starts k).stage = .idle) : Moves w k acquires
    { w.write w.fresh [] with path := some w.fresh, fresh := w.fresh + 1 }
      { w.starts k with stage := .opened, pid := pid, inode := w.fresh } := by
  refine ⟨rfl, rfl, rfl, Nat.le_succ _, ?_, ?_, fun _ _ h => .inl h, ?_, fun _ => .inr rfl, ?_, ?_,
    fun _ => ⟨?_, ?_⟩⟩
  · rintro i ⟨⟩
    exact .inr (Nat.lt_succ_self _)
  · intro i
    by_cases hi : i = w.fresh
    · exact .inr (.inl hi)
    · exact .inl (Function.update_of_ne hi _ _)
  all_goals simp [hstage, Stage.early, Stage.settled, Stage.written]

/-- The start takes the lock of its file. -/
theorem Moves.acquire {t : LockTable ℕ ℕ ℕ} (hstage : (w.starts k).stage = .opened)
    (ht : w.locks.tryExclusive (w.starts k).inode k = some t) (hacq : acquires) :
    Moves w k acquires { w with locks := t } { w.starts k with stage := .locked } := by
  refine ⟨rfl, rfl, rfl, le_rfl, fun _ h => .inl h, fun _ => .inl rfl, ?_, fun _ => rfl, ?_, ?_, ?_,
    fun _ => ⟨?_, ?_⟩⟩
  · intro i k' hown
    rw [(LockTable.tryExclusive_some ht).2] at hown
    by_cases hi : i = (w.starts k).inode
    · subst hi
      rw [Function.update_self] at hown
      exact .inr ⟨(Option.some.inj hown).symm, rfl, rfl, rfl, hacq⟩
    · rw [Function.update_of_ne hi] at hown
      exact .inl hown
  all_goals simp [hstage, Stage.alive, Stage.early, Stage.settled, Stage.written]

/-- The start writes its file. -/
theorem Moves.write {bs : List UInt8} {s s' : Stage} (hstage : (w.starts k).stage = s)
    (hfile : (w.starts k).phase.file = some (w.starts k).inode) (hs : s.settled = false)
    (hs' : s'.early = false) (htells : (w.starts k).Tells (w.content (w.starts k).inode) →
      { w.starts k with stage := s' }.Tells bs) :
    Moves w k acquires (w.write (w.starts k).inode bs) { w.starts k with stage := s' } := by
  refine ⟨rfl, rfl, rfl, le_rfl, fun _ h => .inl h, ?_, fun _ _ h => .inl h, fun _ => rfl,
    fun _ => .inl (Start.alive_of_file hfile), fun _ => hs', ?_, ?_⟩
  · intro i
    by_cases hi : i = (w.starts k).inode
    · exact .inr (.inr (hi ▸ hfile))
    · exact .inl (Function.update_of_ne hi _ _)
  · rw [hstage, hs]
    exact fun h => (nomatch h)
  · intro h
    show Start.Tells _ (Function.update w.content _ bs _)
    rw [Function.update_self]
    exact htells h

/-- What becomes of the world when start `k` moves. -/
def StartSteps (w : World) (k : ℕ) (acquires : Prop) (w' : World) : Prop :=
  ∃ w₁ p', w' = w₁.setStart k p' ∧ Moves w k acquires w₁ p'

theorem startSteps_plain {s s' : Stage} (hstage : (w.starts k).stage = s) (hw : SameFiles w w₁)
    (hsent : w₁.sent = w.sent) (h : s.plain s' = true) (ctl : Bool) :
    StartSteps w k acquires (w₁.setStart k { w.starts k with stage := s', ctl := ctl }) :=
  ⟨w₁, _, rfl, .plain hw hsent rfl (fun _ => rfl) (by rw [hstage]; exact h)⟩

theorem Stage.plain_self (s : Stage) : s.plain s = true := by
  cases s <;> rfl

theorem startSteps_stay : StartSteps w k acquires w :=
  ⟨w, w.starts k, by simp [World.setStart], .plain .refl rfl rfl (fun _ => rfl) (Stage.plain_self _)⟩

def Acquires (w : World) (k : ℕ) (call : Call) : Prop :=
  call = .flock ∧ (w.locks.tryExclusive (w.starts k).inode k).isSome

private theorem startStep_steps {w' : World} (h : StartStep w k call w') :
    StartSteps w k (Acquires w k call) w' := by
  cases h with
  | stay => exact startSteps_stay
  | openNamed hstage hpath => exact ⟨_, _, rfl, .openNamed hstage hpath⟩
  | openNew hstage hpath => exact ⟨_, _, rfl, .openNew hstage⟩
  | acquire hstage ht => exact ⟨_, _, rfl, .acquire hstage ht ⟨rfl, by rw [ht]; rfl⟩⟩
  | enter hstage hpass => exact startSteps_plain hstage .refl rfl rfl _
  | fork hstage =>
    refine ⟨_, _, rfl, .plain .refl rfl rfl ?_ ?_⟩ <;> simp only [hstage]
    · exact fun h => absurd h (by decide)
    · rfl
  | next hstage hnext sock ctl =>
    exact startSteps_plain hstage (.socket sock) rfl (by cases hnext <;> rfl) ctl
  | truncate hstage =>
    refine ⟨_, _, rfl, .write hstage ?_ rfl rfl fun _ => ⟨fun _ => rfl, by simp [Stage.written]⟩⟩
    simp [Start.phase, hstage, Phase.file]
  | @pwrite n hstage =>
    have hfile : (w.starts k).phase.file = some (w.starts k).inode := by
      simp [Start.phase, hstage, Phase.file]
    refine ⟨_, _, rfl, .write hstage hfile rfl ?_ fun h => ?_⟩
    · split_ifs <;> rfl
    · split_ifs with hlen
      · refine ⟨by simp, fun _ => ?_⟩
        rw [h.1 hstage, List.drop_nil, List.append_nil, List.take_of_length_le hlen]
      · exact ⟨by simp, by simp [Stage.written]⟩
  | remove hstage hremoves =>
    exact startSteps_plain hstage .unlink rfl (by cases hremoves <;> rfl) _
  | close hstage => exact startSteps_plain hstage (.dropLock _) (by simp) rfl _

private theorem crash_steps : StartSteps w k False (w.crash k) := by
  have hplain : (w.starts k).stage.plain .gone = true := by cases (w.starts k).stage <;> rfl
  exact startSteps_plain rfl (.dropLock _) (by simp) hplain _

private theorem parentExit_steps : StartSteps w k False (w.parentExit k) := by
  have hplain := (w.starts k).stage.plain_self
  unfold World.parentExit
  dsimp only
  split
  · split_ifs
    · exact ⟨_, _, rfl, .plain (.dropLock _) (by simp) rfl (fun _ => rfl) hplain⟩
    · exact ⟨_, _, rfl, .plain .refl rfl rfl (fun _ => rfl) hplain⟩
  · exact startSteps_stay

end

/-- The events that leave `daemon_stop` with the pid of the lock's owner: it reads a locked file
only when the owner has written its pid, no start takes the lock of a file that it has read and not
tested, and when it tests the lock, the owner has not left it to its parent. -/
def Timely (w : World) : Event → Prop
  | .start k .flock => (w.locks.tryExclusive (w.starts k).inode k).isSome →
    ∀ j buf, w.stops j ≠ .read (w.starts k).inode buf
  | .stop j (.read _) => ∀ i, w.stops j = .opened i → ∀ k, w.locks.exclusive i = some k →
    (w.starts k).stage.written = true
  | .stop j .flock => ∀ i buf, w.stops j = .read i buf → ∀ k, w.locks.exclusive i = some k →
    (w.starts k).stage ≠ .gone
  | _ => True

/-- What `daemon_stop` has read is nothing, or the pid of one of `holders`. -/
def ReadFrom (buf : List UInt8) (holders : List Pid) : Prop :=
  buf = [] ∨ ∃ pid ∈ holders, buf = pidText pid

structure Truthful (w : World) : Prop where
  fresh : ∀ k, (w.starts k).stage.alive = true → (w.starts k).inode < w.fresh
  path : ∀ i, w.path = some i → i < w.fresh
  owner : ∀ i k, w.locks.exclusive i = some k →
    (w.starts k).inode = i ∧ (w.starts k).stage.early = false
  tells : ∀ k, (w.starts k).Tells (w.content (w.starts k).inode)
  reading : ∀ j i buf, w.stops j = .read i buf → ∀ k, w.locks.exclusive i = some k →
    (w.starts k).stage.settled = true ∧ ReadFrom buf [(w.starts k).pid]
  refused : ∀ j buf holders, w.stops j = .busy buf holders ∨ w.stops j = .closed buf holders →
    ReadFrom buf holders
  sent : ∀ sig ∈ w.sent, ∃ pid ∈ sig.holders, sig.target = pid.1

section
variable {w w₁ : World}

@[simp] theorem World.setStart_self (w : World) (k : ℕ) (p : Start) : (w.setStart k p).starts k = p := by
  simp [World.setStart]

section Moved
variable {k : ℕ} {acquires : Prop} {p' : Start} (hm : Moves w k acquires w₁ p')
include hm

theorem Moves.setStart_of_ne {k' : ℕ} (hk : k' ≠ k) :
    (w₁.setStart k p').starts k' = w.starts k' :=
  (Function.update_of_ne hk _ _).trans (congrFun hm.starts k')

theorem Truthful.moves_path (h : Truthful w) (i : ℕ) (hi : w₁.path = some i) : i < w₁.fresh := by
  rcases hm.path i hi with hold | hnew
  · exact (h.path i hold).trans_le hm.fresh
  · exact hnew

private theorem Truthful.moves_fresh (h : Truthful w) (k' : ℕ)
    (halive : ((w₁.setStart k p').starts k').stage.alive = true) :
    ((w₁.setStart k p').starts k').inode < w₁.fresh := by
  by_cases hk : k' = k
  · subst hk
    rw [World.setStart_self] at halive ⊢
    rcases hm.alive halive with hold | hnew
    · have hidle : (w.starts k').stage ≠ .idle := by
        intro he
        rw [he] at hold
        cases hold
      rw [hm.inode hidle]
      exact (h.fresh k' hold).trans_le hm.fresh
    · exact h.moves_path hm _ hnew
  · rw [hm.setStart_of_ne hk] at halive ⊢
    exact (h.fresh k' halive).trans_le hm.fresh

private theorem Truthful.moves_owner (h : Truthful w) (i k' : ℕ)
    (hown : w₁.locks.exclusive i = some k') :
    ((w₁.setStart k p').starts k').inode = i ∧
      ((w₁.setStart k p').starts k').stage.early = false := by
  rcases hm.exclusive i k' hown with hold | ⟨rfl, -, hi, hearly, -⟩
  · obtain ⟨hi, hearly⟩ := h.owner i k' hold
    by_cases hk : k' = k
    · subst hk
      rw [World.setStart_self]
      exact ⟨(hm.inode (Stage.ne_idle_of_early hearly)).trans hi, hm.early hearly⟩
    · rw [hm.setStart_of_ne hk]
      exact ⟨hi, hearly⟩
  · rw [World.setStart_self]
    exact ⟨hi, hearly⟩

private theorem Truthful.moves_tells (h : Truthful w) (hheld : Held w.view) (k' : ℕ) :
    ((w₁.setStart k p').starts k').Tells (w₁.content ((w₁.setStart k p').starts k').inode) := by
  by_cases hk : k' = k
  · subst hk
    rw [World.setStart_self]
    exact hm.tells (h.tells k')
  rw [hm.setStart_of_ne hk]
  by_cases hfile : (w.starts k').phase.file = some (w.starts k').inode
  · rcases hm.content (w.starts k').inode with hsame | hfresh | hother
    · rw [hsame]
      exact h.tells k'
    · exact absurd hfresh (h.fresh k' (Start.alive_of_file hfile)).ne
    · have hown : some k = some k' := (hheld k _ hother).symm.trans (hheld k' _ hfile)
      exact absurd (Option.some.inj hown).symm hk
  · exact Start.tells_of_file hfile _

private theorem Truthful.moves_reading (h : Truthful w)
    (htimely : acquires → ∀ j buf, w.stops j ≠ .read (w.starts k).inode buf) (j i : ℕ)
    (buf : List UInt8) (hread : w₁.stops j = .read i buf) (k' : ℕ)
    (hown : w₁.locks.exclusive i = some k') :
    ((w₁.setStart k p').starts k').stage.settled = true ∧
      ReadFrom buf [((w₁.setStart k p').starts k').pid] := by
  have hread' : w.stops j = .read i buf := (congrFun hm.stops j).symm.trans hread
  rcases hm.exclusive i k' hown with hold | ⟨-, hi, -, -, hacq⟩
  · obtain ⟨hsettled, hbuf⟩ := h.reading j i buf hread' k' hold
    by_cases hk : k' = k
    · subst hk
      rw [World.setStart_self, (hm.settled hsettled).2]
      exact ⟨(hm.settled hsettled).1, hbuf⟩
    · rw [hm.setStart_of_ne hk]
      exact ⟨hsettled, hbuf⟩
  · exact absurd (hi ▸ hread') (htimely hacq j buf)

/-- A step of a start. -/
theorem Truthful.moves (h : Truthful w) (hheld : Held w.view)
    (htimely : acquires → ∀ j buf, w.stops j ≠ .read (w.starts k).inode buf) :
    Truthful (w₁.setStart k p') := by
  have hpath := h.moves_path hm
  have hrefused : ∀ j buf holders, w₁.stops j = .busy buf holders ∨ w₁.stops j = .closed buf holders →
      ReadFrom buf holders := by
    rw [hm.stops]
    exact h.refused
  have hsent : ∀ sig ∈ w₁.sent, ∃ pid ∈ sig.holders, sig.target = pid.1 := by
    rw [hm.sent]
    exact h.sent
  exact ⟨h.moves_fresh hm, hpath, h.moves_owner hm, h.moves_tells hm hheld,
    h.moves_reading hm htimely, hrefused, hsent⟩

end Moved

theorem Truthful.setStop (h : Truthful w) (hw : SameFiles w w₁) {j : ℕ} {q : StopStage}
    (hsent : ∀ sig ∈ w₁.sent, ∃ pid ∈ sig.holders, sig.target = pid.1)
    (hread : ∀ i buf, q = .read i buf → ∀ k, w.locks.exclusive i = some k →
      (w.starts k).stage.settled = true ∧ ReadFrom buf [(w.starts k).pid])
    (hrefused : ∀ buf holders, q = .busy buf holders ∨ q = .closed buf holders →
      ReadFrom buf holders) : Truthful (w₁.setStop j q) := by
  have hstop : ∀ j', (w₁.setStop j q).stops j' = if j' = j then q else w.stops j' := by
    intro j'
    rw [World.setStop, hw.stops]
    exact Function.update_apply _ _ _ _
  refine ⟨?_, ?_, ?_, ?_, ?_, ?_, hsent⟩
  · show ∀ k, (w₁.starts k).stage.alive = true → (w₁.starts k).inode < w₁.fresh
    rw [hw.starts, hw.fresh]
    exact h.fresh
  · show ∀ i, w₁.path = some i → i < w₁.fresh
    rw [hw.fresh]
    exact fun i hi => h.path i (hw.path i hi)
  · show ∀ i k, w₁.locks.exclusive i = some k →
      (w₁.starts k).inode = i ∧ (w₁.starts k).stage.early = false
    rw [hw.starts]
    exact fun i k hi => h.owner i k (hw.exclusive i k hi)
  · show ∀ k, (w₁.starts k).Tells (w₁.content (w₁.starts k).inode)
    rw [hw.starts, hw.content]
    exact h.tells
  · intro j' i buf hj k hown
    show (w₁.starts k).stage.settled = true ∧ ReadFrom buf [(w₁.starts k).pid]
    rw [hw.starts]
    rw [hstop] at hj
    split_ifs at hj
    · exact hread i buf hj k (hw.exclusive i k hown)
    · exact h.reading j' i buf hj k (hw.exclusive i k hown)
  · intro j' buf holders hj
    rw [hstop] at hj
    split_ifs at hj
    · exact hrefused buf holders hj
    · exact h.refused j' buf holders hj

theorem Truthful.setStop_plain (h : Truthful w) (hw : SameFiles w w₁) (hs : w₁.sent = w.sent)
    {j : ℕ} {q : StopStage} (hread : ∀ i buf, q ≠ .read i buf)
    (hbusy : ∀ buf holders, q ≠ .busy buf holders ∧ q ≠ .closed buf holders) :
    Truthful (w₁.setStop j q) :=
  h.setStop hw (hs ▸ h.sent) (fun i buf hq => absurd hq (hread i buf))
    fun buf holders hq => (hq.elim (hbusy buf holders).1 (hbusy buf holders).2).elim

private theorem mem_lockPids {i k : ℕ} (hown : w.locks.exclusive i = some k)
    (hstage : (w.starts k).stage ≠ .gone) : (w.starts k).pid ∈ w.lockPids i := by
  rw [World.lockPids, hown]
  dsimp only
  rw [if_neg hstage]
  exact List.mem_append_left _ List.mem_cons_self

private theorem Truthful.readFrom_content (h : Truthful w) {i k : ℕ} (hown : w.locks.exclusive i = some k)
    (hwritten : (w.starts k).stage.written = true) (ok : Bool) :
    ReadFrom (if ok then (w.content i).take 31 else []) [(w.starts k).pid] := by
  cases ok with
  | false => exact .inl rfl
  | true =>
    refine .inr ⟨_, List.mem_singleton.mpr rfl, ?_⟩
    rw [← (h.owner i k hown).1, (h.tells k).2 hwritten]
    exact List.take_of_length_le (length_pidText _)

private theorem Truthful.readFrom_lockPids (h : Truthful w) {j i k : ℕ} {buf : List UInt8}
    (hj : w.stops j = .read i buf) (hown : w.locks.exclusive i = some k)
    (hstage : (w.starts k).stage ≠ .gone) : ReadFrom buf (w.lockPids i) := by
  rcases (h.reading j i buf hj k hown).2 with hnil | ⟨pid, hpid, hbuf⟩
  · exact .inl hnil
  · rw [List.mem_singleton] at hpid
    subst hpid
    exact .inr ⟨_, mem_lockPids hown hstage, hbuf⟩

private theorem Truthful.sent_cons (h : Truthful w) {j : ℕ} {buf : List UInt8} {holders : List Pid}
    (hj : w.stops j = .closed buf holders) (hbuf : buf ≠ []) :
    ∀ sig ∈ (⟨toPidT (strtol buf), holders⟩ :: w.sent : List Signal),
      ∃ pid ∈ sig.holders, sig.target = pid.1 := by
  intro sig hsig
  rcases List.mem_cons.mp hsig with rfl | hold
  · rcases h.refused j buf holders (.inr hj) with hnil | ⟨pid, hpid, rfl⟩
    · exact absurd hnil hbuf
    · exact ⟨pid, hpid, toPidT_strtol_pidText pid⟩
  · exact h.sent sig hold

theorem Truthful.stopCall (h : Truthful w) {j : ℕ} {call : StopCall}
    (ht : Timely w (.stop j call)) : Truthful (w.stopCall j call) := by
  unfold World.stopCall
  split
  · split <;> exact h.setStop_plain .refl rfl (by simp) (by simp)
  · rename_i i ok hj
    refine h.setStop .refl h.sent ?_ (by simp)
    intro i' buf hq k hown
    obtain ⟨rfl, rfl⟩ := StopStage.read.inj hq
    have hwritten := ht i hj k hown
    refine ⟨?_, h.readFrom_content hown hwritten ok⟩
    rw [Stage.settled, hwritten]
    rfl
  · rename_i i buf hj
    split
    · rename_i t hshared
      exact h.setStop_plain (.locks (LockTable.tryShared_some hshared).2) rfl (by simp) (by simp)
    · rename_i hshared
      obtain ⟨k, hown⟩ := LockTable.tryShared_none hshared
      refine h.setStop .refl h.sent (by simp) ?_
      intro buf' holders hq
      obtain ⟨rfl, rfl⟩ : buf = buf' ∧ w.lockPids i = holders := by simpa using hq
      exact h.readFrom_lockPids hj hown (ht i buf hj k hown)
  · exact h.setStop_plain (.locks (w.locks.releaseShared_exclusive _ j)) rfl (by simp) (by simp)
  · exact h.setStop_plain .unlink rfl (by simp) (by simp)
  · rename_i buf holders hj
    refine h.setStop .refl h.sent (by simp) ?_
    intro buf' holders' hq
    obtain ⟨rfl, rfl⟩ : buf = buf' ∧ holders = holders' := by simpa using hq
    exact h.refused j buf holders (.inl hj)
  · rename_i buf holders r hj
    split_ifs with hdie
    · exact h.setStop_plain .refl rfl (by simp) (by simp)
    · have hsent := h.sent_cons hj fun hnil => hdie (.inl hnil)
      dsimp only
      split <;>
        exact h.setStop (.signal _) hsent (by simp) (by simp)
  · exact h
  · exact h.setStop_plain .refl rfl (by simp) (by simp)
  · exact h.setStop_plain .refl rfl (by simp) (by simp)
  · exact h.setStop_plain .refl rfl (by simp) (by simp)
  · exact h.setStop_plain .unlink rfl (by simp) (by simp)
  · exact h

theorem Truthful.step (h : Truthful w) (hheld : Held w.view) {e : Event} (ht : Timely w e) :
    Truthful (w.step e) := by
  cases e with
  | start k call =>
    have hacq : Acquires w k call → ∀ j buf, w.stops j ≠ .read (w.starts k).inode buf := by
      rintro ⟨rfl, hsome⟩
      exact ht hsome
    obtain ⟨w₁, p', heq, hm⟩ := startStep_steps (startCall_step w k call)
    rw [World.step, heq]
    exact h.moves hm hheld hacq
  | crash k =>
    obtain ⟨w₁, p', heq, hm⟩ := crash_steps (w := w) (k := k)
    rw [World.step, heq]
    exact h.moves hm hheld fun hf => hf.elim
  | parentExit k =>
    obtain ⟨w₁, p', heq, hm⟩ := parentExit_steps (w := w) (k := k)
    rw [World.step, heq]
    exact h.moves hm hheld fun hf => hf.elim
  | stop j call => exact h.stopCall ht
  | stopCrash j =>
    show Truthful (w.stopCrash j)
    rw [World.stopCrash]
    split
    · exact h.setStop_plain (.locks (w.locks.releaseShared_exclusive _ j)) rfl (by simp) (by simp)
    · exact h.setStop_plain .refl rfl (by simp) (by simp)

private theorem World.Initial.truthful (h : w.Initial) : Truthful w := by
  have hstage := fun k => (h.starts k).1
  refine ⟨?_, h.path, ?_, ?_, ?_, ?_, ?_⟩
  · intro k halive
    rw [hstage k] at halive
    cases halive
  · intro i k hown
    rw [h.locks] at hown
    cases hown
  · intro k
    simp [Start.Tells, hstage k, Stage.written]
  · intro j i buf hj
    cases (h.stops j).symm.trans hj
  · intro j buf holders hj
    rcases hj with hj | hj <;> cases (h.stops j).symm.trans hj
  · rw [h.sent]
    exact fun _ hsig => absurd hsig List.not_mem_nil

private theorem held_step (h : Held w.view) (e : Event) : Held (w.step e).view := by
  rcases step_view (w := w) e with heq | ⟨a, hstep, -⟩
  · rwa [heq]
  · exact h.step hstep

end

/-- In every run of starts, stops, ends and crashes in which no stop is too early, each SIGTERM goes
to a process that held the lock when the stop found the file locked. -/
theorem stop_signals_holder {w₀ w : World} (h₀ : w₀.Initial) (h : Reaches World.step Timely w₀ w) :
    ∀ sig ∈ w.sent, ∃ pid ∈ sig.holders, sig.target = pid.1 := by
  have htrue : Held w.view ∧ Truthful w :=
    h.invariant (I := fun w => Held w.view ∧ Truthful w) ⟨h₀.exclusive.held, h₀.truthful⟩
      fun w e hw ht => ⟨held_step hw.1 e, hw.2.step hw.1 ht⟩
  exact htrue.2.sent

/-- `-s stop` up to its signal. -/
def stopCalls (j : ℕ) : List Event :=
  [.stop j .openFile, .stop j (.read true), .stop j .flock, .stop j .close, .stop j (.kill .ok)]

/-- The signals, with the processes that held the lock. -/
def World.signals (w : World) : List (ℤ × List ℕ) :=
  w.sent.map fun sig => (sig.target, sig.holders.map Subtype.val)

def firstLocked : World :=
  (World.clean.step (.start 0 (.openFile firstPid))).step (.start 0 .flock)

def stopOpened : World :=
  (Event.start 0 (.connect false) :: serveCalls 0 ++ [Event.stop 0 .openFile]).foldl World.step
    firstLocked

private theorem stopOpened_reached : Reaches World.step Timely World.clean stopOpened := by
  have hlocked : Reaches World.step Timely World.clean firstLocked :=
    (Reaches.start.next _ trivial).next _ fun _ j buf h => by cases h
  exact hlocked.foldl _ (by simp [serveCalls, Timely])

theorem stop_signals_holder_first : ∃ w, Reaches World.step Timely World.clean w ∧
    w.signals = [(100, [100])] ∧ ∀ sig ∈ w.sent, ∃ pid ∈ sig.holders, sig.target = pid.1 := by
  have hopened : stopOpened.stops 0 = .opened 0 := by decide +kernel
  have howner : stopOpened.locks.exclusive 0 = some 0 := by decide +kernel
  have hread : Timely stopOpened (.stop 0 (.read true)) := by
    intro i hi k hown
    obtain rfl : 0 = i := by simpa [hopened] using hi
    obtain rfl : 0 = k := by simpa [howner] using hown
    decide +kernel
  have hflock : Timely (stopOpened.step (.stop 0 (.read true))) (.stop 0 .flock) := by
    have hstep : stopOpened.step (.stop 0 (.read true)) =
        stopOpened.setStop 0 (.read 0 ((stopOpened.content 0).take 31)) := by
      simp [World.step, World.stopCall, hopened]
    rw [hstep]
    intro i buf hi k hown
    obtain ⟨rfl, -⟩ : 0 = i ∧ (stopOpened.content 0).take 31 = buf := by
      simpa [World.setStop] using hi
    obtain rfl : 0 = k := by simpa [World.setStop, howner] using hown
    decide +kernel
  have hrun := ((stopOpened_reached.next _ hread).next _ hflock).foldl
    [.stop 0 .close, .stop 0 (.kill .ok)] (by simp [Timely])
  exact ⟨_, hrun, by decide +kernel, stop_signals_holder World.clean_initial hrun⟩

/-- A daemon crashes and leaves its pid file. The next start has the lock, and not yet written its
pid, when a stop reads the file. -/
def earlyStopRun : List Event :=
  startUpCalls 0 firstPid ++ serveCalls 0 ++ [.crash 0] ++
    startUpCalls 1 ⟨200, by decide⟩ ++ stopCalls 0

theorem stop_signals_bystander : ∃ w, Reaches World.step (fun _ _ => True) World.clean w ∧
    w.signals = [(100, [200])] :=
  ⟨_, Reaches.start.foldl earlyStopRun fun _ _ _ => trivial, by decide +kernel⟩

end VoidGate
