import VoidGate.CtlFraming

/-!
# The command-line client

`voidgatectl` joins its arguments in a buffer of 256 bytes and cuts off in silence
what does not fit. The byte that is lost first is the newline, and the daemon
refuses 255 bytes without one, so a command that was cut is never carried out.
-/

namespace VoidGate

/-- `strncat(cmd, s, sizeof(cmd) - strlen(cmd) - 1)` for `char cmd[256]`. -/
def strncat (cmd s : List UInt8) : List UInt8 := cmd ++ s.take (255 - cmd.length)

/-- The loop over the arguments from `argv[i]` on. -/
def appendArgs : List (List UInt8) → ℕ → List UInt8 → List UInt8
  | [], _, cmd => cmd
  | arg :: args, i, cmd =>
    appendArgs args (i + 1) (strncat (if 1 < i then strncat cmd (bytes " ") else cmd) arg)

/-- What `voidgatectl` writes to the socket; without a command it prints its usage instead. -/
def voidgatectl (argv : List (List UInt8)) : Option (List UInt8) :=
  if argv.length < 2 then none
  else some (strncat (appendArgs argv.tail 1 []) (bytes "\n"))

/-- The arguments joined by single spaces. -/
def joined (args : List (List UInt8)) : List UInt8 := List.intercalate (bytes " ") args

theorem strncat_take (l s : List UInt8) : strncat (l.take 255) s = (l ++ s).take 255 := by
  rw [strncat, List.take_append, List.length_take]
  congr 2
  omega

theorem joined_cons (arg : List UInt8) (args : List (List UInt8)) :
    joined (arg :: args) = arg ++ args.flatMap (bytes " " ++ ·) := by
  induction args generalizing arg with
  | nil => simp [joined, List.intercalate]
  | cons arg' args ih =>
    rw [List.flatMap_cons, List.append_assoc, ← ih arg']
    simp [joined, List.intercalate]

private theorem appendArgs_take (args : List (List UInt8)) (i : ℕ) (hi : 1 < i) (l : List UInt8) :
    appendArgs args i (l.take 255) = (l ++ args.flatMap (bytes " " ++ ·)).take 255 := by
  induction args generalizing i l with
  | nil => rw [appendArgs, List.flatMap_nil, List.append_nil]
  | cons arg args ih =>
    rw [appendArgs, if_pos hi, strncat_take, strncat_take, ih (i + 1) (by omega),
      List.flatMap_cons, List.append_assoc, List.append_assoc, List.append_assoc]

theorem voidgatectl_eq (argv : List (List UInt8)) : voidgatectl argv =
    if argv.tail = [] then none else some ((joined argv.tail ++ bytes "\n").take 255) := by
  match argv with
  | [] => rfl
  | [_] => rfl
  | _ :: arg :: args =>
    have hfirst : strncat [] arg = arg.take 255 := strncat_take [] arg
    rw [voidgatectl, if_neg (by simp), if_neg (by simp), List.tail_cons, appendArgs,
      if_neg (by decide), hfirst, appendArgs_take args _ (by decide), strncat_take, joined_cons]

theorem not_mem_joined {args : List (List UInt8)} {b : UInt8} (hb : b ≠ 32)
    (h : ∀ arg ∈ args, b ∉ arg) : b ∉ joined args := by
  have hspace : b ∉ bytes " " := fun hm => hb (List.mem_singleton.mp hm)
  cases args with
  | nil => exact List.not_mem_nil
  | cons arg args =>
    obtain ⟨harg, hargs⟩ := List.forall_mem_cons.mp h
    rw [joined_cons, List.mem_append, List.mem_flatMap]
    rintro (hm | ⟨a, ha, hm⟩)
    · exact harg hm
    · exact (List.mem_append.mp hm).elim hspace (hargs a ha)

theorem frame_cut {line : List UInt8} (h10 : 10 ∉ line) (h0 : 0 ∉ line) (hlen : 255 ≤ line.length) :
    frame ((line ++ bytes "\n").take 255) = .refused commandTooLong := by
  have hcut : (line ++ bytes "\n").take 255 = [] ++ (line.take 255 ++ []) := by
    rw [List.take_append_of_le_length hlen, List.append_nil, List.nil_append]
  rw [hcut]
  exact frame_full .nil
    (fun hm => h0 (List.mem_of_mem_take hm)) (fun hm => h10 (List.mem_of_mem_take hm))
    (by rw [List.nil_append, List.length_take]; omega)

/-- A command of the operator is carried out as it was typed or refused as too long. -/
theorem voidgatectl_whole_or_refused (env : Env) (o : Outside) (c : VgCtrl)
    (argv : List (List UInt8)) (hnul : ∀ a ∈ argv.tail, 0 ∉ a) (hline : ∀ a ∈ argv.tail, 10 ∉ a)
    (reads : List ReadEvent) (herr : .error ∉ reads) :
    (voidgatectl argv = none ↔ argv.tail = []) ∧
      ∀ sent, voidgatectl argv = some sent → vgCtlServerHandle env o c ⟨sent, reads⟩ =
        if (joined argv.tail).length ≤ 254 then
          ((dispatch env o c (joined argv.tail)).1, some (dispatch env o c (joined argv.tail)).2)
        else (c, some (bytes "error: command too long\n")) := by
  have h10 := not_mem_joined (b := 10) (by decide) hline
  have h0 := not_mem_joined (b := 0) (by decide) hnul
  rw [voidgatectl_eq]
  refine ⟨by split_ifs <;> simp_all, ?_⟩
  intro sent hsent
  split_ifs at hsent
  rw [← Option.some.inj hsent, vgCtlServerHandle, readRequest_nil herr]
  split_ifs with hlen
  · rw [List.take_of_length_le (by simp [bytes]; omega), frame_line ⟨h10, h0, hlen⟩, respond]
  · rw [frame_cut h10 h0 (by omega)]
    rfl

/-- A drop for 60 seconds with so many zeros in front that the buffer loses the last digit. -/
def longDrop : List (List UInt8) :=
  [bytes "voidgatectl", bytes "drop", bytes "169.254.169.254",
    bytes "ttl=" ++ List.replicate 229 48 ++ bytes "60"]

def armArgv : List (List UInt8) := [bytes "voidgatectl", bytes "arm"]

/-- A command that arrives in pieces and is carried out, and one that is refused. -/
theorem voidgatectl_arm_longDrop :
    (∃ sent, voidgatectl armArgv = some sent ∧
      (vgCtlServerHandle steadyEnv steadyOutside steadyStart ⟨sent, [.upTo 1, .eintr]⟩).1.state =
        .active ∧
      (vgCtlServerHandle steadyEnv steadyOutside steadyStart ⟨sent, [.upTo 1, .eintr]⟩).2 =
        some (bytes "ok\n")) ∧
    ∃ sent, voidgatectl longDrop = some sent ∧
      vgCtlServerHandle steadyEnv steadyOutside steadyStart ⟨sent, [.upTo 99, .eintr]⟩ =
        (steadyStart, some (bytes "error: command too long\n")) := by
  have hsent {argv : List (List UInt8)} (hnone : voidgatectl argv = none ↔ argv.tail = [])
      (hargs : argv.tail ≠ []) : ∃ sent, voidgatectl argv = some sent :=
    Option.ne_none_iff_exists'.mp fun h => hargs (hnone.mp h)
  constructor
  · obtain ⟨hnone, hsome⟩ := voidgatectl_whole_or_refused steadyEnv steadyOutside steadyStart armArgv
      (by decide) (by decide) [.upTo 1, .eintr] (by decide)
    obtain ⟨sent, harm⟩ := hsent hnone (by decide)
    obtain ⟨hstate, hreply⟩ :
        (dispatch steadyEnv steadyOutside steadyStart (joined armArgv.tail)).1.state = .active ∧
          (dispatch steadyEnv steadyOutside steadyStart (joined armArgv.tail)).2 = bytes "ok\n" := by
      decide +kernel
    refine ⟨sent, harm, ?_⟩
    rw [hsome sent harm, if_pos (by decide)]
    exact ⟨hstate, congrArg some hreply⟩
  · obtain ⟨hnone, hsome⟩ := voidgatectl_whole_or_refused steadyEnv steadyOutside steadyStart longDrop
      (by decide) (by decide) [.upTo 99, .eintr] (by decide)
    obtain ⟨sent, hlong⟩ := hsent hnone (by decide)
    exact ⟨sent, hlong, by rw [hsome sent hlong, if_neg (by decide +kernel)]⟩

end VoidGate
