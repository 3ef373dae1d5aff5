import VoidGate.CtlProtocol

/-!
# Framing of the control protocol

A request is a function of the bytes of the client alone: how `read` cuts them into
pieces, and where a signal interrupts it, makes no difference.
-/

namespace VoidGate

/-- The request that a stream of bytes stands for. -/
def frame (stream : List UInt8) : Request :=
  if stream = [] then .hangUp
  else if 0 ∈ (stream.take 255).takeWhile (· != 10) then .refused badCommand
  else if 10 ∈ stream.take 255 then .line (stream.takeWhile (· != 10))
  else if stream.length ≤ 254 then .line stream
  else .refused commandTooLong

/-- What the buffer holds between two reads. -/
structure Pending (req : List UInt8) : Prop where
  noNewline : 10 ∉ req
  noNul : 0 ∉ req
  short : req.length ≤ 254

theorem takeWhile_of_not_mem {l : List UInt8} {b : UInt8} (h : b ∉ l) :
    l.takeWhile (· != b) = l :=
  List.takeWhile_eq_self_iff.mpr fun _ hx => bne_iff_ne.mpr fun he => h (he ▸ hx)

theorem takeWhile_append_of_not_mem {l₁ l₂ : List UInt8} {b : UInt8} (h : b ∉ l₁) :
    (l₁ ++ l₂).takeWhile (· != b) = l₁ ++ l₂.takeWhile (· != b) :=
  List.takeWhile_append_of_pos fun _ hx => bne_iff_ne.mpr fun he => h (he ▸ hx)

theorem dropWhile_append_of_not_mem {l₁ l₂ : List UInt8} {b : UInt8} (h : b ∉ l₁) :
    (l₁ ++ l₂).dropWhile (· != b) = l₂.dropWhile (· != b) :=
  List.dropWhile_append_of_pos fun _ hx => bne_iff_ne.mpr fun he => h (he ▸ hx)

theorem takeWhile_append_of_mem {l₁ l₂ : List UInt8} {b : UInt8} (h : b ∈ l₁) :
    (l₁ ++ l₂).takeWhile (· != b) = l₁.takeWhile (· != b) := by
  rw [List.takeWhile_append, if_neg]
  intro hlen
  have hall := (List.takeWhile_prefix _).eq_of_length hlen
  simpa using List.takeWhile_eq_self_iff.mp hall b h

theorem exists_cut (b : UInt8) (s : List UInt8) :
    ∃ a, b ∉ a ∧ (s = a ∨ ∃ rest, s = a ++ b :: rest) := by
  refine ⟨s.takeWhile (· != b), fun hm => by simpa using List.mem_takeWhile_imp hm, ?_⟩
  have hs : s.takeWhile (· != b) ++ s.dropWhile (· != b) = s := List.takeWhile_append_dropWhile
  cases hd : s.dropWhile (· != b) with
  | nil => exact .inl (by rw [hd, List.append_nil] at hs; exact hs.symm)
  | cons x rest =>
    have hx : x = b := by simpa [hd] using List.head?_dropWhile_not (· != b) s
    exact .inr ⟨rest, by rw [hd, hx] at hs; exact hs.symm⟩

section
variable {req chunk rest : List UInt8}

theorem Pending.nil : Pending [] := ⟨List.not_mem_nil, List.not_mem_nil, by decide⟩

theorem Pending.append (h : Pending req) (h10 : 10 ∉ chunk) (h0 : 0 ∉ chunk)
    (hlen : (req ++ chunk).length ≤ 254) : Pending (req ++ chunk) :=
  ⟨fun hm => (List.mem_append.mp hm).elim h.noNewline h10,
    fun hm => (List.mem_append.mp hm).elim h.noNul h0, hlen⟩

theorem frame_end (h : Pending req) : frame req = if req = [] then .hangUp else .line req := by
  have htake : req.take 255 = req := List.take_of_length_le (by have := h.short; omega)
  rw [frame, htake, takeWhile_of_not_mem h.noNewline, if_neg h.noNul, if_neg h.noNewline,
    if_pos h.short]

theorem take_pending (hroom : chunk.length ≤ 255 - req.length) (h : Pending req) :
    (req ++ (chunk ++ rest)).take 255 =
      req ++ (chunk ++ rest.take (255 - (req ++ chunk).length)) := by
  have hshort := h.short
  rw [List.take_append, List.take_append, List.take_of_length_le (by omega),
    List.take_of_length_le hroom, List.length_append, Nat.sub_add_eq]

theorem append_ne_nil (hne : chunk ≠ []) : req ++ (chunk ++ rest) ≠ [] := by
  simp [hne]

theorem frame_nul (h : Pending req) (hne : chunk ≠ []) (hroom : chunk.length ≤ 255 - req.length)
    (h0 : 0 ∈ chunk.takeWhile (· != 10)) :
    frame (req ++ (chunk ++ rest)) = .refused badCommand := by
  rw [frame, if_neg (append_ne_nil hne), take_pending hroom h,
    takeWhile_append_of_not_mem h.noNewline, if_pos]
  by_cases h10 : 10 ∈ chunk
  · rw [takeWhile_append_of_mem h10]
    exact List.mem_append_right _ h0
  · rw [takeWhile_append_of_not_mem h10]
    rw [takeWhile_of_not_mem h10] at h0
    exact List.mem_append_right _ (List.mem_append_left _ h0)

theorem frame_newline (h : Pending req) (hroom : chunk.length ≤ 255 - req.length)
    (h0 : 0 ∉ chunk.takeWhile (· != 10)) (h10 : 10 ∈ chunk) :
    frame (req ++ (chunk ++ rest)) = .line (req ++ chunk.takeWhile (· != 10)) := by
  have hne : chunk ≠ [] := List.ne_nil_of_mem h10
  have h0' : 0 ∉ req ++ chunk.takeWhile (· != 10) :=
    fun hm => (List.mem_append.mp hm).elim h.noNul h0
  rw [frame, if_neg (append_ne_nil hne), take_pending hroom h,
    takeWhile_append_of_not_mem h.noNewline, takeWhile_append_of_mem h10, if_neg h0', if_pos,
    takeWhile_append_of_not_mem h.noNewline, takeWhile_append_of_mem h10]
  exact List.mem_append_right _ (List.mem_append_left _ h10)

theorem frame_full (h : Pending req) (h0 : 0 ∉ chunk) (h10 : 10 ∉ chunk)
    (hfull : (req ++ chunk).length = 255) :
    frame (req ++ (chunk ++ rest)) = .refused commandTooLong := by
  have hshort := h.short
  have hroom : chunk.length ≤ 255 - req.length := by
    rw [List.length_append] at hfull
    omega
  have hne : chunk ≠ [] := by
    rintro rfl
    rw [List.append_nil] at hfull
    omega
  have h10' : 10 ∉ req ++ chunk := fun hm => (List.mem_append.mp hm).elim h.noNewline h10
  have h0' : 0 ∉ req ++ chunk := fun hm => (List.mem_append.mp hm).elim h.noNul h0
  rw [frame, if_neg (append_ne_nil hne), take_pending hroom h, hfull, Nat.sub_self, List.take_zero,
    List.append_nil, takeWhile_of_not_mem h10', if_neg h0', if_neg h10', if_neg]
  rw [← List.append_assoc, List.length_append, hfull]
  omega

/-- A line that fits, with its newline. -/
theorem frame_line (h : Pending req) : frame (req ++ bytes "\n") = .line req := by
  have hnl : frame (req ++ ([10] ++ [])) = .line (req ++ []) :=
    frame_newline h (by have := h.short; simp; omega) List.not_mem_nil (List.mem_singleton.mpr rfl)
  rwa [List.append_nil, List.append_nil] at hnl

theorem frame_cases (h : 10 ∉ req) : frame (req ++ bytes "\n") = .refused badCommand ∨
    frame (req ++ bytes "\n") = .refused commandTooLong ∨ frame (req ++ bytes "\n") = .line req := by
  have hline : (req ++ bytes "\n").takeWhile (· != 10) = req := by
    rw [takeWhile_append_of_not_mem h]
    exact List.append_nil req
  rw [frame, if_neg (by simp [bytes]), hline]
  split_ifs with h0 h10 hlen
  · exact .inl rfl
  · exact .inr (.inr rfl)
  · rw [List.take_of_length_le (by omega)] at h10
    exact absurd (List.mem_append_right _ (List.mem_singleton.mpr rfl)) h10
  · exact .inr (.inl rfl)

end

private theorem readRequest_eq_frame {conn : Conn} {req : List UInt8} (h : Pending req)
    (herr : .error ∉ conn.reads) : readRequest conn req = frame (req ++ conn.stream) := by
  -- on the recursion of the loop: it consumes an event or some bytes
  fun_induction readRequest conn req with
  | case1 conn req conn' hread ih =>
    obtain ⟨hs, hr⟩ := Conn.read_eintr hread
    rw [ih h (fun hm => herr (hr ▸ List.mem_cons_of_mem _ hm)), hs]
  | case2 conn req conn' hread =>
    exact absurd (Conn.read_error hread) herr
  | case3 conn conn' hread =>
    rw [List.nil_append, (Conn.read_bytes hread).2.2.2 rfl (by decide)]
    rfl
  | case4 conn req conn' hreq hread =>
    have hshort := h.short
    rw [(Conn.read_bytes hread).2.2.2 rfl (by omega), List.append_nil, frame_end h, if_neg hreq]
  | case5 conn req chunk conn' hread hne part h0 =>
    obtain ⟨hs, hroom, -, -⟩ := Conn.read_bytes hread
    rw [hs, frame_nul h hne hroom h0]
  | case6 conn req chunk conn' hread hne part h0 h10 =>
    obtain ⟨hs, hroom, -, -⟩ := Conn.read_bytes hread
    rw [hs, frame_newline h hroom h0 h10]
  | case7 conn req chunk conn' hread hne part h0 h10 hfull =>
    obtain ⟨hs, -, -, -⟩ := Conn.read_bytes hread
    have hpart : part = chunk := takeWhile_of_not_mem h10
    rw [hpart] at h0 hfull
    rw [hs, frame_full h h0 h10 hfull]
  | case8 conn req chunk conn' hread hne part h0 h10 hfull ih =>
    obtain ⟨hs, hroom, hr, -⟩ := Conn.read_bytes hread
    have hpart : part = chunk := takeWhile_of_not_mem h10
    rw [hpart] at h0 hfull ih ⊢
    have hlen : (req ++ chunk).length ≤ 254 := by
      have hshort := h.short
      rw [List.length_append] at hfull ⊢
      omega
    rw [ih (h.append h10 h0 hlen) (fun hm => herr (List.mem_of_mem_tail (hr ▸ hm))), hs,
      List.append_assoc]

theorem readRequest_nil {stream : List UInt8} {reads : List ReadEvent} (herr : .error ∉ reads) :
    readRequest ⟨stream, reads⟩ [] = frame stream := readRequest_eq_frame .nil herr

/-- Every way to deliver the bytes of a client is answered in the same way. -/
theorem vgCtlServerHandle_eq_frame (env : Env) (o : Outside) (c : VgCtrl) (stream : List UInt8)
    (reads : List ReadEvent) (herr : .error ∉ reads) :
    readRequest ⟨stream, reads⟩ [] = frame stream ∧
      vgCtlServerHandle env o c ⟨stream, reads⟩ = respond env o c (frame stream) :=
  ⟨readRequest_nil herr, by rw [vgCtlServerHandle, readRequest_nil herr]⟩

/-- Seven bytes that arrive in three pieces, with a signal between the first two. -/
theorem vgCtlServerHandle_eq_frame_pieces :
    ReadEvent.error ∉ [.upTo 2, .eintr, .upTo 0] ∧
      readRequest ⟨bytes "reload\n", [.upTo 2, .eintr, .upTo 0]⟩ [] = .line (bytes "reload") ∧
      vgCtlServerHandle steadyEnv steadyOutside steadyStart
          ⟨bytes "reload\n", [.upTo 2, .eintr, .upTo 0]⟩ =
        respond steadyEnv steadyOutside steadyStart (.line (bytes "reload")) :=
  ⟨by decide, vgCtlServerHandle_eq_frame steadyEnv steadyOutside steadyStart (bytes "reload\n")
    [.upTo 2, .eintr, .upTo 0] (by decide)⟩

end VoidGate
