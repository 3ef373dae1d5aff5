import Mathlib.Logic.Function.Basic
import Mathlib.Tactic.SplitIfs

/-!
# Lock files

Processes agree on who may go on by locking the file that a name refers to. The lock
belongs to the file and the name can be removed by anybody, so the two may come
apart: exclusion then rests on who removes the name and when. An abstract protocol
says which uses keep it.
-/

namespace VoidGate.LockFiles

/-- The locks on files of type `ι`: one exclusive owner, or any number of sharers. -/
structure LockTable (ι κ ω : Type*) where
  exclusive : ι → Option κ
  shared : ι → List ω

namespace LockTable
variable {ι κ ω : Type*} [DecidableEq ι] (t : LockTable ι κ ω)

def free : LockTable ι κ ω := ⟨fun _ => none, fun _ => []⟩

/-- Lock a file exclusively, without waiting. -/
def tryExclusive (i : ι) (k : κ) : Option (LockTable ι κ ω) :=
  if t.exclusive i = none ∧ (t.shared i).isEmpty then
    some { t with exclusive := Function.update t.exclusive i (some k) }
  else none

def tryShared (i : ι) (j : ω) : Option (LockTable ι κ ω) :=
  if t.exclusive i = none then
    some { t with shared := Function.update t.shared i (j :: t.shared i) }
  else none

def releaseExclusive [DecidableEq κ] (i : ι) (k : κ) : LockTable ι κ ω :=
  if t.exclusive i = some k then { t with exclusive := Function.update t.exclusive i none } else t

def releaseShared [DecidableEq ω] (i : ι) (j : ω) : LockTable ι κ ω :=
  { t with shared := Function.update t.shared i ((t.shared i).erase j) }

variable {t} {t' : LockTable ι κ ω} {i : ι}

theorem tryExclusive_some {k : κ} (h : t.tryExclusive i k = some t') :
    t.exclusive i = none ∧ t'.exclusive = Function.update t.exclusive i (some k) := by
  rw [tryExclusive] at h
  split_ifs at h with hfree
  obtain rfl := Option.some.inj h
  exact ⟨hfree.1, rfl⟩

theorem tryShared_some {j : ω} (h : t.tryShared i j = some t') :
    t.exclusive i = none ∧ t'.exclusive = t.exclusive := by
  rw [tryShared] at h
  split_ifs at h with hfree
  obtain rfl := Option.some.inj h
  exact ⟨hfree, rfl⟩

theorem tryShared_none {j : ω} (h : t.tryShared i j = none) : ∃ k, t.exclusive i = some k := by
  rw [tryShared] at h
  split_ifs at h with hfree
  exact Option.ne_none_iff_exists'.mp hfree

theorem releaseExclusive_cases [DecidableEq κ] (t : LockTable ι κ ω) (i : ι) (k : κ) (i' : ι) :
    (t.releaseExclusive i k).exclusive i' = t.exclusive i' ∨
      t.exclusive i' = some k ∧ (t.releaseExclusive i k).exclusive i' = none := by
  rw [releaseExclusive]
  split_ifs with hown
  · by_cases hi : i' = i
    · subst hi
      exact .inr ⟨hown, Function.update_self _ _ _⟩
    · exact .inl (Function.update_of_ne hi _ _)
  · exact .inl rfl

@[simp] theorem releaseShared_exclusive [DecidableEq ω] (t : LockTable ι κ ω) (i : ι) (j : ω) :
    (t.releaseShared i j).exclusive = t.exclusive := rfl

end LockTable

/-- What a process has to do with the file: nothing, it holds the lock of file `i`, or it holds the
lock and has removed the name itself. `inside` says that it has gone on. -/
inductive Phase (ι : Type*) where
  | out
  | keeps (i : ι) (inside : Bool)
  | leaves (i : ι) (inside : Bool)

namespace Phase
variable {ι : Type*}

/-- The file whose lock the process holds. -/
def file : Phase ι → Option ι
  | out => none
  | keeps i _ => some i
  | leaves i _ => some i

def Inside : Phase ι → Prop
  | out => False
  | keeps _ b => b = true
  | leaves _ b => b = true

def Leaving : Phase ι → Prop
  | leaves _ b => b = true
  | _ => False

theorem Leaving.inside {p : Phase ι} (h : p.Leaving) : p.Inside := by
  cases p with
  | leaves _ _ => exact h
  | _ => exact h.elim

end Phase

structure LockFile (ι κ : Type*) where
  path : Option ι
  holder : ι → Option κ
  phase : κ → Phase ι

/-- What happens to a lock file. -/
inductive Act (ι κ : Type*) where
  | create (i : ι)
  | acquire (k : κ) (i : ι)
  | enter (k : κ) (i : ι)
  | remove (k : κ) (i : ι) (inside : Bool)
  | unlink
  | leave (k : κ)

section Protocol
variable {ι κ : Type*}

def Held (s : LockFile ι κ) : Prop := ∀ k i, (s.phase k).file = some i → s.holder i = some k

/-- While the protocol is kept, a process that has not removed the name can rely on it, and a
process that leaves is alone. -/
structure Exclusive (s : LockFile ι κ) : Prop where
  held : Held s
  named : ∀ k i b, s.phase k = .keeps i b → s.path = some i
  alone : ∀ k k', (s.phase k).Leaving → (s.phase k').Inside → k = k'

/-- The actions that keep name and lock together: a lock is taken on the file that the name refers
to, the name of a locked file is removed by the owner of the lock only, and nobody goes on while
another is leaving. -/
def Permitted (s : LockFile ι κ) : Act ι κ → Prop
  | .create _ => True
  | .acquire _ i => s.path = some i
  | .enter _ _ => ∀ k, ¬ (s.phase k).Leaving
  | .remove k _ _ => ∀ i, s.path = some i → s.holder i = none ∨ s.holder i = some k
  | .unlink => ∀ i, s.path = some i → s.holder i = none
  | .leave _ => True

variable {s s' : LockFile ι κ} {a : Act ι κ}

theorem Exclusive.inside_unique (h : Exclusive s) {k k' : κ} (hk : (s.phase k).Inside)
    (hk' : (s.phase k').Inside) : k = k' := by
  cases hp : s.phase k with
  | out =>
    rw [hp] at hk
    exact hk.elim
  | leaves i b =>
    rw [hp] at hk
    exact h.alone k k' (by rw [hp]; exact hk) hk'
  | keeps i b =>
    cases hp' : s.phase k' with
    | out =>
      rw [hp'] at hk'
      exact hk'.elim
    | leaves i' b' =>
      rw [hp'] at hk'
      exact (h.alone k' k (by rw [hp']; exact hk') hk).symm
    | keeps i' b' =>
      -- the name refers to both files, and that file has one owner
      have hi : i = i' := Option.some.inj ((h.named k i b hp).symm.trans (h.named k' i' b' hp'))
      have hown := h.held k i (by rw [hp]; rfl)
      have hown' := h.held k' i (by rw [hp', hi]; rfl)
      exact Option.some.inj (hown.symm.trans hown')

theorem Exclusive.keeps_unique (h : Exclusive s) {k k' : κ} {i : ι} {b : Bool}
    (hperm : ∀ i, s.path = some i → s.holder i = none ∨ s.holder i = some k)
    (hk' : s.phase k' = .keeps i b) : k' = k := by
  have hown := h.held k' i (by rw [hk']; rfl)
  rcases hperm i (h.named k' i b hk') with hnone | hsome
  · cases hown.symm.trans hnone
  · exact Option.some.inj (hown.symm.trans hsome)

variable [DecidableEq κ]

theorem update_cases {P : Phase ι → Prop} {f : κ → Phase ι} {k k' : κ} {p : Phase ι}
    (h : P (Function.update f k p k')) : (k' = k ∧ P p) ∨ (k' ≠ k ∧ P (f k')) := by
  by_cases hk : k' = k
  · subst hk
    exact .inl ⟨rfl, by rwa [Function.update_self] at h⟩
  · exact .inr ⟨hk, by rwa [Function.update_of_ne hk] at h⟩

/-- The lock of a process that changes its phase stays its own, and so do the others. -/
theorem Held.update (h : Held s) {k : κ} {p : Phase ι} (hp : p.file = (s.phase k).file)
    (path : Option ι) : Held { s with path := path, phase := Function.update s.phase k p } := by
  intro k' i' hfile
  rcases update_cases (P := fun p => p.file = some i') hfile with ⟨rfl, hi⟩ | ⟨-, hi⟩
  · exact h k' i' (hp.symm.trans hi)
  · exact h k' i' hi

theorem Exclusive.named_update (h : Exclusive s) {k : κ} {p : Phase ι}
    (hp : ∀ i b, p = .keeps i b → s.path = some i) (k' : κ) (i : ι) (b : Bool)
    (hk' : Function.update s.phase k p k' = .keeps i b) : s.path = some i := by
  rcases update_cases (P := (· = .keeps i b)) hk' with ⟨-, hp'⟩ | ⟨-, hp'⟩
  · exact hp i b hp'
  · exact h.named k' i b hp'

theorem Exclusive.alone_update (h : Exclusive s) {k : κ} {p : Phase ι} (hp : ¬ p.Inside)
    (k₁ k₂ : κ) (h₁ : (Function.update s.phase k p k₁).Leaving)
    (h₂ : (Function.update s.phase k p k₂).Inside) : k₁ = k₂ := by
  rcases update_cases h₁ with ⟨-, hp₁⟩ | ⟨-, hp₁⟩
  · exact absurd hp₁.inside hp
  · rcases update_cases h₂ with ⟨-, hp₂⟩ | ⟨-, hp₂⟩
    · exact absurd hp₂ hp
    · exact h.alone k₁ k₂ hp₁ hp₂

variable [DecidableEq ι]

/-- The effect of an action. A process that leaves may take its lock with it or not: the lock may
outlive it in an open file that it shares. -/
def Step (s : LockFile ι κ) : Act ι κ → LockFile ι κ → Prop
  | .create i, s' => s.path = none ∧ s' = { s with path := some i }
  | .acquire k i, s' => s.phase k = .out ∧ s.holder i = none ∧
      s' = { s with holder := Function.update s.holder i (some k)
                    phase := Function.update s.phase k (.keeps i false) }
  | .enter k i, s' => s.phase k = .keeps i false ∧
      s' = { s with phase := Function.update s.phase k (.keeps i true) }
  | .remove k i b, s' => s.phase k = .keeps i b ∧
      s' = { s with path := none, phase := Function.update s.phase k (.leaves i b) }
  | .unlink, s' => s' = { s with path := none }
  | .leave k, s' => s'.path = s.path ∧ s'.phase = Function.update s.phase k .out ∧
      ∀ i, s'.holder i = s.holder i ∨ s.holder i = some k

theorem Held.step (h : Held s) (hs : Step s a s') : Held s' := by
  cases a with
  | create i =>
    obtain ⟨-, rfl⟩ := hs
    exact h
  | acquire k i =>
    obtain ⟨-, hfree, rfl⟩ := hs
    intro k' i' hfile
    rcases update_cases (P := fun p => p.file = some i') hfile with ⟨rfl, hi⟩ | ⟨-, hi⟩
    · obtain rfl := Option.some.inj hi
      exact Function.update_self _ _ _
    · have hold := h k' i' hi
      have hne : i' ≠ i := fun he => by simp [← he, hold] at hfree
      exact (Function.update_of_ne hne _ _).trans hold
  | enter k i =>
    obtain ⟨hk, rfl⟩ := hs
    exact h.update (by rw [hk]; rfl) s.path
  | remove k i b =>
    obtain ⟨hk, rfl⟩ := hs
    exact h.update (by rw [hk]; rfl) none
  | unlink =>
    cases hs
    exact h
  | leave k =>
    obtain ⟨-, hphase, hholder⟩ := hs
    intro k' i' hfile
    rw [hphase] at hfile
    rcases update_cases (P := fun p => p.file = some i') hfile with ⟨-, hi⟩ | ⟨hne, hi⟩
    · cases hi
    · have hold := h k' i' hi
      rcases hholder i' with heq | heq
      · exact heq.trans hold
      · exact absurd (Option.some.inj (hold.symm.trans heq)) hne

theorem Exclusive.step (h : Exclusive s) (hs : Step s a s') (hperm : Permitted s a) :
    Exclusive s' := by
  have hheld := h.held.step hs
  cases a with
  | create i =>
    obtain ⟨hnone, rfl⟩ := hs
    refine ⟨hheld, ?_, h.alone⟩
    intro k' i' b hk'
    cases hnone.symm.trans (h.named k' i' b hk')
  | acquire k i =>
    obtain ⟨-, -, rfl⟩ := hs
    refine ⟨hheld, h.named_update ?_, h.alone_update Bool.false_ne_true⟩
    rintro i' b ⟨⟩
    exact hperm
  | enter k i =>
    obtain ⟨hk, rfl⟩ := hs
    refine ⟨hheld, h.named_update ?_, ?_⟩
    · rintro i' b ⟨⟩
      exact h.named k i false hk
    · intro k₁ k₂ h₁ _
      rcases update_cases h₁ with ⟨-, hp⟩ | ⟨-, hp⟩
      · exact hp.elim
      · exact absurd hp (hperm k₁)
  | remove k i b =>
    obtain ⟨hk, rfl⟩ := hs
    refine ⟨hheld, ?_, ?_⟩
    · intro k' i' b' hk'
      rcases update_cases (P := (· = .keeps i' b')) hk' with ⟨-, hp⟩ | ⟨hne, hp⟩
      · cases hp
      · exact absurd (h.keeps_unique hperm hp) hne
    · intro k₁ k₂ h₁ h₂
      -- before the removal both processes were inside
      have inside : ∀ k', (Function.update s.phase k (.leaves i b) k').Inside →
          (s.phase k').Inside := by
        intro k' hin
        rcases update_cases hin with ⟨rfl, hp⟩ | ⟨-, hp⟩
        · rw [hk]
          exact hp
        · exact hp
      exact h.inside_unique (inside k₁ h₁.inside) (inside k₂ h₂)
  | unlink =>
    cases hs
    refine ⟨hheld, ?_, h.alone⟩
    intro k' i' b hk'
    have hown := h.held k' i' (by rw [hk']; rfl)
    cases hown.symm.trans (hperm i' (h.named k' i' b hk'))
  | leave k =>
    obtain ⟨hpath, hphase, -⟩ := hs
    refine ⟨hheld, ?_, ?_⟩
    · rw [hpath, hphase]
      exact h.named_update fun _ _ hp => (nomatch hp)
    · rw [hphase]
      exact h.alone_update not_false

end Protocol

end VoidGate.LockFiles
