import Megalon.Core.SeqlockAccess
import Megalon.Foundations.Transition
import Mathlib.Logic.Function.Basic

/-!
Contract: one seqlock word under any number of threads that pair their acquires and releases.

Owns: the interleavings of the accesses of `core/seqcount.cc` on the word, who holds it, and
the invariant of its flags and its sequence.

Does not own: pools of such words.
-/

namespace Megalon.Core

open Function Foundations

structure WordThread where
  holding : Holding
  running : Option (SeqOp × Place)

structure WordState where
  word : SeqWord
  threads : Nat → WordThread

inductive WordEvent where
  | call (t : Nat) (op : SeqOp)
  | access (t : Nat) (spurious : Bool)

namespace WordState

def setThread (s : WordState) (t : Nat) (thread : WordThread) : WordState :=
  { s with threads := update s.threads t thread }

def holding (s : WordState) (t : Nat) : Holding := (s.threads t).holding

end WordState

def WordThread.resume (thread : WordThread) (op : SeqOp) : Progress → WordThread
  | .goes place => { thread with running := some (op, place) }
  | .returned reply => ⟨op.leaves thread.holding reply, none⟩

def wordStep (s : WordState) : WordEvent → Option WordState
  | .call t op =>
    if (s.threads t).running = none ∧ op.follows (s.holding t) = true then
      some (s.setThread t { s.threads t with running := some (op, .load) })
    else none
  | .access t spurious =>
    (s.threads t).running.map fun (op, place) =>
      let (word, progress) := op.access spurious s.word place
      { s with word := word }.setThread t ((s.threads t).resume op progress)

/-- `seqlock_init`, and no thread has called anything. -/
def wordSystem : System WordState WordEvent where
  init := fun s => s.word = initSeqlock ∧ ∀ t, s.threads t = ⟨.nothing, none⟩
  step := wordStep

/-! ### The word and its holder -/

structure Held (word : SeqWord) (holding : Nat → Holding) : Prop where
  flags : ¬ (word.isFree = true ∧ word.isLocked = true)
  locked : ∀ t, holding t ≠ .nothing → word.isLocked = true
  holder : word.isLocked = true → ∃ t, holding t ≠ .nothing
  unique : ∀ t t', holding t ≠ .nothing → holding t' ≠ .nothing → t = t'
  odd : word.seq % 2 = 1 ↔ ∃ t, holding t = .sequence

namespace Held

variable {word word' : SeqWord} {holding : Nat → Holding} {t : Nat}

section

variable (held : Held word holding)

include held

theorem even_of_unlocked (unlocked : word.isLocked = false) :
    word.seq % 2 = 0 := by
  by_contra nonzero
  obtain ⟨t, sequence⟩ := held.odd.mp (by omega)
  have locked := held.locked t (by rw [sequence]; decide)
  rw [unlocked] at locked
  cases locked

theorem nothing_of_unlocked (unlocked : word.isLocked = false)
    (t : Nat) : holding t = .nothing := by
  by_contra holds
  rw [held.locked t holds] at unlocked
  cases unlocked

theorem others_of_holds (holds : holding t ≠ .nothing) :
    ∀ t', t' ≠ t → holding t' = .nothing := by
  intro t' other
  by_contra also
  exact other (held.unique t' t also holds)

theorem even_of_only (only : holding t = .only) : word.seq % 2 = 0 := by
  by_contra nonzero
  obtain ⟨t', sequence⟩ := held.odd.mp (by omega)
  have same := held.unique t t' (by rw [only]; decide) (by rw [sequence]; decide)
  rw [← same, only] at sequence
  cases sequence

end

theorem install (others : ∀ t', t' ≠ t → holding t' = .nothing) (mine : Holding)
    (flags : ¬ (word'.isFree = true ∧ word'.isLocked = true))
    (locked : word'.isLocked = true ↔ mine ≠ .nothing)
    (odd : word'.seq % 2 = 1 ↔ mine = .sequence) : Held word' (update holding t mine) := by
  have only : ∀ t', update holding t mine t' ≠ .nothing → t' = t := by
    intro t' holds
    by_contra other
    rw [update_of_ne other] at holds
    exact holds (others t' other)
  refine ⟨flags, ?_, ?_, ?_, ?_⟩
  · intro t' holds
    rw [only t' holds, update_self] at holds
    exact locked.mpr holds
  · intro set
    exact ⟨t, by rw [update_self]; exact locked.mp set⟩
  · intro t' t'' first second
    rw [only t' first, only t'' second]
  · rw [odd]
    refine ⟨fun sequence => ⟨t, by rw [update_self, sequence]⟩, ?_⟩
    rintro ⟨t', sequence⟩
    have same := only t' (by rw [sequence]; decide)
    rwa [same, update_self] at sequence

end Held

/-- Each thread calls what it may, and a release has loaded the word as it still is. -/
def Prepared (word : SeqWord) (thread : WordThread) : Prop :=
  ∀ op place, thread.running = some (op, place) → op.follows thread.holding = true ∧
    ∀ curr, place = .install curr → op.ready curr = true ∧ (op.stores = true → curr = word)

structure WordInv (s : WordState) : Prop where
  held : Held s.word s.holding
  prepared : ∀ t, Prepared s.word (s.threads t)

/-! ### One access -/

section

variable {word : SeqWord} {holding : Nat → Holding} {t : Nat} {op : SeqOp}

theorem SeqOp.holds_of_follows {mine : Holding} (follows : op.follows mine = true)
    (release : op.stores = true ∨ op = .freeSeqlockWithLock) : mine ≠ .nothing := by
  rintro rfl
  cases op <;> simp [SeqOp.follows, SeqOp.stores] at follows release

theorem Held.others_of_ready (held : Held word holding) (ready : op.ready word = true)
    (follows : op.follows (holding t) = true) : ∀ t', t' ≠ t → holding t' = .nothing := by
  by_cases holds : holding t = .nothing
  · intro t' _
    apply held.nothing_of_unlocked
    by_contra set
    -- an operation of a thread that holds nothing has found the word unlocked
    rw [Bool.not_eq_false] at set
    rw [holds] at follows
    cases op <;> simp [SeqOp.follows, SeqOp.ready, set] at follows ready
  · exact held.others_of_holds holds

theorem Held.write (held : Held word holding) (ready : op.ready word = true)
    (follows : op.follows (holding t) = true) : Held (op.installs word)
      (update holding t (op.leaves (holding t) (op.installed word))) := by
  have alone := held.others_of_ready ready follows
  cases op with
  | writeSeqlockBegin =>
    simp only [SeqOp.ready, Bool.and_eq_true, Bool.not_eq_true'] at ready
    have even := held.even_of_unlocked ready.2
    refine Held.install alone .sequence (by simp [SeqOp.installs]) (by simp [SeqOp.installs]) ?_
    simp only [SeqOp.installs, seq_writeSeqlockBegin, iff_true]
    omega
  | writeSeqlockEnd =>
    have sequence : holding t = .sequence := by
      cases mine : holding t <;> simp [SeqOp.follows, mine] at follows
      rfl
    have odd := held.odd.mpr ⟨t, sequence⟩
    refine Held.install alone .nothing (by simp [SeqOp.installs]) (by simp [SeqOp.installs]) ?_
    simp only [SeqOp.installs, seq_writeSeqlockEnd, reduceCtorEq, iff_false]
    omega
  | writeSeqlockOnly =>
    simp only [SeqOp.ready, Bool.and_eq_true, Bool.not_eq_true'] at ready
    have even := held.even_of_unlocked ready.2
    refine Held.install alone .only (by simp [SeqOp.installs, ready.1])
      (by simp [SeqOp.installs]) ?_
    simp only [SeqOp.installs, seq_writeSeqlockOnly, reduceCtorEq, iff_false]
    omega
  | writeSequnlockOnly =>
    have only : holding t = .only := by
      cases mine : holding t <;> simp [SeqOp.follows, mine] at follows
      rfl
    have even := held.even_of_only only
    refine Held.install alone .nothing (by simp [SeqOp.installs]) (by simp [SeqOp.installs]) ?_
    simp only [SeqOp.installs, seq_writeSequnlockOnly, reduceCtorEq, iff_false]
    omega
  | freeSeqlock =>
    simp only [SeqOp.ready, Bool.and_eq_true, Bool.not_eq_true'] at ready
    have freed := flags_evenSeq_or_freeBit word
    have mine := held.nothing_of_unlocked ready.2 t
    refine Held.install alone _ ?_ ?_ ?_
    · simp [SeqOp.installs, freed.2]
    · simp [SeqOp.installs, SeqOp.leaves, freed.2, mine]
    · simp [SeqOp.installs, SeqOp.leaves, seq_or_freeBit, seq_evenSeq_mod_two, mine]
  | freeSeqlockWithLock =>
    refine Held.install alone .nothing (by simp [SeqOp.installs]) (by simp [SeqOp.installs]) ?_
    simp [SeqOp.installs]
  | tryAllocateSeqlock withLock =>
    simp only [SeqOp.ready, Bool.and_eq_true, Bool.not_eq_true'] at ready
    have mine := held.nothing_of_unlocked ready.2 t
    cases withLock with
    | false =>
      obtain ⟨notFree, unlocked, restarted⟩ := zero_and_not_freeBit
      refine Held.install alone _ ?_ ?_ ?_
      · simp only [SeqOp.installs, notFree, Bool.false_eq_true, false_and, not_false_iff]
      · simp only [SeqOp.installs, unlocked]
        simp [SeqOp.leaves, SeqOp.installed, mine]
      · simp only [SeqOp.installs, restarted]
        simp [SeqOp.leaves, SeqOp.installed, mine]
    | true =>
      refine Held.install alone .sequence ?_ ?_ ?_
      · simp [SeqOp.installs]
      · simp [SeqOp.installs]
      · simp [SeqOp.installs]
  | readSeqlockBegin => cases ready
  | readSeqlockRetry startSeq => cases ready

theorem Held.keep (held : Held word holding) : Held word (update holding t (holding t)) := by
  rwa [update_eq_self]

theorem holding_setThread (s : WordState) (t : Nat) (thread : WordThread) :
    (s.setThread t thread).holding = update s.holding t thread.holding := by
  funext t'
  by_cases same : t' = t
  · subst same
    simp [WordState.holding, WordState.setThread]
  · simp [WordState.holding, WordState.setThread, same]

variable {s : WordState}

/-- A step of thread `t` keeps the invariant if the word is held right after it, and `t` is
prepared for its next access; a changed word is no matter for threads that hold nothing. -/
theorem WordInv.update (inv : WordInv s) (word' : SeqWord) (thread : WordThread)
    (held : Held word' (update s.holding t thread.holding)) (prepared : Prepared word' thread)
    (alone : word' = s.word ∨ ∀ t', t' ≠ t → s.holding t' = .nothing) :
    WordInv ({ s with word := word' }.setThread t thread) where
  held := by rwa [holding_setThread]
  prepared := by
    intro t' op place running
    by_cases same : t' = t
    · subst same
      simp only [WordState.setThread, update_self] at running ⊢
      exact prepared op place running
    · simp only [WordState.setThread, update_of_ne same] at running ⊢
      obtain ⟨follows, loaded⟩ := inv.prepared t' op place running
      refine ⟨follows, fun curr installs => ⟨(loaded curr installs).1, fun release => ?_⟩⟩
      rcases alone with unchanged | nobody
      · exact ((loaded curr installs).2 release).trans unchanged.symm
      · exact absurd (nobody t' same) (SeqOp.holds_of_follows follows (.inl release))

theorem wordInv_access (inv : WordInv s) {place : Place} {spurious : Bool}
    (running : (s.threads t).running = some (op, place)) {word' : SeqWord} {progress : Progress}
    (accessed : op.access spurious s.word place = (word', progress)) :
    WordInv ({ s with word := word' }.setThread t ((s.threads t).resume op progress)) := by
  obtain ⟨follows, loaded⟩ := inv.prepared t op place running
  rcases SeqOp.access_cases accessed with ⟨rfl, place', rfl, goes⟩ | ⟨rfl, reply, rfl, unwritten⟩ |
    ⟨curr, rfl, current, rfl, rfl⟩
  · -- it goes on: the thread is prepared by its load
    refine inv.update _ _ inv.held.keep ?_ (.inl rfl)
    intro op' place'' running'
    cases running'
    refine ⟨follows, fun curr installs => ?_⟩
    rcases goes with rfl | ⟨rfl, ready⟩
    · cases installs
    · cases installs
      exact ⟨ready, fun _ => rfl⟩
  · -- it returns without a write, and a holder's word is not free
    have same : op.leaves (s.threads t).holding reply = (s.threads t).holding := by
      rcases unwritten with ⟨_, came⟩ | failed
      · rcases SeqOp.leaves_of_loaded came (s.threads t).holding with same | ⟨rfl, free⟩
        · exact same
        · have locked := inv.held.locked t (SeqOp.holds_of_follows follows (.inr rfl))
          exact absurd ⟨free, locked⟩ inv.held.flags
      · exact SeqOp.leaves_of_failed failed _
    refine inv.update _ _ ?_ (fun op' place' running' => by cases running') (.inl rfl)
    rw [WordThread.resume, same]
    exact inv.held.keep
  · obtain ⟨ready, release⟩ := loaded curr rfl
    have same : curr = s.word := current.elim release id
    subst same
    exact inv.update _ _ (inv.held.write ready follows)
      (fun op' place' running' => by cases running')
      (.inr (inv.held.others_of_ready ready follows))

variable {s' : WordState}

theorem wordStep_access {spurious : Bool} (taken : wordStep s (.access t spurious) = some s') :
    ∃ op place word' progress, (s.threads t).running = some (op, place) ∧
      op.access spurious s.word place = (word', progress) ∧
      s' = { s with word := word' }.setThread t ((s.threads t).resume op progress) := by
  simp only [wordStep, Option.map_eq_some_iff] at taken
  obtain ⟨⟨op, place⟩, running, rfl⟩ := taken
  exact ⟨op, place, _, _, running, rfl, rfl⟩

theorem wordInv_step {e : WordEvent} (inv : WordInv s) (taken : wordStep s e = some s') :
    WordInv s' := by
  cases e with
  | call t op =>
    simp only [wordStep] at taken
    split at taken
    · rename_i enabled
      cases taken
      refine inv.update s.word _ inv.held.keep ?_ (.inl rfl)
      intro op' place running
      cases running
      exact ⟨enabled.2, fun curr installs => by cases installs⟩
    · cases taken
  | access t spurious =>
    obtain ⟨op, place, word', progress, running, accessed, rfl⟩ := wordStep_access taken
    exact wordInv_access inv running accessed

theorem WordInv.change {e : WordEvent} (inv : WordInv s) (taken : wordStep s e = some s') :
    WordStep s.word s'.word := by
  cases e with
  | call t op =>
    simp only [wordStep] at taken
    split at taken <;> cases taken
    exact .same rfl
  | access t spurious =>
    obtain ⟨op, place, word', progress, running, accessed, rfl⟩ := wordStep_access taken
    obtain ⟨follows, loaded⟩ := inv.prepared t op place running
    rcases SeqOp.access_cases accessed with ⟨same, _⟩ | ⟨same, _⟩ | ⟨curr, rfl, current, rfl, _⟩
    · exact .same same
    · exact .same same
    · obtain ⟨ready, release⟩ := loaded curr rfl
      have same : curr = s.word := current.elim release id
      subst same
      refine SeqOp.wordStep_installs ready fun stores => ?_
      have locked := inv.held.locked t (SeqOp.holds_of_follows follows (.inl stores))
      refine ⟨?_, locked⟩
      by_contra free
      exact inv.held.flags ⟨by simpa using free, locked⟩

end

/-! ### Every reachable word -/

/-- What the flags, the sequence and the holders of the word say about each other. -/
structure WordState.Consistent (s : WordState) : Prop where
  notFreeAndLocked : ¬ (s.word.isFree = true ∧ s.word.isLocked = true)
  even : s.word.isLocked = false → s.word.seq % 2 = 0
  odd : s.word.seq % 2 = 1 ↔ ∃ t, s.holding t = .sequence
  exclusive : ∀ t t', s.holding t ≠ .nothing → s.holding t' ≠ .nothing → t = t'
  locked : s.word.isLocked = true ↔ ∃ t, s.holding t ≠ .nothing

theorem WordInv.initial {s : WordState} (start : wordSystem.init s) : WordInv s := by
  obtain ⟨free, idle⟩ := start
  have nothing : ∀ t, s.holding t = .nothing := by
    intro t
    rw [WordState.holding, idle]
  refine ⟨⟨?_, ?_, ?_, ?_, ?_⟩, ?_⟩
  · simp [free]
  · intro t holds
    exact absurd (nothing t) holds
  · simp [free]
  · intro t _ holds
    exact absurd (nothing t) holds
  · simp [free, nothing, initSeqlock, SeqWord.seq, freeBit, seqMask]
  · intro t op place running
    rw [idle] at running
    cases running

/-- The seqlock word in every interleaving: its flags and its parity tell who holds it, at most
one thread does, and each step changes it in one of the ways of `WordStep`. -/
theorem seqlock_word_consistent {s : WordState} (reached : wordSystem.Reachable s) :
    s.Consistent ∧ ∀ e s', wordStep s e = some s' → WordStep s.word s'.word := by
  have inv : WordInv s := reached.invariant (P := WordInv) (fun _ => WordInv.initial)
    fun _ _ _ before taken => wordInv_step before taken
  refine ⟨⟨inv.held.flags, inv.held.even_of_unlocked, inv.held.odd, inv.held.unique, ?_⟩,
    fun _ _ taken => inv.change taken⟩
  refine ⟨inv.held.holder, ?_⟩
  rintro ⟨t, holds⟩
  exact inv.held.locked t holds

/-- Thread 0 allocates with the lock and ends its section, thread 1 begins one; its first
compare-exchange fails without a reason. -/
def allocateThenWrite : List WordEvent :=
  [.call 0 (.tryAllocateSeqlock true), .access 0 false, .call 1 .writeSeqlockBegin,
    .access 0 false, .access 1 false, .call 0 .writeSeqlockEnd, .access 0 false, .access 0 false,
    .access 1 false, .access 1 true, .access 1 false, .access 1 false]

theorem seqlock_word_consistent_allocateThenWrite :
    ∃ s, wordSystem.Reachable s ∧ s.word.seq = 3 ∧ s.holding 1 = .sequence ∧ s.Consistent := by
  have start : wordSystem.init ⟨initSeqlock, fun _ => ⟨.nothing, none⟩⟩ := ⟨rfl, fun _ => rfl⟩
  obtain ⟨s, reached, shown⟩ := System.exists_reachable_of_run wordSystem start allocateThenWrite
    (fun s => decide (s.word.seq = 3 ∧ s.holding 1 = .sequence)) (by decide +kernel)
  rw [decide_eq_true_eq] at shown
  exact ⟨s, reached, shown.1, shown.2, (seqlock_word_consistent reached).1⟩

end Megalon.Core
