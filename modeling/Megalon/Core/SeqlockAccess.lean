import Megalon.Core.Seqlock

/-!
Contract: the functions of `core/seqcount.cc` on one word, access by access (`DYN_WMETA`,
`C3_RWLOCK 0`).

Owns: where a thread is inside a function, what each load, compare-exchange and store does,
what a function leaves the thread holding, and the changes of a word that an access can make.

Does not own: which thread calls what.
-/

namespace Megalon.Core

inductive SeqOp where
  | writeSeqlockBegin
  | writeSeqlockEnd
  | writeSeqlockOnly
  | writeSequnlockOnly
  | freeSeqlock
  | freeSeqlockWithLock
  | tryAllocateSeqlock (withLock : Bool)
  | readSeqlockBegin
  | readSeqlockRetry (startSeq : Nat)
  deriving DecidableEq, Repr

/-- Inside a function: before its load, or with the loaded word in `curr`. -/
inductive Place where
  | load
  | install (curr : SeqWord)
  deriving DecidableEq, Repr

/-- What a function returns. -/
inductive Reply where
  | done
  | flag (value : Bool)
  | seq (value : Nat)
  deriving DecidableEq, Repr

inductive Progress where
  | goes (place : Place)
  | returned (reply : Reply)
  deriving DecidableEq, Repr

namespace SeqOp

/-- What follows the load of `curr`. -/
def loaded (curr : SeqWord) : SeqOp → Progress
  | .writeSeqlockBegin | .writeSeqlockOnly =>
    if curr.isFree then .returned (.flag false)
    else if curr.isLocked then .goes .load else .goes (.install curr)
  | .writeSeqlockEnd | .writeSequnlockOnly => .goes (.install curr)
  | .freeSeqlock =>
    if curr.isLocked then .goes .load
    else if curr.isFree then .returned .done else .goes (.install curr)
  | .freeSeqlockWithLock =>
    if curr.isFree then .returned (.flag true)
    else if curr.isLocked then .goes (.install curr) else .returned (.flag false)
  | .tryAllocateSeqlock _ =>
    if curr.isFree = false ∨ curr.isLocked = true then .returned (.flag false)
    else .goes (.install curr)
  | .readSeqlockBegin =>
    if readSeqlockReady curr then .returned (.seq curr.seq) else .goes .load
  | .readSeqlockRetry startSeq => .returned (.flag (Core.readSeqlockRetry curr startSeq))

def installs (curr : SeqWord) : SeqOp → SeqWord
  | .writeSeqlockBegin => Core.writeSeqlockBegin curr
  | .writeSeqlockEnd => Core.writeSeqlockEnd curr
  | .writeSeqlockOnly => Core.writeSeqlockOnly curr
  | .writeSequnlockOnly => Core.writeSequnlockOnly curr
  | .freeSeqlock => evenSeq curr ||| freeBit
  | .freeSeqlockWithLock => Core.freeSeqlockWithLock curr
  | .tryAllocateSeqlock true => Core.tryAllocateSeqlock
  | .tryAllocateSeqlock false => 0 &&& ~~~freeBit
  | .readSeqlockBegin | .readSeqlockRetry _ => curr

def installed (curr : SeqWord) : SeqOp → Reply
  | .writeSeqlockEnd => .seq (Core.writeSeqlockEnd curr).seq
  | .writeSequnlockOnly | .freeSeqlock => .done
  | _ => .flag true

def stores : SeqOp → Bool
  | .writeSeqlockEnd | .writeSequnlockOnly => true
  | _ => false

def failed : SeqOp → Progress
  | .freeSeqlockWithLock | .tryAllocateSeqlock _ => .returned (.flag false)
  | _ => .goes .load

/-- One access. A weak compare-exchange that is `spurious` fails on the expected word, too. -/
def access (op : SeqOp) (spurious : Bool) (word : SeqWord) : Place → SeqWord × Progress
  | .load => (word, op.loaded word)
  | .install curr =>
    if op.stores = true ∨ (word = curr ∧ spurious = false) then
      (op.installs curr, .returned (op.installed curr))
    else (word, op.failed)

end SeqOp

/-! ### What a thread holds -/

/-- Between an acquire and its release; a `sequence` writer has made the sequence odd. -/
inductive Holding where
  | nothing
  | sequence
  | only
  deriving DecidableEq, Repr

namespace SeqOp

def follows : Holding → SeqOp → Bool
  | .nothing, .writeSeqlockBegin | .nothing, .writeSeqlockOnly
  | .nothing, .tryAllocateSeqlock _ => true
  | .sequence, .writeSeqlockEnd | .sequence, .freeSeqlockWithLock => true
  | .only, .writeSequnlockOnly | .only, .freeSeqlockWithLock => true
  | _, .freeSeqlock | _, .readSeqlockBegin | _, .readSeqlockRetry _ => true
  | _, _ => false

def leaves (holding : Holding) : SeqOp → Reply → Holding
  | .writeSeqlockBegin, .flag true => .sequence
  | .tryAllocateSeqlock withLock, .flag true => if withLock then .sequence else holding
  | .writeSeqlockOnly, .flag true => .only
  | .writeSeqlockEnd, _ | .writeSequnlockOnly, _ | .freeSeqlockWithLock, .flag true => .nothing
  | _, _ => holding

end SeqOp

/-! ### What an access does to the word -/

/-- A change of the word, by its flags and its sequence, which counts modulo `2 ^ 30`. -/
inductive WordStep (word word' : SeqWord) : Prop where
  | same (unchanged : word' = word)
  | beginSection (before : word.isFree = false ∧ word.isLocked = false)
      (after : word'.isFree = false ∧ word'.isLocked = true)
      (counted : word'.seq = (word.seq + 1) % 2 ^ 30)
  | endSection (before : word.isFree = false ∧ word.isLocked = true)
      (after : word'.isFree = false ∧ word'.isLocked = false)
      (counted : word'.seq = (word.seq + 1) % 2 ^ 30)
  | lock (before : word.isFree = false ∧ word.isLocked = false)
      (after : word'.isFree = false ∧ word'.isLocked = true) (counted : word'.seq = word.seq)
  | unlock (before : word.isFree = false ∧ word.isLocked = true)
      (after : word'.isFree = false ∧ word'.isLocked = false) (counted : word'.seq = word.seq)
  | free (before : word.isFree = false)
      (after : word'.isFree = true ∧ word'.isLocked = false)
      (counted : word'.seq = (word.seq + word.seq % 2) % 2 ^ 30)
  | allocate (before : word.isFree = true ∧ word.isLocked = false) (withLock : Bool)
      (after : word'.isFree = false ∧ word'.isLocked = withLock)
      (counted : word'.seq = if withLock then 1 else 0)

def SeqOp.ready (curr : SeqWord) : SeqOp → Bool
  | .writeSeqlockBegin | .writeSeqlockOnly | .freeSeqlock => !curr.isFree && !curr.isLocked
  | .freeSeqlockWithLock => !curr.isFree && curr.isLocked
  | .tryAllocateSeqlock _ => curr.isFree && !curr.isLocked
  | .writeSeqlockEnd | .writeSequnlockOnly => true
  | .readSeqlockBegin | .readSeqlockRetry _ => false

theorem flags_evenSeq_or_freeBit (word : SeqWord) :
    (evenSeq word ||| freeBit).isFree = true ∧ (evenSeq word ||| freeBit).isLocked = false := by
  constructor
  · simp [SeqWord.isFree_eq, freeBit]
  · unfold evenSeq
    split <;> simp [SeqWord.isLocked_eq, seqMask, freeBit, lockBit]

theorem zero_and_not_freeBit :
    (0 &&& ~~~freeBit : SeqWord).isFree = false ∧ (0 &&& ~~~freeBit : SeqWord).isLocked = false ∧
      (0 &&& ~~~freeBit : SeqWord).seq = 0 := by
  decide

namespace SeqOp

variable {op : SeqOp} {word : SeqWord} {place : Place}

theorem loaded_goes (goes : op.loaded word = .goes place) :
    place = .load ∨ (place = .install word ∧ op.ready word = true) := by
  cases op <;> simp only [loaded] at goes <;> repeat' split at goes
  all_goals cases goes
  all_goals first
    | exact .inl rfl
    | exact .inr ⟨rfl, by simp_all [ready]⟩

/-- A function that returns without a write leaves the thread with what it held, except that
`free_seqlock_with_lock` calls a free word a success. -/
theorem leaves_of_loaded {reply : Reply} (returned : op.loaded word = .returned reply)
    (holding : Holding) :
    op.leaves holding reply = holding ∨ (op = .freeSeqlockWithLock ∧ word.isFree = true) := by
  cases op <;> simp only [loaded] at returned <;> repeat' split at returned
  all_goals cases returned
  all_goals first
    | exact .inl rfl
    | exact .inr ⟨rfl, by assumption⟩

theorem leaves_of_failed {reply : Reply} (returned : op.failed = .returned reply)
    (holding : Holding) : op.leaves holding reply = holding := by
  cases op <;> cases returned <;> rfl

theorem failed_goes (goes : op.failed = .goes place) : place = .load := by
  cases op <;> cases goes <;> rfl

/-- What an access does: it goes on without a write, it returns without one, after its load or
after a compare-exchange that failed, or it writes over the word it loaded. -/
theorem access_cases {spurious : Bool} {word' : SeqWord} {progress : Progress}
    (accessed : op.access spurious word place = (word', progress)) :
    (word' = word ∧ ∃ place', progress = .goes place' ∧
      (place' = .load ∨ (place' = .install word ∧ op.ready word = true))) ∨
    (word' = word ∧ ∃ reply, progress = .returned reply ∧
      ((place = .load ∧ op.loaded word = .returned reply) ∨ op.failed = .returned reply)) ∨
    ∃ curr, place = .install curr ∧ (op.stores = true ∨ curr = word) ∧
      word' = op.installs curr ∧ progress = .returned (op.installed curr) := by
  cases place with
  | load =>
    cases accessed
    cases came : op.loaded word with
    | goes place' => exact .inl ⟨rfl, place', rfl, loaded_goes came⟩
    | returned reply => exact .inr (.inl ⟨rfl, reply, rfl, .inl ⟨rfl, rfl⟩⟩)
  | install curr =>
    simp only [access] at accessed
    split at accessed
    · rename_i writes
      cases accessed
      exact .inr (.inr ⟨curr, rfl, writes.imp_right fun both => both.1.symm, rfl, rfl⟩)
    · cases accessed
      cases came : op.failed with
      | goes place' => exact .inl ⟨rfl, place', rfl, .inl (failed_goes came)⟩
      | returned reply => exact .inr (.inl ⟨rfl, reply, rfl, .inr rfl⟩)

theorem wordStep_installs (ready : op.ready word = true)
    (released : op.stores = true → word.isFree = false ∧ word.isLocked = true) :
    WordStep word (op.installs word) := by
  cases op with
  | writeSeqlockBegin =>
    simp only [SeqOp.ready, Bool.and_eq_true, Bool.not_eq_true'] at ready
    exact .beginSection ready ⟨isFree_writeSeqlockBegin word, isLocked_writeSeqlockBegin word⟩
      (seq_writeSeqlockBegin word)
  | writeSeqlockEnd =>
    exact .endSection (released rfl) ⟨isFree_writeSeqlockEnd word, isLocked_writeSeqlockEnd word⟩
      (seq_writeSeqlockEnd word)
  | writeSeqlockOnly =>
    simp only [SeqOp.ready, Bool.and_eq_true, Bool.not_eq_true'] at ready
    exact .lock ready ⟨(isFree_writeSeqlockOnly word).trans ready.1,
      isLocked_writeSeqlockOnly word⟩ (seq_writeSeqlockOnly word)
  | writeSequnlockOnly =>
    exact .unlock (released rfl) ⟨isFree_writeSequnlockOnly word,
      isLocked_writeSequnlockOnly word⟩ (seq_writeSequnlockOnly word)
  | freeSeqlock =>
    simp only [SeqOp.ready, Bool.and_eq_true, Bool.not_eq_true'] at ready
    exact .free ready.1 (flags_evenSeq_or_freeBit word)
      ((seq_or_freeBit _).trans (seq_evenSeq word))
  | freeSeqlockWithLock =>
    simp only [SeqOp.ready, Bool.and_eq_true, Bool.not_eq_true'] at ready
    exact .free ready.1 ⟨isFree_freeSeqlockWithLock word, isLocked_freeSeqlockWithLock word⟩
      (seq_freeSeqlockWithLock word)
  | tryAllocateSeqlock withLock =>
    simp only [SeqOp.ready, Bool.and_eq_true, Bool.not_eq_true'] at ready
    cases withLock with
    | false =>
      obtain ⟨notFree, unlocked, restarted⟩ := zero_and_not_freeBit
      exact .allocate ready false ⟨notFree, unlocked⟩ restarted
    | true =>
      exact .allocate ready true ⟨isFree_tryAllocateSeqlock, isLocked_tryAllocateSeqlock⟩
        seq_tryAllocateSeqlock
  | readSeqlockBegin => cases ready
  | readSeqlockRetry startSeq => cases ready

end SeqOp

end Megalon.Core
