import Megalon.Foundations.Words

/-!
Contract: the 32-bit words of the write metadata (`core/seqcount.cc`, `DYN_WMETA`,
`C3_RWLOCK 0`): a free flag, a lock flag and a 30-bit sequence number.

Owns: the word each seqlock function installs, and what that word says.

Does not own: who runs the functions; each is one atomic access of a record. A weak
compare-exchange that finds the loaded value is taken to succeed.
-/

namespace Megalon.Core

open Foundations

/-- `seqlock_t::sequence`. -/
abbrev SeqWord := BitVec 32

def freeBit : SeqWord := 1#32 <<< 31

def lockBit : SeqWord := 1#32 <<< 30

def seqMask : SeqWord := ~~~(freeBit ||| lockBit)

namespace SeqWord

def isFree (word : SeqWord) : Bool := decide (word &&& freeBit ≠ 0)

def isLocked (word : SeqWord) : Bool := decide (word &&& lockBit ≠ 0)

/-- `word & SEQ_MASK`. -/
def seq (word : SeqWord) : Nat := (word &&& seqMask).toNat

end SeqWord

/-- `init`: a record starts out free. -/
def initSeqlock : SeqWord := freeBit

/-- `write_seqlock_begin` on a word that is neither free nor locked. -/
def writeSeqlockBegin (curr : SeqWord) : SeqWord :=
  (((curr &&& seqMask) + 1) &&& seqMask) ||| lockBit

def writeSeqlockEnd (curr : SeqWord) : SeqWord := (curr + 1) &&& seqMask

/-- `write_seqlock_only` on a word that is neither free nor locked. -/
def writeSeqlockOnly (curr : SeqWord) : SeqWord := curr ||| lockBit

def writeSequnlockOnly (curr : SeqWord) : SeqWord := curr &&& seqMask

def evenSeq (curr : SeqWord) : SeqWord :=
  if (curr &&& seqMask) &&& 1 ≠ 0 then ((curr &&& seqMask) + 1) &&& seqMask
  else curr &&& seqMask

/-- `free_seqlock_with_lock` on a word that is locked and not free. -/
def freeSeqlockWithLock (curr : SeqWord) : SeqWord := (evenSeq curr ||| freeBit) &&& ~~~lockBit

/-- `try_allocate_seqlock(s, true)` on a free word: the sequence restarts at 0
whatever the word held. -/
def tryAllocateSeqlock : SeqWord := (((0 + 1) &&& seqMask) ||| lockBit) &&& ~~~freeBit

/-- The value `read_seqlock_begin` waits for: it looks at the low bit only. -/
def readSeqlockReady (word : SeqWord) : Bool := decide (word &&& 1 = 0)

def readSeqlockRetry (word : SeqWord) (startSeq : Nat) : Bool :=
  decide (startSeq ≠ word.seq) || word.isFree

/-! ### Flags and sequence of a word -/

namespace SeqWord

theorem isFree_eq (word : SeqWord) : word.isFree = word.getLsbD 31 :=
  and_shift_ne_zero word (by decide)

theorem isLocked_eq (word : SeqWord) : word.isLocked = word.getLsbD 30 :=
  and_shift_ne_zero word (by decide)

theorem seq_eq (word : SeqWord) : word.seq = word.toNat % 2 ^ 30 := by
  rw [seq, BitVec.toNat_and]
  exact Nat.and_two_pow_sub_one_eq_mod word.toNat 30

theorem seq_lt (word : SeqWord) : word.seq < 2 ^ 30 := by
  rw [seq_eq]
  exact Nat.mod_lt _ (by decide)

end SeqWord

theorem toNat_add_one_mod (word : SeqWord) :
    (word + 1).toNat % 2 ^ 30 = (word.seq + 1) % 2 ^ 30 := by
  rw [BitVec.toNat_add, SeqWord.seq_eq]
  change (word.toNat + 1) % 2 ^ 32 % 2 ^ 30 = _
  rw [Nat.mod_mod_of_dvd _ (by decide), Nat.mod_add_mod]

@[simp]
theorem isFree_initSeqlock : initSeqlock.isFree = true := by decide

@[simp]
theorem isLocked_initSeqlock : initSeqlock.isLocked = false := by decide

@[simp]
theorem isFree_tryAllocateSeqlock : tryAllocateSeqlock.isFree = false := by decide

@[simp]
theorem isLocked_tryAllocateSeqlock : tryAllocateSeqlock.isLocked = true := by decide

@[simp]
theorem seq_tryAllocateSeqlock : tryAllocateSeqlock.seq = 1 := by decide

variable (word : SeqWord)

@[simp]
theorem isFree_writeSeqlockBegin : (writeSeqlockBegin word).isFree = false := by
  simp [SeqWord.isFree_eq, writeSeqlockBegin, seqMask, freeBit, lockBit]

@[simp]
theorem isLocked_writeSeqlockBegin : (writeSeqlockBegin word).isLocked = true := by
  simp [SeqWord.isLocked_eq, writeSeqlockBegin, lockBit]

theorem seq_and_seqMask : (word &&& seqMask).seq = word.seq := by
  rw [SeqWord.seq, SeqWord.seq, BitVec.and_assoc, BitVec.and_self]

theorem seq_or_lockBit : (word ||| lockBit).seq = word.seq := by
  rw [SeqWord.seq_eq, SeqWord.seq_eq, BitVec.toNat_or, Nat.or_mod_two_pow]
  change word.toNat % 2 ^ 30 ||| 0 = _
  rw [Nat.or_zero]

theorem seq_add_one : (word + 1).seq = (word.seq + 1) % 2 ^ 30 := by
  rw [SeqWord.seq_eq, toNat_add_one_mod]

@[simp]
theorem seq_writeSeqlockBegin : (writeSeqlockBegin word).seq = (word.seq + 1) % 2 ^ 30 := by
  rw [writeSeqlockBegin, seq_or_lockBit, seq_and_seqMask, seq_add_one, seq_and_seqMask]

@[simp]
theorem isFree_writeSeqlockEnd : (writeSeqlockEnd word).isFree = false := by
  simp [SeqWord.isFree_eq, writeSeqlockEnd, seqMask, freeBit, lockBit]

@[simp]
theorem isLocked_writeSeqlockEnd : (writeSeqlockEnd word).isLocked = false := by
  simp [SeqWord.isLocked_eq, writeSeqlockEnd, seqMask, freeBit, lockBit]

@[simp]
theorem seq_writeSeqlockEnd : (writeSeqlockEnd word).seq = (word.seq + 1) % 2 ^ 30 := by
  rw [writeSeqlockEnd, seq_and_seqMask, seq_add_one]

@[simp]
theorem isFree_writeSeqlockOnly : (writeSeqlockOnly word).isFree = word.isFree := by
  simp [SeqWord.isFree_eq, writeSeqlockOnly, lockBit]

@[simp]
theorem isLocked_writeSeqlockOnly : (writeSeqlockOnly word).isLocked = true := by
  simp [SeqWord.isLocked_eq, writeSeqlockOnly, lockBit]

@[simp]
theorem seq_writeSeqlockOnly : (writeSeqlockOnly word).seq = word.seq :=
  seq_or_lockBit word

@[simp]
theorem isFree_writeSequnlockOnly : (writeSequnlockOnly word).isFree = false := by
  simp [SeqWord.isFree_eq, writeSequnlockOnly, seqMask, freeBit, lockBit]

@[simp]
theorem isLocked_writeSequnlockOnly : (writeSequnlockOnly word).isLocked = false := by
  simp [SeqWord.isLocked_eq, writeSequnlockOnly, seqMask, freeBit, lockBit]

@[simp]
theorem seq_writeSequnlockOnly : (writeSequnlockOnly word).seq = word.seq :=
  seq_and_seqMask word

@[simp]
theorem isFree_freeSeqlockWithLock : (freeSeqlockWithLock word).isFree = true := by
  simp [SeqWord.isFree_eq, freeSeqlockWithLock, freeBit, lockBit]

@[simp]
theorem isLocked_freeSeqlockWithLock : (freeSeqlockWithLock word).isLocked = false := by
  simp [SeqWord.isLocked_eq, freeSeqlockWithLock, lockBit]

theorem readSeqlockReady_iff : readSeqlockReady word = true ↔ word.seq % 2 = 0 := by
  have low : (word &&& 1).toNat = word.toNat % 2 := by
    rw [BitVec.toNat_and]
    exact Nat.and_two_pow_sub_one_eq_mod word.toNat 1
  have parity : word.seq % 2 = word.toNat % 2 := by
    rw [SeqWord.seq_eq, Nat.mod_mod_of_dvd _ (by decide)]
  rw [readSeqlockReady, decide_eq_true_iff, parity, ← low]
  constructor
  · intro zero
    rw [zero]
    rfl
  · intro zero
    exact BitVec.eq_of_toNat_eq zero

theorem seq_evenSeq : (evenSeq word).seq = (word.seq + word.seq % 2) % 2 ^ 30 := by
  have low : word &&& seqMask &&& 1 = 0 ↔ word.seq % 2 = 0 := by
    rw [← seq_and_seqMask, ← readSeqlockReady_iff, readSeqlockReady, decide_eq_true_iff]
  unfold evenSeq
  split
  · rename_i odd
    rw [Ne, low] at odd
    rw [seq_and_seqMask, seq_add_one, seq_and_seqMask]
    omega
  · rename_i even
    rw [Ne, low, not_not] at even
    have inside := word.seq_lt
    rw [seq_and_seqMask, even]
    omega

theorem seq_evenSeq_mod_two : (evenSeq word).seq % 2 = 0 := by
  rw [seq_evenSeq]
  omega

theorem seq_or_freeBit : (word ||| freeBit).seq = word.seq := by
  rw [SeqWord.seq_eq, SeqWord.seq_eq, BitVec.toNat_or, Nat.or_mod_two_pow]
  change word.toNat % 2 ^ 30 ||| 0 = _
  rw [Nat.or_zero]

theorem seq_and_not_lockBit : (word &&& ~~~lockBit).seq = word.seq := by
  have mask : ~~~lockBit &&& seqMask = seqMask := by decide
  rw [SeqWord.seq, SeqWord.seq, BitVec.and_assoc, mask]

theorem seq_freeSeqlockWithLock :
    (freeSeqlockWithLock word).seq = (word.seq + word.seq % 2) % 2 ^ 30 := by
  rw [freeSeqlockWithLock, seq_and_not_lockBit, seq_or_freeBit, seq_evenSeq]

@[simp]
theorem seq_freeSeqlockWithLock_mod_two : (freeSeqlockWithLock word).seq % 2 = 0 := by
  rw [seq_freeSeqlockWithLock]
  omega

end Megalon.Core
