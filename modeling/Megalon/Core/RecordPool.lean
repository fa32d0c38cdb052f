import Mathlib.Algebra.BigOperators.Ring.Finset
import Mathlib.Algebra.Order.BigOperators.Group.Finset
import Mathlib.Data.Fintype.Card
import Megalon.Core.SeqlockAccess
import Megalon.Foundations.Counter
import Megalon.Foundations.Transition

/-!
Contract: the pool of write metadata, `SharedMetadata` of `core/write_meta.cc`, under any
number of threads.

Owns: the functions that reserve, sample, lock and recycle records, access by access, with the
counter `allocated_slot_num_`; when the counter is the number of records in use, and how often
a record is handed out.

Does not own: the block id in a record, and the statistics `allocate_count_` and
`reclaim_count_`.

A start line is the hint of the caller or a value of `rng`. A choice is a value of `rng`, or
says which of several candidates with the smallest sequence `std::sort` puts first.
-/

namespace Megalon.Core

open Function Foundations

/-- `wmeta_slot_len_`: checked not to be zero, and a `size_t`. -/
structure PoolLen where
  len : Nat
  positive : 0 < len
  bounded : len < 2 ^ 64

/-- The record `i % wmeta_slot_len_`. -/
def PoolLen.index (pool : PoolLen) (i : Nat) : Fin pool.len :=
  ⟨i % pool.len, Nat.mod_lt _ pool.positive⟩

/-- The functions of `WriteMetadata` that lock and unlock one record. -/
inductive LockCall where
  | wSeqBegin
  | wSeqEnd
  | wLockOnly
  | wUnlockOnly
  deriving DecidableEq, Repr

def LockCall.op : LockCall → SeqOp
  | .wSeqBegin => .writeSeqlockBegin
  | .wSeqEnd => .writeSeqlockEnd
  | .wLockOnly => .writeSeqlockOnly
  | .wUnlockOnly => .writeSequnlockOnly

inductive PoolCall (len : Nat) where
  | reserveWmeta (withLock : Bool) (start : Nat)
  | reserveWmetaEarlyTerm (count : Nat) (withLock : Bool) (start : Nat)
  | checkReserveWmeta (withLock : Bool) (hint : Option Nat) (start : Nat)
  | sampleVictim (sampleSize : Nat) (withLock : Bool)
  | lock (call : LockCall) (w : Fin len)
  | recycleWmeta (w : Fin len) (withLock : Bool)

inductive PoolPc (len : Nat) where
  | idle
  /-- `CheckReserveWmeta` before it loads the counter. -/
  | checkCount (withLock : Bool) (start : Nat)
  /-- The loop that tries to allocate record `(i + start) % wmeta_slot_len_`. -/
  | scan (withLock : Bool) (start limit i : Nat) (place : Place)
  /-- Before `allocated_slot_num_.fetch_add`. -/
  | reserved (w : Fin len)
  | sampling (withLock : Bool) (left : Nat) (candidates : List (Fin len × Nat))
  | choosing (withLock : Bool) (candidates : List (Fin len × Nat))
  | locking (w : Fin len) (rest : List (Fin len × Nat)) (place : Place)
  | running (call : LockCall) (w : Fin len) (place : Place)
  | recycling (withLock : Bool) (w : Fin len) (place : Place)
  /-- Before `allocated_slot_num_.fetch_sub`. -/
  | freed (w : Fin len)
  deriving DecidableEq

section

variable (pool : PoolLen)

/-- Where a function starts. The three reserve functions share the loop of `ReserveWmeta`. -/
def PoolCall.enters : PoolCall pool.len → PoolPc pool.len
  | .reserveWmeta withLock start => .scan withLock start pool.len 0 .load
  | .reserveWmetaEarlyTerm count withLock start => .scan withLock start (min pool.len count) 0 .load
  | .checkReserveWmeta withLock (some hint) _ => .scan withLock hint pool.len 0 .load
  | .checkReserveWmeta withLock none start => .checkCount withLock start
  | .sampleVictim sampleSize withLock => .sampling withLock sampleSize []
  | .lock call w => .running call w .load
  | .recycleWmeta w withLock => .recycling withLock w .load

def PoolPc.seqAccess : PoolPc pool.len → Option (SeqOp × Fin pool.len × Place)
  | .scan withLock start limit i place =>
    if i < limit then some (.tryAllocateSeqlock withLock, pool.index (i + start), place) else none
  | .locking w _ place => some (.writeSeqlockOnly, w, place)
  | .running call w place => some (call.op, w, place)
  | .recycling withLock w place =>
    some (if withLock then .freeSeqlockWithLock else .freeSeqlock, w, place)
  | _ => none

def PoolPc.resume (progress : Progress) : PoolPc pool.len → PoolPc pool.len
  | .scan withLock start limit i _ =>
    match progress with
    | .goes place => .scan withLock start limit i place
    | .returned reply =>
      if reply = .flag true then .reserved (pool.index (i + start))
      else .scan withLock start limit (i + 1) .load
  | .locking w rest _ =>
    match progress with
    | .goes place => .locking w rest place
    | .returned reply => if reply = .flag true then .idle else .choosing true rest
  | .running call w _ =>
    match progress with
    | .goes place => .running call w place
    | .returned _ => .idle
  | .recycling withLock w _ =>
    match progress with
    | .goes place => .recycling withLock w place
    | .returned reply => if reply = .flag false then .idle else .freed w
  | pc => pc

end

/-- `returns` counts how often a reserve has returned a record since it was last freed. -/
structure PoolState (pool : PoolLen) (threads : Nat) where
  word : Fin pool.len → SeqWord
  allocatedSlotNum : BitVec 64
  returns : Fin pool.len → Nat
  pc : Fin threads → PoolPc pool.len

inductive PoolEvent (len threads : Nat) where
  | call (t : Fin threads) (call : PoolCall len)
  | step (t : Fin threads) (choice : Nat) (spurious : Bool)

section

variable {pool : PoolLen} {threads : Nat}

def PoolState.goto (s : PoolState pool threads) (t : Fin threads) (pc : PoolPc pool.len) :
    PoolState pool threads :=
  { s with pc := update s.pc t pc }

/-- The compare-exchange of `RecycleWmeta` has freed the record. -/
def PoolPc.frees {len : Nat} : PoolPc len → Progress → Bool
  | .recycling _ _ (.install _), .returned reply => reply ≠ .flag false
  | _, _ => false

def PoolState.advance (s : PoolState pool threads) (t : Fin threads) (choice : Nat) :
    PoolPc pool.len → Option (PoolState pool threads)
  | .checkCount withLock start =>
    -- `cnt / wmeta_slot_len_ > 0.95`
    if 19 * pool.len < 20 * s.allocatedSlotNum.toNat then some (s.goto t .idle)
    else some (s.goto t (.scan withLock start pool.len 0 .load))
  | .scan .. => some (s.goto t .idle)
  | .reserved w =>
    some ({ s with
      allocatedSlotNum := s.allocatedSlotNum + 1
      returns := update s.returns w (s.returns w + 1) }.goto t .idle)
  | .sampling withLock (left + 1) candidates =>
    if (s.word (pool.index choice)).isFree then some (s.goto t (.sampling withLock left candidates))
    else
      some (s.goto t (.sampling withLock left
        (candidates ++ [(pool.index choice, (s.word (pool.index choice)).seq)])))
  | .sampling withLock 0 candidates => some (s.goto t (.choosing withLock candidates))
  | .choosing withLock candidates =>
    match candidates[choice]? with
    | none => if candidates = [] then some (s.goto t .idle) else none
    | some (w, seq) =>
      if ∀ candidate ∈ candidates, seq ≤ candidate.2 then
        if withLock then some (s.goto t (.locking w (candidates.eraseIdx choice) .load))
        else some (s.goto t .idle)
      else none
  | .freed _ =>
    some ({ s with allocatedSlotNum := s.allocatedSlotNum - 1 }.goto t .idle)
  | .idle | .locking .. | .running .. | .recycling .. => none

/-- An access of the seqlock word of record `w`. -/
def PoolState.access (s : PoolState pool threads) (t : Fin threads) (w : Fin pool.len)
    (word : SeqWord) (progress : Progress) : PoolState pool threads :=
  { s with
    word := update s.word w word
    returns := if (s.pc t).frees progress then update s.returns w 0 else s.returns }.goto
      t ((s.pc t).resume pool progress)

variable (pool threads)

def poolStep (s : PoolState pool threads) :
    PoolEvent pool.len threads → Option (PoolState pool threads)
  | .call t call =>
    if s.pc t = .idle then some (s.goto t (call.enters pool)) else none
  | .step t choice spurious =>
    match (s.pc t).seqAccess pool with
    | some (op, w, place) =>
      some (s.access t w (op.access spurious (s.word w) place).1
        (op.access spurious (s.word w) place).2)
    | none => s.advance t choice (s.pc t)

def poolSystem : System (PoolState pool threads) (PoolEvent pool.len threads) where
  init := fun s => (∀ w, s.word w = initSeqlock) ∧ s.allocatedSlotNum = 0 ∧
    (∀ w, s.returns w = 0) ∧ ∀ t, s.pc t = .idle
  step := poolStep pool threads

end

/-! ### What a step does to a record -/

def PoolPc.pending {len : Nat} : PoolPc len → Int
  | .reserved _ => 1
  | .freed _ => -1
  | _ => 0

section

variable {pool : PoolLen} {threads : Nat} {s : PoolState pool threads} {t : Fin threads}

/-- `WSeqEnd` and `WUnlockOnly` do not write over a free record, `RecycleWmeta` does not find
its record free already, and it does not free a record that a reserve has taken but not yet
returned. -/
def PoolState.disciplined (s : PoolState pool threads) : PoolEvent pool.len threads → Bool
  | .call _ _ => true
  | .step t _ _ =>
    match s.pc t with
    | .running call w (.install _) => call.op.stores = false || (s.word w).isFree = false
    | .recycling _ w .load => (s.word w).isFree = false
    | .recycling _ w (.install _) => decide (∀ t', s.pc t' ≠ .reserved w)
    | _ => true

def PoolPc.Ready (pc : PoolPc pool.len) : Prop :=
  ∀ op w curr, pc.seqAccess pool = some (op, w, .install curr) → op.ready curr = true

/-- What an access of record `w` by a thread at `pc` amounts to. -/
inductive RecordStep (pc pc' : PoolPc pool.len) (w : Fin pool.len) (word word' : SeqWord)
    (frees : Bool) : Prop where
  | quiet (flag : word'.isFree = word.isFree) (settled : pc'.pending = 0)
      (kept : frees = false)
  | took (before : word.isFree = true) (after : word'.isFree = false)
      (reserved : pc' = .reserved w) (kept : frees = false)
  | freed (before : word.isFree = false) (after : word'.isFree = true) (recycled : pc' = .freed w)
      (reset : frees = true) (withLock : Bool) (curr : SeqWord)
      (place : pc = .recycling withLock w (.install curr))

variable {pc : PoolPc pool.len} {op : SeqOp} {w : Fin pool.len} {place : Place}

theorem PoolPc.resume_goes (next : pc.seqAccess pool = some (op, w, place)) (place' : Place) :
    (pc.resume pool (.goes place')).seqAccess pool = some (op, w, place') ∧
      (pc.resume pool (.goes place')).pending = 0 ∧ pc.frees (.goes place') = false := by
  cases pc with
  | scan withLock start limit i now =>
    simp only [PoolPc.seqAccess] at next
    split at next
    · rename_i more
      cases next
      refine ⟨?_, rfl, rfl⟩
      simp only [PoolPc.resume, PoolPc.seqAccess, if_pos more]
    · cases next
  | locking w' rest now =>
    cases next
    exact ⟨rfl, rfl, rfl⟩
  | running call w' now =>
    cases next
    exact ⟨rfl, rfl, rfl⟩
  | recycling withLock w' now =>
    cases next
    refine ⟨rfl, rfl, ?_⟩
    cases place <;> rfl
  | _ => cases next

theorem PoolPc.ready_scan (withLock : Bool) (start limit i : Nat) :
    (PoolPc.scan withLock start limit i .load : PoolPc pool.len).Ready := by
  intro op w curr installs
  simp only [PoolPc.seqAccess] at installs
  split at installs <;> cases installs

theorem PoolPc.ready_of_none (elsewhere : pc.seqAccess pool = none) : pc.Ready := by
  intro op w curr installs
  rw [elsewhere] at installs
  cases installs

theorem PoolPc.ready_resume_returned (next : pc.seqAccess pool = some (op, w, place))
    (reply : Reply) : (pc.resume pool (.returned reply)).Ready := by
  cases pc with
  | scan withLock start limit i now =>
    simp only [PoolPc.resume]
    split
    · exact PoolPc.ready_of_none rfl
    · exact PoolPc.ready_scan withLock start limit (i + 1)
  | locking w' rest now =>
    simp only [PoolPc.resume]
    split <;> exact PoolPc.ready_of_none rfl
  | running call w' now => exact PoolPc.ready_of_none rfl
  | recycling withLock w' now =>
    simp only [PoolPc.resume]
    split <;> exact PoolPc.ready_of_none rfl
  | _ => cases next

variable {reply : Reply}

theorem SeqOp.reply_of_allocate_unwritten {withLock : Bool} {word : SeqWord}
    (unwritten : (SeqOp.tryAllocateSeqlock withLock).loaded word = .returned reply ∨
      (SeqOp.tryAllocateSeqlock withLock).failed = .returned reply) : reply = .flag false := by
  rcases unwritten with came | came
  · simp only [SeqOp.loaded] at came
    split at came <;> cases came
    rfl
  · cases came
    rfl

theorem SeqOp.reply_of_free_unwritten {withLock : Bool} {word : SeqWord} (unwritten :
      (word.isFree = false ∧ (if withLock then SeqOp.freeSeqlockWithLock
        else SeqOp.freeSeqlock).loaded word = .returned reply) ∨
      (if withLock then SeqOp.freeSeqlockWithLock else SeqOp.freeSeqlock).failed =
        .returned reply) : reply = .flag false := by
  rcases unwritten with ⟨used, came⟩ | came
  · cases withLock <;> simp only [SeqOp.loaded, used, if_true, if_false, Bool.false_eq_true] at came
    all_goals
      split at came <;> cases came
    rfl
  · cases withLock <;> cases came
    rfl

variable {choice : Nat} {spurious : Bool}

theorem recordStep_of_unwritten (disciplined : s.disciplined (.step t choice spurious) = true)
    (next : (s.pc t).seqAccess pool = some (op, w, place))
    (unwritten : (place = .load ∧ op.loaded (s.word w) = .returned reply) ∨
      op.failed = .returned reply) :
    RecordStep (s.pc t) ((s.pc t).resume pool (.returned reply)) w (s.word w) (s.word w)
      ((s.pc t).frees (.returned reply)) := by
  simp only [PoolState.disciplined] at disciplined
  cases pc : s.pc t with
  | scan withLock start limit i now =>
    rw [pc] at next
    simp only [PoolPc.seqAccess] at next
    split at next
    · cases next
      obtain rfl := SeqOp.reply_of_allocate_unwritten (unwritten.imp_left And.right)
      exact .quiet rfl rfl rfl
    · cases next
  | locking w' rest now =>
    refine .quiet rfl ?_ rfl
    simp only [PoolPc.resume]
    split <;> rfl
  | running call w' now => exact .quiet rfl rfl rfl
  | recycling withLock w' now =>
    rw [pc] at next disciplined
    cases next
    have refused : reply = .flag false := by
      apply SeqOp.reply_of_free_unwritten
      refine unwritten.imp_left fun loaded => ⟨?_, loaded.2⟩
      rw [loaded.1] at disciplined
      simpa using disciplined
    subst refused
    refine .quiet rfl rfl ?_
    cases place <;> rfl
  | _ =>
    rw [pc] at next
    cases next

theorem recordStep_of_write {curr : SeqWord}
    (disciplined : s.disciplined (.step t choice spurious) = true)
    (next : (s.pc t).seqAccess pool = some (op, w, .install curr)) (ready : op.ready curr = true)
    (current : op.stores = true ∨ curr = s.word w) :
    RecordStep (s.pc t) ((s.pc t).resume pool (.returned (op.installed curr))) w (s.word w)
      (op.installs curr) ((s.pc t).frees (.returned (op.installed curr))) := by
  simp only [PoolState.disciplined] at disciplined
  cases pc : s.pc t with
  | scan withLock start limit i now =>
    rw [pc] at next
    simp only [PoolPc.seqAccess] at next
    split at next
    · cases next
      obtain rfl := current.resolve_left Bool.false_ne_true
      simp only [SeqOp.ready, Bool.and_eq_true] at ready
      refine .took ready.1 ?_ rfl rfl
      cases withLock with
      | false => exact zero_and_not_freeBit.1
      | true => exact isFree_tryAllocateSeqlock
    · cases next
  | locking w' rest now =>
    rw [pc] at next
    cases next
    obtain rfl := current.resolve_left Bool.false_ne_true
    exact .quiet (isFree_writeSeqlockOnly _) rfl rfl
  | running call w' now =>
    rw [pc] at next disciplined
    cases next
    refine .quiet ?_ rfl rfl
    cases call with
    | wSeqBegin =>
      obtain rfl := current.resolve_left Bool.false_ne_true
      simp only [LockCall.op, SeqOp.ready, Bool.and_eq_true, Bool.not_eq_true'] at ready
      exact (isFree_writeSeqlockBegin _).trans ready.1.symm
    | wLockOnly =>
      obtain rfl := current.resolve_left Bool.false_ne_true
      exact isFree_writeSeqlockOnly _
    | wSeqEnd =>
      have used : (s.word w).isFree = false := by
        simpa [LockCall.op, SeqOp.stores] using disciplined
      exact (isFree_writeSeqlockEnd curr).trans used.symm
    | wUnlockOnly =>
      have used : (s.word w).isFree = false := by
        simpa [LockCall.op, SeqOp.stores] using disciplined
      exact (isFree_writeSequnlockOnly curr).trans used.symm
  | recycling withLock w' now =>
    rw [pc] at next
    cases next
    cases withLock with
    | true =>
      obtain rfl := current.resolve_left Bool.false_ne_true
      simp only [if_true, SeqOp.ready, Bool.and_eq_true, Bool.not_eq_true'] at ready
      exact .freed ready.1 (isFree_freeSeqlockWithLock _) rfl rfl true _ rfl
    | false =>
      obtain rfl := current.resolve_left Bool.false_ne_true
      simp only [Bool.false_eq_true, if_false, SeqOp.ready, Bool.and_eq_true,
        Bool.not_eq_true'] at ready
      exact .freed ready.1 (flags_evenSeq_or_freeBit _).1 rfl rfl false _ rfl
  | _ =>
    rw [pc] at next
    cases next

theorem recordStep_of_access {word' : SeqWord} {progress : Progress} (ready : (s.pc t).Ready)
    (disciplined : s.disciplined (.step t choice spurious) = true)
    (next : (s.pc t).seqAccess pool = some (op, w, place))
    (accessed : op.access spurious (s.word w) place = (word', progress)) :
    RecordStep (s.pc t) ((s.pc t).resume pool progress) w (s.word w) word'
      ((s.pc t).frees progress) ∧ ((s.pc t).resume pool progress).Ready := by
  rcases SeqOp.access_cases accessed with ⟨rfl, place', rfl, goes⟩ | ⟨rfl, reply, rfl, unwritten⟩ |
    ⟨curr, rfl, current, rfl, rfl⟩
  · obtain ⟨stays, settled, kept⟩ := PoolPc.resume_goes next place'
    refine ⟨.quiet rfl settled kept, ?_⟩
    intro op' w' curr installs
    rw [stays] at installs
    rcases goes with rfl | ⟨rfl, loaded⟩
    · cases installs
    · cases installs
      exact loaded
  · exact ⟨recordStep_of_unwritten disciplined next unwritten,
      PoolPc.ready_resume_returned next reply⟩
  · exact ⟨recordStep_of_write disciplined next (ready op w curr next) current,
      PoolPc.ready_resume_returned next _⟩

end

/-! ### The invariant of the pool -/

section

variable {pool : PoolLen} {threads : Nat} {s : PoolState pool threads} {t : Fin threads}

def recordWeight (word : SeqWord) : Int := if word.isFree then 0 else 1

/-- 1 for a thread that has taken record `w` and is about to return it. -/
def PoolPc.reserves {len : Nat} (w : Fin len) : PoolPc len → Int
  | .reserved w' => if w' = w then 1 else 0
  | _ => 0

structure PoolInv (s : PoolState pool threads) : Prop where
  ready : ∀ t, (s.pc t).Ready
  balanced : Balanced s.allocatedSlotNum (PoolPc.pending ∘ s.pc)
    (∑ w : Fin pool.len, recordWeight (s.word w))
  -- a record in use is returned or about to be returned at most once, a free one not at all
  once : ∀ w, s.returns w + ∑ t, (s.pc t).reserves w ≤ recordWeight (s.word w)

theorem PoolInv.initial (start : (poolSystem pool threads).init s) : PoolInv s := by
  obtain ⟨free, zero, none, idle⟩ := start
  have weightless : ∀ w, recordWeight (s.word w) = 0 := by
    intro w
    simp [recordWeight, free]
  refine ⟨fun t => ?_, ?_, fun w => ?_⟩
  · rw [idle]
    exact PoolPc.ready_of_none rfl
  · rw [zero, Finset.sum_eq_zero fun w _ => weightless w]
    exact Balanced.initial fun t => by simp [idle, PoolPc.pending]
  · simp [none, idle, PoolPc.reserves, weightless]

variable {pc : PoolPc pool.len} {w : Fin pool.len}

theorem ready_update (ready : ∀ t, (s.pc t).Ready) (mine : pc.Ready) :
    ∀ t', (update s.pc t pc t').Ready :=
  (forall_update_iff s.pc fun _ pc => pc.Ready).mpr ⟨mine, fun t' _ => ready t'⟩

theorem sum_reserves (s : PoolState pool threads) (t : Fin threads) (pc : PoolPc pool.len)
    (w : Fin pool.len) : ∑ t', (update s.pc t pc t').reserves w =
      ∑ t', (s.pc t').reserves w + (pc.reserves w - (s.pc t).reserves w) :=
  sum_update Finset.univ s.pc (PoolPc.reserves w) (Finset.mem_univ t) pc

theorem reserves_of_pending (settled : pc.pending = 0) (w : Fin pool.len) : pc.reserves w = 0 := by
  cases pc with
  | reserved => cases settled
  | _ => rfl

theorem reserves_reserved (w w' : Fin pool.len) :
    (PoolPc.reserved w).reserves w' = if w = w' then 1 else 0 := rfl

theorem PoolInv.goto (inv : PoolInv s) (ready : pc.Ready) (settled : pc.pending = 0)
    (before : (s.pc t).pending = 0) : PoolInv (s.goto t pc) where
  ready := ready_update inv.ready ready
  balanced := by
    have owed : pc.pending - (PoolPc.pending ∘ s.pc) t = 0 := by
      rw [Function.comp_apply, settled, before]
      rfl
    have moved := inv.balanced.defer t owed
    rwa [← Function.comp_update, Int.add_zero] at moved
  once := by
    intro w
    simp only [PoolState.goto, sum_reserves, reserves_of_pending settled,
      reserves_of_pending before, Int.sub_self, Int.add_zero]
    exact inv.once w

variable {word' : SeqWord}

theorem Balanced.access (inv : PoolInv s) (before : (s.pc t).pending = 0)
    (owed : pc.pending = recordWeight word' - recordWeight (s.word w)) :
    Balanced s.allocatedSlotNum (PoolPc.pending ∘ update s.pc t pc)
      (∑ w', recordWeight (update s.word w word' w')) := by
  rw [sum_update Finset.univ s.word recordWeight (Finset.mem_univ w), Function.comp_update]
  apply inv.balanced.defer
  rw [Function.comp_apply, before, owed]
  omega

theorem RecordStep.pending_eq {before : PoolPc pool.len} {word : SeqWord} {frees : Bool}
    (change : RecordStep before pc w word word' frees) :
    pc.pending = recordWeight word' - recordWeight word := by
  cases change with
  | quiet flag settled => rw [settled, recordWeight, recordWeight, flag, Int.sub_self]
  | took free used reserved => simp [reserved, recordWeight, free, used, PoolPc.pending]
  | freed used free recycled => simp [recycled, recordWeight, free, used, PoolPc.pending]

theorem PoolInv.access (inv : PoolInv s) {frees : Bool} (ready : pc.Ready)
    (before : (s.pc t).pending = 0) (change : RecordStep (s.pc t) pc w (s.word w) word' frees)
    (unreserved : frees = true → ∀ t', s.pc t' ≠ .reserved w) :
    PoolInv ({ s with
      word := update s.word w word'
      returns := if frees then update s.returns w 0 else s.returns }.goto t pc) := by
  refine ⟨ready_update inv.ready ready, Balanced.access inv before change.pending_eq,
    fun w' => ?_⟩
  have once := inv.once w'
  simp only [PoolState.goto, sum_reserves, reserves_of_pending before]
  by_cases here : w' = w
  · subst here
    rw [update_self]
    have owed := change.pending_eq
    cases change with
    | quiet _ settled kept =>
      simp only [kept, Bool.false_eq_true, if_false, reserves_of_pending settled]
      omega
    | took _ _ reserved kept =>
      simp only [kept, Bool.false_eq_true, if_false]
      simp only [reserved, reserves_reserved, PoolPc.pending, if_true] at owed ⊢
      omega
    | freed _ free recycled reset =>
      have nobody : ∑ t', (s.pc t').reserves w' = 0 := by
        refine Finset.sum_eq_zero fun t' _ => ?_
        have other := unreserved reset t'
        cases now : s.pc t' with
        | reserved w'' =>
          refine if_neg ?_
          rintro rfl
          exact other now
        | _ => rfl
      have settled : pc.reserves w' = 0 := by rw [recycled]; rfl
      simp [reset, settled, nobody, recordWeight, free]
  · have elsewhere : pc.reserves w' = 0 := by
      cases change with
      | quiet _ settled => exact reserves_of_pending settled w'
      | took _ _ reserved =>
        rw [reserved]
        exact if_neg (Ne.symm here)
      | freed _ _ recycled =>
        rw [recycled]
        rfl
    have kept : (if frees then update s.returns w 0 else s.returns) w' = s.returns w' := by
      split
      · exact update_of_ne here ..
      · rfl
    rw [update_of_ne here, elsewhere, kept]
    omega

theorem PoolInv.returned (inv : PoolInv s) (reserved : s.pc t = .reserved w) :
    PoolInv ({ s with
      allocatedSlotNum := s.allocatedSlotNum + 1
      returns := update s.returns w (s.returns w + 1) }.goto t .idle) := by
  refine ⟨ready_update inv.ready (PoolPc.ready_of_none rfl), ?_, fun w' => ?_⟩
  · have paid : 1 + ((PoolPc.idle : PoolPc pool.len).pending - (PoolPc.pending ∘ s.pc) t) = 0 := by
      rw [Function.comp_apply, reserved]
      rfl
    have moved := inv.balanced.update t paid
    rwa [← Function.comp_update, Int.add_zero] at moved
  · have once := inv.once w'
    simp only [PoolState.goto, sum_reserves, reserved, reserves_reserved,
      reserves_of_pending (rfl : PoolPc.idle.pending = 0)]
    by_cases here : w' = w
    · subst here
      rw [update_self, if_pos rfl]
      omega
    · rw [update_of_ne here, if_neg (Ne.symm here)]
      omega

theorem PoolInv.recycled (inv : PoolInv s) (freed : s.pc t = .freed w) :
    PoolInv ({ s with allocatedSlotNum := s.allocatedSlotNum - 1 }.goto t .idle) := by
  refine ⟨ready_update inv.ready (PoolPc.ready_of_none rfl), ?_, fun w' => ?_⟩
  · have paid : -1 + ((PoolPc.idle : PoolPc pool.len).pending - (PoolPc.pending ∘ s.pc) t) = 0 := by
      rw [Function.comp_apply, freed]
      rfl
    have less : s.allocatedSlotNum + BitVec.ofInt 64 (-1) = s.allocatedSlotNum - 1 := by
      rw [BitVec.sub_eq_add_neg]
      rfl
    have moved := inv.balanced.update t paid
    rwa [← Function.comp_update, Int.add_zero, less] at moved
  · have settled : (s.pc t).reserves w' = 0 := by rw [freed]; rfl
    simpa [PoolState.goto, sum_reserves, settled,
      reserves_of_pending (rfl : PoolPc.idle.pending = 0)] using inv.once w'

theorem PoolInv.advance (inv : PoolInv s) {s' : PoolState pool threads} {choice : Nat}
    (taken : s.advance t choice (s.pc t) = some s') : PoolInv s' := by
  have idle : PoolPc.Ready (.idle : PoolPc pool.len) := PoolPc.ready_of_none rfl
  cases pc : s.pc t with
  | idle | locking | running | recycling =>
    rw [pc] at taken
    cases taken
  | checkCount withLock start =>
    simp only [pc, PoolState.advance] at taken
    split at taken <;> cases taken
    · exact inv.goto idle rfl (by rw [pc]; rfl)
    · exact inv.goto (PoolPc.ready_scan withLock start pool.len 0) rfl (by rw [pc]; rfl)
  | scan withLock start limit i place =>
    simp only [pc, PoolState.advance] at taken
    cases taken
    exact inv.goto idle rfl (by rw [pc]; rfl)
  | reserved w =>
    simp only [pc, PoolState.advance] at taken
    cases taken
    exact inv.returned pc
  | sampling withLock left candidates =>
    cases left with
    | zero =>
      simp only [pc, PoolState.advance] at taken
      cases taken
      exact inv.goto (PoolPc.ready_of_none rfl) rfl (by rw [pc]; rfl)
    | succ left =>
      simp only [pc, PoolState.advance] at taken
      split at taken <;> cases taken
      all_goals exact inv.goto (PoolPc.ready_of_none rfl) rfl (by rw [pc]; rfl)
  | choosing withLock candidates =>
    simp only [pc, PoolState.advance] at taken
    repeat' split at taken
    all_goals cases taken
    · exact inv.goto idle rfl (by rw [pc]; rfl)
    · refine inv.goto ?_ rfl (by rw [pc]; rfl)
      intro op w' curr installs
      cases installs
    · exact inv.goto idle rfl (by rw [pc]; rfl)
  | freed w =>
    simp only [pc, PoolState.advance] at taken
    cases taken
    exact inv.recycled pc

theorem pending_of_seqAccess {op : SeqOp} {place : Place}
    (next : pc.seqAccess pool = some (op, w, place)) : pc.pending = 0 := by
  cases pc <;> first
    | rfl
    | cases next

theorem PoolCall.ready_enters (call : PoolCall pool.len) : (call.enters pool).Ready := by
  cases call with
  | reserveWmeta withLock start => exact PoolPc.ready_scan withLock start pool.len 0
  | reserveWmetaEarlyTerm count withLock start =>
    exact PoolPc.ready_scan withLock start (min pool.len count) 0
  | checkReserveWmeta withLock hint start =>
    cases hint with
    | none => exact PoolPc.ready_of_none rfl
    | some hint => exact PoolPc.ready_scan withLock hint pool.len 0
  | sampleVictim sampleSize withLock => exact PoolPc.ready_of_none rfl
  | lock call w =>
    intro op w' curr installs
    cases installs
  | recycleWmeta w withLock =>
    intro op w' curr installs
    cases installs

theorem PoolCall.pending_enters (call : PoolCall pool.len) : (call.enters pool).pending = 0 := by
  cases call with
  | checkReserveWmeta withLock hint start => cases hint <;> rfl
  | _ => rfl

theorem poolInv_step {s' : PoolState pool threads} {e : PoolEvent pool.len threads}
    (inv : PoolInv s) (disciplined : s.disciplined e = true)
    (taken : poolStep pool threads s e = some s') : PoolInv s' := by
  cases e with
  | call t call =>
    simp only [poolStep] at taken
    split at taken <;> cases taken
    rename_i idle
    exact inv.goto call.ready_enters call.pending_enters (by rw [idle]; rfl)
  | step t choice spurious =>
    cases next : (s.pc t).seqAccess pool with
    | none =>
      simp only [poolStep, next] at taken
      exact inv.advance taken
    | some access =>
      obtain ⟨op, w, place⟩ := access
      simp only [poolStep, next] at taken
      cases taken
      obtain ⟨change, ready⟩ := recordStep_of_access (inv.ready t) disciplined next rfl
      refine inv.access ready (pending_of_seqAccess next) change ?_
      intro frees
      cases change with
      | quiet _ _ kept => exact absurd (frees.symm.trans kept) (by decide)
      | took _ _ _ kept => exact absurd (frees.symm.trans kept) (by decide)
      | freed _ _ _ _ withLock curr place =>
        simpa [PoolState.disciplined, place] using disciplined

end

/-! ### Accounting -/

section

variable {pool : PoolLen} {threads : Nat}

def PoolState.Quiescent (s : PoolState pool threads) : Prop := ∀ t, s.pc t = .idle

/-- The number of records without `FREE_BIT`. -/
def PoolState.inUse (s : PoolState pool threads) : Nat :=
  (Finset.univ.filter fun w => (s.word w).isFree = false).card

theorem PoolState.sum_recordWeight (s : PoolState pool threads) :
    ∑ w, recordWeight (s.word w) = s.inUse := by
  rw [PoolState.inUse, Finset.card_filter, Nat.cast_sum]
  apply Finset.sum_congr rfl
  intro w _
  cases flag : (s.word w).isFree <;> simp [recordWeight, flag]

theorem PoolState.inUse_le (s : PoolState pool threads) : s.inUse ≤ pool.len := by
  have all := Finset.card_filter_le (Finset.univ : Finset (Fin pool.len))
    fun w => (s.word w).isFree = false
  rwa [Finset.card_univ, Fintype.card_fin] at all

theorem PoolInv.returns_le {s : PoolState pool threads} (inv : PoolInv s) (w : Fin pool.len) :
    s.returns w ≤ 1 := by
  have once := inv.once w
  have waiting : 0 ≤ ∑ t, (s.pc t).reserves w := by
    refine Finset.sum_nonneg fun t _ => ?_
    unfold PoolPc.reserves
    repeat' split
    all_goals decide
  have most : recordWeight (s.word w) ≤ 1 := by
    unfold recordWeight
    split <;> decide
  omega

/-- The counter is the number of records in use whenever no function is running, and a record is
returned at most once between two frees, in every run in which records are released and
recycled only while they are in use. -/
theorem pool_accounting {s : PoolState pool threads}
    (reached : (poolSystem pool threads).ReachableWhere (fun s e => s.disciplined e = true) s) :
    (s.Quiescent → s.allocatedSlotNum.toNat = s.inUse ∧ s.allocatedSlotNum.toNat ≤ pool.len) ∧
      ∀ w, s.returns w ≤ 1 := by
  have inv : PoolInv s := reached.invariant (P := PoolInv) (fun _ => PoolInv.initial)
    fun _ _ _ before disciplined taken => poolInv_step before disciplined taken
  refine ⟨fun quiet => ?_, fun w => inv.returns_le w⟩
  have settled : ∀ t, (PoolPc.pending ∘ s.pc) t = 0 := by
    intro t
    rw [Function.comp_apply, quiet t]
    rfl
  have counted := inv.balanced.settled settled s.sum_recordWeight
    (Nat.lt_of_le_of_lt s.inUse_le pool.bounded)
  exact ⟨counted, counted.le.trans s.inUse_le⟩

end

/-! ### Runs -/

theorem two_lt_words : 2 < 2 ^ 64 := by decide

def twoRecords : PoolLen := ⟨2, Nat.two_pos, two_lt_words⟩

def firstThread : Fin 2 := ⟨0, Nat.zero_lt_two⟩

def secondThread : Fin 2 := Fin.last 1

def emptyPool (threads : Nat) : PoolState twoRecords threads :=
  ⟨fun _ => initSeqlock, 0, fun _ => 0, fun _ => .idle⟩

theorem emptyPool_init (threads : Nat) : (poolSystem twoRecords threads).init (emptyPool threads) :=
  ⟨fun _ => rfl, rfl, fun _ => rfl, fun _ => rfl⟩

/-- `RecycleWmeta` of a record that nobody has reserved. -/
def recycleFree : List (PoolEvent twoRecords.len 2) :=
  [.call firstThread (.recycleWmeta (twoRecords.index 0) true), .step firstThread 0 false,
    .step firstThread 0 false]

/-- `free_seqlock_with_lock` answers that the record is free, and the counter wraps around. -/
theorem counter_wraps_recycleFree :
    ∃ s, (poolSystem twoRecords 2).Reachable s ∧ s.Quiescent ∧ s.inUse = 0 ∧
      s.allocatedSlotNum.toNat = 2 ^ 64 - 1 := by
  obtain ⟨s, reached, shown⟩ := System.exists_reachable_of_run (poolSystem twoRecords 2)
    (emptyPool_init 2) recycleFree
    (fun s => decide ((∀ t, s.pc t = .idle) ∧ s.inUse = 0 ∧
      s.allocatedSlotNum.toNat = 2 ^ 64 - 1)) (by decide +kernel)
  rw [decide_eq_true_eq] at shown
  exact ⟨s, reached, shown⟩

/-- `n` accesses of a thread. -/
def poolSteps (n : Nat) (t : Fin 2) : List (PoolEvent twoRecords.len 2) :=
  List.replicate n (.step t 0 false)

/-- Thread 0 reserves a record with its lock and ends the section; thread 1 samples it as a
victim and recycles it; then thread 0 reserves it again. -/
def reserveRecycleReserve : List (PoolEvent twoRecords.len 2) :=
  List.flatten
    [[.call firstThread (.reserveWmeta true 1)], poolSteps 3 firstThread,
      [.call firstThread (.lock .wSeqEnd (twoRecords.index 1))], poolSteps 2 firstThread,
      [.call secondThread (.sampleVictim 1 true), .step secondThread 1 false],
      poolSteps 4 secondThread,
      [.call secondThread (.recycleWmeta (twoRecords.index 1) true)], poolSteps 3 secondThread,
      [.call firstThread (.checkReserveWmeta true none 1)], poolSteps 4 firstThread]

theorem pool_accounting_reserveRecycleReserve :
    ∃ s, (poolSystem twoRecords 2).ReachableWhere (fun s e => s.disciplined e = true) s ∧
      s.Quiescent ∧ s.inUse = 1 ∧ s.returns (twoRecords.index 1) = 1 ∧
      s.allocatedSlotNum.toNat = s.inUse := by
  obtain ⟨s, reached, shown⟩ := System.exists_reachableWhere_of_run
    (System.Tests.of_sound (poolSystem twoRecords 2) (fun s e => s.disciplined e)
      fun _ _ passes => passes)
    (emptyPool_init 2) reserveRecycleReserve
    (fun s => decide ((∀ t, s.pc t = .idle) ∧ s.inUse = 1 ∧ s.returns (twoRecords.index 1) = 1))
    (by decide +kernel)
  rw [decide_eq_true_eq] at shown
  obtain ⟨quiet, used, once⟩ := shown
  exact ⟨s, reached, quiet, used, once, ((pool_accounting reached).1 quiet).1⟩

end Megalon.Core
