import Megalon.Core.SeqlockAccess
import Megalon.Index.Directory

/-!
Contract: the lock calls on each path through the callers of the record pool, with
`DYN_WMETA` and with static records.

Owns: the calls that `AdmitWrite`, `CreateEntry`, `SwitchRW`, `WriteToCXL`,
`IterativeReclaim` and `SampleReclaim` make for given results of the calls before them,
what a path leaves held, and on which paths each lock is released once by its holder.

Does not own: which results the directory gives; any can come.
-/

namespace Megalon.Protocol

open Function Core Index

inductive Build where
  | dynWmeta
  | staticRecords
  deriving DecidableEq, Repr

/-- A call that takes or gives back a record. Calls that took nothing are left out:
`CheckReserveWmeta` and `SampleVictim` without a result, and `WSeqBegin` and
`WLockOnly` that return `false`. -/
inductive LockCall where
  /-- Returned `w`, allocated with its lock. -/
  | checkReserveWmeta (w : Nat)
  | wSeqBegin (w : Nat)
  | wLockOnly (w : Nat)
  | wSeqEnd (w : Nat)
  | wUnlockOnly (w : Nat)
  /-- `RecycleWmeta(w, true)`, with the result of `FreeLock`. -/
  | recycleWmeta (w : Nat) (freed : Bool)
  deriving DecidableEq, Repr

namespace LockCall

def record : LockCall → Nat
  | .checkReserveWmeta w | .wSeqBegin w | .wLockOnly w | .wSeqEnd w | .wUnlockOnly w
  | .recycleWmeta w _ => w

/-- The function of `core/seqcount.cc` behind the call. -/
def op : LockCall → SeqOp
  | .checkReserveWmeta _ => .tryAllocateSeqlock true
  | .wSeqBegin _ => .writeSeqlockBegin
  | .wLockOnly _ => .writeSeqlockOnly
  | .wSeqEnd _ => .writeSeqlockEnd
  | .wUnlockOnly _ => .writeSequnlockOnly
  | .recycleWmeta _ _ => .freeSeqlockWithLock

/-- The function writes the word. Without `DYN_WMETA` the body of
`free_seqlock_with_lock` is `return true`. -/
def writes (build : Build) : LockCall → Bool
  | .recycleWmeta _ freed => build = .dynWmeta && freed
  | _ => true

/-- What a thread that held `holding` has of the record after the call. -/
def leaves (build : Build) (holding : Holding) : LockCall → Holding
  | .checkReserveWmeta _ | .wSeqBegin _ => .sequence
  | .wLockOnly _ => .only
  | .wSeqEnd _ | .wUnlockOnly _ => .nothing
  | .recycleWmeta w freed => if writes build (.recycleWmeta w freed) then .nothing else holding

end LockCall

/-! ### Paths -/

/-- A pass of a reclaim loop. -/
inductive Round where
  /-- No record could be locked. -/
  | noVictim
  /-- Record `w` was locked, `SwitchToReadOnly` of its block id returned `switched`. -/
  | victim (w : Nat) (switched : Option Nat) (freed : Bool)
  deriving DecidableEq, Repr

def Round.calls : Round → List LockCall
  | .noVictim => []
  | .victim w (some reclaimed) freed => [.wLockOnly w, .recycleWmeta reclaimed freed]
  | .victim w none _ => [.wLockOnly w, .wUnlockOnly w]

/-- The loop around `CheckReserveWmeta`; without a record the path is still in it. -/
def reserveLoop (rounds : List Round) (reserved : Option Nat) : List LockCall :=
  rounds.flatMap Round.calls ++ (reserved.map LockCall.checkReserveWmeta).toList

/-- The results of the two `RecycleWmeta` after a lost insertion. -/
structure Freed where
  first : Bool
  second : Bool
  deriving DecidableEq, Repr

/-- `AdmitWrite` and `CreateEntry` after `CheckAndInsert` with record `w`; the case of
`GCD_SLOT_WMETA_UPDATE_FAILED` has no `break`. -/
def afterCheckAndInsert (w : Nat) (freed : Freed) : NrGcdError → List LockCall
  | .slotWmetaUpdateFailed => [.recycleWmeta w freed.first, .recycleWmeta w freed.second]
  | .slotUpdateFailed => [.recycleWmeta w freed.second]
  | _ => [.wSeqEnd w]

/-- `SwitchRW` after `InvalidateSwitchToRWShared`. -/
def afterInvalidate (w : Nat) (freed : Bool) : NrGcdError → List LockCall
  | .slotWmetaUpdateFailed | .entryNoexist => [.recycleWmeta w freed]
  | _ => [.wSeqEnd w]

/-- `IterativeReclaim` in pass `i`, with the result of each pass: nothing if `WLockOnly`
returned `false`. -/
def iterativeRounds (len : Nat) :
    (curr i left : Nat) → List (Option (Option Nat × Bool)) → List Round
  | _, _, _, [] => []
  | curr, i, left, none :: rest =>
    if left = 0 ∨ len ≤ i then [] else .noVictim :: iterativeRounds len curr (i + 1) left rest
  | curr, i, left, some (switched, freed) :: rest =>
    if left = 0 ∨ len ≤ i then []
    else
      let w := (curr + i) % len
      .victim w switched freed ::
        if switched.isSome then iterativeRounds len ((w + 1) % len) (i + 1) (left - 1) rest
        else iterativeRounds len curr (i + 1) left rest

/-- `SampleReclaim`: the passes until `left` records are reclaimed. -/
def sampleRounds : (left : Nat) → List Round → List Round
  | 0, _ => []
  | _, [] => []
  | left + 1, .noVictim :: rest => .noVictim :: sampleRounds (left + 1) rest
  | left + 1, .victim w switched freed :: rest =>
    .victim w switched freed :: sampleRounds (if switched.isSome then left else left + 1) rest

/-- A path through one of the callers: its arguments as far as the locks depend on them,
and the results of the calls it makes. `newIndex` is the reserved slot and `cnIndex` the
slot in the write handle, which are also the records of the static build. -/
inductive LockPath where
  | admitWrite (rounds : List Round) (reserved : Option Nat) (newIndex : Nat)
      (error : NrGcdError) (freed : Freed)
  | createEntry (withData : Bool) (rounds : List Round) (reserved : Option Nat) (newIndex : Nat)
      (error : NrGcdError) (freed : Freed)
  | switchRW (rounds : List Round) (reserved : Option Nat) (cnIndex : Nat) (error : NrGcdError)
      (freed : Bool)
  | writeToCXL (fromCxl : Bool) (cnIndex wmetaIdx : Option Nat) (begun notified : Bool)
  | iterativeReclaim (len curr count : Nat) (results : List (Option (Option Nat × Bool)))
  | sampleReclaim (count : Nat) (rounds : List Round)
  deriving DecidableEq, Repr

/-- `AdmitWrite`, and `CreateEntry` with data. -/
def createCalls (build : Build) (rounds : List Round) (reserved : Option Nat) (newIndex : Nat)
    (error : NrGcdError) (freed : Freed) : List LockCall :=
  match build with
  | .dynWmeta =>
    reserveLoop rounds reserved ++
      match reserved with
      | some w => afterCheckAndInsert w freed error
      | none => []
  | .staticRecords => .wSeqBegin newIndex :: afterCheckAndInsert newIndex freed error

def LockPath.calls (build : Build) : LockPath → List LockCall
  | .admitWrite rounds reserved newIndex error freed =>
    createCalls build rounds reserved newIndex error freed
  | .createEntry withData rounds reserved newIndex error freed =>
    -- without data there is no record; a lost insertion throws before it recycles one
    if withData then createCalls build rounds reserved newIndex error freed else []
  | .switchRW rounds reserved cnIndex error freed =>
    match build with
    | .dynWmeta =>
      reserveLoop rounds reserved ++
        match reserved with
        | some w => afterInvalidate w freed error
        | none => []
    | .staticRecords => afterInvalidate cnIndex freed error
  | .writeToCXL fromCxl cnIndex wmetaIdx begun notified =>
    match fromCxl, cnIndex, wmetaIdx with
    | true, some _, some w =>
      -- without `DYN_WMETA` the lock is always taken
      if build = .staticRecords ∨ begun = true then
        if notified then [.wSeqBegin w, .wSeqEnd w]  -- `write_seq_end`
        else [.wSeqBegin w, .wSeqEnd w]              -- `write_seq_start` gives up
      else []
    | _, _, _ => []
  | .iterativeReclaim len curr count results =>
    (iterativeRounds len curr 0 count results).flatMap Round.calls
  | .sampleReclaim count rounds => (sampleRounds count rounds).flatMap Round.calls

/-! ### What a path holds -/

section

variable (build : Build)

def LockCall.perform (held : Nat → Holding) (call : LockCall) : Nat → Holding :=
  update held call.record (call.leaves build (held call.record))

/-- Every lock is taken from nothing, and every release is made by the holder. -/
def ByHolder : (held : Nat → Holding) → List LockCall → Prop
  | _, [] => True
  | held, call :: rest =>
    call.op.follows (held call.record) = true ∧ ByHolder (call.perform build held) rest

def heldAfter (held : Nat → Holding) (calls : List LockCall) : Nat → Holding :=
  calls.foldl (LockCall.perform build) held

def LockCall.install (word : Nat → SeqWord) (call : LockCall) : Nat → SeqWord :=
  if call.writes build then update word call.record (call.op.installs (word call.record))
  else word

def wordsAfter (word : Nat → SeqWord) (calls : List LockCall) : Nat → SeqWord :=
  calls.foldl (LockCall.install build) word

def Clean (word : Nat → SeqWord) : Prop :=
  ∀ w, (word w).isLocked = false ∧ (word w).seq % 2 = 0

/-- Every release is by the holder, every lock taken is given back, and the records are
left unlocked with even sequences. -/
structure LockPath.Disciplined (path : LockPath) : Prop where
  byHolder : ByHolder build (fun _ => .nothing) (path.calls build)
  released : ∀ w, heldAfter build (fun _ => .nothing) (path.calls build) w = .nothing
  clean : ∀ word, Clean word → Clean (wordsAfter build word (path.calls build))

/-! ### The paths that keep the discipline -/

/-- The directory gave back the locked record, which was freed, or none. -/
def Round.Paired : Round → Prop
  | .noVictim => True
  | .victim w switched freed =>
    switched = none ∨ (build = .dynWmeta ∧ switched = some w ∧ freed = true)

/-- A lost insertion: the record is freed by one of the two calls and no other one
follows. -/
def InsertPaired (freed : Freed) : NrGcdError → Prop
  | .slotWmetaUpdateFailed => build = .dynWmeta ∧ freed.first = false ∧ freed.second = true
  | .slotUpdateFailed => build = .dynWmeta ∧ freed.second = true
  | _ => True

def CreatePaired (rounds : List Round) (reserved : Option Nat) (error : NrGcdError)
    (freed : Freed) : Prop :=
  match build with
  | .dynWmeta => (∀ round ∈ rounds, round.Paired .dynWmeta) ∧
      (reserved ≠ none → InsertPaired .dynWmeta freed error)
  | .staticRecords => InsertPaired .staticRecords freed error

def LockPath.Paired : LockPath → Prop
  | .admitWrite rounds reserved _ error freed => CreatePaired build rounds reserved error freed
  | .createEntry withData rounds reserved _ error freed =>
    withData = true → CreatePaired build rounds reserved error freed
  | .switchRW rounds reserved _ error freed =>
    build = .dynWmeta ∧ (∀ round ∈ rounds, round.Paired .dynWmeta) ∧
      (reserved ≠ none → error = .slotWmetaUpdateFailed ∨ error = .entryNoexist →
        freed = true)
  | .writeToCXL _ _ _ _ _ => True
  | .iterativeReclaim len curr count results =>
    ∀ round ∈ iterativeRounds len curr 0 count results, round.Paired build
  | .sampleReclaim count rounds => ∀ round ∈ sampleRounds count rounds, round.Paired build

end

/-! ### Words follow the locks -/

section

variable {build : Build} {held : Nat → Holding} {word : Nat → SeqWord}

def Agrees : Holding → SeqWord → Prop
  | .nothing, word => word.isLocked = false ∧ word.seq % 2 = 0
  | .sequence, word => word.isLocked = true ∧ word.seq % 2 = 1
  | .only, word => word.isLocked = true ∧ word.seq % 2 = 0

theorem agrees_installs {holding : Holding} {word : SeqWord} (call : LockCall)
    (follows : call.op.follows holding = true) (agrees : Agrees holding word)
    (writes : call.writes build = true) :
    Agrees (call.leaves build holding) (call.op.installs word) := by
  cases call with
  | checkReserveWmeta w =>
    exact ⟨isLocked_tryAllocateSeqlock, by simp [LockCall.op, SeqOp.installs]⟩
  | wSeqBegin w =>
    cases holding <;> simp only [LockCall.op, SeqOp.follows, Bool.false_eq_true] at follows
    refine ⟨isLocked_writeSeqlockBegin word, ?_⟩
    have even := agrees.2
    show (writeSeqlockBegin word).seq % 2 = 1
    rw [seq_writeSeqlockBegin]
    omega
  | wLockOnly w =>
    cases holding <;> simp only [LockCall.op, SeqOp.follows, Bool.false_eq_true] at follows
    refine ⟨isLocked_writeSeqlockOnly word, ?_⟩
    show (writeSeqlockOnly word).seq % 2 = 0
    rw [seq_writeSeqlockOnly]
    exact agrees.2
  | wSeqEnd w =>
    cases holding <;> simp only [LockCall.op, SeqOp.follows, Bool.false_eq_true] at follows
    refine ⟨isLocked_writeSeqlockEnd word, ?_⟩
    have odd := agrees.2
    show (writeSeqlockEnd word).seq % 2 = 0
    rw [seq_writeSeqlockEnd]
    omega
  | wUnlockOnly w =>
    cases holding <;> simp only [LockCall.op, SeqOp.follows, Bool.false_eq_true] at follows
    refine ⟨isLocked_writeSequnlockOnly word, ?_⟩
    show (writeSequnlockOnly word).seq % 2 = 0
    rw [seq_writeSequnlockOnly]
    exact agrees.2
  | recycleWmeta w freed =>
    rw [LockCall.leaves, if_pos writes]
    refine ⟨isLocked_freeSeqlockWithLock word, ?_⟩
    show (freeSeqlockWithLock word).seq % 2 = 0
    rw [seq_freeSeqlockWithLock]
    omega

theorem leaves_of_not_writes {holding : Holding} {call : LockCall}
    (kept : call.writes build = false) : call.leaves build holding = holding := by
  cases call with
  | recycleWmeta w freed => rw [LockCall.leaves, kept, if_neg Bool.false_ne_true]
  | _ => cases kept

theorem agrees_wordsAfter (calls : List LockCall) (byHolder : ByHolder build held calls)
    (agrees : ∀ w, Agrees (held w) (word w)) (w : Nat) :
    Agrees (heldAfter build held calls w) (wordsAfter build word calls w) := by
  induction calls generalizing held word with
  | nil => exact agrees w
  | cons call rest ih =>
    apply ih byHolder.2
    intro w'
    by_cases same : w' = call.record
    · subst same
      cases writes : call.writes build with
      | true =>
        simpa [LockCall.perform, LockCall.install, writes] using
          agrees_installs call byHolder.1 (agrees call.record) writes
      | false =>
        simpa [LockCall.perform, LockCall.install, writes, leaves_of_not_writes writes] using
          agrees call.record
    · cases writes : call.writes build <;>
        simpa [LockCall.perform, LockCall.install, writes, same] using agrees w'

end

/-! ### Paths that release what they take -/

section

variable {build : Build}

def Releases (build : Build) (held : Nat → Holding) (calls : List LockCall) : Prop :=
  ByHolder build held calls ∧ ∀ w, heldAfter build held calls w = .nothing

variable {call : LockCall} {rest : List LockCall}

theorem releases_cons {held : Nat → Holding} :
    Releases build held (call :: rest) ↔
      call.op.follows (held call.record) = true ∧ Releases build (call.perform build held) rest :=
  and_assoc

theorem disciplined_iff (path : LockPath) :
    path.Disciplined build ↔ Releases build (fun _ => .nothing) (path.calls build) := by
  refine ⟨fun disciplined => ⟨disciplined.byHolder, disciplined.released⟩, fun releases => ?_⟩
  refine ⟨releases.1, releases.2, fun word clean w => ?_⟩
  have agrees := agrees_wordsAfter (path.calls build) releases.1 clean w
  rwa [releases.2 w] at agrees

/-- At most record `w` is held. -/
def solo (w : Nat) (holding : Holding) : Nat → Holding :=
  update (fun _ => .nothing) w holding

theorem solo_nothing (w : Nat) : solo w .nothing = fun _ => .nothing :=
  update_eq_self w fun _ => Holding.nothing

theorem releases_nil : Releases build (fun _ => .nothing) [] := ⟨trivial, fun _ => rfl⟩

variable {w : Nat} {holding : Holding}

theorem releases_solo_nil : Releases build (solo w holding) [] ↔ holding = .nothing := by
  constructor
  · intro releases
    simpa [heldAfter, solo] using releases.2 w
  · rintro rfl
    rw [solo_nothing]
    exact releases_nil

theorem releases_solo_cons (mine : call.record = w) :
    Releases build (solo w holding) (call :: rest) ↔
      call.op.follows holding = true ∧
        Releases build (solo w (call.leaves build holding)) rest := by
  subst mine
  rw [releases_cons]
  simp [LockCall.perform, solo]

theorem releases_solo_recycleWmeta {freed : Bool} :
    Releases build (solo w holding) (.recycleWmeta w freed :: rest) ↔
      holding ≠ .nothing ∧
        Releases build
          (solo w (if build = .dynWmeta ∧ freed = true then .nothing else holding)) rest := by
  refine (releases_solo_cons rfl).trans ?_
  show SeqOp.follows holding .freeSeqlockWithLock = true ∧
    Releases build (solo w ((LockCall.recycleWmeta w freed).leaves build holding)) rest ↔ _
  cases holding <;> simp [SeqOp.follows, LockCall.leaves, LockCall.writes]

theorem releases_solo_wSeqEnd (w : Nat) : Releases build (solo w .sequence) [.wSeqEnd w] :=
  (releases_solo_cons rfl).mpr ⟨rfl, releases_solo_nil.mpr rfl⟩

theorem releases_take (mine : call.record = w) (follows : call.op.follows .nothing = true) :
    Releases build (fun _ => .nothing) (call :: rest) ↔
      Releases build (solo w (call.leaves build .nothing)) rest := by
  rw [← solo_nothing w, releases_solo_cons mine, and_iff_right follows]

/-! ### The tails -/

theorem releases_afterCheckAndInsert (w : Nat) (freed : Freed) (error : NrGcdError) :
    Releases build (solo w .sequence) (afterCheckAndInsert w freed error) ↔
      InsertPaired build freed error := by
  obtain ⟨first, second⟩ := freed
  cases error with
  | slotWmetaUpdateFailed =>
    rw [afterCheckAndInsert, releases_solo_recycleWmeta, releases_solo_recycleWmeta,
      releases_solo_nil]
    cases build <;> cases first <;> cases second <;> simp [InsertPaired]
  | slotUpdateFailed =>
    rw [afterCheckAndInsert, releases_solo_recycleWmeta, releases_solo_nil]
    cases build <;> cases second <;> simp [InsertPaired]
  | noError | entryNoexist =>
    exact ⟨fun _ => trivial, fun _ => releases_solo_wSeqEnd w⟩

theorem releases_afterInvalidate (w : Nat) (freed : Bool) (error : NrGcdError) :
    Releases .dynWmeta (solo w .sequence) (afterInvalidate w freed error) ↔
      (error = .slotWmetaUpdateFailed ∨ error = .entryNoexist → freed = true) := by
  cases error with
  | slotWmetaUpdateFailed | entryNoexist =>
    rw [afterInvalidate, releases_solo_recycleWmeta, releases_solo_nil]
    cases freed <;> decide
  | noError | slotUpdateFailed =>
    refine ⟨fun _ failed => ?_, fun _ => releases_solo_wSeqEnd w⟩
    rcases failed with failed | failed <;> cases failed

theorem not_releases_afterInvalidate (w : Nat) (freed : Bool) (error : NrGcdError) :
    ¬ Releases build (fun _ => .nothing) (afterInvalidate w freed error) := by
  intro releases
  cases error <;> exact Bool.false_ne_true releases.1.1

/-! ### The reclaim rounds -/

def Stuck (build : Build) (calls : List LockCall) : Prop :=
  ∀ held : Nat → Holding, (∃ w, held w ≠ .nothing) → ¬ Releases build held calls

theorem stuck_nil : Stuck build [] := by
  rintro held ⟨w, holds⟩ releases
  exact holds (releases.2 w)

theorem heldAfter_of_ne {held : Nat → Holding} (calls : List LockCall)
    (other : ∀ call ∈ calls, call.record ≠ w) : heldAfter build held calls w = held w := by
  induction calls generalizing held with
  | nil => rfl
  | cons call rest ih =>
    have different : w ≠ call.record := (other call (by simp)).symm
    rw [heldAfter, List.foldl_cons]
    refine (ih fun call member => other call (by simp [member])).trans ?_
    simp [LockCall.perform, different]

theorem stuck_of_record (takes : ∀ holding, call.op.follows holding = true → holding = .nothing)
    (mine : ∀ c ∈ call :: rest, c.record = w) : Stuck build (call :: rest) := by
  rintro held ⟨x, holds⟩ releases
  have here : call.record = w := mine call (by simp)
  have free : held w = .nothing := takes _ (here ▸ releases.1.1)
  have different : w ≠ x := by
    rintro rfl
    exact holds free
  apply holds
  rw [← releases.2 x, heldAfter_of_ne]
  intro c member
  rw [mine c member]
  exact different

theorem stuck_round (round : Round) (stuck : Stuck build rest) :
    Stuck build (round.calls ++ rest) := by
  rintro held ⟨x, holds⟩ releases
  cases round with
  | noVictim => exact stuck held ⟨x, holds⟩ releases
  | victim w switched freed =>
    have free : held w = .nothing := by
      cases switched <;>
        · have follows := releases.1.1
          revert follows
          show SeqOp.follows (held w) .writeSeqlockOnly = true → _
          cases held w <;> decide
    have different : x ≠ w := by
      rintro rfl
      exact holds free
    cases switched with
    | none =>
      rw [Round.calls, List.cons_append, releases_cons, List.cons_append, releases_cons]
        at releases
      refine stuck _ ⟨x, ?_⟩ releases.2.2
      simpa [LockCall.perform, LockCall.record, different] using holds
    | some reclaimed =>
      rw [Round.calls, List.cons_append, releases_cons, List.cons_append, releases_cons]
        at releases
      refine stuck _ ?_ releases.2.2
      by_cases same : reclaimed = w
      · refine ⟨x, ?_⟩
        simpa [LockCall.perform, LockCall.record, same, different] using holds
      · refine ⟨w, ?_⟩
        simp [LockCall.perform, LockCall.record, Ne.symm same, LockCall.leaves]

theorem stuck_rounds (rounds : List Round) (stuck : Stuck build rest) :
    Stuck build (rounds.flatMap Round.calls ++ rest) := by
  induction rounds with
  | nil => exact stuck
  | cons round rounds ih =>
    rw [List.flatMap_cons, List.append_assoc]
    exact stuck_round round ih

theorem releases_round (round : Round) (stuck : Stuck build rest) :
    Releases build (fun _ => .nothing) (round.calls ++ rest) ↔
      round.Paired build ∧ Releases build (fun _ => .nothing) rest := by
  cases round with
  | noVictim => exact (and_iff_right trivial).symm
  | victim w switched freed =>
    cases switched with
    | none =>
      have unlocks : Releases build (solo w .only) (.wUnlockOnly w :: rest) ↔
          Releases build (fun _ => .nothing) rest := by
        refine (releases_solo_cons rfl).trans ?_
        rw [← solo_nothing w]
        exact and_iff_right rfl
      refine ((releases_take rfl rfl).trans unlocks).trans ?_
      exact (and_iff_right (Or.inl rfl)).symm
    | some reclaimed =>
      by_cases same : reclaimed = w
      · subst same
        refine (releases_take rfl rfl).trans ?_
        refine releases_solo_recycleWmeta.trans ?_
        by_cases writes : build = .dynWmeta ∧ freed = true
        · rw [if_pos writes, solo_nothing]
          simp [Round.Paired, writes, LockCall.leaves]
        · have kept : ¬ Releases build (solo reclaimed .only) rest :=
            stuck _ ⟨reclaimed, by simp [solo]⟩
          rw [if_neg writes]
          simp [Round.Paired, writes, kept, LockCall.leaves, LockCall.record]
      · have foreign : ¬ (Round.victim w (some reclaimed) freed).Paired build := by
          simp [Round.Paired, same]
        simp only [foreign, false_and, iff_false]
        intro releases
        have follows := (releases_cons.mp (releases_cons.mp releases).2).1
        simp [LockCall.perform, LockCall.record, same, LockCall.op, SeqOp.follows] at follows

theorem releases_rounds_append (rounds : List Round) (stuck : Stuck build rest) :
    Releases build (fun _ => .nothing) (rounds.flatMap Round.calls ++ rest) ↔
      (∀ round ∈ rounds, round.Paired build) ∧ Releases build (fun _ => .nothing) rest := by
  induction rounds with
  | nil => simp
  | cons round rounds ih =>
    rw [List.flatMap_cons, List.append_assoc, releases_round round (stuck_rounds rounds stuck),
      ih, List.forall_mem_cons, and_assoc]

theorem releases_rounds (rounds : List Round) :
    Releases build (fun _ => .nothing) (rounds.flatMap Round.calls) ↔
      ∀ round ∈ rounds, round.Paired build := by
  rw [← List.append_nil (rounds.flatMap Round.calls), releases_rounds_append rounds stuck_nil]
  exact and_iff_left releases_nil

/-! ### The callers -/

theorem releases_reserveLoop (rounds : List Round) (reserved : Option Nat)
    {tail : Nat → List LockCall} (mine : ∀ w, ∀ call ∈ tail w, call.record = w) :
    Releases .dynWmeta (fun _ => .nothing)
        (reserveLoop rounds reserved ++
          match reserved with
          | some w => tail w
          | none => []) ↔
      (∀ round ∈ rounds, round.Paired .dynWmeta) ∧
        ∀ w, reserved = some w → Releases .dynWmeta (solo w .sequence) (tail w) := by
  rw [reserveLoop, List.append_assoc]
  cases reserved with
  | none =>
    refine (releases_rounds_append rounds stuck_nil).trans (and_congr_right fun _ => ?_)
    exact iff_of_true releases_nil fun w reserved => nomatch reserved
  | some w =>
    have stuck : Stuck .dynWmeta (.checkReserveWmeta w :: tail w) := by
      refine stuck_of_record (w := w) ?_ ?_
      · intro holding follows
        cases holding with
        | nothing => rfl
        | sequence | only => cases follows
      · intro call member
        rcases List.mem_cons.mp member with rfl | member
        · rfl
        · exact mine w call member
    refine (releases_rounds_append rounds stuck).trans (and_congr_right fun _ => ?_)
    refine (releases_take rfl rfl).trans ?_
    refine ⟨fun releases w' same => ?_, fun releases => releases w rfl⟩
    cases same
    exact releases

theorem record_afterCheckAndInsert {freed : Freed} {error : NrGcdError}
    (member : call ∈ afterCheckAndInsert w freed error) : call.record = w := by
  cases error <;> simp [afterCheckAndInsert] at member
  case slotWmetaUpdateFailed => rcases member with rfl | rfl <;> rfl
  all_goals
    subst member
    rfl

theorem record_afterInvalidate {freed : Bool} {error : NrGcdError}
    (member : call ∈ afterInvalidate w freed error) : call.record = w := by
  cases error <;> simp [afterInvalidate] at member <;> subst member <;> rfl

theorem releases_createCalls (rounds : List Round) (reserved : Option Nat) (newIndex : Nat)
    (error : NrGcdError) (freed : Freed) :
    Releases build (fun _ => .nothing) (createCalls build rounds reserved newIndex error freed) ↔
      CreatePaired build rounds reserved error freed := by
  cases build with
  | dynWmeta =>
    refine (releases_reserveLoop rounds reserved fun w call =>
      record_afterCheckAndInsert).trans (and_congr_right fun _ => ?_)
    simp only [releases_afterCheckAndInsert]
    cases reserved <;> simp
  | staticRecords => exact (releases_take rfl rfl).trans (releases_afterCheckAndInsert ..)

/-- **Lock discipline of the callers.** -/
theorem lock_discipline (build : Build) (path : LockPath) :
    path.Disciplined build ↔ path.Paired build := by
  rw [disciplined_iff]
  cases path with
  | admitWrite rounds reserved newIndex error freed => exact releases_createCalls ..
  | createEntry withData rounds reserved newIndex error freed =>
    cases withData with
    | true => simpa [LockPath.calls, LockPath.Paired] using releases_createCalls ..
    | false => simpa [LockPath.calls, LockPath.Paired] using releases_nil
  | switchRW rounds reserved cnIndex error freed =>
    cases build with
    | dynWmeta =>
      refine (releases_reserveLoop rounds reserved fun w call =>
        record_afterInvalidate).trans ?_
      simp only [releases_afterInvalidate, LockPath.Paired, true_and]
      cases reserved <;> simp
    | staticRecords =>
      refine iff_of_false (not_releases_afterInvalidate cnIndex freed error) ?_
      rintro ⟨dynamic, _⟩
      cases dynamic
  | writeToCXL fromCxl cnIndex wmetaIdx begun notified =>
    refine iff_of_true ?_ trivial
    have section_ : ∀ w, Releases build (fun _ => .nothing) [.wSeqBegin w, .wSeqEnd w] :=
      fun w => (releases_take rfl rfl).mpr (releases_solo_wSeqEnd w)
    simp only [LockPath.calls]
    repeat' split
    all_goals first
      | exact releases_nil
      | exact section_ _
  | iterativeReclaim len curr count results => exact releases_rounds _
  | sampleReclaim count rounds => exact releases_rounds _

/-- `AdmitWrite` that loses to a page with a record calls `RecycleWmeta` a second time on a
record that it no longer holds. -/
theorem released_twice_admitWrite :
    ¬ (LockPath.admitWrite [] (some 0) 0 .slotWmetaUpdateFailed ⟨true, true⟩).Disciplined
      .dynWmeta := by
  intro disciplined
  have again := disciplined.byHolder.2.2.1
  simp [LockCall.perform, LockCall.record, LockCall.leaves, LockCall.writes, LockCall.op,
    SeqOp.follows] at again

end

end Megalon.Protocol
