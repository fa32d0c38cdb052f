import Megalon.Protocol.SlotOwnership

/-!
Contract: a page is written only by the thread that holds the lock of the record its
entry names.

Owns: the write sections of `WriteToCXL`, the condition on the record a writer locks,
and a run in which a writer locks a record that was given to another key.

Does not own: what readers see meanwhile.
-/

namespace Megalon.Protocol

open Core Foundations Index

/-- Slot and record of a write section, from `WSeqBegin` to `WSeqEnd`. -/
def Pc.writeSection {Key : Type} {nodes : Nat} : Pc Key nodes → Option (Nat × Nat)
  | .writeNotified slot w | .writeAbort slot w | .writeCopy slot w _ | .writeFlush slot w _
  | .writeSeqEnd slot w => some (slot, w)
  | _ => none

/-- `CopyFromUserBufferCXL` in progress. -/
def Pc.copying {Key : Type} {nodes : Nat} : Pc Key nodes → Option (Nat × Nat)
  | .writeCopy slot w _ | .writeFlush slot w _ => some (slot, w)
  | _ => none

theorem writeSection_of_copying {Key : Type} {nodes slot w : Nat} {pc : Pc Key nodes}
    (copies : pc.copying = some (slot, w)) : pc.writeSection = some (slot, w) := by
  cases pc <;> first
    | exact copies
    | cases copies

section

variable {Key Mem : Type} [BlockKey Key] (cfg : Config Key Mem)

/-- A writer that locks a record locks one that is allocated to its key: it was not
reclaimed and given away since the lookup. -/
def locksOwnRecord (s : cfg.State) : Event Key → Bool
  | .thread t _ =>
    match (s.threads t).pc with
    | .writeSeqBegin _ w =>
      (s.shared.word w).isFree || s.shared.blockId w = (s.threads t).call.key
    | _ => true
  | _ => true

/-- No contested insertion, and no writer locks the record of another key. -/
def orderly (s : cfg.State) (e : Event Key) : Bool :=
  uncontested cfg s e && locksOwnRecord cfg s e

/-- In a write section the entry of the key names the slot and the record. -/
def WritersOwn (s : cfg.State) : Prop :=
  ∀ t slot w, (s.threads t).pc.writeSection = some (slot, w) →
    latestPages s.shared.log (s.threads t).call.key = some ⟨slot, some w⟩

def NoWriter (slot : Nat) (s : cfg.State) : Prop :=
  ∀ t w, (s.threads t).pc.writeSection ≠ some (slot, w)

/-- What holds along every orderly run. -/
structure Orderly (s : cfg.State) : Prop where
  records : RecordsOwned cfg s
  slots : SlotsOwned cfg s
  targets : TargetsKnown s
  writers : WritersOwn cfg s

variable {cfg} {s : cfg.State}

theorem uncontested_of_orderly {e : Event Key} (allowed : orderly cfg s e = true) :
    uncontested cfg s e = true := by
  rw [orderly, Bool.and_eq_true] at allowed
  exact allowed.1

variable {slot w : Nat}

theorem hold_of_writeSection (call : Call Key) {pc : cfg.Pc}
    (writes : pc.writeSection = some (slot, w)) : pc.hold call = some ⟨w, .entry true⟩ := by
  cases pc <;> simp_all [Pc.writeSection, Pc.hold]

theorem writeSection_move {t choice : Nat} {call : Call Key} {pc pc' : cfg.Pc}
    {act : Act Key} {reply : act.Reply cfg.nodes} (move : Move cfg t call choice pc act reply pc')
    (writes : pc'.writeSection = some (slot, w)) :
    (pc.writeSection = some (slot, w) ∧ act.quiet = true) ∨ pc = .writeSeqBegin slot w := by
  cases move with
  | writeSeqBegin =>
    cases writes
    exact .inr rfl
  | _ =>
    first
      | exact .inl ⟨writes, rfl⟩
      | cases writes

theorem writersOwn_begin {t : Nat} {shared : cfg.Shared} {reply : Bool}
    (records : RecordsOwned cfg s) (targets : TargetsKnown s)
    (counter : (s.threads t).pc = .writeSeqBegin slot w) {choice : Nat}
    (allowed : locksOwnRecord cfg s (.thread t choice) = true)
    (acted : acquire cfg s.shared w writeSeqlockBegin = some (shared, reply))
    (locked : reply = true) :
    shared.log = s.shared.log ∧
      latestPages s.shared.log (s.threads t).call.key = some ⟨slot, some w⟩ := by
  rcases acquire_cases acted with ⟨_, failed⟩ | ⟨used, unlocked, rfl, _⟩
  · simp [locked] at failed
  · refine ⟨rfl, ?_⟩
    simp only [locksOwnRecord, counter, used, Bool.false_or, decide_eq_true_eq] at allowed
    obtain ⟨key, record⟩ := records.pooled w used unlocked
    obtain rfl : key = (s.threads t).call.key :=
      (records.named key w record).2.2.symm.trans allowed
    have known := targets t slot (by rw [counter]; rfl)
    obtain ⟨page, present, names⟩ := Option.bind_eq_some_iff.mp record
    rw [PageMap.slot_of_some present, Option.some.injEq] at known
    rw [present, ← known, ← names]

theorem writersOwn_step {s' : cfg.State} {e : Event Key}
    (records : RecordsOwned cfg s) (targets : TargetsKnown s) (writers : WritersOwn cfg s)
    (allowed : orderly cfg s e = true) (taken : step cfg s e = some s') : WritersOwn cfg s' := by
  rw [orderly, Bool.and_eq_true] at allowed
  -- a thread that was in the section before the step keeps its entry
  have kept : ∀ t slot w, (s.threads t).pc.writeSection = some (slot, w) →
      latestPages s'.shared.log (s.threads t).call.key = some ⟨slot, some w⟩ := by
    intro t slot w before
    exact page_kept_of_held records allowed.1 taken
      (hold_of_writeSection _ before) (writers t slot w before)
  refine forall_threads_step (P := fun _ thread => ∀ slot w,
    thread.pc.writeSection = some (slot, w) →
      latestPages s'.shared.log thread.call.key = some ⟨slot, some w⟩) taken
    (fun t _ => kept t) ?_ ?_
  · intro _ call slot w writes
    simp only [Call.entryPc] at writes
    repeat' split at writes
    all_goals cases writes
  · rintro t choice act reply _ pc' rfl rfl move acted slot w writes
    rcases writeSection_move move writes with ⟨before, _⟩ | begins
    · exact kept t slot w before
    · rw [begins] at move
      cases move with
      | writeSeqBegin =>
        obtain ⟨log, present⟩ := writersOwn_begin records targets begins allowed.2 acted rfl
        rw [log, present]
      | writeBusy => cases writes

theorem orderly_step (s : cfg.State) (e : Event Key) (s' : cfg.State)
    (holds : Orderly cfg s) (allowed : orderly cfg s e = true) (taken : step cfg s e = some s') :
    Orderly cfg s' where
  records := recordsOwned_step s e s' holds.records (uncontested_of_orderly allowed) taken
  slots := slotsOwned_step s e s' holds.slots
    (insertsNamed_of_uncontested (uncontested_of_orderly allowed)) taken
  targets := targetsKnown_step s e s' holds.targets taken
  writers := writersOwn_step holds.records holds.targets holds.writers allowed taken

theorem orderly_initial (s : cfg.State) (start : Initial cfg s) : Orderly cfg s where
  records := recordsIn_initial s start
  slots := slotsOwned_initial s start
  targets := targetsKnown_initial s start
  writers := fun t slot w writes => by
    rw [start.threads t] at writes
    cases writes

theorem orderly_of_reachable
    (reached : (system cfg).ReachableWhere (fun s e => orderly cfg s e = true) s) : Orderly cfg s :=
  reached.invariant orderly_initial orderly_step

variable (cfg)

/-- At a page copy the directory in log order maps the key of the call to the slot and
the record; the thread alone holds the lock of the record, which has the key in it; and
no other key has the slot. -/
def ExclusiveWriter (s : cfg.State) : Prop :=
  ∀ t slot w, (s.threads t).pc.copying = some (slot, w) →
    latest cfg.nodes s.shared.log (s.threads t).call.key = some (cxlEntry slot (some w)) ∧
      (s.shared.word w).isLocked = true ∧ (s.shared.word w).isFree = false ∧
      s.shared.blockId w = (s.threads t).call.key ∧
      (∀ t' h, holdOf s.threads t' = some h → h.record = w → t' = t) ∧
      ∀ key entry, latest cfg.nodes s.shared.log key = some entry →
        (entry.cnArray sharedCacheNode).cnIdx = some slot → key = (s.threads t).call.key

variable {cfg}

/-- **Exclusive writer.** -/
theorem exclusive_writer {s : cfg.State}
    (reached : (system cfg).ReachableWhere (fun s e => orderly cfg s e = true) s) :
    ExclusiveWriter cfg s := by
  intro t slot w copies
  have writes := writeSection_of_copying copies
  obtain ⟨records, slots, _, writers⟩ := orderly_of_reachable reached
  have present := writers t slot w writes
  have holds : holdOf s.threads t = some ⟨w, .entry true⟩ := hold_of_writeSection _ writes
  obtain ⟨_, used, locked, _⟩ := records.held t _ holds
  have named := records.named _ w ((PageMap.record_of_some present).trans rfl)
  refine ⟨?_, locked, used, named.2.2, ?_, ?_⟩
  · rw [latest_eq, PageMap.toDirectory_some cfg.nodes present]
  · exact fun t' h other same => records.unique t' t h _ other holds same
  · intro key entry found copy
    rw [latest_eq, PageMap.toDirectory, Option.map_eq_some_iff] at found
    obtain ⟨page, pagePresent, rfl⟩ := found
    rw [Page.toEntry, cnArray_cxlEntry_zero, Option.some.injEq] at copy
    refine slots.distinct key _ slot ?_ (PageMap.slot_of_some present)
    rw [PageMap.slot_of_some pagePresent, copy]

end

/-! ### Two runs -/

section

def putAgain : List (Event BlockId) :=
  putAlone ++ [.start 0 (putCall 1 9)] ++ steps 3 0 0

/-- Before thread 0 takes the lock, thread 1 reclaims the record and uses it for
another page. -/
def putOverReclaim : List (Event BlockId) :=
  putAgain ++ [.start 1 ⟨.iterativeReclaim, pageKey, none, 1, 0⟩] ++ steps 3 1 1 ++
    catchUp 2 1 ++ steps 3 1 0 ++
  [.start 1 { putCall 1 5 with key := otherKey }] ++ steps 12 1 1 ++ catchUp 1 1 ++
    steps 2 1 1 ++ steps 2 0 0

def copiesFirst (s : State BlockId Pages onePool.nodes) : Bool :=
  (s.threads 0).pc.copying == some (0, 0) && (s.threads 0).call.key == pageKey

/-- Thread 0 holds the record of the other page and copies into a read-only one: the
switch to read-only reported no slot, so its notification is intact. -/
theorem writer_not_exclusive_putOverReclaim :
    ∃ s, (system onePool).Reachable s ∧ ¬ ExclusiveWriter onePool s := by
  obtain ⟨s, reached, broken⟩ := System.exists_reachable_of_run (system onePool) initial_start
    putOverReclaim (fun s => copiesFirst s && recordOf s pageKey == none) (by decide +kernel)
  simp only [copiesFirst, Bool.and_eq_true, beq_iff_eq] at broken
  obtain ⟨⟨copies, key⟩, readOnly⟩ := broken
  refine ⟨s, reached, fun exclusive => ?_⟩
  have present := (exclusive 0 0 0 copies).1
  rw [key] at present
  simp [recordOf, present] at readOnly

/-- Without the reclamation thread 0 owns the page it copies into. -/
theorem exclusive_writer_putAgain :
    ∃ s, (system onePool).ReachableWhere (fun s e => orderly onePool s e = true) s ∧
      (s.threads 0).pc.copying = some (0, 0) ∧ ExclusiveWriter onePool s := by
  obtain ⟨s, reached, copies⟩ := System.exists_reachableWhere_of_run
    (.of_sound (system onePool) (orderly onePool) fun _ _ passes => passes) initial_start
    (putAgain ++ steps 2 0 0) copiesFirst (by decide +kernel)
  rw [copiesFirst, Bool.and_eq_true, beq_iff_eq] at copies
  exact ⟨s, reached, copies.1, exclusive_writer reached⟩

end

end Megalon.Protocol
