import Megalon.Index.CxlEntry
import Megalon.Protocol.IndexedTables

/-!
Contract: the ranges of the indices that the store uses with its write metadata.

Owns: that the indices in the directory, in the threads and in the accesses stay in range, the
builds and configurations in which they do, and a read that uses an index beyond the tables.

Does not own: slots as indices of pages and cache nodes.
-/

namespace Megalon.Protocol.Indices

open Foundations Index

/-! ### Indices in the directory -/

section

variable {nodes : Nat} (cfg : Config)

/-- The record of the entry is one of the array, its CXL slot one of the bitmap. -/
structure EntryInRange (entry : GCDEntry nodes) : Prop where
  record : ∀ w, entry.wmetaIdx = some w → w < cfg.wmetaSlotLen
  slot : ∀ slot, (entry.cnArray sharedCacheNode).cnIdx = some slot → slot < cfg.numSlots

def OpInRange : HandleOp BlockId nodes → Prop
  | .checkAndInsert _ cnIndex _ wmetaIdx =>
    cnIndex < cfg.numSlots ∧ ∀ w, wmetaIdx = some w → w < cfg.wmetaSlotLen
  | .invalidateSwitchToRWShared _ w => w < cfg.wmetaSlotLen
  | .insert _ cnIndex _ => cnIndex < cfg.numSlots
  | _ => True

variable {cfg} {entry : GCDEntry nodes}

theorem EntryInRange.setWmeta (inRange : EntryInRange cfg entry) {wmetaIdx : Option Nat}
    (record : ∀ w, wmetaIdx = some w → w < cfg.wmetaSlotLen) :
    EntryInRange cfg (entry.setWmeta wmetaIdx) :=
  ⟨record, inRange.slot⟩

theorem EntryInRange.setCn (inRange : EntryInRange cfg entry) {idx : Fin (nodes + 1)}
    {status : CNStatus}
    (slot : idx = sharedCacheNode → ∀ slot, status.cnIdx = some slot → slot < cfg.numSlots) :
    EntryInRange cfg (entry.setCn idx status) := by
  refine ⟨inRange.record, fun slot' stored => ?_⟩
  by_cases shared : sharedCacheNode = idx
  · subst shared
    rw [cnArray_setCn_self] at stored
    exact slot rfl slot' stored
  · rw [cnArray_setCn_of_ne entry _ shared] at stored
    exact inRange.slot slot' stored

theorem EntryInRange.invalidateExcept (inRange : EntryInRange cfg entry) (idx : Fin (nodes + 1)) :
    EntryInRange cfg (entry.invalidateExcept idx) := by
  refine ⟨inRange.record, fun slot stored => inRange.slot slot ?_⟩
  rwa [cnIdx_invalidateExcept] at stored

theorem entryInRange_init {cnIndex : Nat} (idx : Fin (nodes + 1)) (slot : cnIndex < cfg.numSlots) :
    EntryInRange cfg (initGcdEntry (some cnIndex) idx : GCDEntry nodes) := by
  refine ⟨fun w (record : none = some w) => (by cases record), fun slot' stored => ?_⟩
  simp only [initGcdEntry] at stored
  split at stored
  · cases stored
    exact slot
  · cases stored

def DirectoryInRange (cfg : Config) (storage : Directory BlockId nodes) : Prop :=
  ∀ key entry, storage key = some entry → EntryInRange cfg entry

variable {storage : Directory BlockId nodes}

section

variable (inRange : DirectoryInRange cfg storage)

include inRange

theorem DirectoryInRange.update (key : BlockId)
    {new : Option (GCDEntry nodes)} (mine : ∀ entry, new = some entry → EntryInRange cfg entry) :
    DirectoryInRange cfg (Function.update storage key new) := by
  intro key' entry found
  by_cases same : key' = key
  · subst same
    rw [Function.update_self] at found
    exact mine entry found
  · rw [Function.update_of_ne same] at found
    exact inRange key' entry found

theorem DirectoryInRange.insert (key : BlockId)
    (mine : EntryInRange cfg entry) : DirectoryInRange cfg (storage.insert key entry) :=
  inRange.update key fun _ same => Option.some.inj same ▸ mine

theorem DirectoryInRange.dropCopy (key : BlockId)
    (mine : EntryInRange cfg entry) (idx : Fin (nodes + 1)) :
    DirectoryInRange cfg (dropCopy storage key entry idx) := by
  unfold Index.dropCopy
  split
  · exact inRange.update key fun _ absent => by cases absent
  · exact inRange.insert key (mine.setCn fun _ slot absent => by cases absent)

theorem DirectoryInRange.checkAndInsert
    {key : BlockId} {cnIndex : Nat} {nid : Fin (nodes + 1)} {wmetaIdx : Option Nat}
    (opInRange : OpInRange cfg (.checkAndInsert key cnIndex nid wmetaIdx))
    {after : Directory BlockId nodes} {response : Option (GCDResponse BlockId nodes)}
    (outcome : checkPutArrayWmeta storage key (some cnIndex) nid wmetaIdx = .ok (after, response)) :
    DirectoryInRange cfg after := by
  obtain ⟨slot, record⟩ := opInRange
  simp only [checkPutArrayWmeta, stored] at outcome
  split at outcome
  · cases outcome
    refine inRange.insert key ?_
    split
    · exact (entryInRange_init nid slot).setWmeta record
    · exact entryInRange_init nid slot
  · rename_i entry found
    have mine := inRange key entry found
    have placed : EntryInRange cfg (entry.setCn nid ⟨some cnIndex, false⟩) :=
      mine.setCn fun _ slot' same => Option.some.inj same ▸ slot
    split at outcome
    · split at outcome
      · cases outcome
      · split at outcome
        · cases outcome
        · cases outcome
          exact inRange.insert key (placed.setWmeta record)
        · cases outcome
          exact inRange.insert key placed
    · split at outcome
      · split at outcome
        · cases outcome
          exact inRange.insert key (mine.setWmeta record)
        · cases outcome
          exact inRange
      · cases outcome
        exact inRange

theorem DirectoryInRange.applyOp {op : HandleOp BlockId nodes} (opInRange : OpInRange cfg op) :
    DirectoryInRange cfg (applyOp storage op.toModify) := by
  unfold Index.applyOp
  cases outcome : dispatchMut storage op.toModify with
  | error bug => exact inRange
  | ok out =>
    obtain ⟨after, response⟩ := out
    cases op with
    | checkAndInsert key cnIndex nid wmetaIdx => exact inRange.checkAndInsert opInRange outcome
    | insert key cnIndex nid =>
      simp only [HandleOp.toModify, dispatchMut, stored] at outcome
      split at outcome
      · cases outcome
        exact inRange.insert key
          ((entryInRange_init nid opInRange).setWmeta fun w absent => by cases absent)
      · rename_i entry found
        cases outcome
        have mine := inRange key entry found
        refine inRange.insert key (EntryInRange.setWmeta ?_ fun w absent => by cases absent)
        exact mine.setCn fun _ slot same => Option.some.inj same ▸ opInRange
    | invalidateSwitchToRWShared key w =>
      simp only [HandleOp.toModify, dispatchMut, stored] at outcome
      split at outcome
      · cases outcome
        exact inRange
      · rename_i entry found
        have mine := (inRange key entry found).invalidateExcept sharedCacheNode
        split at outcome
        · cases outcome
          exact inRange.insert key
            (mine.setWmeta fun w' same => Option.some.inj same ▸ opInRange)
        · cases outcome
          exact inRange.insert key mine
    | switchToReadOnly key =>
      simp only [HandleOp.toModify, dispatchMut, if_true] at outcome
      split at outcome
      · cases outcome
        exact inRange
      · rename_i entry found
        cases outcome
        exact inRange.insert key
          ((inRange key entry found).setWmeta fun w absent => by cases absent)
    | moveIndexToLocal key cn nid =>
      simp only [HandleOp.toModify, dispatchMut] at outcome
      split at outcome
      · cases outcome
      · split at outcome
        · cases outcome
        · rename_i entry found
          split at outcome
          · cases outcome
            have mine := inRange key entry found
            refine inRange.insert key (EntryInRange.setCn (EntryInRange.setWmeta ?_ ?_) ?_)
            · exact mine.setCn fun shared => absurd shared (Fin.succ_ne_zero nid)
            · exact fun w absent => by cases absent
            · exact fun _ slot absent => by cases absent
          · cases outcome
            exact inRange
    | delete key =>
      simp only [HandleOp.toModify, dispatchMut] at outcome
      split at outcome
      · cases outcome
        exact inRange
      · cases outcome
        exact inRange.update key fun _ absent => by cases absent
    | deleteLocal key nid =>
      simp only [HandleOp.toModify, dispatchMut] at outcome
      split at outcome
      · cases outcome
        exact inRange
      · rename_i entry found
        cases outcome
        exact inRange.dropCopy key (inRange key entry found) nid
    | deleteIfReadOnly key nid =>
      simp only [HandleOp.toModify, dispatchMut, deleteIfArray] at outcome
      split at outcome
      · cases outcome
        exact inRange
      · rename_i entry found
        repeat' split at outcome
        · cases outcome
          exact inRange
        · cases outcome
          exact inRange
        · cases outcome
        · cases outcome
          exact inRange.dropCopy key (inRange key entry found) nid
    | seqCountWrapAround key =>
      simp only [HandleOp.toModify, dispatchMut] at outcome
      split at outcome
      · cases outcome
        exact inRange
      · cases outcome
        exact inRange

end

theorem directoryInRange {log : List (HandleOp BlockId nodes)}
    (inRange : ∀ op ∈ log, OpInRange cfg op) : DirectoryInRange cfg (directory log) := by
  unfold directory
  have start : DirectoryInRange cfg (fun _ => none : Directory BlockId nodes) := by
    intro key entry found
    cases found
  revert start
  generalize (fun _ => none : Directory BlockId nodes) = storage
  induction log generalizing storage with
  | nil => exact fun start => start
  | cons op rest ih =>
    intro start
    exact ih (fun op' member => inRange op' (List.mem_cons_of_mem op member)) _
      (start.applyOp (inRange op List.mem_cons_self))

end

/-! ### Indices of the threads -/

section

variable {nodes : Nat} (build : Build) (cfg : Config)

/-- Each index of a slot that may be passed to a table is in range there: slots are used as indices
neither of records nor of counters, or the tables cover the slots. -/
def SlotsFit : Prop :=
  (build.dynWmeta = true ∧ build.partitionedNode = false) ∨ cfg.numSlots ≤ cfg.wmetaSlotLen

def AccessesInRange (accesses : List Access) : Prop :=
  ∀ access ∈ accesses, access.index < cfg.wmetaSlotLen

structure HandleInRange (handle : Handle) : Prop where
  record : ∀ w, handle.wmetaIdx = some w → w < cfg.wmetaSlotLen
  slot : handle.cnIndex < cfg.numSlots

def GoalInRange : Goal → Prop
  | .create _ _ slot => slot < cfg.numSlots
  | .switchRW _ _ _ | .reclaim _ => True

def PcInRange : IndexPc → Prop
  | .idle | .stopped | .getAnchor _ _ | .reserveCacheNode _ _ => True
  | .readSeqStart handle | .readSeqEnd handle | .moveToLocalReadOnly handle
  | .writeSeqStart handle | .writeSeqEnd handle => HandleInRange cfg handle
  | .admitPage _ _ slot => slot < cfg.numSlots
  | .checkReserveWmeta goal | .scan goal _ _ => GoalInRange cfg goal
  | .sampleVictim goal _ candidates | .lockVictim goal candidates =>
    GoalInRange cfg goal ∧ ∀ w ∈ candidates, w < cfg.wmetaSlotLen
  | .switchToReadOnly goal w | .recycleVictim goal w | .unlockVictim goal w | .publish goal w
  | .recycleWmeta goal w _ | .wSeqEnd goal w => GoalInRange cfg goal ∧ w < cfg.wmetaSlotLen

structure EffectInRange (effect : Effect nodes) : Prop where
  accesses : AccessesInRange cfg effect.accesses
  next : PcInRange cfg effect.next
  ops : ∀ op ∈ effect.ops, OpInRange cfg op

structure StateInRange (s : IndexState nodes) : Prop where
  log : ∀ op ∈ s.log, OpInRange cfg op
  pc : ∀ t, PcInRange cfg (s.pc t)
  accesses : AccessesInRange cfg s.accesses

variable {build cfg}

theorem AccessesInRange.nil : AccessesInRange cfg [] := by
  intro access member
  cases member

theorem AccessesInRange.cons {access : Access} {rest : List Access}
    (bound : access.index < cfg.wmetaSlotLen) (others : AccessesInRange cfg rest) :
    AccessesInRange cfg (access :: rest) :=
  List.forall_mem_cons.2 ⟨bound, others⟩

theorem AccessesInRange.append {first second : List Access} (before : AccessesInRange cfg first)
    (after : AccessesInRange cfg second) : AccessesInRange cfg (first ++ second) :=
  List.forall_mem_append.2 ⟨before, after⟩

theorem pcInRange_start (call : StoreCall) : PcInRange cfg call.start := by
  cases call with
  | doReclaim count => exact ⟨trivial, fun w member => by cases member⟩
  | _ => trivial

theorem pcInRange_admitted (call : StoreCall) : PcInRange cfg call.admitted := by
  rcases call with key | key | ⟨key, full⟩ | ⟨key, data⟩ | count
  case write => cases full <;> trivial
  all_goals trivial

theorem pcInRange_finished (goal : Goal) : PcInRange cfg goal.finished := by
  cases goal with
  | create call key slot => exact pcInRange_admitted call
  | switchRW call key cnIndex => exact pcInRange_start call
  | reclaim count => trivial

variable {goal : Goal}

theorem pcInRange_again (inRange : GoalInRange cfg goal) : PcInRange cfg goal.again := by
  cases goal with
  | reclaim count => exact ⟨trivial, fun w member => by cases member⟩
  | _ => exact inRange

theorem pcInRange_recycled (inRange : GoalInRange cfg goal) : PcInRange cfg goal.recycled := by
  rcases goal with _ | _ | (_ | _ | count)
  case reclaim.succ.succ => exact ⟨trivial, fun w member => by cases member⟩
  all_goals trivial

variable {record : Nat}

theorem pcInRange_published (inRange : GoalInRange cfg goal) (bound : record < cfg.wmetaSlotLen)
    (response : Option (GCDResponse BlockId nodes)) :
    PcInRange cfg (goal.published record response) := by
  cases goal with
  | reclaim count => trivial
  | _ =>
    simp only [Goal.published]
    split <;> exact ⟨inRange, bound⟩

theorem opInRange_goal (inRange : GoalInRange cfg goal) (bound : record < cfg.wmetaSlotLen) :
    ∀ op ∈ (goal.op record : List (HandleOp BlockId nodes)), OpInRange cfg op := by
  intro op member
  cases goal with
  | create call key slot =>
    obtain rfl := List.mem_singleton.1 member
    exact ⟨inRange, fun w same => Option.some.inj same ▸ bound⟩
  | switchRW call key cnIndex =>
    obtain rfl := List.mem_singleton.1 member
    exact bound
  | reclaim count => cases member

theorem seqcountAt_inRange (build : Build) {w : Nat} (bound : w < cfg.wmetaSlotLen) :
    AccessesInRange cfg (build.seqcountAt w) := by
  unfold Build.seqcountAt
  split
  · exact .nil
  · exact .cons bound .nil

variable {slot : Nat}

theorem countAt_inRange (fits : SlotsFit build cfg) (bound : slot < cfg.numSlots) :
    AccessesInRange cfg (build.countAt slot) := by
  unfold Build.countAt
  split
  · rename_i partitioned
    rcases fits with ⟨_, single⟩ | covered
    · rw [single] at partitioned
      cases partitioned
    · exact .cons (Nat.lt_of_lt_of_le bound covered) .nil
  · exact .nil

theorem slot_lt_wmetaSlotLen (fits : SlotsFit build cfg) (static : build.dynWmeta = false)
    (bound : slot < cfg.numSlots) : slot < cfg.wmetaSlotLen := by
  rcases fits with ⟨dynamic, _⟩ | covered
  · rw [static] at dynamic
    cases dynamic
  · exact Nat.lt_of_lt_of_le bound covered

/-- Accesses and next program counter of a step. -/
structure ResultInRange (cfg : Config) (result : List Access × IndexPc) : Prop where
  accesses : AccessesInRange cfg result.1
  next : PcInRange cfg result.2

variable {entry : GCDEntry nodes}

theorem EntryInRange.handle (inRange : EntryInRange cfg entry) (call : StoreCall) (key : BlockId)
    (stored : (entry.cnArray sharedCacheNode).cnIdx = some slot) :
    HandleInRange cfg ⟨call, key, slot, entry.wmetaIdx⟩ :=
  ⟨inRange.record, inRange.slot slot stored⟩

theorem cnIdx_of_pageRO {nid : Fin nodes} {cn : Option Nat}
    (checked : checkCacheNode entry nid = .pageRO cn) :
    (entry.cnArray sharedCacheNode).cnIdx = cn := by
  unfold checkCacheNode at checked
  repeat' split at checked
  all_goals cases checked
  rfl

theorem pcInRange_readLookedUp (inRange : EntryInRange cfg entry) (nid : Fin nodes)
    (call : StoreCall) (key : BlockId) : PcInRange cfg (readLookedUp nid entry call key) := by
  unfold readLookedUp
  split
  · split <;> trivial
  · rename_i slot selected
    exact inRange.handle call key (cnIdx_of_selectCacheNode selected)
  all_goals trivial

theorem pcInRange_writeLookedUp (fits : SlotsFit build cfg) (inRange : EntryInRange cfg entry)
    (nid : Fin nodes) (call : StoreCall) (key : BlockId) :
    PcInRange cfg (writeLookedUp build nid entry call key) := by
  unfold writeLookedUp
  split
  · trivial
  · rename_i cnIndex checked
    split
    · trivial
    · rename_i static
      split
      · rename_i slot
        have bound := inRange.slot slot (cnIdx_of_pageRO checked)
        exact ⟨trivial, slot_lt_wmetaSlotLen fits (Bool.eq_false_iff.2 static) bound⟩
      · trivial
  · rename_i slot checked
    exact inRange.handle call key (cnIdx_of_checkCacheNode checked)
  all_goals trivial

theorem pcInRange_lookedUp (fits : SlotsFit build cfg) (inRange : EntryInRange cfg entry)
    (nid : Fin nodes) (call : StoreCall) (key : BlockId) :
    PcInRange cfg (lookedUp build nid entry call key) := by
  cases call with
  | read | get => exact pcInRange_readLookedUp inRange nid _ key
  | write | put => exact pcInRange_writeLookedUp fits inRange nid _ key
  | doReclaim => trivial

theorem resultInRange_afterSlot (fits : SlotsFit build cfg) (bound : slot < cfg.numSlots)
    (call : StoreCall) (key : BlockId) : ResultInRange cfg (afterSlot build call key slot) := by
  unfold afterSlot
  split
  iterate 4 exact ⟨.nil, bound⟩
  all_goals
    split
    · exact ⟨.nil, bound⟩
    · rename_i static
      have record := slot_lt_wmetaSlotLen fits (Bool.eq_false_iff.2 static) bound
      exact ⟨.cons record .nil, bound, record⟩

theorem resultInRange_readSeqStart {rh : Handle} (inRange : HandleInRange cfg rh) (c : Choice) :
    ResultInRange cfg (readSeqStart build rh c) := by
  unfold readSeqStart
  split
  · exact ⟨.nil, inRange⟩
  · rename_i w record
    have bound := inRange.record w record
    have counts := seqcountAt_inRange build bound
    split
    · exact ⟨.cons bound (counts.append counts), pcInRange_start rh.call⟩
    · exact ⟨.cons bound counts, inRange⟩

theorem resultInRange_readSeqEnd (fits : SlotsFit build cfg) {rh : Handle}
    (inRange : HandleInRange cfg rh) (c : Choice) : ResultInRange cfg (readSeqEnd build rh c) := by
  have counted := countAt_inRange fits inRange.slot
  have leaves : PcInRange cfg (afterRead build rh c) := by
    unfold afterRead
    split
    · exact inRange
    · trivial
  unfold readSeqEnd
  split
  · split
    · exact ⟨counted, leaves⟩
    · rename_i w record
      have bound := inRange.record w record
      have counts := seqcountAt_inRange build bound
      split
      · exact ⟨.cons bound counts, pcInRange_start rh.call⟩
      · refine ⟨.cons bound (.append ?_ counted), leaves⟩
        split
        · exact .nil
        · exact counts
  · exact ⟨.nil, pcInRange_start rh.call⟩

theorem resultInRange_writeSeqStart {wh : Handle} (inRange : HandleInRange cfg wh) (c : Choice) :
    ResultInRange cfg (writeSeqStart wh c) := by
  unfold writeSeqStart
  split
  · exact ⟨.nil, pcInRange_start wh.call⟩
  · rename_i w record
    have bound := inRange.record w record
    split
    · split
      · exact ⟨.cons bound (.cons bound .nil), pcInRange_start wh.call⟩
      · exact ⟨.cons bound .nil, inRange⟩
    · exact ⟨.cons bound .nil, pcInRange_start wh.call⟩

theorem resultInRange_writeSeqEnd (build : Build) {wh : Handle} (inRange : HandleInRange cfg wh) :
    ResultInRange cfg (writeSeqEnd build wh) := by
  unfold writeSeqEnd
  split
  · exact ⟨.nil, trivial⟩
  · rename_i w record
    have bound := inRange.record w record
    exact ⟨.cons bound (seqcountAt_inRange build bound), trivial⟩

theorem ResultInRange.goes {result : List Access × IndexPc} (inRange : ResultInRange cfg result)
    (s : IndexState nodes) : EffectInRange cfg (s.goes result) :=
  ⟨inRange.accesses, inRange.next, fun op member => by cases member⟩

variable {s : IndexState nodes}

theorem effectInRange_goes {accesses : List Access} {next : IndexPc}
    (made : AccessesInRange cfg accesses) (goes : PcInRange cfg next) :
    EffectInRange cfg (s.goes (accesses, next)) :=
  ResultInRange.goes ⟨made, goes⟩ s

theorem entryInRange_empty : EntryInRange cfg (initEmptyGcdEntry : GCDEntry nodes) where
  record := fun w (absent : none = some w) => by cases absent
  slot := fun slot (absent : none = some slot) => by cases absent

theorem switchToReadOnlyResult_lt {storage : Directory BlockId nodes}
    (inRange : DirectoryInRange cfg storage) {key : BlockId}
    (result : switchToReadOnlyResult (respond storage (HandleOp.switchToReadOnly key).toModify) =
      some record) : record < cfg.wmetaSlotLen := by
  simp only [HandleOp.toModify, respond, dispatchMut, if_true] at result
  cases found : storage key with
  | none =>
    rw [found] at result
    cases result
  | some entry =>
    rw [found] at result
    exact (inRange key entry found).record record result

theorem wmetaSlotLen_pos (cfg : Config) : 0 < cfg.wmetaSlotLen := cfg.checked

theorem effectInRange_of_performReserve (inRange : StateInRange cfg s) {pc : IndexPc}
    (mine : PcInRange cfg pc) {c : Choice} {effect : Effect nodes}
    (acted : performReserve cfg s c pc = some effect) : EffectInRange cfg effect := by
  have record (i : Nat) : i % cfg.wmetaSlotLen < cfg.wmetaSlotLen :=
    Nat.mod_lt i (wmetaSlotLen_pos cfg)
  have starts {goal : Goal} (ok : GoalInRange cfg goal) :
      PcInRange cfg (.sampleVictim goal goal.sampleSize []) := ⟨ok, fun w member => by cases member⟩
  cases pc with
  | checkReserveWmeta goal =>
    simp only [performReserve] at acted
    split at acted
    · cases acted
      exact effectInRange_goes .nil mine
    · cases acted
      exact effectInRange_goes .nil (starts mine)
  | scan goal start i =>
    simp only [performReserve] at acted
    split at acted
    · split at acted
      · cases acted
        exact effectInRange_goes (.cons (record _) .nil) ⟨mine, record _⟩
      · cases acted
        exact effectInRange_goes (.cons (record _) .nil) mine
    · cases acted
      exact effectInRange_goes .nil (starts mine)
  | sampleVictim goal left candidates =>
    cases left with
    | zero =>
      cases acted
      exact effectInRange_goes .nil mine
    | succ left =>
      cases acted
      refine effectInRange_goes (.cons (record _) .nil) ⟨mine.1, fun w member => ?_⟩
      split at member
      · rcases List.mem_cons.1 member with rfl | member
        · exact record _
        · exact mine.2 w member
      · exact mine.2 w member
  | lockVictim goal candidates =>
    simp only [performReserve] at acted
    split at acted
    · cases acted
      exact effectInRange_goes .nil (pcInRange_again mine.1)
    · split at acted
      · cases acted
      · rename_i w chosen
        have bound := mine.2 w (List.mem_of_getElem? chosen)
        split at acted
        · cases acted
          exact effectInRange_goes (.cons bound (.cons bound .nil)) ⟨mine.1, bound⟩
        · cases acted
          refine effectInRange_goes (.cons bound .nil) ⟨mine.1, fun w' member => ?_⟩
          exact mine.2 w' (List.mem_of_mem_eraseIdx member)
  | switchToReadOnly goal victim =>
    simp only [performReserve] at acted
    have ops : ∀ op ∈ [(HandleOp.switchToReadOnly c.key : HandleOp BlockId nodes)],
        OpInRange cfg op := by
      intro op member
      obtain rfl := List.mem_singleton.1 member
      trivial
    split at acted
    · rename_i old result
      cases acted
      have bound := switchToReadOnlyResult_lt (directoryInRange inRange.log) result
      exact ⟨.nil, ⟨mine.1, bound⟩, ops⟩
    · cases acted
      exact ⟨.nil, mine, ops⟩
  | recycleVictim goal w =>
    cases acted
    exact effectInRange_goes (.cons mine.2 .nil) (pcInRange_recycled mine.1)
  | unlockVictim goal w =>
    cases acted
    exact effectInRange_goes (.cons mine.2 .nil) (pcInRange_again mine.1)
  | publish goal w =>
    cases acted
    exact ⟨.nil, pcInRange_published mine.1 mine.2 _, opInRange_goal mine.1 mine.2⟩
  | recycleWmeta goal w times =>
    cases times with
    | zero =>
      cases acted
      exact ⟨.nil, pcInRange_finished goal, fun op member => by cases member⟩
    | succ times =>
      cases acted
      exact effectInRange_goes (.cons mine.2 .nil) mine
  | wSeqEnd goal w =>
    cases acted
    exact effectInRange_goes (.cons mine.2 .nil) (pcInRange_finished goal)
  | _ => cases acted

theorem opInRange_admit (nodes : Nat) (fits : SlotsFit build cfg) (bound : slot < cfg.numSlots)
    (call : StoreCall) (key : BlockId) :
    OpInRange cfg (.checkAndInsert key slot sharedCacheNode (admitRecord build call slot) :
      HandleOp BlockId nodes) := by
  refine ⟨bound, fun w same => ?_⟩
  unfold admitRecord at same
  split at same
  · cases same
  · split at same
    · cases same
    · rename_i static
      cases same
      exact slot_lt_wmetaSlotLen fits (Bool.eq_false_iff.2 static) bound

theorem effectInRange_of_perform (fits : SlotsFit build cfg) {nodeOf : Nat → Fin nodes}
    (inRange : StateInRange cfg s) {t : Nat} {c : Choice} {effect : Effect nodes}
    (acted : perform build cfg nodeOf s t c = some effect) : EffectInRange cfg effect := by
  have mine := inRange.pc t
  have stored (k : Nat) : DirectoryInRange cfg (directory (s.log.take k)) :=
    directoryInRange fun op member => inRange.log op (List.mem_of_mem_take member)
  unfold perform at acted
  cases now : s.pc t with
  | idle | stopped =>
    rw [now] at acted
    cases acted
  | getAnchor call key =>
    rw [now] at acted
    cases acted
    refine effectInRange_goes .nil (pcInRange_lookedUp fits ?_ (nodeOf t) call key)
    cases found : directory (s.log.take c.pick) key with
    | none => exact entryInRange_empty
    | some entry => exact stored c.pick key entry found
  | readSeqStart rh =>
    rw [now] at acted mine
    cases acted
    exact (resultInRange_readSeqStart mine c).goes s
  | readSeqEnd rh =>
    rw [now] at acted mine
    cases acted
    exact (resultInRange_readSeqEnd fits mine c).goes s
  | moveToLocalReadOnly rh =>
    rw [now] at acted mine
    cases acted
    refine ⟨countAt_inRange fits mine.slot, trivial, fun op member => ?_⟩
    obtain rfl := List.mem_singleton.1 member
    trivial
  | writeSeqStart wh =>
    rw [now] at acted mine
    cases acted
    exact (resultInRange_writeSeqStart mine c).goes s
  | writeSeqEnd wh =>
    rw [now] at acted mine
    cases acted
    have result := resultInRange_writeSeqEnd build mine
    refine ⟨result.accesses, result.next, fun op member => ?_⟩
    split at member
    · obtain rfl := List.mem_singleton.1 member
      trivial
    · cases member
  | reserveCacheNode call key =>
    simp only [now] at acted
    split at acted
    · split at acted
      · rename_i found
        cases acted
        have result := resultInRange_afterSlot fits found.1 call key
        exact ⟨result.accesses, result.next, fun op member => by cases member⟩
      · cases acted
    · cases acted
      refine effectInRange_goes .nil ?_
      cases call <;> trivial
  | admitPage call key slot =>
    simp only [now] at acted mine
    have op := opInRange_admit nodes fits mine call key
    split at acted
    · cases acted
      exact ⟨.nil, pcInRange_admitted call, List.forall_mem_singleton.2 op⟩
    · cases acted
      refine ⟨.nil, ?_, List.forall_mem_singleton.2 op⟩
      unfold admitFailed
      split
      · trivial
      · exact pcInRange_admitted call
  | _ =>
    rw [now] at acted mine
    exact effectInRange_of_performReserve inRange mine acted

end

/-! ### Runs -/

section

variable {nodes : Nat} {build : Build} {cfg : Config} {nodeOf : Nat → Fin nodes}

theorem pcInRange_update {pc : Nat → IndexPc} (inRange : ∀ t, PcInRange cfg (pc t))
    {next : IndexPc} (mine : PcInRange cfg next) (t t' : Nat) :
    PcInRange cfg (Function.update pc t next t') := by
  by_cases same : t' = t
  · rw [same, Function.update_self]
    exact mine
  · rw [Function.update_of_ne same]
    exact inRange t'

variable {s : IndexState nodes}

theorem StateInRange.after (inRange : StateInRange cfg s) (t : Nat) {effect : Effect nodes}
    (ok : EffectInRange cfg effect) : StateInRange cfg (s.after t effect) where
  log := List.forall_mem_append.2 ⟨inRange.log, ok.ops⟩
  pc := pcInRange_update inRange.pc ok.next t
  accesses := inRange.accesses.append ok.accesses

theorem StateInRange.call (inRange : StateInRange cfg s) (t : Nat) (call : StoreCall) :
    StateInRange cfg { s with pc := Function.update s.pc t call.start } where
  log := inRange.log
  pc := pcInRange_update inRange.pc (pcInRange_start call) t
  accesses := inRange.accesses

theorem stateInRange (fits : SlotsFit build cfg)
    (reached : (indexSystem build cfg nodeOf).Reachable s) : StateInRange cfg s := by
  refine reached.invariant ?_ ?_
  · rintro s ⟨log, _, idle, accesses⟩
    refine ⟨fun op member => ?_, fun t => ?_, ?_⟩
    · rw [log] at member
      cases member
    · rw [idle]
      trivial
    · rw [accesses]
      exact .nil
  · intro s e s' inRange taken
    cases e with
    | call t call =>
      simp only [indexSystem, indexStep, Option.ite_none_right_eq_some] at taken
      obtain ⟨_, taken⟩ := taken
      split at taken
      · rename_i count
        split at taken
        · cases taken
          exact inRange.call t (.doReclaim count)
        · cases taken
      · cases taken
        exact inRange.call t call
    | step t c =>
      obtain ⟨effect, acted, rfl⟩ := Option.map_eq_some_iff.1 taken
      exact inRange.after t (effectInRange_of_perform fits inRange acted)

/-! ### Slots beyond the tables -/

theorem exists_reachable_perform (reached : (indexSystem build cfg nodeOf).Reachable s) {t : Nat}
    {c : Choice} {effect : Effect nodes} (acted : perform build cfg nodeOf s t c = some effect) :
    ∃ s', (indexSystem build cfg nodeOf).Reachable s' ∧ s'.pc t = effect.next ∧
      s'.log = s.log ++ effect.ops ∧ s'.slotFree = effect.slotFree ∧
      s'.accesses = s.accesses ++ effect.accesses := by
  have taken : (indexSystem build cfg nodeOf).step s (.step t c) = some (s.after t effect) :=
    congrArg (Option.map (s.after t)) acted
  exact ⟨s.after t effect, reached.step taken, Function.update_self .., rfl, rfl, rfl⟩

def choose (pick : Nat) : Choice := ⟨pick, BlockKey.nullBlockId, true, false, false, false⟩

def someKey : BlockId := ⟨1, 0⟩

theorem exists_reserved (build : Build) (nodeOf : Nat → Fin nodes)
    (beyond : cfg.wmetaSlotLen < cfg.numSlots) (call : StoreCall)
    (starts : call.start = .getAnchor call someKey)
    (misses : ∀ nid : Fin nodes, lookedUp build nid initEmptyGcdEntry call someKey =
      .reserveCacheNode call someKey) :
    ∃ s, (indexSystem build cfg nodeOf).Reachable s ∧ s.log = [] ∧
      s.pc 0 = (afterSlot build call someKey cfg.wmetaSlotLen).2 ∧
      s.accesses = (afterSlot build call someKey cfg.wmetaSlotLen).1 := by
  let fresh : IndexState nodes := ⟨[], fun _ => true, fun _ => .idle, []⟩
  have init : (indexSystem build cfg nodeOf).Reachable fresh :=
    .initial ⟨rfl, fun _ => rfl, fun _ => rfl, rfl⟩
  have called : (indexSystem build cfg nodeOf).Reachable
      { fresh with pc := Function.update fresh.pc 0 call.start } := by
    refine init.step (e := .call 0 call) ?_
    cases call with
    | doReclaim count => cases starts
    | _ => rfl
  have missed : perform build cfg nodeOf { fresh with pc := Function.update fresh.pc 0 call.start }
      0 (choose 0) = some (fresh.goes ([], .reserveCacheNode call someKey)) := by
    simp only [perform, starts, Function.update_self]
    exact congrArg (fun pc => some (fresh.goes ([], pc))) (misses (nodeOf 0))
  obtain ⟨s, reached, now, log, free, none⟩ := exists_reachable_perform called missed
  have reserved : perform build cfg nodeOf s 0 (choose cfg.wmetaSlotLen) =
      some { s.goes (afterSlot build call someKey cfg.wmetaSlotLen) with
        slotFree := Function.update s.slotFree cfg.wmetaSlotLen false } := by
    have available : s.slotFree cfg.wmetaSlotLen = true := by rw [free]; rfl
    simp only [perform, now, choose, beyond, available, IndexState.goes, if_true, and_self]
  obtain ⟨s', reached', now', log', _, made⟩ := exists_reachable_perform reached reserved
  refine ⟨s', reached', ?_, now', ?_⟩
  · rw [log', log]
    rfl
  · rw [made, none]
    rfl

theorem exists_access_static (nodeOf : Nat → Fin nodes) (static : build.dynWmeta = false)
    (beyond : cfg.wmetaSlotLen < cfg.numSlots) :
    ∃ s, (indexSystem build cfg nodeOf).Reachable s ∧ ⟨.wmeta, cfg.wmetaSlotLen⟩ ∈ s.accesses := by
  obtain ⟨s, reached, _, _, made⟩ := exists_reserved build nodeOf beyond
    (.write someKey true) rfl fun nid => by simp [lookedUp, writeLookedUp]
  refine ⟨s, reached, ?_⟩
  rw [made]
  simp [afterSlot, static, wmetaAt]

theorem exists_access_partitioned (nodeOf : Nat → Fin nodes) (dynamic : build.dynWmeta = true)
    (partitioned : build.partitionedNode = true) (beyond : cfg.wmetaSlotLen < cfg.numSlots) :
    ∃ s, (indexSystem build cfg nodeOf).Reachable s ∧
      ⟨.currentNodeCount, cfg.wmetaSlotLen⟩ ∈ s.accesses := by
  obtain ⟨s₁, reached₁, log₁, now₁, _⟩ := exists_reserved build nodeOf beyond
    (.read someKey) rfl fun nid => by simp [lookedUp, readLookedUp]
  have inserted : dispatchMut (fun _ => none : Directory BlockId nodes)
      (.checkPutArrayWmeta someKey (some cfg.wmetaSlotLen) sharedCacheNode none) = _ :=
    insert_absent cfg.wmetaSlotLen none rfl
  have admitted : perform build cfg nodeOf s₁ 0 (choose 0) = some ⟨[],
      .getAnchor (.read someKey) someKey,
      [.checkAndInsert someKey cfg.wmetaSlotLen sharedCacheNode none], s₁.slotFree⟩ := by
    simp only [perform, now₁, afterSlot, admitRecord, dynamic, if_true, log₁, directory,
      List.foldl_nil, HandleOp.toModify, respond_of_ok inserted]
    rfl
  obtain ⟨s₂, reached₂, now₂, log₂, _, _⟩ := exists_reachable_perform reached₁ admitted
  have entry : directory (s₂.log.take 1) someKey = some (cxlEntry cfg.wmetaSlotLen none) := by
    rw [log₂, log₁]
    simp only [List.nil_append, List.take_succ_cons, List.take_nil, directory, List.foldl_cons,
      List.foldl_nil, HandleOp.toModify, applyOp_of_ok inserted]
    exact Function.update_self ..
  let rh : Handle := ⟨.read someKey, someKey, cfg.wmetaSlotLen, none⟩
  have found : perform build cfg nodeOf s₂ 0 (choose 1) =
      some (s₂.goes ([], .readSeqStart rh)) := by
    simp only [perform, now₂, choose, entry, Option.getD_some, lookedUp, readLookedUp,
      selectCacheNode_cxlEntry]
    rfl
  obtain ⟨s₃, reached₃, now₃, _⟩ := exists_reachable_perform reached₂ found
  have begun : perform build cfg nodeOf s₃ 0 (choose 0) = some (s₃.goes ([], .readSeqEnd rh)) := by
    simp only [perform, now₃, IndexState.goes]
    rfl
  obtain ⟨s₄, reached₄, now₄, _⟩ := exists_reachable_perform reached₃ begun
  have counted : perform build cfg nodeOf s₄ 0 (choose 0) =
      some (s₄.goes ([⟨.currentNodeCount, cfg.wmetaSlotLen⟩], .idle)) := by
    simp only [perform, now₄, IndexState.goes, readSeqEnd, Build.countAt, afterRead, partitioned,
      choose, if_true]
    rfl
  obtain ⟨s₅, reached₅, _, _, _, made⟩ := exists_reachable_perform reached₄ counted
  refine ⟨s₅, reached₅, ?_⟩
  rw [made]
  exact List.mem_append_right _ List.mem_cons_self

/-- Every index is in range in every run exactly if slots are used as indices neither of records nor
of counters, or the tables cover the slots. -/
theorem indices_inRange_iff (build : Build) (cfg : Config) (nodeOf : Nat → Fin nodes) :
    (∀ s, (indexSystem build cfg nodeOf).Reachable s →
      ∀ access ∈ s.accesses, access.index < cfg.wmetaSlotLen) ↔
    (build.dynWmeta = true ∧ build.partitionedNode = false) ∨ cfg.Covers := by
  rw [covers_iff]
  constructor
  · intro inRange
    by_contra unfit
    obtain ⟨slotIndexed, beyond⟩ := not_or.1 unfit
    have beyond := Nat.lt_of_not_le beyond
    cases dynamic : build.dynWmeta with
    | false =>
      obtain ⟨s, reached, made⟩ := exists_access_static nodeOf dynamic beyond
      exact Nat.lt_irrefl _ (inRange s reached _ made)
    | true =>
      have partitioned : build.partitionedNode = true := by
        rw [← Bool.not_eq_false]
        exact fun single => slotIndexed ⟨dynamic, single⟩
      obtain ⟨s, reached, made⟩ :=
        exists_access_partitioned nodeOf dynamic partitioned beyond
      exact Nat.lt_irrefl _ (inRange s reached _ made)
  · intro fits s reached
    exact (stateInRange fits reached).accesses

end

/-! ### A read of a page without a counter -/

/-- The default build with `PARTITIONED_NODE`. -/
def partitionedBuild : Build where
  scr := true
  noCoherence := false
  limitedScr := true
  fullCoherence := false
  partitionedNode := true
  limited := fun _ => rfl
  coherent := fun _ => rfl
  full := fun on => by cases on

/-- The slots of `partition.yaml` with 64 MB for records: 18001024 slots and 16777216 records. -/
def smallScr : Config where
  slots := 18001000
  logicalScrSize := 64 * 2 ^ 20
  slots_lt := by decide
  logicalScrSize_lt := by decide
  checked := by decide

/-- `Read` of a new key, whose page gets the first slot of a word of the bitmap. -/
def readBeyond : List IndexEvent :=
  [.call 0 (.read someKey), .step 0 (choose 0), .step 0 (choose 16777216), .step 0 (choose 0),
    .step 0 (choose 1), .step 0 (choose 0), .step 0 (choose 0)]

theorem index_beyond_readBeyond :
    ∃ s : IndexState 2,
      (indexSystem partitionedBuild smallScr fun _ => ⟨0, Nat.two_pos⟩).Reachable s ∧
      ∃ access ∈ s.accesses, access.table = .currentNodeCount ∧
        ¬ access.index < smallScr.wmetaSlotLen := by
  obtain ⟨s, reached, holds⟩ := System.exists_reachable_of_run
    (indexSystem partitionedBuild smallScr fun _ => ⟨0, Nat.two_pos⟩)
    (s := ⟨[], fun _ => true, fun _ => .idle, []⟩) ⟨rfl, fun _ => rfl, fun _ => rfl, rfl⟩ readBeyond
    (fun s => decide (∃ access ∈ s.accesses, access.table = .currentNodeCount ∧
      ¬ access.index < smallScr.wmetaSlotLen)) (by decide +kernel)
  exact ⟨s, reached, of_decide_eq_true holds⟩

end Megalon.Protocol.Indices
