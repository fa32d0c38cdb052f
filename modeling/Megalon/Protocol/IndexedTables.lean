import Mathlib.Algebra.Ring.Nat
import Megalon.Index.DirectoryHandle

/-!
Contract: where the store takes the indices from that it uses with its write metadata, in every
build.

Owns: the length that `InitSharedMetadata` gives the record array and the per-node vectors
(`core/c3.cc`), and the steps of `c3.cc`, `shm_obj_handle.cc` and `wmeta_manager.cc` that pass an
index to `GetWmeta`, to the local seqcounts or to the current-node counters.

Does not own: what the tables hold. Which lock is got, which comparison fails and what `rng` returns
is left open, and so is which free slot `ReserveCacheNode` finds.

Operations on the directory are appended to one log. A lookup sees the directory after some part of
the log, the part its replica has replayed.

`SAMPLING`, `NR` and `RANDSLOTALLOC` are always defined; the flush and evict managers are not
started in any build.
-/

namespace Megalon.Protocol.Indices

open Function Foundations Index

/-! ### Sizes -/

/-- The options of `CMakeLists.txt`, with the combinations it refuses. -/
structure Build where
  scr : Bool
  noCoherence : Bool
  limitedScr : Bool
  fullCoherence : Bool
  partitionedNode : Bool
  limited : limitedScr = true → scr = true
  coherent : scr = true → noCoherence = false
  full : fullCoherence = true → noCoherence = false ∧ scr = false

/-- `DYN_WMETA`. -/
def Build.dynWmeta (build : Build) : Bool := build.limitedScr

/-- `WMETA_WATERMARK`. -/
def wmetaWatermark : Nat := 90

/-- `CEIL_DIV(SEQLOCK_BITS, 8)`. -/
def perobjmetasize : Nat := (32 + 8 - 1) / 8

/-- `(slots + 63) & ~63ULL`. -/
def roundSlots (slots : Nat) : Nat := (slots + 63) % 2 ^ 64 / 64 * 64

/-- `wmeta_slots` of `InitSharedMetadata`. -/
def wmetaSlots (numSlots logicalScrSize : Nat) : Nat :=
  min (logicalScrSize / perobjmetasize) (numSlots * 100 % 2 ^ 64 / wmetaWatermark)

/-- The configured sizes; the constructor of `SharedMetadata` checks that there is a record. -/
structure Config where
  slots : Nat
  logicalScrSize : Nat
  slots_lt : slots < 2 ^ 64
  logicalScrSize_lt : logicalScrSize < 2 ^ 64
  checked : 0 < wmetaSlots (roundSlots slots) logicalScrSize

/-- `shared_num_slots`. -/
def Config.numSlots (cfg : Config) : Nat := roundSlots cfg.slots

/-- `wmeta_slot_len_`. -/
def Config.wmetaSlotLen (cfg : Config) : Nat := wmetaSlots cfg.numSlots cfg.logicalScrSize

def Config.Covers (cfg : Config) : Prop :=
  cfg.numSlots * 100 < 2 ^ 64 ∧ cfg.numSlots ≤ cfg.logicalScrSize / perobjmetasize

theorem covers_iff (cfg : Config) : cfg.Covers ↔ cfg.numSlots ≤ cfg.wmetaSlotLen := by
  unfold Config.Covers Config.wmetaSlotLen wmetaSlots wmetaWatermark
  rw [Nat.le_min]
  have slots : cfg.numSlots < 2 ^ 64 := by
    unfold Config.numSlots roundSlots
    omega
  constructor
  · rintro ⟨fits, enough⟩
    rw [Nat.mod_eq_of_lt fits]
    omega
  · rintro ⟨enough, fits⟩
    refine ⟨?_, enough⟩
    -- if the product wraps `d` times, `10 * num_slots` is at least `d * 2^64`
    have parts := Nat.div_add_mod (cfg.numSlots * 100) (2 ^ 64)
    have remainder := Nat.mod_lt (cfg.numSlots * 100) (Nat.two_pow_pos 64)
    have quotient : 90 * cfg.numSlots ≤ cfg.numSlots * 100 % 2 ^ 64 := by omega
    generalize cfg.numSlots * 100 / 2 ^ 64 = d at parts
    have few : d = 0 := by omega
    rw [few] at parts
    omega

/-! ### The program -/

/-- The tables of length `wmeta_slot_len_`. -/
inductive Table where
  | wmeta
  | localSeqcount
  | currentNodeCount
  deriving DecidableEq, Repr

structure Access where
  table : Table
  index : Nat
  deriving DecidableEq, Repr

/-- The calls of a thread; `full` says that a whole slot is written, `data` that the pointer is not
null. `DoReclaim` of the record manager is the last one. -/
inductive StoreCall where
  | read (key : BlockId)
  | get (key : BlockId)
  | write (key : BlockId) (full : Bool)
  | put (key : BlockId) (data : Bool)
  | doReclaim (count : Nat)
  deriving DecidableEq, Repr

/-- Why a thread reserves a record. -/
inductive Goal where
  /-- `AdmitWrite` and `CreateEntry`. -/
  | create (call : StoreCall) (key : BlockId) (slot : Nat)
  /-- `SwitchRW` with the slot of the write handle. -/
  | switchRW (call : StoreCall) (key : BlockId) (cnIndex : Option Nat)
  /-- `SampleReclaim`, which only frees records. -/
  | reclaim (count : Nat)
  deriving DecidableEq, Repr

/-- What `read_seq_*` and `write_seq_*` find in a handle. -/
structure Handle where
  call : StoreCall
  key : BlockId
  cnIndex : Nat
  wmetaIdx : Option Nat
  deriving DecidableEq, Repr

inductive IndexPc where
  | idle
  /-- The process has stopped, in a `LOG(FATAL)` or an exception. -/
  | stopped
  | getAnchor (call : StoreCall) (key : BlockId)
  | readSeqStart (rh : Handle)
  | readSeqEnd (rh : Handle)
  | moveToLocalReadOnly (rh : Handle)
  | writeSeqStart (wh : Handle)
  | writeSeqEnd (wh : Handle)
  | reserveCacheNode (call : StoreCall) (key : BlockId)
  /-- `CheckAndInsert` of `Admit`. -/
  | admitPage (call : StoreCall) (key : BlockId) (slot : Nat)
  | checkReserveWmeta (goal : Goal)
  /-- The loop of `CheckReserveWmeta`. -/
  | scan (goal : Goal) (start i : Nat)
  | sampleVictim (goal : Goal) (left : Nat) (candidates : List Nat)
  /-- The candidates are tried in the order of their sequences. -/
  | lockVictim (goal : Goal) (candidates : List Nat)
  | switchToReadOnly (goal : Goal) (victim : Nat)
  | recycleVictim (goal : Goal) (record : Nat)
  | unlockVictim (goal : Goal) (victim : Nat)
  /-- `CheckAndInsert` or `InvalidateSwitchToRWShared`. -/
  | publish (goal : Goal) (record : Nat)
  /-- `RecycleWmeta` of a record that was not published, `times` times. -/
  | recycleWmeta (goal : Goal) (record times : Nat)
  /-- The last `WSeqEnd`. -/
  | wSeqEnd (goal : Goal) (record : Nat)
  deriving DecidableEq, Repr

/-- What a step leaves open. -/
structure Choice where
  pick : Nat
  key : BlockId
  /-- The lock is got, the record allocated, the notification not set. -/
  succeeds : Bool
  /-- The sequence has changed. -/
  stale : Bool
  /-- The local seqcount says that the page is cached. -/
  cached : Bool
  /-- The counter of the node has passed the threshold. -/
  hot : Bool
  deriving DecidableEq, Repr

structure IndexState (nodes : Nat) where
  log : List (HandleOp BlockId nodes)
  slotFree : Nat → Bool
  pc : Nat → IndexPc
  accesses : List Access

inductive IndexEvent where
  | call (t : Nat) (call : StoreCall)
  | step (t : Nat) (choice : Choice)
  deriving DecidableEq

/-- What one step of a thread does. -/
structure Effect (nodes : Nat) where
  accesses : List Access
  next : IndexPc
  ops : List (HandleOp BlockId nodes)
  slotFree : Nat → Bool

def wmetaAt (w : Nat) : Access := ⟨.wmeta, w⟩

/-- `GetLocalSeqcount` and `UpdateLocalSeqcount`, absent with `FULL_COHERENCE`. -/
def Build.seqcountAt (build : Build) (w : Nat) : List Access :=
  if build.fullCoherence then [] else [⟨.localSeqcount, w⟩]

/-- `IncrementCurrentNodeCount`, `GetCurrentNodeCount` and `ResetCurrentNodeCount`. -/
def Build.countAt (build : Build) (slot : Nat) : List Access :=
  if build.partitionedNode then [⟨.currentNodeCount, slot⟩] else []

def directory {nodes : Nat} (log : List (HandleOp BlockId nodes)) : Directory BlockId nodes :=
  log.foldl (fun storage op => applyOp storage op.toModify) fun _ => none

def StoreCall.start : StoreCall → IndexPc
  | .read key => .getAnchor (.read key) key
  | .get key => .getAnchor (.get key) key
  | .write key full => .getAnchor (.write key full) key
  | .put key data => .getAnchor (.put key data) key
  | .doReclaim count => .sampleVictim (.reclaim count) 10 []

/-- What follows a new entry: `Read` and a partial `Write` look it up again. -/
def StoreCall.admitted : StoreCall → IndexPc
  | .read key => .getAnchor (.read key) key
  | .write key false => .getAnchor (.write key false) key
  | _ => .idle

/-- What follows when no slot is free: `Read` ignores it. -/
def StoreCall.notEnoughMemory : StoreCall → IndexPc
  | .read key => .getAnchor (.read key) key
  | _ => .idle

/-- `sample_size` of `SampleVictim`. -/
def Goal.sampleSize : Goal → Nat
  | .create (.write _ _) _ _ => 5
  | _ => 10

def Goal.finished : Goal → IndexPc
  | .create call _ _ => call.admitted
  | .switchRW call _ _ => call.start
  | .reclaim _ => .idle

def Goal.again : Goal → IndexPc
  | .reclaim count => .sampleVictim (.reclaim count) 10 []
  | goal => .checkReserveWmeta goal

def Goal.recycled : Goal → IndexPc
  | .reclaim (count + 2) => .sampleVictim (.reclaim (count + 1)) 10 []
  | .reclaim _ => .idle
  | goal => .checkReserveWmeta goal

section

variable {nodes : Nat} (build : Build) (cfg : Config) (nodeOf : Nat → Fin nodes)

/-- `Read` and `Get` after the lookup. -/
def readLookedUp (nid : Fin nodes) (entry : GCDEntry nodes) (call : StoreCall) (key : BlockId) :
    IndexPc :=
  match selectCacheNode entry nid with
  | .noEntry => if call = .read key then .reserveCacheNode call key else .idle
  | .cxlShared (some slot) => .readSeqStart ⟨call, key, slot, entry.wmetaIdx⟩
  | .cxlShared none | .remoteNode => .stopped
  | .localNode _ | .localNodeExclusive _ => .idle

/-- `Write` and `Put` after the lookup. In the static build `SwitchRW` takes the record with the
index of the slot. -/
def writeLookedUp (nid : Fin nodes) (entry : GCDEntry nodes) (call : StoreCall) (key : BlockId) :
    IndexPc :=
  match checkCacheNode entry nid with
  | .pageNotFound => .reserveCacheNode call key
  | .pageRO cnIndex =>
    if build.dynWmeta then .checkReserveWmeta (.switchRW call key cnIndex)
    else
      match cnIndex with
      | some slot => .publish (.switchRW call key cnIndex) slot
      | none => .stopped
  | .onCxl (some slot) => .writeSeqStart ⟨call, key, slot, entry.wmetaIdx⟩
  | .onCxl none => .stopped
  | .onNode _ => .idle

def lookedUp (nid : Fin nodes) (entry : GCDEntry nodes) (call : StoreCall) (key : BlockId) :
    IndexPc :=
  match call with
  | .read _ | .get _ => readLookedUp nid entry call key
  | .write _ _ | .put _ _ => writeLookedUp build nid entry call key
  | .doReclaim _ => .idle

/-- The record of a new slot: reserved, or the one with the index of the slot. `CreateEntry` without
data and `Admit` take none. -/
def afterSlot (call : StoreCall) (key : BlockId) (slot : Nat) : List Access × IndexPc :=
  match call with
  | .read _ | .get _ | .put _ false | .doReclaim _ => ([], .admitPage call key slot)
  | .write _ _ | .put _ true =>
    if build.dynWmeta then ([], .checkReserveWmeta (.create call key slot))
    else ([wmetaAt slot], .publish (.create call key slot) slot)

def admitRecord (call : StoreCall) (slot : Nat) : Option Nat :=
  match call with
  | .put _ _ => none
  | _ => if build.dynWmeta then none else some slot

/-- A failed `Admit` gives its slot back; a failed `CreateEntry` without data asks an empty optional
for a record. -/
def admitFailed (call : StoreCall) : IndexPc :=
  match call with
  | .put _ _ => .stopped
  | call => call.admitted

/-- What follows the answer to `CheckAndInsert` or `InvalidateSwitchToRWShared`. A losing insert
recycles its record twice if the record was refused, and once if the slot was. -/
def Goal.published (goal : Goal) (record : Nat) (response : Option (GCDResponse BlockId nodes)) :
    IndexPc :=
  match goal with
  | .create _ _ _ =>
    match checkAndInsertCode response with
    | .slotWmetaUpdateFailed => .recycleWmeta goal record 2
    | .slotUpdateFailed => .recycleWmeta goal record 1
    | _ => .wSeqEnd goal record
  | .switchRW _ _ _ =>
    match invalidateSwitchToRWSharedCode response with
    | .slotWmetaUpdateFailed | .entryNoexist => .recycleWmeta goal record 1
    | _ => .wSeqEnd goal record
  | .reclaim _ => .idle

def Goal.op (goal : Goal) (record : Nat) : List (HandleOp BlockId nodes) :=
  match goal with
  | .create _ key slot => [.checkAndInsert key slot sharedCacheNode (some record)]
  | .switchRW _ key _ => [.invalidateSwitchToRWShared key record]
  | .reclaim _ => []

def Goal.releases (goal : Goal) (slotFree : Nat → Bool) : Nat → Bool :=
  match goal with
  | .create _ _ slot => update slotFree slot true
  | _ => slotFree

/-- `read_seq_start`. -/
def readSeqStart (rh : Handle) (c : Choice) : List Access × IndexPc :=
  match rh.wmetaIdx with
  | none => ([], .readSeqEnd rh)
  | some w =>
    if c.stale ∧ build.fullCoherence = false then
      (wmetaAt w :: (build.seqcountAt w ++ build.seqcountAt w), rh.call.start)
    else (wmetaAt w :: build.seqcountAt w, .readSeqEnd rh)

/-- `MoveToLocalReadOnly` of a page that one node reads often. -/
def afterRead (rh : Handle) (c : Choice) : IndexPc :=
  if build.partitionedNode ∧ c.hot then .moveToLocalReadOnly rh else .idle

/-- `read_seq_end`: `CheckNotification`, then the counters of a page without a record, or the
record and the counters. -/
def readSeqEnd (rh : Handle) (c : Choice) : List Access × IndexPc :=
  if c.succeeds then
    match rh.wmetaIdx with
    | none => (build.countAt rh.cnIndex, afterRead build rh c)
    | some w =>
      if c.stale then (wmetaAt w :: build.seqcountAt w, rh.call.start)
      else
        (wmetaAt w :: ((if c.cached then [] else build.seqcountAt w) ++
          build.countAt rh.cnIndex), afterRead build rh c)
  else ([], rh.call.start)

/-- `write_seq_start`; `stale` says that the notification was set after the lock was got. -/
def writeSeqStart (wh : Handle) (c : Choice) : List Access × IndexPc :=
  match wh.wmetaIdx with
  | none => ([], wh.call.start)
  | some w =>
    if c.succeeds then
      if c.stale then ([wmetaAt w, wmetaAt w], wh.call.start) else ([wmetaAt w], .writeSeqEnd wh)
    else ([wmetaAt w], wh.call.start)

/-- `write_seq_end`. -/
def writeSeqEnd (wh : Handle) : List Access × IndexPc :=
  match wh.wmetaIdx with
  | none => ([], .stopped)
  | some w => (wmetaAt w :: build.seqcountAt w, .idle)

def IndexState.goes (s : IndexState nodes) (result : List Access × IndexPc) : Effect nodes :=
  ⟨result.1, result.2, [], s.slotFree⟩

/-- The loops that reserve and reclaim records, and what is done with a reserved record. -/
def performReserve (s : IndexState nodes) (c : Choice) : IndexPc → Option (Effect nodes)
  | .checkReserveWmeta goal =>
    if c.succeeds then some (s.goes ([], .scan goal c.pick 0))
    else some (s.goes ([], .sampleVictim goal goal.sampleSize []))
  | .scan goal start i =>
    if i < cfg.wmetaSlotLen then
      let w := (i + start) % cfg.wmetaSlotLen
      if c.succeeds then some (s.goes ([wmetaAt w], .publish goal w))
      else some (s.goes ([wmetaAt w], .scan goal start (i + 1)))
    else some (s.goes ([], .sampleVictim goal goal.sampleSize []))
  | .sampleVictim goal left candidates =>
    match left with
    | 0 => some (s.goes ([], .lockVictim goal candidates))
    | left + 1 =>
      let w := c.pick % cfg.wmetaSlotLen
      some (s.goes ([wmetaAt w],
        .sampleVictim goal left (if c.succeeds then w :: candidates else candidates)))
  | .lockVictim goal candidates =>
    if candidates = [] then some (s.goes ([], goal.again))
    else
      match candidates[c.pick]? with
      | none => none
      | some w =>
        if c.succeeds then some (s.goes ([wmetaAt w, wmetaAt w], .switchToReadOnly goal w))
        else some (s.goes ([wmetaAt w], .lockVictim goal (candidates.eraseIdx c.pick)))
  | .switchToReadOnly goal victim =>
    let op : HandleOp BlockId nodes := .switchToReadOnly c.key
    match switchToReadOnlyResult (respond (directory s.log) op.toModify) with
    | some record => some ⟨[], .recycleVictim goal record, [op], s.slotFree⟩
    | none => some ⟨[], .unlockVictim goal victim, [op], s.slotFree⟩
  | .recycleVictim goal record => some (s.goes ([wmetaAt record], goal.recycled))
  | .unlockVictim goal victim => some (s.goes ([wmetaAt victim], goal.again))
  | .publish goal record =>
    let response := (goal.op record).head?.bind fun op =>
      respond (directory s.log) (op : HandleOp BlockId nodes).toModify
    some ⟨[], goal.published record response, goal.op record, s.slotFree⟩
  | .recycleWmeta goal record times =>
    match times with
    | 0 => some ⟨[], goal.finished, [], goal.releases s.slotFree⟩
    | times + 1 => some (s.goes ([wmetaAt record], .recycleWmeta goal record times))
  | .wSeqEnd goal record => some (s.goes ([wmetaAt record], goal.finished))
  | _ => none

/-- One step of thread `t`. -/
def perform (s : IndexState nodes) (t : Nat) (c : Choice) : Option (Effect nodes) :=
  match s.pc t with
  | .idle | .stopped => none
  | .getAnchor call key =>
    let entry := (directory (s.log.take c.pick) key).getD initEmptyGcdEntry
    some (s.goes ([], lookedUp build (nodeOf t) entry call key))
  | .readSeqStart rh => some (s.goes (readSeqStart build rh c))
  | .readSeqEnd rh => some (s.goes (readSeqEnd build rh c))
  | .moveToLocalReadOnly rh =>
    some ⟨build.countAt rh.cnIndex, .idle,
      [.moveIndexToLocal rh.key c.pick (nodeOf t)], s.slotFree⟩
  | .writeSeqStart wh => some (s.goes (writeSeqStart wh c))
  | .writeSeqEnd wh =>
    let ops := if c.stale then [HandleOp.seqCountWrapAround wh.key] else []
    some { s.goes (writeSeqEnd build wh) with ops }
  | .reserveCacheNode call key =>
    if c.succeeds then
      if c.pick < cfg.numSlots ∧ s.slotFree c.pick = true then
        some { s.goes (afterSlot build call key c.pick) with
          slotFree := update s.slotFree c.pick false }
      else none
    else some (s.goes ([], call.notEnoughMemory))
  | .admitPage call key slot =>
    let op : HandleOp BlockId nodes :=
      .checkAndInsert key slot sharedCacheNode (admitRecord build call slot)
    if checkAndInsertCode (respond (directory s.log) op.toModify) = .noError then
      some ⟨[], call.admitted, [op], s.slotFree⟩
    else some ⟨[], admitFailed call, [op], update s.slotFree slot true⟩
  | pc => performReserve cfg s c pc

def IndexState.after (s : IndexState nodes) (t : Nat) (effect : Effect nodes) :
    IndexState nodes where
  log := s.log ++ effect.ops
  slotFree := effect.slotFree
  pc := update s.pc t effect.next
  accesses := s.accesses ++ effect.accesses

def indexStep (s : IndexState nodes) : IndexEvent → Option (IndexState nodes)
  | .call t call =>
    if s.pc t = .idle then
      match call with
      | .doReclaim count =>
        if build.dynWmeta ∧ 0 < count then
          some { s with pc := update s.pc t (.sampleVictim (.reclaim count) 10 []) }
        else none
      | call => some { s with pc := update s.pc t call.start }
    else none
  | .step t c => (perform build cfg nodeOf s t c).map (s.after t)

def indexSystem : System (IndexState nodes) IndexEvent where
  init := fun s => s.log = [] ∧ (∀ slot, s.slotFree slot = true) ∧ (∀ t, s.pc t = .idle) ∧
    s.accesses = []
  step := indexStep build cfg nodeOf

end

end Megalon.Protocol.Indices
