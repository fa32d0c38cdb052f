import Megalon.Foundations.Transition
import Megalon.Protocol.Shared

/-!
Contract: what a thread does with the shared state: `Read`, `Get`, `Write` and `Put`
of `shm_obj_handle.cc` with `Admit`, `AdmitWrite`, `CreateEntry`, `SwitchRW`,
`ReadFromCXL` and `WriteToCXL`, and the two reclaim loops of `wmeta_manager.cc`.

Owns: one program counter per atomic access, the transition system of all threads
and replicas, and its initial states.

Does not own: local copies of pages, which the default build never makes.

A choice carries what the source leaves open: a value of `rng`, the slot a bitmap
scan finds, the order in which `std::sort` puts equal sequence numbers, and whether a
compare-exchange that is tried once succeeds.
-/

namespace Megalon.Protocol

open Core Index

inductive CallKind where
  | read
  | get
  | write
  | put
  | sampleReclaim
  | iterativeReclaim
  deriving DecidableEq, Repr

/-- `data` is what the buffer of a writing call points to, nothing for `nullptr`. For
the reclaim loops `count` is the number of records to reclaim, and `offset` is
`curr_switch_idx_`. -/
structure Call (Key : Type) where
  kind : CallKind
  key : Key
  data : Option (Nat → UInt8)
  count : Nat
  offset : Nat

/-- The code that asked for a record or a victim, with what it needs afterwards. -/
inductive Purpose where
  | create (slot : Nat)
  | switchRW
  | sample (left : Nat)
  | iterate (current i left : Nat)
  deriving DecidableEq, Repr

/-- `read_seq_start` in read-write mode: the record, its sequence and
`is_local_cpu_cached`. -/
structure SeqGuard where
  wmeta : Nat
  seqcount : Nat
  cached : Bool
  deriving DecidableEq, Repr

inductive Pc (Key : Type) (nodes : Nat) where
  | idle
  | returned (result : Nat) (bytes : List UInt8)
  | crashed
  /-- An access to a local copy. -/
  | localCopy
  -- `GetAnchor`
  | anchorCtail
  | anchorLookup (ctail : Nat)
  | anchorStore (entry : Option (GCDEntry nodes))
  -- `ReadFromCXL`
  | readSeqBegin (slot w : Nat)
  | readLocalSeq (slot w seq : Nat)
  | readForget (slot w : Nat)
  | readFlush (slot line : Nat)
  | readCopy (slot : Nat) (guard : Option SeqGuard) (bytes : List UInt8)
  | readNotified (slot : Nat) (guard : Option SeqGuard) (bytes : List UInt8)
  | readRetry (slot : Nat) (guard : SeqGuard) (bytes : List UInt8)
  | readRemember (guard : SeqGuard) (bytes : List UInt8)
  -- `Admit`, `AdmitWrite`, `CreateEntry`
  | createReserve
  | createFill (slot : Nat) (wmeta : Option Nat) (i : Nat)
  | createFlush (slot : Nat) (wmeta : Option Nat) (line : Nat)
  | createInsert (slot : Nat) (wmeta : Option Nat)
  | createWait (slot : Nat) (wmeta : Option Nat) (index : Nat) (error : NrGcdError)
  | createRecycleTwice (slot w : Nat)
  | createRecycle (slot w : Nat)
  | createRecycleNode (slot : Nat)
  | createSeqEnd (w : Nat)
  -- `CheckReserveWmeta`
  | recordCheck (purpose : Purpose) (hint : Option Nat)
  | recordScan (purpose : Purpose) (start i : Nat)
  | recordBlock (purpose : Purpose) (w : Nat)
  -- `SampleVictim` and the reclamation of a record
  | sampleVictim (purpose : Purpose) (left : Nat) (candidates : List (Nat × Nat))
  | lockVictim (purpose : Purpose) (candidates : List (Nat × Nat))
  | iterateLock (current i left : Nat)
  | victimBlock (purpose : Purpose) (w : Nat)
  | victimSwitch (purpose : Purpose) (w : Nat) (victim : Key)
  | victimWait (purpose : Purpose) (w index : Nat) (result : Option Nat)
  | victimRecycle (purpose : Purpose) (w reclaimed : Nat)
  | victimUnlock (purpose : Purpose) (w : Nat)
  -- `SwitchRW`
  | switchSubmit (w : Nat)
  | switchWait (w index : Nat) (error : NrGcdError)
  | switchRecycle (w : Nat)
  | switchSeqEnd (w : Nat)
  -- `WriteToCXL`
  | writeSeqBegin (slot w : Nat)
  | writeNotified (slot w : Nat)
  | writeAbort (slot w : Nat)
  | writeCopy (slot w i : Nat)
  | writeFlush (slot w line : Nat)
  | writeSeqEnd (slot w : Nat)
  | writeWrap (w : Nat)
  | writeWrapWait (w index : Nat)
  | writeRemember (w seq : Nat)

/-- One step of a thread: an access, and where its result leads. -/
structure Instr (Key : Type) (nodes : Nat) where
  act : Act Key
  resume : act.Reply nodes → Pc Key nodes

section

variable {Key Mem : Type} [BlockKey Key] (cfg : Config Key Mem)

abbrev Config.Pc := Protocol.Pc Key cfg.nodes

/-- `to_write` of `Write`: the buffer is used only if it fills the page. -/
def Call.toWrite (call : Call Key) : Option (Nat → UInt8) :=
  if call.count = cfg.slotSize then call.data else none

def copyOf (buffer : Nat → UInt8) (count : Nat) : List UInt8 := (List.range count).map buffer

/-- The bytes of the backing file and how many bytes are flushed after them. -/
def Call.fileContent (call : Call Key) (t : Nat) : List UInt8 × Nat :=
  if cfg.fileBacked t then ((cfg.pread call.key).getD [], cfg.slotSize) else ([], 0)

/-- The bytes a new slot is filled with and how many bytes are flushed. -/
def Call.content (call : Call Key) (t : Nat) : List UInt8 × Nat :=
  match call.kind with
  | .put =>
    match call.data with
    | some buffer => (copyOf buffer call.count, call.count)
    | none => ([], 0)
  | .write =>
    match call.toWrite cfg with
    | some buffer => (copyOf buffer cfg.slotSize, cfg.slotSize)
    | none => call.fileContent cfg t
  | _ => call.fileContent cfg t

/-- `Admit` gives up the process if `pread` fails or returns 0, as it does at the end of the
file and beyond; `AdmitWrite` only logs it. -/
def Call.fetchFails (call : Call Key) (t : Nat) : Bool :=
  cfg.fileBacked t && (cfg.pread call.key).all List.isEmpty

/-- `min(count, SLOT_SIZE - offset_into_page)`. -/
def Call.bytesWrite (call : Call Key) : Nat := min call.count (cfg.slotSize - call.offset)

def Call.bytesRead (call : Call Key) : Nat := min call.count cfg.slotSize

/-- After `GetAnchor` and `selectCacheNode`. -/
def Call.afterReadAnchor (call : Call Key) (nid : Fin cfg.nodes) (entry : GCDEntry cfg.nodes) :
    cfg.Pc :=
  match selectCacheNode entry nid with
  | .noEntry => if call.kind = .read then .createReserve else .returned 0 []
  | .cxlShared (some slot) =>
    match entry.wmetaIdx with
    | some w => .readSeqBegin slot w
    | none => .readCopy slot none []
  | .cxlShared none => .crashed
  | .localNode _ => .localCopy
  | .localNodeExclusive _ => .localCopy
  | .remoteNode => .crashed

omit [BlockKey Key] in
/-- After `GetAnchor` and `checkCacheNode`. -/
def afterWriteAnchor (nid : Fin cfg.nodes) (entry : GCDEntry cfg.nodes) : cfg.Pc :=
  match checkCacheNode entry nid with
  | .pageNotFound => .createReserve
  | .pageRO _ => .recordCheck .switchRW none
  | .onCxl (some slot) =>
    match entry.wmetaIdx with
    | some w => .writeSeqBegin slot w
    | none => .anchorCtail
  | .onCxl none => .crashed
  | .onNode _ => .localCopy

def Call.afterAnchor (call : Call Key) (nid : Fin cfg.nodes) (entry : Option (GCDEntry cfg.nodes)) :
    cfg.Pc :=
  match call.kind with
  | .write | .put => afterWriteAnchor cfg nid (entry.getD initEmptyGcdEntry)
  | _ => call.afterReadAnchor cfg nid (entry.getD initEmptyGcdEntry)

/-- `Admit`, `AdmitWrite` and `CreateEntry` have returned. `Write` and `Put` only look
for `not_enough_memory`: an insertion that was lost counts as one that was made. -/
def Call.afterCreate (call : Call Key) : cfg.Pc :=
  match call.kind with
  | .put => .returned call.count []
  | .write => if (call.toWrite cfg).isSome then .returned cfg.slotSize [] else .anchorCtail
  | _ => .anchorCtail

/-- `CheckAndInsert` has returned. `Admit` has no record to give back; `CreateEntry`
without data throws when it looks for one. -/
def Call.afterInsert (call : Call Key) (slot : Nat) (wmeta : Option Nat) :
    NrGcdError → cfg.Pc
  | .slotWmetaUpdateFailed =>
    match wmeta with
    | some w => .createRecycleTwice slot w
    | none => if call.kind = .put then .crashed else .createRecycleNode slot
  | .slotUpdateFailed =>
    match wmeta with
    | some w => .createRecycle slot w
    | none => if call.kind = .put then .crashed else .createRecycleNode slot
  | _ =>
    match wmeta with
    | some w => .createSeqEnd w
    | none => call.afterCreate cfg

/-- `MAX_WMETA_SAMPLING_SIZE`, and the size `AdmitWrite` uses. -/
def Call.samples (call : Call Key) : Purpose → Nat
  | .create _ => if call.kind = .write then 5 else 10
  | _ => 10

def Call.noVictim (call : Call Key) (purpose : Purpose) : cfg.Pc :=
  match purpose with
  | .create _ | .switchRW => .recordCheck purpose none
  | .sample _ => .sampleVictim purpose (call.samples purpose) []
  | .iterate current i left => .iterateLock current (i + 1) left

/-- The record `reclaimed` was freed; `w` is the one that was locked. -/
def Call.reclaimed (call : Call Key) (purpose : Purpose) (w reclaimed : Nat) : cfg.Pc :=
  match purpose with
  | .create _ | .switchRW => .recordCheck purpose (some reclaimed)
  | .sample left =>
    if left ≤ 1 then .returned call.count []
    else .sampleVictim (.sample (left - 1)) (call.samples purpose) []
  | .iterate _ i left => .iterateLock ((w + 1) % cfg.poolLen) (i + 1) (left - 1)

/-- `TryAllocateLock` succeeded. -/
def recordReserved (purpose : Purpose) (w : Nat) : cfg.Pc :=
  match purpose with
  | .create slot => .createFill slot (some w) 0
  | _ => .switchSubmit w

/-- `read_seq_end` on the word it loads. -/
def afterReadCheck (slot : Nat) (guard : SeqGuard) (bytes : List UInt8) (word : SeqWord) : cfg.Pc :=
  if readSeqlockRetry word guard.seqcount then .readForget slot guard.wmeta
  else if guard.cached then .returned bytes.length bytes
  else .readRemember guard bytes

/-- The next access of thread `t` in a call; `none` where the thread does nothing. -/
def next (t : Nat) (call : Call Key) (choice : Nat) : cfg.Pc → Option (Instr Key cfg.nodes)
  | .idle | .returned _ _ | .crashed | .localCopy => none
  | .anchorCtail => some ⟨.loadCtail, .anchorLookup⟩
  | .anchorLookup ctail => some ⟨.lookup call.key ctail, .anchorStore⟩
  | .anchorStore entry =>
    some ⟨.storeAnchor (entry.bind fun e => (e.cnArray sharedCacheNode).cnIdx),
      fun _ => call.afterAnchor cfg (cfg.replica t) entry⟩
  | .readSeqBegin slot w => some ⟨.rSeqBegin w, .readLocalSeq slot w⟩
  | .readLocalSeq slot w seq =>
    some ⟨.getLocalSeqcount w, fun (localSeq : Option Nat) =>
      if localSeq ≠ none ∧ localSeq ≠ some seq then .readForget slot w
      else .readCopy slot (some ⟨w, seq, localSeq.isSome⟩) []⟩
  | .readForget slot w => some ⟨.updateLocalSeqcount w none, fun _ => .readFlush slot 0⟩
  | .readFlush slot line =>
    if line * cfg.lineSize < cfg.slotSize then
      some ⟨.flushLine slot line, fun _ => .readFlush slot (line + 1)⟩
    else some ⟨.skip, fun _ => .anchorCtail⟩
  | .readCopy slot guard bytes =>
    if bytes.length < call.bytesRead cfg then
      some ⟨.loadByte slot (call.offset + bytes.length),
        fun (value : UInt8) => .readCopy slot guard (bytes ++ [value])⟩
    else some ⟨.skip, fun _ => .readNotified slot guard bytes⟩
  | .readNotified slot guard bytes =>
    some ⟨.checkNotificationReset, fun (valid : Bool) =>
      if valid then
        match guard with
        | none => .returned bytes.length bytes
        | some guard => .readRetry slot guard bytes
      else .readFlush slot 0⟩
  | .readRetry slot guard bytes =>
    some ⟨.loadSeqlock guard.wmeta, afterReadCheck cfg slot guard bytes⟩
  | .readRemember guard bytes =>
    some ⟨.updateLocalSeqcount guard.wmeta (some guard.seqcount),
      fun _ => .returned bytes.length bytes⟩
  | .createReserve =>
    some ⟨.reserveCacheNode choice, fun (reserved : Option Nat) =>
      match reserved, call.kind with
      | none, .write | none, .put => .returned 0 []
      | none, _ => .anchorCtail
      | some slot, .write => .recordCheck (.create slot) none
      | some slot, .put =>
        if call.data.isSome then .recordCheck (.create slot) none else .createInsert slot none
      | some slot, _ => if call.fetchFails cfg t then .crashed else .createFill slot none 0⟩
  | .createFill slot wmeta i =>
    match (call.content cfg t).1[i]? with
    | some value => some ⟨.storeByte slot i value, fun _ => .createFill slot wmeta (i + 1)⟩
    | none => some ⟨.skip, fun _ => .createFlush slot wmeta 0⟩
  | .createFlush slot wmeta line =>
    if line * cfg.lineSize < (call.content cfg t).2 then
      some ⟨.flushLine slot line, fun _ => .createFlush slot wmeta (line + 1)⟩
    else some ⟨.skip, fun _ => .createInsert slot wmeta⟩
  | .createInsert slot wmeta =>
    some ⟨.submit (.checkAndInsert call.key slot wmeta),
      fun reply => .createWait slot wmeta reply.1 (checkAndInsertCode reply.2)⟩
  | .createWait slot wmeta index error =>
    some ⟨.await index, fun _ => call.afterInsert cfg slot wmeta error⟩
  | .createRecycleTwice slot w =>
    some ⟨.recycleWmeta w (choice == 0), fun _ => .createRecycle slot w⟩
  | .createRecycle slot w => some ⟨.recycleWmeta w (choice == 0), fun _ => .createRecycleNode slot⟩
  | .createRecycleNode slot =>
    some ⟨.recycleCacheNode slot (choice == 0), fun _ => call.afterCreate cfg⟩
  | .createSeqEnd w => some ⟨.wSeqEnd w, fun _ => call.afterCreate cfg⟩
  | .recordCheck purpose (some hint) => some ⟨.skip, fun _ => .recordScan purpose hint 0⟩
  | .recordCheck purpose none =>
    some ⟨.getWmetaCount, fun (count : Int) =>
      -- `cnt / wmeta_slot_len_ > 0.95`
      if count < 0 ∨ 19 * cfg.poolLen < 20 * count then
        .sampleVictim purpose (call.samples purpose) []
      else .recordScan purpose choice 0⟩
  | .recordScan purpose start i =>
    if i < cfg.poolLen then
      some ⟨.tryAllocateLock ((i + start) % cfg.poolLen), fun (allocated : Bool) =>
        if allocated then .recordBlock purpose ((i + start) % cfg.poolLen)
        else .recordScan purpose start (i + 1)⟩
    else some ⟨.skip, fun _ => .sampleVictim purpose (call.samples purpose) []⟩
  | .recordBlock purpose w => some ⟨.setBlockId w call.key, fun _ => recordReserved cfg purpose w⟩
  | .sampleVictim purpose (left + 1) candidates =>
    some ⟨.loadSeqlock (choice % cfg.poolLen), fun (word : SeqWord) =>
      if word.isFree then .sampleVictim purpose left candidates
      else .sampleVictim purpose left
        (candidates ++ [(choice % cfg.poolLen, word.seq)])⟩
  | .sampleVictim purpose 0 candidates => some ⟨.skip, fun _ => .lockVictim purpose candidates⟩
  | .lockVictim purpose candidates =>
    match candidates[choice]? with
    | none => if candidates = [] then some ⟨.skip, fun _ => call.noVictim cfg purpose⟩ else none
    | some (w, seq) =>
      if ∀ candidate ∈ candidates, seq ≤ candidate.2 then
        some ⟨.wLockOnly w, fun (locked : Bool) =>
          if locked then .victimBlock purpose w
          else .lockVictim purpose (candidates.eraseIdx choice)⟩
      else none
  | .iterateLock current i left =>
    if left = 0 ∨ cfg.poolLen ≤ i then some ⟨.skip, fun _ => .returned (call.count - left) []⟩
    else
      some ⟨.wLockOnly ((current + i) % cfg.poolLen), fun (locked : Bool) =>
        if locked then
          .victimBlock (.iterate current i left) ((current + i) % cfg.poolLen)
        else .iterateLock current (i + 1) left⟩
  | .victimBlock purpose w => some ⟨.getBlockId w, .victimSwitch purpose w⟩
  | .victimSwitch purpose w victim =>
    some ⟨.submit (.switchToReadOnly victim),
      fun reply => .victimWait purpose w reply.1 (switchToReadOnlyResult reply.2)⟩
  | .victimWait purpose w index result =>
    some ⟨.await index, fun _ =>
      match result with
      | some reclaimed => .victimRecycle purpose w reclaimed
      | none => .victimUnlock purpose w⟩
  | .victimRecycle purpose w reclaimed =>
    some ⟨.recycleWmeta reclaimed (choice == 0), fun _ => call.reclaimed cfg purpose w reclaimed⟩
  | .victimUnlock purpose w => some ⟨.wUnlockOnly w, fun _ => call.noVictim cfg purpose⟩
  | .switchSubmit w =>
    some ⟨.submit (.invalidateSwitchToRWShared call.key w),
      fun reply => .switchWait w reply.1 (invalidateSwitchToRWSharedCode reply.2)⟩
  | .switchWait w index error =>
    some ⟨.await index, fun _ =>
      match error with
      | .slotWmetaUpdateFailed | .entryNoexist => .switchRecycle w
      | _ => .switchSeqEnd w⟩
  | .switchRecycle w => some ⟨.recycleWmeta w (choice == 0), fun _ => .anchorCtail⟩
  | .switchSeqEnd w => some ⟨.wSeqEnd w, fun _ => .anchorCtail⟩
  | .writeSeqBegin slot w =>
    some ⟨.wSeqBegin w, fun (locked : Bool) =>
      if locked then .writeNotified slot w else .anchorCtail⟩
  | .writeNotified slot w =>
    some ⟨.checkNotificationReset,
      fun (valid : Bool) => if valid then .writeCopy slot w 0 else .writeAbort slot w⟩
  | .writeAbort _ w => some ⟨.wSeqEnd w, fun _ => .anchorCtail⟩
  | .writeCopy slot w i =>
    if i < call.bytesWrite cfg then
      -- a copy from `nullptr` is a fault: the thread stays here with its lock
      match call.data with
      | some buffer =>
        some ⟨.storeByte slot (call.offset + i) (buffer i), fun _ => .writeCopy slot w (i + 1)⟩
      | none => none
    else some ⟨.skip, fun _ => .writeFlush slot w (call.offset / cfg.lineSize)⟩
  | .writeFlush slot w line =>
    if line * cfg.lineSize < call.offset + call.bytesWrite cfg then
      some ⟨.flushLine slot line, fun _ => .writeFlush slot w (line + 1)⟩
    else some ⟨.skip, fun _ => .writeSeqEnd slot w⟩
  | .writeSeqEnd _ w =>
    some ⟨.wSeqEnd w, fun (seq : Nat) => if seq = 0 then .writeWrap w else .writeRemember w seq⟩
  | .writeWrap w =>
    some ⟨.submit (.seqCountWrapAround call.key), fun reply => .writeWrapWait w reply.1⟩
  | .writeWrapWait w index => some ⟨.await index, fun _ => .writeRemember w 0⟩
  | .writeRemember w seq =>
    some ⟨.updateLocalSeqcount w (some seq), fun _ => .returned (call.bytesWrite cfg) []⟩

end

end Megalon.Protocol
