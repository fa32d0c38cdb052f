import Mathlib.Logic.Function.Basic

/-!
Contract: the global cache directory of one replica, the `NrHashMapFFi` map of
`nr_rust/ffi/ffi_nr_hashmap.rs` with its `dispatch` and `dispatch_mut`.

Owns: entries, operations, responses with the slot they report to the replay code,
the panics of `dispatch_mut`, and the result codes of the FFI functions the C++
handle reads (`gcd_nr.cc`).

Does not own: the log the operations are replayed from.

An index of `-1` is `none`. Node numbers are below `LOGICAL_NODE_NUM + 1`; at any other Rust
panics, except that `init_gcd_entry` then makes an entry without a copy.
-/

namespace Megalon.Index

open Function

/-- A key type with its equality test and the value `null_BlockId()`. Equality is the one
of the source's `PartialEq`, which ignores `server_id_` and padding. -/
class BlockKey (Key : Type) where
  decEq : DecidableEq Key
  nullBlockId : Key

instance (priority := low) {Key : Type} [BlockKey Key] : DecidableEq Key := BlockKey.decEq

/-- `BlockId` of the file build: the fields that equality and hash read. -/
structure BlockId where
  inode : Nat
  offset : Int
  deriving DecidableEq, Repr

instance : BlockKey BlockId where
  decEq := inferInstance
  nullBlockId := ⟨0, -1⟩

structure CNStatus where
  cnIdx : Option Nat
  invalidate : Bool
  deriving DecidableEq, Repr

def nullCNStatus : CNStatus := ⟨none, false⟩

/-- `nodes` is `LOGICAL_NODE_NUM`; element 0 of the array is the CXL copy. -/
@[ext]
structure GCDEntry (nodes : Nat) where
  wmetaIdx : Option Nat
  cnArray : Fin (nodes + 1) → CNStatus

structure GCDResponse (Key : Type) (nodes : Nat) where
  key : Key
  value : GCDEntry nodes

/-- `NUMA_MEM`, the array index of the CXL copy. -/
def numaMem : Nat := 0

/-- `shared_cache_node_`, the same as an index. -/
abbrev sharedCacheNode {nodes : Nat} : Fin (nodes + 1) := 0

section

variable {nodes : Nat}

def initEmptyGcdEntryWithWmetaIdx (wmetaIdx : Option Nat) : GCDEntry nodes :=
  ⟨wmetaIdx, fun _ => nullCNStatus⟩

def initEmptyGcdEntry : GCDEntry nodes :=
  initEmptyGcdEntryWithWmetaIdx none

/-- `init_gcd_entry` ignores an index outside the array. -/
def initGcdEntry (cn : Option Nat) (idx : Nat) : GCDEntry nodes :=
  ⟨none, fun i => if i.val = idx then ⟨cn, false⟩ else nullCNStatus⟩

def GCDEntry.setCn (entry : GCDEntry nodes) (idx : Fin (nodes + 1)) (status : CNStatus) :
    GCDEntry nodes :=
  { entry with cnArray := update entry.cnArray idx status }

def GCDEntry.setWmeta (entry : GCDEntry nodes) (wmetaIdx : Option Nat) : GCDEntry nodes :=
  { entry with wmetaIdx := wmetaIdx }

def GCDEntry.allAbsent (entry : GCDEntry nodes) : Bool :=
  decide (∀ i, (entry.cnArray i).cnIdx = none)

/-- The loop that invalidates every present copy except the one at `idx`. -/
def GCDEntry.invalidateExcept (entry : GCDEntry nodes) (idx : Fin (nodes + 1)) : GCDEntry nodes :=
  { entry with
    cnArray := fun i =>
      if (entry.cnArray i).cnIdx ≠ none ∧ idx ≠ i then
        { entry.cnArray i with invalidate := true }
      else entry.cnArray i }

end

/-- `IdxGetter::cn_idx` of a response: the CXL slot the replay code clears anchors
for and flushes. -/
def responseCnIdx {Key : Type} {nodes : Nat} (response : Option (GCDResponse Key nodes)) :
    Option Nat :=
  response.bind fun r => (r.value.cnArray 0).cnIdx

inductive Modify (Key : Type) (nodes : Nat) where
  | put (key : Key) (value : GCDEntry nodes)
  | checkPut (key : Key) (value : GCDEntry nodes)
  | delete (key : Key)
  | swap (toRemove toInsert : Key) (value : GCDEntry nodes)
  | putArray (key : Key) (cn : Option Nat) (idx : Fin (nodes + 1))
  | putArrayWmeta (key : Key) (cn : Option Nat) (idx : Fin (nodes + 1)) (wmetaIdx : Option Nat)
  | checkPutArray (key : Key) (cn : Option Nat) (idx : Fin (nodes + 1))
  | checkPutArrayWmeta (key : Key) (cn : Option Nat) (idx : Fin (nodes + 1))
      (wmetaIdx : Option Nat)
  | checkPutSwapArray (key : Key) (cn : Option Nat) (new old : Fin (nodes + 1))
  | invalidateArray (key : Key) (idx : Fin (nodes + 1))
  | invalidateExceptArray (key : Key) (idx : Fin (nodes + 1))
  | invalidateExceptArrayUpdateWmeta (key : Key) (idx : Fin (nodes + 1)) (wmetaIdx : Option Nat)
  | checkMoveLocalArray (key : Key) (cn : Option Nat) (idx : Fin (nodes + 1))
  | deleteArray (key : Key) (idx : Fin (nodes + 1))
  | deleteIfArray (key : Key) (idx : Fin (nodes + 1))
  | checkSwapArray (oldKey newKey : Key) (cn : Option Nat) (oldIdx newIdx : Fin (nodes + 1))
  | checkSwitchWmetaArray (key : Key) (wmetaIdx : Option Nat)
  | dummyLog (key : Key)

/-- The `BUG` panics of `dispatch_mut`. -/
inductive Bug where
  | putIntoInvalidated (idx : Nat)
  | localReplicaWhileWmetaValid (idx wmetaIdx : Nat)
  | moveToCxl
  | keyDoesNotExist
  | localReplicaStillValid (idx : Nat)
  deriving DecidableEq, Repr

/-- `storage`: the replica's hash map. -/
abbrev Directory (Key : Type) (nodes : Nat) := Key → Option (GCDEntry nodes)

abbrev Outcome (Key : Type) (nodes : Nat) :=
  Except Bug (Directory Key nodes × Option (GCDResponse Key nodes))

section

variable {Key : Type} {nodes : Nat} [BlockKey Key]

def Directory.insert (storage : Directory Key nodes) (key : Key) (value : GCDEntry nodes) :
    Directory Key nodes :=
  update storage key (some value)

def Directory.remove (storage : Directory Key nodes) (key : Key) : Directory Key nodes :=
  update storage key none

/-- `dispatch(Access::Get(key))`. -/
def dispatch (storage : Directory Key nodes) (key : Key) : Option (GCDResponse Key nodes) :=
  (storage key).map fun value => ⟨key, value⟩

/-- The arm shared by the insert operations: store `value` under `key` and report it. -/
def stored (storage : Directory Key nodes) (key : Key) (value : GCDEntry nodes) :
    Outcome Key nodes :=
  .ok (storage.insert key value, some ⟨key, value⟩)

/-- `CheckPutArray`, also the second half of `CheckSwapArray`. -/
def checkPutArray (storage : Directory Key nodes) (key : Key) (cn : Option Nat)
    (idx : Fin (nodes + 1)) : Outcome Key nodes :=
  match storage key with
  | none => stored storage key (initGcdEntry cn idx)
  | some entry =>
    if (entry.cnArray idx).cnIdx = none then stored storage key (entry.setCn idx ⟨cn, false⟩)
    else .ok (storage, none)

/-- Drops the copy at `idx`, and the entry with its last copy. -/
def dropCopy (storage : Directory Key nodes) (key : Key) (entry : GCDEntry nodes)
    (idx : Fin (nodes + 1)) : Directory Key nodes :=
  if (entry.setCn idx nullCNStatus).allAbsent then storage.remove key
  else storage.insert key (entry.setCn idx nullCNStatus)

/-- `Modify::CheckPutArrayWmeta`. On an existing CXL copy it may still change the
record of the entry; the null key in the response reports that the slot was not
taken. -/
def checkPutArrayWmeta (storage : Directory Key nodes) (key : Key) (cn : Option Nat)
    (idx : Fin (nodes + 1)) (wmetaIdx : Option Nat) : Outcome Key nodes :=
  match storage key with
  | none =>
    stored storage key
      (if idx.val = numaMem then (initGcdEntry cn idx).setWmeta wmetaIdx
        else initGcdEntry cn idx)
  | some entry =>
    if (entry.cnArray idx).cnIdx = none then
      if (entry.cnArray idx).invalidate = true then .error (.putIntoInvalidated idx)
      else
        match entry.wmetaIdx, decide (idx.val = numaMem) with
        | some wmeta, false => .error (.localReplicaWhileWmetaValid idx wmeta)
        | _, true => stored storage key ((entry.setCn idx ⟨cn, false⟩).setWmeta wmetaIdx)
        | none, false => stored storage key (entry.setCn idx ⟨cn, false⟩)
    else if idx.val = numaMem then
      if wmetaIdx = none ∨ entry.wmetaIdx = none then
        .ok (storage.insert key (entry.setWmeta wmetaIdx),
          some ⟨BlockKey.nullBlockId, entry.setWmeta wmetaIdx⟩)
      else .ok (storage, none)
    else .ok (storage, none)

/-- `Modify::DeleteIfArray`. The copy `2` at node `NUMA_MEM + 1` tells the FFI
function that the record was valid. -/
def deleteIfArray (storage : Directory Key nodes) (key : Key) (idx : Fin (nodes + 1)) :
    Outcome Key nodes :=
  match storage key with
  | none => .ok (storage, none)
  | some entry =>
    if idx.val = numaMem ∧ entry.wmetaIdx ≠ none then
      .ok (storage, some ⟨BlockKey.nullBlockId, initGcdEntry (some 2) (numaMem + 1)⟩)
    else if entry.cnArray idx = nullCNStatus then
      .ok (storage, some ⟨BlockKey.nullBlockId, initEmptyGcdEntry⟩)
    else if idx.val ≠ numaMem ∧ (entry.cnArray idx).invalidate ≠ true ∧
        entry.wmetaIdx ≠ none then
      .error (.localReplicaStillValid idx)
    else
      .ok (dropCopy storage key entry idx,
        some ⟨key, initGcdEntry (entry.cnArray idx).cnIdx numaMem⟩)

/-- `dispatch_mut`. -/
def dispatchMut (storage : Directory Key nodes) : Modify Key nodes → Outcome Key nodes
  | .put key value => stored storage key value
  | .checkPut key value =>
    match storage key with
    | none => stored storage key value
    | some _ => .ok (storage, none)
  | .delete key =>
    match storage key with
    | none => .ok (storage, none)
    | some entry =>
      .ok (storage.remove key, some ⟨key, initEmptyGcdEntryWithWmetaIdx entry.wmetaIdx⟩)
  | .swap toRemove toInsert value =>
    .ok ((storage.remove toRemove).insert toInsert value, none)
  | .putArray key cn idx =>
    match storage key with
    | none => stored storage key (initGcdEntry cn idx)
    | some entry => stored storage key (entry.setCn idx ⟨cn, false⟩)
  | .putArrayWmeta key cn idx wmetaIdx =>
    match storage key with
    | none => stored storage key ((initGcdEntry cn idx).setWmeta wmetaIdx)
    | some entry => stored storage key ((entry.setCn idx ⟨cn, false⟩).setWmeta wmetaIdx)
  | .checkPutArray key cn idx => checkPutArray storage key cn idx
  | .checkPutArrayWmeta key cn idx wmetaIdx => checkPutArrayWmeta storage key cn idx wmetaIdx
  | .checkPutSwapArray key cn new old =>
    match storage key with
    | none => stored storage key (initGcdEntry cn new)
    | some entry =>
      -- the old copy is dropped even if the new one is then refused
      if ((entry.setCn old nullCNStatus).cnArray new).cnIdx = none then
        stored storage key ((entry.setCn old nullCNStatus).setCn new ⟨cn, false⟩)
      else .ok (storage.insert key (entry.setCn old nullCNStatus), none)
  | .invalidateArray key idx =>
    match storage key with
    | none => .ok (storage, none)
    | some entry =>
      if (entry.cnArray idx).cnIdx ≠ none then
        .ok (storage.insert key
          (entry.setCn idx { entry.cnArray idx with invalidate := true }), none)
      else .ok (storage, none)
  | .invalidateExceptArray key idx =>
    match storage key with
    | none => .ok (storage, none)
    | some entry => .ok (storage.insert key (entry.invalidateExcept idx), none)
  | .invalidateExceptArrayUpdateWmeta key idx wmetaIdx =>
    match storage key with
    | none => .ok (storage, none)
    | some entry =>
      if entry.wmetaIdx = none then
        stored storage key ((entry.invalidateExcept idx).setWmeta wmetaIdx)
      else
        .ok (storage.insert key (entry.invalidateExcept idx),
          some ⟨BlockKey.nullBlockId, initEmptyGcdEntry⟩)
  | .checkMoveLocalArray key cn idx =>
    if idx.val = 0 then .error .moveToCxl
    else
      match storage key with
      | none => .error .keyDoesNotExist
      | some entry =>
        if (entry.cnArray idx).cnIdx = none ∨ (entry.cnArray idx).invalidate = true then
          .ok (storage.insert key
              (((entry.setCn idx ⟨cn, false⟩).setWmeta none).setCn 0 nullCNStatus),
            some ⟨key, initGcdEntry (entry.cnArray 0).cnIdx 0⟩)
        else .ok (storage, none)
  | .deleteArray key idx =>
    match storage key with
    | none => .ok (storage, none)
    | some entry =>
      .ok (dropCopy storage key entry idx,
        some ⟨key, initGcdEntry (entry.cnArray idx).cnIdx numaMem⟩)
  | .deleteIfArray key idx => deleteIfArray storage key idx
  | .checkSwapArray oldKey newKey cn oldIdx newIdx =>
    match storage oldKey with
    | none => .ok (storage, none)
    | some entry => checkPutArray (dropCopy storage oldKey entry oldIdx) newKey cn newIdx
  | .checkSwitchWmetaArray key wmetaIdx =>
    match storage key with
    | none => .ok (storage, none)
    | some entry =>
      if wmetaIdx = none then
        -- the response is a dummy without the slot of the entry
        .ok (storage.insert key (entry.setWmeta none),
          some ⟨key, initEmptyGcdEntryWithWmetaIdx entry.wmetaIdx⟩)
      else if entry.wmetaIdx = none then stored storage key (entry.setWmeta wmetaIdx)
      else .ok (storage, none)
  | .dummyLog key =>
    match storage key with
    | none => .ok (storage, none)
    | some entry => .ok (storage, some ⟨key, entry⟩)

/-- The directory after an operation of the log; an operation that panics changes
nothing. -/
def applyOp (storage : Directory Key nodes) (op : Modify Key nodes) : Directory Key nodes :=
  match dispatchMut storage op with
  | .ok (after, _) => after
  | .error _ => storage

def respond (storage : Directory Key nodes) (op : Modify Key nodes) :
    Option (GCDResponse Key nodes) :=
  match dispatchMut storage op with
  | .ok (_, response) => response
  | .error _ => none

variable {response : Option (GCDResponse Key nodes)}

theorem applyOp_of_ok {storage after : Directory Key nodes} {op : Modify Key nodes}
    (accepted : dispatchMut storage op = .ok (after, response)) : applyOp storage op = after := by
  rw [applyOp, accepted]

theorem respond_of_ok {storage after : Directory Key nodes} {op : Modify Key nodes}
    (accepted : dispatchMut storage op = .ok (after, response)) :
    respond storage op = response := by
  rw [respond, accepted]

end

/-! ### Result codes -/

/-- `NrGcdError`. -/
inductive NrGcdError where
  | noError
  | slotWmetaUpdateFailed
  | slotUpdateFailed
  | entryNoexist
  deriving DecidableEq, Repr

section

variable {Key : Type} {nodes : Nat} [BlockKey Key]

/-- `CheckAndInsert`: the code of the FFI function `CheckPutArray`. -/
def checkAndInsertCode : Option (GCDResponse Key nodes) → NrGcdError
  | some response =>
    if response.key = BlockKey.nullBlockId then .slotUpdateFailed else .noError
  | none => .slotWmetaUpdateFailed

/-- `InvalidateSwitchToRWShared`. -/
def invalidateSwitchToRWSharedCode : Option (GCDResponse Key nodes) → NrGcdError
  | some response =>
    if response.key = BlockKey.nullBlockId then .slotWmetaUpdateFailed else .noError
  | none => .entryNoexist

omit [BlockKey Key] in
/-- `SwitchToReadOnly`: the record the entry had. -/
def switchToReadOnlyResult (response : Option (GCDResponse Key nodes)) : Option Nat :=
  response.bind fun r => r.value.wmetaIdx

end

/-! ### Access decisions -/

section

variable {nodes : Nat}

/-- `ExistOnArrayIdx`: a present copy that is not invalidated. -/
def GCDEntry.existOnArrayIdx (entry : GCDEntry nodes) (idx : Fin (nodes + 1)) : Bool :=
  (entry.cnArray idx).cnIdx.isSome && !(entry.cnArray idx).invalidate

def GCDEntry.isEntryEmpty (entry : GCDEntry nodes) : Bool :=
  decide (∀ i, entry.existOnArrayIdx i = false)

/-- `IsRO`: the CXL copy counts even if it is invalidated. -/
def GCDEntry.isRO (entry : GCDEntry nodes) : Bool :=
  (entry.cnArray 0).cnIdx.isSome && entry.wmetaIdx.isNone

/-- `ReadLocation`, with the index the read handle gets. -/
inductive ReadLocation where
  | noEntry
  | cxlShared (cnIndex : Option Nat)
  | localNode (cnIndex : Option Nat)
  | localNodeExclusive (cnIndex : Option Nat)
  | remoteNode
  deriving DecidableEq, Repr

/-- `selectCacheNode` on logical node `nid`, whose copy has array index `nid + 1`. -/
def selectCacheNode (entry : GCDEntry nodes) (nid : Fin nodes) : ReadLocation :=
  if entry.isEntryEmpty then .noEntry
  else if entry.existOnArrayIdx nid.succ then
    if entry.existOnArrayIdx 0 then .localNode (entry.cnArray nid.succ).cnIdx
    else .localNodeExclusive (entry.cnArray nid.succ).cnIdx
  else if entry.existOnArrayIdx 0 then .cxlShared (entry.cnArray 0).cnIdx
  else .remoteNode

/-- What `checkCacheNode` leaves in the write handle. -/
inductive WriteLocation where
  | pageNotFound
  | pageRO (cnIndex : Option Nat)
  | onCxl (cnIndex : Option Nat)
  | onNode (cnIndex : Option Nat)
  deriving DecidableEq, Repr

def checkCacheNode (entry : GCDEntry nodes) (nid : Fin nodes) : WriteLocation :=
  if entry.isEntryEmpty then .pageNotFound
  else if entry.isRO then .pageRO (entry.cnArray 0).cnIdx
  else if entry.existOnArrayIdx 0 then .onCxl (entry.cnArray 0).cnIdx
  else .onNode (entry.cnArray nid.succ).cnIdx

theorem cnIdx_of_selectCacheNode {entry : GCDEntry nodes} {nid : Fin nodes} {cn : Option Nat}
    (selected : selectCacheNode entry nid = .cxlShared cn) : (entry.cnArray 0).cnIdx = cn := by
  unfold selectCacheNode at selected
  repeat' split at selected
  all_goals cases selected
  rfl

theorem cnIdx_of_checkCacheNode {entry : GCDEntry nodes} {nid : Fin nodes} {cn : Option Nat}
    (checked : checkCacheNode entry nid = .onCxl cn) : (entry.cnArray 0).cnIdx = cn := by
  unfold checkCacheNode at checked
  repeat' split at checked
  all_goals cases checked
  rfl

end

end Megalon.Index
