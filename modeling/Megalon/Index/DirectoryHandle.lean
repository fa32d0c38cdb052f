import Megalon.Foundations.Transition
import Megalon.Index.SlotReports

/-!
Contract: the operations `GlobalCacheDirectoryHandleNr` (`gcd_nr.cc`) issues on the
replicated directory.

Owns: which operation of the log each of them is, and the directory as a transition system
under them.

Does not own: the answers they give to their callers.

Slot indices, record indices and pointers of local copies are numbers that are not the
`-1` of `nr_hashmap.h`.
-/

namespace Megalon.Index

open Foundations

/-- A node is an index of the array; `MoveIndexToLocal` is given a logical node. -/
inductive HandleOp (Key : Type) (nodes : Nat) where
  | checkAndInsert (key : Key) (cnIndex : Nat) (nid : Fin (nodes + 1)) (wmetaIdx : Option Nat)
  | insert (key : Key) (cnIndex : Nat) (nid : Fin (nodes + 1))
  | invalidateSwitchToRWShared (key : Key) (wmetaIdx : Nat)
  | switchToReadOnly (key : Key)
  | moveIndexToLocal (key : Key) (cn : Nat) (nid : Fin nodes)
  | delete (key : Key)
  | deleteLocal (key : Key) (nid : Fin (nodes + 1))
  | deleteIfReadOnly (key : Key) (nid : Fin (nodes + 1))
  | seqCountWrapAround (key : Key)

namespace HandleOp

variable {Key : Type} {nodes : Nat}

/-- `PutArray` of `nr_hashmap.h` has `-1` as default record. -/
def toModify : HandleOp Key nodes → Modify Key nodes
  | .checkAndInsert key cnIndex nid wmetaIdx =>
    .checkPutArrayWmeta key (some cnIndex) nid wmetaIdx
  | .insert key cnIndex nid => .putArrayWmeta key (some cnIndex) nid none
  | .invalidateSwitchToRWShared key wmetaIdx =>
    .invalidateExceptArrayUpdateWmeta key sharedCacheNode (some wmetaIdx)
  | .switchToReadOnly key => .checkSwitchWmetaArray key none
  | .moveIndexToLocal key cn nid => .checkMoveLocalArray key (some cn) nid.succ
  | .delete key => .delete key
  | .deleteLocal key nid => .deleteArray key nid
  | .deleteIfReadOnly key nid => .deleteIfArray key nid
  | .seqCountWrapAround key => .dummyLog key

def key : HandleOp Key nodes → Key
  | .checkAndInsert key _ _ _ | .insert key _ _ | .invalidateSwitchToRWShared key _
  | .switchToReadOnly key | .moveIndexToLocal key _ _ | .delete key | .deleteLocal key _
  | .deleteIfReadOnly key _ | .seqCountWrapAround key => key

end HandleOp

section

variable (Key : Type) (nodes : Nat) [BlockKey Key]

/-- The directory from the empty map; an operation that panics is no step. -/
def handleSystem : System (Directory Key nodes) (HandleOp Key nodes) where
  init := fun storage => storage = fun _ => none
  step := fun storage op => (dispatchMut storage op.toModify).toOption.map Prod.fst

variable {Key nodes}

theorem handleSystem_step {storage after : Directory Key nodes} {op : HandleOp Key nodes}
    (taken : (handleSystem Key nodes).step storage op = some after) :
    ∃ response, dispatchMut storage op.toModify = .ok (after, response) := by
  change (dispatchMut storage op.toModify).toOption.map Prod.fst = some after at taken
  cases outcome : dispatchMut storage op.toModify with
  | error bug =>
    rw [outcome] at taken
    cases taken
  | ok out =>
    rw [outcome] at taken
    obtain rfl := Option.some.inj taken
    exact ⟨out.2, rfl⟩

end

end Megalon.Index
