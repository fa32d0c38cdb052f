import Mathlib.Data.Fin.Basic
import Megalon.Index.Directory

/-!
Contract: the directory of the default build, where an entry has one copy, in a CXL
slot, and possibly a record.

Owns: what the four operations the store issues there do to such entries, what they
answer, and how the handles read such an entry.

Does not own: entries with local copies.
-/

namespace Megalon.Index

variable {Key : Type} {nodes : Nat}

/-- The entry of a page in CXL slot `slot`: read-only without a record, read-write
shared with one. -/
def cxlEntry (slot : Nat) (wmeta : Option Nat) : GCDEntry nodes :=
  (initGcdEntry (some slot) numaMem).setWmeta wmeta

@[simp]
theorem cnArray_cxlEntry_zero (slot : Nat) (wmeta : Option Nat) :
    ((cxlEntry slot wmeta : GCDEntry nodes).cnArray 0) = ⟨some slot, false⟩ := rfl

@[simp]
theorem wmetaIdx_cxlEntry (slot : Nat) (wmeta : Option Nat) :
    (cxlEntry slot wmeta : GCDEntry nodes).wmetaIdx = wmeta := rfl

theorem cnArray_cxlEntry_of_ne (slot : Nat) (wmeta : Option Nat) {i : Fin (nodes + 1)}
    (different : i ≠ 0) : (cxlEntry slot wmeta : GCDEntry nodes).cnArray i = nullCNStatus := by
  have value : i.val ≠ numaMem := fun zero => different (Fin.ext zero)
  simp [cxlEntry, initGcdEntry, GCDEntry.setWmeta, value]

@[simp]
theorem setWmeta_cxlEntry (slot : Nat) (old new : Option Nat) :
    (cxlEntry slot old : GCDEntry nodes).setWmeta new = cxlEntry slot new := rfl

/-- There is no other copy to drop. -/
@[simp]
theorem invalidateExcept_cxlEntry (slot : Nat) (wmeta : Option Nat) :
    (cxlEntry slot wmeta : GCDEntry nodes).invalidateExcept 0 = cxlEntry slot wmeta := by
  have copies : ((cxlEntry slot wmeta : GCDEntry nodes).invalidateExcept 0).cnArray =
      (cxlEntry slot wmeta : GCDEntry nodes).cnArray := by
    funext i
    by_cases zero : i = 0
    · subst zero
      simp [GCDEntry.invalidateExcept]
    · simp [GCDEntry.invalidateExcept, cnArray_cxlEntry_of_ne slot wmeta zero, nullCNStatus]
  exact GCDEntry.ext rfl copies

/-! ### Handles -/

@[simp]
theorem isEntryEmpty_cxlEntry (slot : Nat) (wmeta : Option Nat) :
    (cxlEntry slot wmeta : GCDEntry nodes).isEntryEmpty = false := by
  rw [GCDEntry.isEntryEmpty, decide_eq_false_iff_not]
  intro absent
  have := absent 0
  simp [GCDEntry.existOnArrayIdx] at this

@[simp]
theorem isEntryEmpty_initEmptyGcdEntry :
    (initEmptyGcdEntry : GCDEntry nodes).isEntryEmpty = true := by
  simp [GCDEntry.isEntryEmpty, GCDEntry.existOnArrayIdx, initEmptyGcdEntry,
    initEmptyGcdEntryWithWmetaIdx, nullCNStatus]

/-- Every node reads the copy in CXL. -/
@[simp]
theorem selectCacheNode_cxlEntry (slot : Nat) (wmeta : Option Nat) (nid : Fin nodes) :
    selectCacheNode (cxlEntry slot wmeta) nid = .cxlShared (some slot) := by
  have other := cnArray_cxlEntry_of_ne slot wmeta (Fin.succ_ne_zero nid)
  simp [selectCacheNode, GCDEntry.existOnArrayIdx, other, nullCNStatus]

@[simp]
theorem selectCacheNode_initEmptyGcdEntry (nid : Fin nodes) :
    selectCacheNode initEmptyGcdEntry nid = .noEntry := by
  simp [selectCacheNode]

/-- Without a record, the page is read-only to a writer. -/
@[simp]
theorem checkCacheNode_cxlEntry_none (slot : Nat) (nid : Fin nodes) :
    checkCacheNode (cxlEntry slot none) nid = .pageRO (some slot) := by
  simp [checkCacheNode, GCDEntry.isRO]

/-- With a record, it is written in CXL. -/
@[simp]
theorem checkCacheNode_cxlEntry_some (slot wmeta : Nat) (nid : Fin nodes) :
    checkCacheNode (cxlEntry slot (some wmeta)) nid = .onCxl (some slot) := by
  simp [checkCacheNode, GCDEntry.isRO, GCDEntry.existOnArrayIdx]

@[simp]
theorem checkCacheNode_initEmptyGcdEntry (nid : Fin nodes) :
    checkCacheNode initEmptyGcdEntry nid = .pageNotFound := by
  simp [checkCacheNode]

/-! ### Operations -/

section

variable [BlockKey Key] {storage : Directory Key nodes} {key : Key}

-- One equation for each operation: `simp` would otherwise derive all those of `dispatchMut`.
theorem dispatchMut_checkPutArrayWmeta (cn wmeta : Option Nat) (idx : Fin (nodes + 1)) :
    dispatchMut storage (.checkPutArrayWmeta key cn idx wmeta) =
      checkPutArrayWmeta storage key cn idx wmeta := rfl

theorem dispatchMut_switchToReadOnly :
    dispatchMut storage (.checkSwitchWmetaArray key none) =
      match storage key with
      | none => .ok (storage, none)
      | some entry => .ok (storage.insert key (entry.setWmeta none),
          some ⟨key, initEmptyGcdEntryWithWmetaIdx entry.wmetaIdx⟩) := rfl

theorem dispatchMut_switchToRW (idx : Fin (nodes + 1)) (wmeta : Option Nat) :
    dispatchMut storage (.invalidateExceptArrayUpdateWmeta key idx wmeta) =
      match storage key with
      | none => .ok (storage, none)
      | some entry =>
        if entry.wmetaIdx = none then
          stored storage key ((entry.invalidateExcept idx).setWmeta wmeta)
        else
          .ok (storage.insert key (entry.invalidateExcept idx),
            some ⟨BlockKey.nullBlockId, initEmptyGcdEntry⟩) := rfl

theorem dispatchMut_dummyLog :
    dispatchMut storage (.dummyLog key) =
      match storage key with
      | none => .ok (storage, none)
      | some entry => .ok (storage, some ⟨key, entry⟩) := rfl

/-- The first insertion of a key publishes its slot. -/
theorem insert_absent (slot : Nat) (wmeta : Option Nat) (absent : storage key = none) :
    dispatchMut storage (.checkPutArrayWmeta key (some slot) 0 wmeta) =
      .ok (storage.insert key (cxlEntry slot wmeta), some ⟨key, cxlEntry slot wmeta⟩) := by
  simp [dispatchMut_checkPutArrayWmeta, checkPutArrayWmeta, absent, stored, cxlEntry, numaMem]

variable {slot : Nat}

/-- A lost insertion keeps the slot but still sets the record, and is told so by the null id. -/
theorem insert_present {old : Option Nat} (new : Nat) {wmeta : Option Nat}
    (present : storage key = some (cxlEntry slot old)) (overwrites : wmeta = none ∨ old = none) :
    dispatchMut storage (.checkPutArrayWmeta key (some new) 0 wmeta) =
      .ok (storage.insert key (cxlEntry slot wmeta),
        some ⟨BlockKey.nullBlockId, cxlEntry slot wmeta⟩) := by
  simp [dispatchMut_checkPutArrayWmeta, checkPutArrayWmeta, present, numaMem, overwrites]

/-- Nothing changes if both the entry and the lost insertion have a record. -/
theorem insert_present_rw {old : Nat} (new wmeta : Nat)
    (present : storage key = some (cxlEntry slot (some old))) :
    dispatchMut storage (.checkPutArrayWmeta key (some new) 0 (some wmeta)) =
      .ok (storage, none) := by
  simp [dispatchMut_checkPutArrayWmeta, checkPutArrayWmeta, present, numaMem]

theorem switchToReadOnly_absent (absent : storage key = none) :
    dispatchMut storage (.checkSwitchWmetaArray key none) = .ok (storage, none) := by
  simp [dispatchMut_switchToReadOnly, absent]

/-- The switch to read-only drops the record and names it in the answer. -/
theorem switchToReadOnly_present {old : Option Nat}
    (present : storage key = some (cxlEntry slot old)) :
    dispatchMut storage (.checkSwitchWmetaArray key none) =
      .ok (storage.insert key (cxlEntry slot none),
        some ⟨key, initEmptyGcdEntryWithWmetaIdx old⟩) := by
  simp [dispatchMut_switchToReadOnly, present]

theorem switchToRW_absent (wmeta : Nat) (absent : storage key = none) :
    dispatchMut storage (.invalidateExceptArrayUpdateWmeta key 0 (some wmeta)) =
      .ok (storage, none) := by
  simp [dispatchMut_switchToRW, absent]

/-- The switch to read-write binds the record to a page that had none. -/
theorem switchToRW_ro (wmeta : Nat) (present : storage key = some (cxlEntry slot none)) :
    dispatchMut storage (.invalidateExceptArrayUpdateWmeta key 0 (some wmeta)) =
      .ok (storage.insert key (cxlEntry slot (some wmeta)),
        some ⟨key, cxlEntry slot (some wmeta)⟩) := by
  simp [dispatchMut_switchToRW, present, stored]

/-- A page keeps the record it has, and the loser of the switch gets the null id. -/
theorem switchToRW_rw {old : Nat} (wmeta : Nat)
    (present : storage key = some (cxlEntry slot (some old))) :
    dispatchMut storage (.invalidateExceptArrayUpdateWmeta key 0 (some wmeta)) =
      .ok (storage.insert key (cxlEntry slot (some old)),
        some ⟨BlockKey.nullBlockId, initEmptyGcdEntry⟩) := by
  simp [dispatchMut_switchToRW, present]

theorem dummyLog_ok (storage : Directory Key nodes) (key : Key) :
    dispatchMut storage (.dummyLog key) =
      .ok (storage, (storage key).map fun entry => ⟨key, entry⟩) := by
  cases present : storage key with
  | none => simp [dispatchMut_dummyLog, present]
  | some entry => simp [dispatchMut_dummyLog, present]

end

end Megalon.Index
