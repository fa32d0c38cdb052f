import Megalon.Index.HashDirectory

/-!
Contract: what the result codes of the FFI functions `CheckPutArray`, `DeleteIfArray` and
`InvalidateExceptArrayUpdateWmeta` of `nr_rust/ffi/ffi_nr_hashmap.rs` say about the
operation on the directory.

Owns: the codes as the FFI decodes them from a response, the case each code is documented
for as a relation between the directory before and after, and the exact condition under
which the code is the one of the case.

Does not own: what the C++ handle does with the codes.
-/

namespace Megalon.Index

open Function

/-- A call of one of the FFI functions that decode a response into several codes. -/
inductive CodedCall (Key : Type) (nodes : Nat) where
  | checkPutArray (key : Key) (cn : Nat) (idx : Fin (nodes + 1)) (wmetaIdx : Option Nat)
  | deleteIfArray (key : Key) (idx : Fin (nodes + 1))
  | invalidateExceptArrayUpdateWmeta (key : Key) (idx : Fin (nodes + 1)) (wmetaIdx : Option Nat)

namespace CodedCall

section

variable {Key : Type} {nodes : Nat}

def toModify : CodedCall Key nodes → Modify Key nodes
  | .checkPutArray key cn idx wmetaIdx => .checkPutArrayWmeta key (some cn) idx wmetaIdx
  | .deleteIfArray key idx => .deleteIfArray key idx
  | .invalidateExceptArrayUpdateWmeta key idx wmetaIdx =>
    .invalidateExceptArrayUpdateWmeta key idx wmetaIdx

variable [BlockKey Key]

/-- The number the function returns for the response of `execute_mut`. -/
def code (response : Option (GCDResponse Key nodes)) : CodedCall Key nodes → Nat
  | .checkPutArray .. =>
    match response with
    | some value => if value.key = BlockKey.nullBlockId then 2 else 0
    | none => 1
  | .deleteIfArray .. =>
    match response with
    | some value =>
      if value.key = BlockKey.nullBlockId then
        if value.value.wmetaIdx = none ∧ ∀ i, value.value.cnArray i = nullCNStatus then 3
        else 1
      else 0
    | none => 2
  | .invalidateExceptArrayUpdateWmeta .. =>
    match response with
    | some value => if value.key = BlockKey.nullBlockId then 2 else 0
    | none => 1

end

end CodedCall

/-! ### The documented cases -/

section

variable {Key : Type} {nodes : Nat}

/-- There was no copy at `idx`, and now there is `cn`. -/
def SlotInstalled (storage after : Directory Key nodes) (key : Key) (cn : Nat)
    (idx : Fin (nodes + 1)) : Prop :=
  (∀ entry, storage key = some entry → (entry.cnArray idx).cnIdx = none) ∧
    ∃ entry, after key = some entry ∧ entry.cnArray idx = ⟨some cn, false⟩

/-- The entry of the CXL copy went to read-only, or from read-only to the record. -/
def RecordUpdated (storage after : Directory Key nodes) (key : Key) (idx : Fin (nodes + 1))
    (wmetaIdx : Option Nat) : Prop :=
  ∃ entry entry', storage key = some entry ∧ after key = some entry' ∧
    idx = sharedCacheNode ∧ (wmetaIdx = none ∨ entry.wmetaIdx = none) ∧
    entry'.wmetaIdx = wmetaIdx

/-- There was a copy at `idx`, and now there is none. -/
def CopyDeleted (storage after : Directory Key nodes) (key : Key) (idx : Fin (nodes + 1)) : Prop :=
  ∃ entry, storage key = some entry ∧ entry.cnArray idx ≠ nullCNStatus ∧
    ∀ entry', after key = some entry' → entry'.cnArray idx = nullCNStatus

def WmetaValid (storage : Directory Key nodes) (key : Key) (idx : Fin (nodes + 1)) : Prop :=
  ∃ entry, storage key = some entry ∧ idx = sharedCacheNode ∧ entry.wmetaIdx ≠ none

/-- The entry had no record, and now has `wmetaIdx`. -/
def RecordSet (storage after : Directory Key nodes) (key : Key) (wmetaIdx : Option Nat) : Prop :=
  ∃ entry entry', storage key = some entry ∧ entry.wmetaIdx = none ∧
    after key = some entry' ∧ entry'.wmetaIdx = wmetaIdx

/-- The case that the comment above the FFI function gives for a code. -/
def CodedCall.Documented (storage after : Directory Key nodes) (code : Nat) :
    CodedCall Key nodes → Prop
  | .checkPutArray key cn idx wmetaIdx =>
    match code with
    | 0 => SlotInstalled storage after key cn idx
    | 1 => ¬ SlotInstalled storage after key cn idx ∧
        ¬ RecordUpdated storage after key idx wmetaIdx
    | 2 => ¬ SlotInstalled storage after key cn idx ∧
        RecordUpdated storage after key idx wmetaIdx
    | _ => False
  | .deleteIfArray key idx =>
    match code with
    | 0 => CopyDeleted storage after key idx
    | 1 => ¬ CopyDeleted storage after key idx ∧ WmetaValid storage key idx
    | 2 => storage key = none
    | 3 => ¬ WmetaValid storage key idx ∧
        ∃ entry, storage key = some entry ∧ entry.cnArray idx = nullCNStatus
    | _ => False
  | .invalidateExceptArrayUpdateWmeta key _ wmetaIdx =>
    match code with
    | 0 => RecordSet storage after key wmetaIdx
    | 1 => storage key = none
    | 2 => ∃ entry, storage key = some entry ∧ entry.wmetaIdx ≠ none
    | _ => False

def CodedCall.Faithful (storage after : Directory Key nodes) (call : CodedCall Key nodes)
    (returned : Nat) : Prop :=
  ∀ code, returned = code ↔ call.Documented storage after code

theorem CodedCall.documented_unique {storage after : Directory Key nodes}
    {call : CodedCall Key nodes} {code code' : Nat}
    (first : call.Documented storage after code) (second : call.Documented storage after code') :
    code = code' := by
  cases call with
  | checkPutArray key cn idx wmetaIdx =>
    match code, code', first, second with
    | 0, 0, _, _ | 1, 1, _, _ | 2, 2, _, _ => rfl
    | 0, 1, installed, refused | 0, 2, installed, refused => exact absurd installed refused.1
    | 1, 0, refused, installed | 2, 0, refused, installed => exact absurd installed refused.1
    | 1, 2, unchanged, updated => exact absurd updated.2 unchanged.2
    | 2, 1, updated, unchanged => exact absurd updated.2 unchanged.2
  | deleteIfArray key idx =>
    match code, code', first, second with
    | 0, 0, _, _ | 1, 1, _, _ | 2, 2, _, _ | 3, 3, _, _ => rfl
    | 0, 1, deleted, valid => exact absurd deleted valid.1
    | 1, 0, valid, deleted => exact absurd deleted valid.1
    | 1, 3, valid, absent => exact absurd valid.2 absent.1
    | 3, 1, absent, valid => exact absurd valid.2 absent.1
    | 0, 3, ⟨entry, found, present, _⟩, ⟨_, entry', found', absent⟩
    | 3, 0, ⟨_, entry', found', absent⟩, ⟨entry, found, present, _⟩ =>
      rw [found] at found'
      cases found'
      exact absurd absent present
    | 0, 2, ⟨entry, found, _⟩, missing | 2, 0, missing, ⟨entry, found, _⟩
    | 1, 2, ⟨_, entry, found, _⟩, missing | 2, 1, missing, ⟨_, entry, found, _⟩
    | 3, 2, ⟨_, entry, found, _⟩, missing | 2, 3, missing, ⟨_, entry, found, _⟩ =>
      exact absurd found (by simp [show storage key = none from missing])
  | invalidateExceptArrayUpdateWmeta key idx wmetaIdx =>
    match code, code', first, second with
    | 0, 0, _, _ | 1, 1, _, _ | 2, 2, _, _ => rfl
    | 0, 2, ⟨entry, _, found, unset, _⟩, ⟨entry', found', recorded⟩
    | 2, 0, ⟨entry', found', recorded⟩, ⟨entry, _, found, unset, _⟩ =>
      rw [found] at found'
      cases found'
      exact absurd unset recorded
    | 0, 1, ⟨entry, _, found, _⟩, missing | 1, 0, missing, ⟨entry, _, found, _⟩
    | 2, 1, ⟨entry, found, _⟩, missing | 1, 2, missing, ⟨entry, found, _⟩ =>
      exact absurd found (by simp [show storage key = none from missing])

theorem CodedCall.faithful_iff {storage after : Directory Key nodes}
    {call : CodedCall Key nodes} {code returned : Nat}
    (documented : call.Documented storage after code) :
    call.Faithful storage after returned ↔ returned = code := by
  refine ⟨fun faithful => (faithful code).mpr documented, ?_⟩
  rintro rfl other
  refine ⟨?_, fun case => documented_unique documented case⟩
  rintro rfl
  exact documented

end

/-! ### When the codes are faithful -/

section

variable {Key : Type} {nodes : Nat} [BlockKey Key]

/-- A successful operation reports its own key, so the key must not be the null key that
reports a failure; and the dummy entry that stands for a valid record has its copy at node 1. -/
def CodedCall.Decodable (storage : Directory Key nodes) : CodedCall Key nodes → Prop
  | .checkPutArray key _ idx _ =>
    (∀ entry, storage key = some entry → (entry.cnArray idx).cnIdx = none) →
      key ≠ BlockKey.nullBlockId
  | .deleteIfArray key idx => ∀ entry, storage key = some entry →
      if idx = sharedCacheNode ∧ entry.wmetaIdx ≠ none then nodes ≠ 0
      else entry.cnArray idx ≠ nullCNStatus → key ≠ BlockKey.nullBlockId
  | .invalidateExceptArrayUpdateWmeta key _ _ => ∀ entry, storage key = some entry →
      entry.wmetaIdx = none → key ≠ BlockKey.nullBlockId

variable {storage after : Directory Key nodes}
  {response : Option (GCDResponse Key nodes)} {key : Key} {cn : Nat} {idx : Fin (nodes + 1)}

theorem slotInstalled_insert {value : GCDEntry nodes}
    (free : ∀ entry, storage key = some entry → (entry.cnArray idx).cnIdx = none)
    (installed : value.cnArray idx = ⟨some cn, false⟩) :
    SlotInstalled storage (storage.insert key value) key cn idx :=
  ⟨free, value, update_self .., installed⟩

variable {entry : GCDEntry nodes}

omit [BlockKey Key] in
theorem not_slotInstalled (found : storage key = some entry)
    (present : (entry.cnArray idx).cnIdx ≠ none) : ¬ SlotInstalled storage after key cn idx :=
  fun installed => present (installed.1 entry found)

theorem faithful_stored_iff (wmetaIdx : Option Nat) {value : GCDEntry nodes}
    (free : ∀ entry, storage key = some entry → (entry.cnArray idx).cnIdx = none)
    (copy : value.cnArray idx = ⟨some cn, false⟩) :
    (CodedCall.checkPutArray key cn idx wmetaIdx).Faithful storage (storage.insert key value)
        ((CodedCall.checkPutArray key cn idx wmetaIdx).code (some ⟨key, value⟩)) ↔
      (CodedCall.checkPutArray key cn idx wmetaIdx).Decodable storage := by
  have documented : (CodedCall.checkPutArray key cn idx wmetaIdx).Documented storage
      (storage.insert key value) 0 := slotInstalled_insert free copy
  have decodable : (CodedCall.checkPutArray key cn idx wmetaIdx).Decodable storage ↔
      key ≠ BlockKey.nullBlockId :=
    ⟨fun valid => valid free, fun valid _ => valid⟩
  rw [CodedCall.faithful_iff documented, decodable]
  simp [CodedCall.code]

variable {wmetaIdx : Option Nat}

theorem faithful_taken (found : storage key = some entry)
    (present : (entry.cnArray idx).cnIdx ≠ none)
    (documented : (CodedCall.checkPutArray key cn idx wmetaIdx).Documented storage after
      ((CodedCall.checkPutArray key cn idx wmetaIdx).code response)) :
    (CodedCall.checkPutArray key cn idx wmetaIdx).Faithful storage after
        ((CodedCall.checkPutArray key cn idx wmetaIdx).code response) ↔
      (CodedCall.checkPutArray key cn idx wmetaIdx).Decodable storage := by
  refine iff_of_true ((CodedCall.faithful_iff documented).mpr rfl) ?_
  intro free
  exact absurd (free entry found) present

theorem faithful_checkPutArray_iff
    (accepted : checkPutArrayWmeta storage key (some cn) idx wmetaIdx = .ok (after, response)) :
    (CodedCall.checkPutArray key cn idx wmetaIdx).Faithful storage after
        ((CodedCall.checkPutArray key cn idx wmetaIdx).code response) ↔
      (CodedCall.checkPutArray key cn idx wmetaIdx).Decodable storage := by
  unfold checkPutArrayWmeta at accepted
  cases found : storage key with
  | none =>
    simp only [found, stored] at accepted
    cases accepted
    apply faithful_stored_iff wmetaIdx (forall_missing found)
    split <;> simp [initGcdEntry, GCDEntry.setWmeta]
  | some entry =>
    simp only [found, stored] at accepted
    have onlyEntry : ∀ {P : GCDEntry nodes → Prop}, P entry →
        ∀ e, storage key = some e → P e := by
      intro P holds e present
      rw [found] at present
      cases present
      exact holds
    split at accepted
    · rename_i free
      split at accepted
      · cases accepted
      · split at accepted
        · cases accepted
        · cases accepted
          apply faithful_stored_iff wmetaIdx (onlyEntry free)
          simp [GCDEntry.setWmeta, GCDEntry.setCn]
        · cases accepted
          apply faithful_stored_iff wmetaIdx (onlyEntry free)
          simp [GCDEntry.setCn]
    · rename_i present
      split at accepted
      · rename_i shared
        split at accepted
        · rename_i updates
          cases accepted
          apply faithful_taken found present
          rw [CodedCall.code, if_pos rfl]
          exact ⟨not_slotInstalled found present, entry, _, found, update_self ..,
            val_eq_numaMem.mp shared, updates, rfl⟩
        · rename_i unchanged
          cases accepted
          apply faithful_taken found present
          refine ⟨not_slotInstalled found present, ?_⟩
          rintro ⟨entry', _, found', _, _, updates, _⟩
          rw [found] at found'
          cases found'
          exact unchanged updates
      · rename_i isLocal
        cases accepted
        apply faithful_taken found present
        refine ⟨not_slotInstalled found present, ?_⟩
        rintro ⟨_, _, _, _, shared, _⟩
        exact isLocal (val_eq_numaMem.mpr shared)

theorem cnArray_dropCopy {entry' : GCDEntry nodes}
    (left : dropCopy storage key entry idx key = some entry') :
    entry'.cnArray idx = nullCNStatus := by
  unfold dropCopy at left
  split at left
  · rw [Directory.remove, update_self] at left
    cases left
  · rw [Directory.insert, update_self] at left
    cases left
    exact update_self ..

theorem faithful_deleteIfArray_iff
    (accepted : deleteIfArray storage key idx = .ok (after, response)) :
    (CodedCall.deleteIfArray key idx).Faithful storage after
        ((CodedCall.deleteIfArray key idx).code response) ↔
      (CodedCall.deleteIfArray key idx).Decodable storage := by
  unfold deleteIfArray at accepted
  cases found : storage key with
  | none =>
    simp only [found] at accepted
    cases accepted
    have documented : (CodedCall.deleteIfArray key idx).Documented storage storage 2 := found
    rw [CodedCall.faithful_iff documented]
    exact iff_of_true rfl (forall_missing found)
  | some entry =>
    simp only [found, val_eq_numaMem] at accepted
    simp only [CodedCall.Decodable, found, Option.some.injEq, forall_eq']
    split at accepted
    · rename_i refused
      cases accepted
      have documented : (CodedCall.deleteIfArray key idx).Documented storage storage 1 := by
        refine ⟨?_, entry, found, refused.1, refused.2⟩
        rintro ⟨entry', found', present, gone⟩
        exact present (gone entry' found')
      rw [CodedCall.faithful_iff documented, if_pos refused, CodedCall.code, if_pos rfl]
      split
      · rename_i empty
        exact iff_of_false (by simp) fun several => several (refusal_empty_iff.mp empty)
      · rename_i distinct
        exact iff_of_true rfl fun single => distinct (refusal_empty_iff.mpr single)
    · rename_i valid
      have notValid : ¬ WmetaValid storage key idx := by
        rintro ⟨entry', found', shared, recorded⟩
        rw [found] at found'
        cases found'
        exact valid ⟨shared, recorded⟩
      rw [if_neg valid]
      split at accepted
      · rename_i absent
        cases accepted
        have documented : (CodedCall.deleteIfArray key idx).Documented storage storage 3 :=
          ⟨notValid, entry, found, absent⟩
        rw [CodedCall.faithful_iff documented]
        refine iff_of_true ?_ fun present => absurd absent present
        simp [CodedCall.code, initEmptyGcdEntry, initEmptyGcdEntryWithWmetaIdx]
      · rename_i present
        split at accepted
        · cases accepted
        · cases accepted
          have documented : (CodedCall.deleteIfArray key idx).Documented storage
              (dropCopy storage key entry idx) 0 :=
            ⟨entry, found, present, fun entry' left => cnArray_dropCopy left⟩
          rw [CodedCall.faithful_iff documented, CodedCall.code]
          split
          · rename_i null
            refine iff_of_false ?_ fun valid => valid present null
            split <;> simp
          · rename_i valid
            exact iff_of_true rfl fun _ => valid

theorem faithful_invalidate_iff
    (accepted : dispatchMut storage (.invalidateExceptArrayUpdateWmeta key idx wmetaIdx) =
      .ok (after, response)) :
    (CodedCall.invalidateExceptArrayUpdateWmeta key idx wmetaIdx).Faithful storage after
        ((CodedCall.invalidateExceptArrayUpdateWmeta key idx wmetaIdx).code response) ↔
      (CodedCall.invalidateExceptArrayUpdateWmeta key idx wmetaIdx).Decodable storage := by
  simp only [dispatchMut] at accepted
  cases found : storage key with
  | none =>
    simp only [found] at accepted
    cases accepted
    have documented : (CodedCall.invalidateExceptArrayUpdateWmeta key idx wmetaIdx).Documented
        storage storage 1 := found
    rw [CodedCall.faithful_iff documented]
    exact iff_of_true rfl (forall_missing found)
  | some entry =>
    simp only [found, stored] at accepted
    simp only [CodedCall.Decodable, found, Option.some.injEq, forall_eq']
    split at accepted
    · rename_i unset
      cases accepted
      have documented : (CodedCall.invalidateExceptArrayUpdateWmeta key idx wmetaIdx).Documented
          storage (storage.insert key ((entry.invalidateExcept idx).setWmeta wmetaIdx)) 0 :=
        ⟨entry, _, found, unset, update_self .., rfl⟩
      rw [CodedCall.faithful_iff documented]
      simp [CodedCall.code, unset]
    · rename_i recorded
      cases accepted
      have documented : (CodedCall.invalidateExceptArrayUpdateWmeta key idx wmetaIdx).Documented
          storage (storage.insert key (entry.invalidateExcept idx)) 2 :=
        ⟨entry, found, recorded⟩
      rw [CodedCall.faithful_iff documented]
      refine iff_of_true ?_ fun unset => absurd unset recorded
      simp [CodedCall.code]

/-- Every code the FFI functions return is the one documented for what `dispatch_mut` did if
and only if the response can be decoded. -/
theorem result_codes_faithful {call : CodedCall Key nodes}
    (accepted : dispatchMut storage call.toModify = .ok (after, response)) :
    call.Faithful storage after (call.code response) ↔ call.Decodable storage := by
  cases call with
  | checkPutArray key cn idx wmetaIdx => exact faithful_checkPutArray_iff accepted
  | deleteIfArray key idx => exact faithful_deleteIfArray_iff accepted
  | invalidateExceptArrayUpdateWmeta key idx wmetaIdx => exact faithful_invalidate_iff accepted

end

/-- The copy of the null key is installed in an empty directory, and the code says that it was
not. -/
theorem code_not_faithful_nullBlockId :
    ∃ after response,
      dispatchMut (fun _ => none : Directory BlockId 1)
        (CodedCall.checkPutArray BlockKey.nullBlockId 7 sharedCacheNode none).toModify =
          .ok (after, response) ∧
      SlotInstalled (fun _ => none) after BlockKey.nullBlockId 7 sharedCacheNode ∧
      (CodedCall.checkPutArray BlockKey.nullBlockId 7 sharedCacheNode none).code response = 2 := by
  refine ⟨_, _, rfl, ⟨?_, _, rfl, rfl⟩, rfl⟩
  intro entry found
  cases found

/-- A page with a record is not deleted, and the code says so. -/
theorem result_codes_faithful_wmetaValid :
    ∃ after response,
      dispatchMut (onePage (some 3)) (CodedCall.deleteIfArray firstKey sharedCacheNode).toModify =
        .ok (after, response) ∧
      (CodedCall.deleteIfArray firstKey sharedCacheNode).Faithful (onePage (some 3)) after
        ((CodedCall.deleteIfArray firstKey sharedCacheNode).code response) := by
  refine ⟨_, _, rfl, (result_codes_faithful rfl).mpr ?_⟩
  intro entry found
  cases found
  exact Nat.one_ne_zero

end Megalon.Index
