import Megalon.Index.Directory

/-!
Contract: `Swap` and `CheckInsertUpdate` of `GlobalCacheDirectoryHandleNr` (`gcd_nr.cc`), through
the FFI functions `CheckSwapArray` and `CheckPutSwapArray`.

Owns: their arguments and results layer by layer, what they do to the copies in the directory,
and for which arguments they do what their names say.

Does not own: the other operations of the handle.

`old_nid` and `new_nid` are indices of the array. A slot index and a pointer are numbers that are
not the `-1` of `nr_hashmap.h`.
-/

namespace Megalon.Index

open Function

section

variable {Key : Type} {nodes : Nat} [BlockKey Key]

/-- The FFI function `CheckSwapArray` hands its arguments on in its own order, while the
operation takes the old index first. -/
def checkSwapArrayFfi (toRemove toInsert : Key) (cn : Nat) (newIdx oldIdx : Fin (nodes + 1)) :
    Modify Key nodes :=
  .checkSwapArray toRemove toInsert (some cn) newIdx oldIdx

/-- The FFI function `CheckPutSwapArray`. -/
def checkPutSwapArrayFfi (key : Key) (cn : Nat) (newIdx oldIdx : Fin (nodes + 1)) :
    Modify Key nodes :=
  .checkPutSwapArray key (some cn) newIdx oldIdx

/-- `Swap`: the directory afterwards, and the result. -/
def swap (storage : Directory Key nodes) (toRemove toInsert : Key) (cn : Nat)
    (newNid oldNid : Fin (nodes + 1)) : Directory Key nodes × Bool :=
  let op := checkSwapArrayFfi toRemove toInsert cn newNid oldNid
  (applyOp storage op, (respond storage op).isSome)

/-- `static_cast<NrGcdError>` of a `bool`. -/
def NrGcdError.ofBool : Bool → NrGcdError
  | false => .noError
  | true => .slotWmetaUpdateFailed

def checkInsertUpdate (storage : Directory Key nodes) (toInsert : Key) (cn : Nat)
    (newNid oldNid : Fin (nodes + 1)) : Directory Key nodes × NrGcdError :=
  let op := checkPutSwapArrayFfi toInsert cn newNid oldNid
  (applyOp storage op, .ofBool (respond storage op).isSome)

/-! ### Copies in the directory -/

omit [BlockKey Key] in
/-- The copy of a key at an index: the slot, and whether it is invalidated. -/
def Directory.copy (storage : Directory Key nodes) (key : Key) (idx : Fin (nodes + 1)) :
    Option (Nat × Bool) :=
  (storage key).bind fun entry =>
    (entry.cnArray idx).cnIdx.map fun cn => (cn, (entry.cnArray idx).invalidate)

variable {storage : Directory Key nodes} {key : Key} {entry : GCDEntry nodes}

theorem copy_insert (value : GCDEntry nodes) (other : Key) (i : Fin (nodes + 1)) :
    (storage.insert key value).copy other i =
      if other = key then
        (value.cnArray i).cnIdx.map fun cn => (cn, (value.cnArray i).invalidate)
      else storage.copy other i := by
  by_cases same : other = key
  · subst same
    simp [Directory.copy, Directory.insert]
  · simp [Directory.copy, Directory.insert, same]

omit [BlockKey Key] in
theorem copy_eq_none_iff (present : storage key = some entry) (idx : Fin (nodes + 1)) :
    storage.copy key idx = none ↔ (entry.cnArray idx).cnIdx = none := by
  simp [Directory.copy, present]

omit [BlockKey Key] in
theorem copy_of_absent (absent : storage key = none) (idx : Fin (nodes + 1)) :
    storage.copy key idx = none := by
  simp [Directory.copy, absent]

theorem copy_dropCopy (present : storage key = some entry) (idx : Fin (nodes + 1)) (other : Key)
    (i : Fin (nodes + 1)) :
    (dropCopy storage key entry idx).copy other i =
      if other = key ∧ i = idx then none else storage.copy other i := by
  by_cases same : other = key
  · subst same
    by_cases here : i = idx
    · subst here
      rw [dropCopy]
      split
      · simp [Directory.copy, Directory.remove]
      · simp [copy_insert, GCDEntry.setCn, nullCNStatus]
    · rw [if_neg (fun both => here both.2), dropCopy]
      split
      · rename_i last
        have gone : (entry.cnArray i).cnIdx = none := by
          simpa [GCDEntry.setCn, here] using of_decide_eq_true last i
        simp [Directory.copy, Directory.remove, present, gone]
      · rw [copy_insert, if_pos rfl]
        simp [GCDEntry.setCn, here, Directory.copy, present]
  · rw [if_neg (fun both => same both.1), dropCopy]
    split
    · simp [Directory.copy, Directory.remove, same]
    · simp [copy_insert, same]

theorem dropCopy_eq_self_iff (present : storage key = some entry) (idx : Fin (nodes + 1)) :
    dropCopy storage key entry idx = storage ↔
      entry.cnArray idx = nullCNStatus ∧ entry.allAbsent = false := by
  constructor
  · intro same
    rw [dropCopy] at same
    split at same
    · have removed := congrFun same key
      simp [Directory.remove, present] at removed
    · rename_i left
      have kept := congrFun same key
      simp only [Directory.insert, update_self, present, Option.some.injEq] at kept
      have null := congrArg (fun e => e.cnArray idx) kept
      simp only [GCDEntry.setCn, update_self] at null
      exact ⟨null.symm, by rw [← kept]; exact eq_false_of_ne_true left⟩
  · rintro ⟨null, left⟩
    have kept : entry.setCn idx nullCNStatus = entry := by
      rw [GCDEntry.setCn, ← null, update_eq_self]
    rw [dropCopy, kept, if_neg (by rw [left]; decide), Directory.insert, ← present,
      update_eq_self]

theorem checkPutArray_eq (storage : Directory Key nodes) (key : Key) (cn : Nat)
    (idx : Fin (nodes + 1)) :
    ∃ after response, checkPutArray storage key (some cn) idx = .ok (after, response) ∧
      if storage.copy key idx = none then
        response.isSome = true ∧ ∀ other i, after.copy other i =
          if other = key ∧ i = idx then some (cn, false) else storage.copy other i
      else response = none ∧ after = storage := by
  cases present : storage key with
  | none =>
    refine ⟨_, _, by rw [checkPutArray, present]; rfl, ?_⟩
    rw [if_pos (copy_of_absent present idx)]
    refine ⟨rfl, fun other i => ?_⟩
    rw [copy_insert]
    by_cases same : other = key
    · subst same
      by_cases here : i = idx
      · simp [initGcdEntry, here]
      · have value : i.val ≠ idx.val := fun equal => here (Fin.ext equal)
        simp [initGcdEntry, here, value, nullCNStatus, Directory.copy, present]
    · simp [same]
  | some entry =>
    by_cases free : (entry.cnArray idx).cnIdx = none
    · refine ⟨_, _, by simp only [checkPutArray, present, if_pos free]; rfl, ?_⟩
      rw [if_pos ((copy_eq_none_iff present idx).mpr free)]
      refine ⟨rfl, fun other i => ?_⟩
      rw [copy_insert]
      by_cases same : other = key
      · subst same
        by_cases here : i = idx
        · simp [GCDEntry.setCn, here]
        · simp [GCDEntry.setCn, here, Directory.copy, present]
      · simp [same]
    · refine ⟨_, _, by simp only [checkPutArray, present, if_neg free]; rfl, ?_⟩
      rw [if_neg (fun none => free ((copy_eq_none_iff present idx).mp none))]
      exact ⟨rfl, rfl⟩

/-! ### `Swap` -/

/-- What `Swap` is for. -/
structure SwapCorrect (storage : Directory Key nodes) (toRemove toInsert : Key) (cn : Nat)
    (newNid oldNid : Fin (nodes + 1)) : Prop where
  success : (swap storage toRemove toInsert cn newNid oldNid).2 = true → ∀ key idx,
    (swap storage toRemove toInsert cn newNid oldNid).1.copy key idx =
      if key = toInsert ∧ idx = newNid then some (cn, false)
      else if key = toRemove ∧ idx = oldNid then none
      else storage.copy key idx
  failure : (swap storage toRemove toInsert cn newNid oldNid).2 = false →
    (swap storage toRemove toInsert cn newNid oldNid).1 = storage

omit [BlockKey Key] in
/-- `to_insert` has a copy on `old_nid` that the removal, which goes to `new_nid`, leaves. -/
def SwapBlocked (storage : Directory Key nodes) (toRemove toInsert : Key)
    (newNid oldNid : Fin (nodes + 1)) : Prop :=
  ¬(toInsert = toRemove ∧ oldNid = newNid) ∧ storage.copy toInsert oldNid ≠ none

omit [BlockKey Key] in
instance (storage : Directory Key nodes) (toRemove toInsert : Key)
    (newNid oldNid : Fin (nodes + 1)) :
    Decidable (SwapBlocked storage toRemove toInsert newNid oldNid) :=
  inferInstanceAs (Decidable (_ ∧ _))

variable {toRemove toInsert : Key} {newNid oldNid : Fin (nodes + 1)} {cn : Nat}

theorem swap_absent (absent : storage toRemove = none) :
    swap storage toRemove toInsert cn newNid oldNid = (storage, false) := by
  simp [swap, checkSwapArrayFfi, applyOp, respond, dispatchMut, absent]

variable (toInsert newNid oldNid cn) in
theorem swap_present (present : storage toRemove = some entry) :
    if SwapBlocked storage toRemove toInsert newNid oldNid then
      swap storage toRemove toInsert cn newNid oldNid =
        (dropCopy storage toRemove entry newNid, false)
    else
      (swap storage toRemove toInsert cn newNid oldNid).2 = true ∧ ∀ key idx,
        (swap storage toRemove toInsert cn newNid oldNid).1.copy key idx =
          if key = toInsert ∧ idx = oldNid then some (cn, false)
          else if key = toRemove ∧ idx = newNid then none
          else storage.copy key idx := by
  obtain ⟨after, response, put, effect⟩ :=
    checkPutArray_eq (dropCopy storage toRemove entry newNid) toInsert cn oldNid
  have dispatched : dispatchMut storage (checkSwapArrayFfi toRemove toInsert cn newNid oldNid) =
      .ok (after, response) := by
    simp only [checkSwapArrayFfi, dispatchMut, present]
    exact put
  have swapped : swap storage toRemove toInsert cn newNid oldNid = (after, response.isSome) := by
    rw [swap, applyOp_of_ok dispatched, respond_of_ok dispatched]
  simp only [copy_dropCopy present] at effect
  by_cases blocked : SwapBlocked storage toRemove toInsert newNid oldNid
  · rw [if_neg blocked.1, if_neg blocked.2] at effect
    rw [if_pos blocked, swapped, effect.1, effect.2]
    rfl
  · have free : (if toInsert = toRemove ∧ oldNid = newNid then none
        else storage.copy toInsert oldNid) = none := by
      split
      · rfl
      · rename_i apart
        by_contra held
        exact blocked ⟨apart, held⟩
    rw [if_pos free] at effect
    rw [if_neg blocked, swapped]
    exact effect

theorem swapCorrect_iff :
    SwapCorrect storage toRemove toInsert cn newNid oldNid ↔
      ∀ entry, storage toRemove = some entry →
        if SwapBlocked storage toRemove toInsert newNid oldNid then
          entry.cnArray newNid = nullCNStatus ∧ entry.allAbsent = false
        else newNid = oldNid := by
  cases present : storage toRemove with
  | none =>
    refine iff_of_true ⟨fun success => ?_, fun _ => ?_⟩ fun _ found => nomatch found
    · rw [swap_absent present] at success
      cases success
    · rw [swap_absent present]
  | some entry =>
    have effect := swap_present toInsert newNid oldNid cn present
    by_cases blocked : SwapBlocked storage toRemove toInsert newNid oldNid
    · rw [if_pos blocked] at effect
      have same := dropCopy_eq_self_iff present newNid
      simp only [if_pos blocked, Option.some.injEq, forall_eq']
      constructor
      · intro correct
        have kept := correct.failure (by rw [effect])
        rw [effect] at kept
        exact same.mp kept
      · intro nothing
        refine ⟨fun success => ?_, fun _ => ?_⟩
        · rw [effect] at success
          cases success
        · rw [effect]
          exact same.mpr nothing
    · rw [if_neg blocked] at effect
      simp only [if_neg blocked, Option.some.injEq, forall_eq']
      constructor
      · intro correct
        by_contra different
        have installed := (effect.2 toInsert oldNid).symm.trans
          (correct.success effect.1 toInsert oldNid)
        rw [if_pos ⟨rfl, rfl⟩, if_neg (fun both => different both.2.symm)] at installed
        split at installed
        · cases installed
        · exact blocked ⟨fun both => different both.2.symm, by simp [← installed]⟩
      · rintro rfl
        exact ⟨fun _ => effect.2, fun failed => by rw [effect.1] at failed; cases failed⟩

/-! ### `CheckInsertUpdate` -/

/-- The call itself puts `cn` on `newNid`: it is the copy afterwards, and without the copy on
`oldNid` there was none before. -/
structure UpdateInstalls (storage : Directory Key nodes) (toInsert : Key) (cn : Nat)
    (newNid oldNid : Fin (nodes + 1)) : Prop where
  vacant : storage.copy toInsert newNid = none ∨ newNid = oldNid
  stored : (checkInsertUpdate storage toInsert cn newNid oldNid).1.copy toInsert newNid =
    some (cn, false)

/-- What `CheckInsertUpdate` is for. -/
structure UpdateCorrect (storage : Directory Key nodes) (toInsert : Key) (cn : Nat)
    (newNid oldNid : Fin (nodes + 1)) : Prop where
  code : (checkInsertUpdate storage toInsert cn newNid oldNid).2 = .noError ↔
    UpdateInstalls storage toInsert cn newNid oldNid
  failure : (checkInsertUpdate storage toInsert cn newNid oldNid).2 ≠ .noError →
    (checkInsertUpdate storage toInsert cn newNid oldNid).1 = storage

variable (cn) in
theorem checkInsertUpdate_installed (free : storage.copy toInsert newNid = none ∨ newNid = oldNid) :
    (checkInsertUpdate storage toInsert cn newNid oldNid).2 = .slotWmetaUpdateFailed ∧
      (checkInsertUpdate storage toInsert cn newNid oldNid).1.copy toInsert newNid =
        some (cn, false) := by
  cases present : storage toInsert with
  | none =>
    have dispatched : dispatchMut storage (checkPutSwapArrayFfi toInsert cn newNid oldNid) =
        stored storage toInsert (initGcdEntry (some cn) newNid) := by
      simp only [checkPutSwapArrayFfi, dispatchMut, present]
    rw [stored] at dispatched
    rw [checkInsertUpdate, applyOp_of_ok dispatched, respond_of_ok dispatched]
    exact ⟨rfl, by rw [copy_insert, if_pos rfl]; simp [initGcdEntry]⟩
  | some entry =>
    have vacant : ((entry.setCn oldNid nullCNStatus).cnArray newNid).cnIdx = none := by
      by_cases same : newNid = oldNid
      · simp [GCDEntry.setCn, same, nullCNStatus]
      · have missing := (copy_eq_none_iff present newNid).mp (free.resolve_right same)
        simpa [GCDEntry.setCn, same] using missing
    have dispatched : dispatchMut storage (checkPutSwapArrayFfi toInsert cn newNid oldNid) =
        stored storage toInsert
          ((entry.setCn oldNid nullCNStatus).setCn newNid ⟨some cn, false⟩) := by
      simp only [checkPutSwapArrayFfi, dispatchMut, present, if_pos vacant]
    rw [stored] at dispatched
    rw [checkInsertUpdate, applyOp_of_ok dispatched, respond_of_ok dispatched]
    exact ⟨rfl, by rw [copy_insert, if_pos rfl]; simp [GCDEntry.setCn]⟩

variable (cn) in
theorem checkInsertUpdate_refused (taken : storage.copy toInsert newNid ≠ none)
    (different : newNid ≠ oldNid) :
    (checkInsertUpdate storage toInsert cn newNid oldNid).2 = .noError := by
  cases present : storage toInsert with
  | none => exact absurd (copy_of_absent present newNid) taken
  | some entry =>
    have shut : ((entry.setCn oldNid nullCNStatus).cnArray newNid).cnIdx ≠ none := by
      intro none
      exact taken ((copy_eq_none_iff present newNid).mpr
        (by simpa [GCDEntry.setCn, different] using none))
    have dispatched : dispatchMut storage (checkPutSwapArrayFfi toInsert cn newNid oldNid) =
        .ok (storage.insert toInsert (entry.setCn oldNid nullCNStatus), none) := by
      simp only [checkPutSwapArrayFfi, dispatchMut, present, if_neg shut]
    rw [checkInsertUpdate, applyOp_of_ok dispatched, respond_of_ok dispatched]
    rfl

/-- The code of a call that installs is an error, the code of one that refuses is none. -/
theorem not_updateCorrect (storage : Directory Key nodes) (toInsert : Key) (cn : Nat)
    (newNid oldNid : Fin (nodes + 1)) : ¬UpdateCorrect storage toInsert cn newNid oldNid := by
  intro correct
  by_cases free : storage.copy toInsert newNid = none ∨ newNid = oldNid
  · obtain ⟨code, installed⟩ := checkInsertUpdate_installed cn free
    have reported := correct.code.mpr ⟨free, installed⟩
    rw [code] at reported
    cases reported
  · have taken := not_or.mp free
    exact free (correct.code.mp (checkInsertUpdate_refused cn taken.1 taken.2)).vacant

/-- **Which calls do what they say.** `Swap` when the two nodes are one and nothing blocks it,
or when it fails and drops nothing; `CheckInsertUpdate` never. -/
theorem swaps_correct_iff (storage : Directory Key nodes) (toRemove toInsert : Key) (cn : Nat)
    (newNid oldNid : Fin (nodes + 1)) :
    (SwapCorrect storage toRemove toInsert cn newNid oldNid ↔
      ∀ entry, storage toRemove = some entry →
        if SwapBlocked storage toRemove toInsert newNid oldNid then
          entry.cnArray newNid = nullCNStatus ∧ entry.allAbsent = false
        else newNid = oldNid) ∧
    ¬UpdateCorrect storage toInsert cn newNid oldNid :=
  ⟨swapCorrect_iff, not_updateCorrect storage toInsert cn newNid oldNid⟩

end

/-! ### A page on two nodes -/

def onTwoNodes : Directory BlockId 2 :=
  applyOp (applyOp (fun _ => none) (.checkPutArray ⟨1, 0⟩ (some 5) sharedCacheNode))
    (.checkPutArray ⟨1, 0⟩ (some 7) (Fin.succ ⟨0, Nat.two_pos⟩))

/-- The local copy is to make room for another page on CXL. `Swap` takes the CXL copy and puts
the new page on the node, and `CheckInsertUpdate` reports the page it puts on CXL as an error. -/
theorem swaps_not_correct_onTwoNodes :
    ¬SwapCorrect onTwoNodes ⟨1, 0⟩ ⟨2, 0⟩ 9 sharedCacheNode (Fin.succ ⟨0, Nat.two_pos⟩) ∧
      ¬UpdateCorrect onTwoNodes ⟨2, 0⟩ 9 sharedCacheNode (Fin.succ ⟨0, Nat.two_pos⟩) := by
  constructor
  · intro correct
    have installed := correct.success (by decide) ⟨2, 0⟩ sharedCacheNode
    exact absurd installed (by decide)
  · intro correct
    have reported := correct.code.mpr ⟨by decide, by decide⟩
    exact absurd reported (by decide)

end Megalon.Index
