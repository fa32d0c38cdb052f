import Megalon.Index.DirectoryHandle

/-!
Contract: the two implementations of the directory handle give the same answers.

Owns: `GlobalCacheDirectoryHandle` (`gcd.cc`) over one hash map, the answers of
`GlobalCacheDirectoryHandleNr` (`gcd_nr.cc`) over `dispatch_mut`, both as `C3POHandle` and
`SharedMemoryObjectHandle` read them, and the exact condition under which they agree along
a sequence of calls.

Does not own: concurrency; every call is one atomic operation on its map.
-/

namespace Megalon.Index

/-- `NrGcdDeleteError`. -/
inductive NrGcdDeleteError where
  | success
  | wmetaValid
  | entryNoexist
  | alrdyDeleted
  deriving DecidableEq, Repr

inductive DirectoryCall (Key : Type) (nodes : Nat) where
  | checkAndInsert (key : Key) (cnIndex : Nat) (nid : Fin (nodes + 1)) (wmetaIdx : Option Nat)
  | insert (key : Key) (cnIndex : Nat) (nid : Fin (nodes + 1))
  | delete (key : Key)
  | deleteLocal (key : Key) (nid : Fin (nodes + 1))
  | deleteIfReadOnly (key : Key) (nid : Fin (nodes + 1))
  | switchToReadOnly (key : Key)
  | invalidateSwitchToRWShared (key : Key) (wmetaIdx : Nat)
  | get (key : Key)

/-- What the caller of a directory call sees. -/
inductive Answer (nodes : Nat) where
  | code (error : NrGcdError)
  | flag (value : Bool)
  | deleteCode (error : NrGcdDeleteError)
  | deleted (result : Except NrGcdDeleteError (Option Int))
  | record (wmetaIdx : Option Nat)
  | entry (value : GCDEntry nodes)

/-- `C3POHandle::Delete` on the answer of the directory. -/
def c3poDelete : Option Int → Except NrGcdDeleteError (Option Int)
  | none => .error .entryNoexist
  | some wmetaIdx => .ok (if 0 ≤ wmetaIdx then some wmetaIdx else none)

/-- An index of the C++ side that may be missing, as `ssize_t`. -/
def ssize (index : Option Nat) : Int :=
  match index with
  | some i => i
  | none => -1

section

variable {Key : Type} {nodes : Nat} [BlockKey Key]

/-- `Delete` of the FFI: `-2` if there was no entry. -/
def ffiDelete (response : Option (GCDResponse Key nodes)) : Int :=
  match response with
  | some value => ssize value.value.wmetaIdx
  | none => -2

/-- `GlobalCacheDirectoryHandleNr::Delete`. -/
def nrDelete (response : Option (GCDResponse Key nodes)) : Option Int :=
  if ffiDelete response < -1 then none else some (ffiDelete response)

/-- `DeleteIfArray` of the FFI. -/
def ffiDeleteIf (response : Option (GCDResponse Key nodes)) : NrGcdDeleteError :=
  match response with
  | some value =>
    if value.key = BlockKey.nullBlockId then
      if value.value.wmetaIdx = none ∧ ∀ i, value.value.cnArray i = nullCNStatus then
        .alrdyDeleted
      else .wmetaValid
    else .success
  | none => .entryNoexist

/-- `GlobalCacheDirectoryHandleNr` over the replicated map. -/
def nrCall (storage : Directory Key nodes) :
    DirectoryCall Key nodes → Except Bug (Directory Key nodes × Answer nodes)
  | .checkAndInsert key cnIndex nid wmetaIdx =>
    (dispatchMut storage (.checkPutArrayWmeta key (some cnIndex) nid wmetaIdx)).map
      fun out => (out.1, .code (checkAndInsertCode out.2))
  | .insert key cnIndex nid =>
    (dispatchMut storage (.putArrayWmeta key (some cnIndex) nid none)).map
      fun out => (out.1, .flag true)
  | .delete key =>
    (dispatchMut storage (.delete key)).map
      fun out => (out.1, .deleted (c3poDelete (nrDelete out.2)))
  | .deleteLocal key nid =>
    (dispatchMut storage (.deleteArray key nid)).map fun out => (out.1, .flag out.2.isSome)
  | .deleteIfReadOnly key nid =>
    (dispatchMut storage (.deleteIfArray key nid)).map
      fun out => (out.1, .deleteCode (ffiDeleteIf out.2))
  | .switchToReadOnly key =>
    (dispatchMut storage (.checkSwitchWmetaArray key none)).map
      fun out => (out.1, .record (switchToReadOnlyResult out.2))
  | .invalidateSwitchToRWShared key wmetaIdx =>
    (dispatchMut storage
      (.invalidateExceptArrayUpdateWmeta key sharedCacheNode (some wmetaIdx))).map
        fun out => (out.1, .code (invalidateSwitchToRWSharedCode out.2))
  | .get key =>
    .ok (storage, .entry (((dispatch storage key).map GCDResponse.value).getD initEmptyGcdEntry))

end

section

variable {Key : Type} {nodes : Nat} [BlockKey Key]

/-- The `runtime_error`s of `CheckAndInsert`. -/
inductive HashBug where
  | putIntoInvalidated (idx : Nat)
  | localReplicaWhileWmetaValid
  deriving DecidableEq, Repr

/-- `CheckAndInsert`. A local copy that is there already is no error. -/
def hashCheckAndInsert (map : Directory Key nodes) (key : Key) (cnIndex : Nat)
    (nid : Fin (nodes + 1)) (wmetaIdx : Option Nat) :
    Except HashBug (Directory Key nodes × NrGcdError) :=
  match map key with
  | none =>
    .ok (map.insert key
      (if nid.val = numaMem then (initGcdEntry (some cnIndex) nid).setWmeta wmetaIdx
        else initGcdEntry (some cnIndex) nid), .noError)
  | some entry =>
    if (entry.cnArray nid).cnIdx = none then
      if (entry.cnArray nid).invalidate = true then .error (.putIntoInvalidated nid)
      else if entry.wmetaIdx ≠ none ∧ nid.val ≠ numaMem then
        .error .localReplicaWhileWmetaValid
      else
        .ok (map.insert key
          (if nid.val = numaMem then
            (entry.setCn nid ⟨some cnIndex, false⟩).setWmeta wmetaIdx
          else entry.setCn nid ⟨some cnIndex, false⟩), .noError)
    else if nid.val = numaMem then
      if wmetaIdx = none then
        .ok (map.insert key (entry.setWmeta wmetaIdx), .slotUpdateFailed)
      else if entry.wmetaIdx = none then
        .ok (map.insert key (entry.setWmeta wmetaIdx), .slotUpdateFailed)
      else .ok (map, .slotWmetaUpdateFailed)
    else .ok (map, .noError)

/-- `DeleteIfReadOnly`. -/
def hashDeleteIfReadOnly (map : Directory Key nodes) (key : Key) (nid : Fin (nodes + 1)) :
    Directory Key nodes × NrGcdDeleteError :=
  match map key with
  | none => (map, .entryNoexist)
  | some entry =>
    if nid.val = numaMem ∧ entry.wmetaIdx ≠ none then (map, .wmetaValid)
    else if (entry.cnArray nid).cnIdx = none ∧ (entry.cnArray nid).invalidate = false then
      (map, .alrdyDeleted)
    else (dropCopy map key entry nid, .success)

/-- `InvalidateSwitchToRWShared`. -/
def hashInvalidateSwitch (map : Directory Key nodes) (key : Key) (wmetaIdx : Nat) :
    Directory Key nodes × NrGcdError :=
  match map key with
  | none => (map, .entryNoexist)
  | some entry =>
    if entry.wmetaIdx = none then
      (map.insert key ((entry.invalidateExcept sharedCacheNode).setWmeta (some wmetaIdx)),
        .noError)
    else (map.insert key (entry.invalidateExcept sharedCacheNode), .slotWmetaUpdateFailed)

/-- `GlobalCacheDirectoryHandle` over `map_`. -/
def hashCall (map : Directory Key nodes) :
    DirectoryCall Key nodes → Except HashBug (Directory Key nodes × Answer nodes)
  | .checkAndInsert key cnIndex nid wmetaIdx =>
    (hashCheckAndInsert map key cnIndex nid wmetaIdx).map fun out => (out.1, .code out.2)
  | .insert key cnIndex nid =>
    .ok (map.insert key
      (match map key with
      | some entry => (entry.setCn nid ⟨some cnIndex, false⟩).setWmeta none
      | none => initGcdEntry (some cnIndex) nid), .flag true)
  | .delete key =>
    -- the record of the entry is the answer, also if it has none
    .ok (map.remove key, .deleted (c3poDelete
      ((map key).bind fun entry => entry.wmetaIdx.map Int.ofNat)))
  | .deleteLocal key nid =>
    match map key with
    -- `erase_if` answers whether the entry was erased
    | some entry => .ok (dropCopy map key entry nid, .flag (entry.without nid).isNone)
    | none => .ok (map, .flag false)
  | .deleteIfReadOnly key nid =>
    .ok ((hashDeleteIfReadOnly map key nid).1,
      .deleteCode (hashDeleteIfReadOnly map key nid).2)
  | .switchToReadOnly key =>
    -- the callers read the `bool` of `modify_if` as `std::optional<size_t>`
    match map key with
    | some entry => .ok (map.insert key (entry.setWmeta none), .record (some 1))
    | none => .ok (map, .record (some 0))
  | .invalidateSwitchToRWShared key wmetaIdx =>
    .ok ((hashInvalidateSwitch map key wmetaIdx).1,
      .code (hashInvalidateSwitch map key wmetaIdx).2)
  | .get key => .ok (map, .entry ((map key).getD initEmptyGcdEntry))

end

/-! ### Agreement of one call -/

section

variable {Key : Type} {nodes : Nat} [BlockKey Key]

/-- The condition under which the two handles answer a call alike. -/
def DirectoryCall.Agrees (storage : Directory Key nodes) : DirectoryCall Key nodes → Prop
  | .checkAndInsert key _ nid _ =>
    (∀ entry, storage key = some entry → (entry.cnArray nid).cnIdx ≠ none →
      nid = sharedCacheNode) ∧
    ((∀ entry, storage key = some entry → (entry.cnArray nid).cnIdx = none) →
      key ≠ BlockKey.nullBlockId)
  | .insert _ _ _ | .get _ => True
  | .delete key => ∀ entry, storage key = some entry → entry.wmetaIdx ≠ none
  | .deleteLocal key nid => ∀ entry, storage key = some entry →
      ∀ i, i ≠ nid → (entry.cnArray i).cnIdx = none
  | .deleteIfReadOnly key nid => ∀ entry, storage key = some entry →
      if nid = sharedCacheNode ∧ entry.wmetaIdx ≠ none then nodes ≠ 0
      else entry.cnArray nid ≠ nullCNStatus → key ≠ BlockKey.nullBlockId
  | .switchToReadOnly key => ∃ entry, storage key = some entry ∧ entry.wmetaIdx = some 1
  | .invalidateSwitchToRWShared key _ => ∀ entry, storage key = some entry →
      entry.wmetaIdx = none → key ≠ BlockKey.nullBlockId

/-- The hash map takes the same step, with the same answer if the condition holds. -/
def StepsAlike (storage : Directory Key nodes) (call : DirectoryCall Key nodes)
    (after : Directory Key nodes) (answer : Answer nodes) : Prop :=
  ∃ answer', hashCall storage call = .ok (after, answer') ∧
    (answer' = answer ↔ call.Agrees storage)

variable {storage after : Directory Key nodes} {answer : Answer nodes} {key : Key}

omit [BlockKey Key] in
theorem forall_missing {P : GCDEntry nodes → Prop} (missing : storage key = none) :
    ∀ e, storage key = some e → P e := by
  intro e present
  rw [missing] at present
  cases present

omit [BlockKey Key] in
theorem without_eq_none_iff (entry : GCDEntry nodes) (nid : Fin (nodes + 1)) :
    (entry.without nid).isNone = true ↔ ∀ i, i ≠ nid → (entry.cnArray i).cnIdx = none := by
  have gone : (entry.setCn nid nullCNStatus).allAbsent = true ↔
      ∀ i, i ≠ nid → (entry.cnArray i).cnIdx = none := by
    rw [GCDEntry.allAbsent, decide_eq_true_eq]
    refine ⟨fun absent i other => ?_, fun absent i => ?_⟩
    · rw [← cnArray_setCn_of_ne entry nullCNStatus other]
      exact absent i
    · by_cases same : i = nid
      · subst same
        rw [cnArray_setCn_self]
        rfl
      · rw [cnArray_setCn_of_ne entry _ same]
        exact absent i same
  rw [← gone, GCDEntry.without]
  split
  · exact iff_of_true rfl ‹_›
  · exact iff_of_false (by simp) ‹_›

variable {nid : Fin (nodes + 1)}

omit [BlockKey Key] in
theorem val_eq_numaMem : nid.val = numaMem ↔ nid = sharedCacheNode := by
  rw [Fin.ext_iff]
  rfl

theorem code_stored (key : Key) (value : GCDEntry nodes) :
    (Answer.code .noError : Answer nodes) = .code (checkAndInsertCode (some ⟨key, value⟩)) ↔
      key ≠ BlockKey.nullBlockId := by
  rw [Answer.code.injEq, checkAndInsertCode]
  split
  · rename_i null
    exact iff_of_false (by simp) fun valid => valid null
  · rename_i valid
    exact iff_of_true rfl valid

theorem stepsAlike_checkAndInsert {cnIndex : Nat} {wmetaIdx : Option Nat}
    (accepted : nrCall storage (.checkAndInsert key cnIndex nid wmetaIdx) = .ok (after, answer)) :
    StepsAlike storage (.checkAndInsert key cnIndex nid wmetaIdx) after answer := by
  unfold StepsAlike
  simp only [hashCall, hashCheckAndInsert, DirectoryCall.Agrees]
  simp only [nrCall, dispatchMut, checkPutArrayWmeta, stored] at accepted
  cases found : storage key with
  | none =>
    simp only [found] at accepted
    cases accepted
    refine ⟨_, rfl, (code_stored key _).trans ?_⟩
    simp
  | some entry =>
    simp only [found] at accepted
    simp only [Option.some.injEq, forall_eq']
    split at accepted
    · rename_i free
      simp only [free, ne_eq, not_true_eq_false, false_implies, true_and, true_implies, if_true]
      split at accepted
      · cases accepted
      · rename_i unmarked
        rw [if_neg unmarked]
        split at accepted
        · cases accepted
        · rename_i shared
          rw [decide_eq_true_eq] at shared
          cases accepted
          rw [if_neg fun both => both.2 shared, if_pos shared]
          exact ⟨_, rfl, code_stored key _⟩
        · rename_i readOnly isLocal
          rw [decide_eq_false_iff_not] at isLocal
          cases accepted
          rw [if_neg fun both => both.1 readOnly, if_neg isLocal]
          exact ⟨_, rfl, code_stored key _⟩
    · rename_i present
      have agrees : ((¬ (entry.cnArray nid).cnIdx = none → nid = sharedCacheNode) ∧
          ((entry.cnArray nid).cnIdx = none → ¬ key = BlockKey.nullBlockId)) ↔
          nid.val = numaMem := by
        rw [val_eq_numaMem]
        exact ⟨fun both => both.1 present, fun shared => ⟨fun _ => shared, fun free =>
          absurd free present⟩⟩
      rw [if_neg present, agrees]
      split at accepted
      · rename_i shared
        rw [if_pos shared]
        split at accepted
        · rename_i readOnly
          cases accepted
          have code : (Answer.code .slotUpdateFailed : Answer nodes) = .code
              (checkAndInsertCode (some ⟨BlockKey.nullBlockId, entry.setWmeta wmetaIdx⟩ :
                Option (GCDResponse Key nodes))) := by
            rw [checkAndInsertCode, if_pos rfl]
          rcases readOnly with toReadOnly | readOnly
          · rw [if_pos toReadOnly]
            exact ⟨_, rfl, iff_of_true code shared⟩
          · rw [if_pos readOnly, ite_self]
            exact ⟨_, rfl, iff_of_true code shared⟩
        · rename_i readWrite
          rw [not_or] at readWrite
          cases accepted
          rw [if_neg readWrite.1, if_neg readWrite.2]
          exact ⟨_, rfl, iff_of_true rfl shared⟩
      · rename_i isLocal
        cases accepted
        rw [if_neg isLocal]
        refine ⟨_, rfl, iff_of_false ?_ isLocal⟩
        intro same
        cases same

theorem code_switched (key : Key) (value : GCDEntry nodes) :
    (Answer.code .noError : Answer nodes) =
        .code (invalidateSwitchToRWSharedCode (some ⟨key, value⟩)) ↔
      key ≠ BlockKey.nullBlockId := by
  rw [Answer.code.injEq, invalidateSwitchToRWSharedCode]
  split
  · rename_i null
    exact iff_of_false (by simp) fun valid => valid null
  · rename_i valid
    exact iff_of_true rfl valid

omit [BlockKey Key] in
theorem deleted_eq_iff (key : Key) (wmetaIdx : Option Nat) :
    (Answer.deleted (c3poDelete (wmetaIdx.map Int.ofNat)) : Answer nodes) =
      .deleted (c3poDelete (nrDelete
        (some ⟨key, initEmptyGcdEntryWithWmetaIdx wmetaIdx⟩ : Option (GCDResponse Key nodes)))) ↔
      wmetaIdx ≠ none := by
  cases wmetaIdx with
  | none =>
    refine iff_of_false ?_ (by simp)
    intro same
    cases same
  | some w =>
    have recorded : ffiDelete (some ⟨key, initEmptyGcdEntryWithWmetaIdx (some w)⟩ :
        Option (GCDResponse Key nodes)) = (w : Int) := rfl
    have found : ¬ ((w : Int) < -1) := by omega
    refine iff_of_true ?_ (by simp)
    rw [nrDelete, recorded, if_neg found]
    rfl

omit [BlockKey Key] in
theorem refusal_empty_iff :
    ((initGcdEntry (some 2) (numaMem + 1) : GCDEntry nodes).wmetaIdx = none ∧
      ∀ i, (initGcdEntry (some 2) (numaMem + 1) : GCDEntry nodes).cnArray i = nullCNStatus) ↔
      nodes = 0 := by
  refine ⟨fun empty => ?_, fun single => ⟨rfl, fun i => ?_⟩⟩
  · by_contra several
    have second := empty.2 ⟨1, by omega⟩
    simp [initGcdEntry, numaMem, nullCNStatus] at second
  · have first : i.val ≠ numaMem + 1 := by
      rw [numaMem]
      omega
    rw [initGcdEntry]
    exact if_neg first

theorem refused_eq_iff :
    (Answer.deleteCode .wmetaValid : Answer nodes) = .deleteCode (ffiDeleteIf
      (some ⟨BlockKey.nullBlockId, initGcdEntry (some 2) (numaMem + 1)⟩ :
        Option (GCDResponse Key nodes))) ↔ nodes ≠ 0 := by
  rw [Answer.deleteCode.injEq, ffiDeleteIf, if_pos rfl]
  split
  · rename_i empty
    exact iff_of_false (by simp) fun several => several (refusal_empty_iff.mp empty)
  · rename_i refused
    exact iff_of_true rfl fun single => refused (refusal_empty_iff.mpr single)

theorem dropped_eq_iff (key : Key) (value : GCDEntry nodes) :
    (Answer.deleteCode .success : Answer nodes) =
        .deleteCode (ffiDeleteIf (some ⟨key, value⟩)) ↔
      key ≠ BlockKey.nullBlockId := by
  rw [Answer.deleteCode.injEq, ffiDeleteIf]
  split
  · rename_i null
    refine iff_of_false ?_ fun valid => valid null
    split <;> simp
  · rename_i valid
    exact iff_of_true rfl valid

theorem stepsAlike_deleteIfReadOnly
    (accepted : nrCall storage (.deleteIfReadOnly key nid) = .ok (after, answer)) :
    StepsAlike storage (.deleteIfReadOnly key nid) after answer := by
  unfold StepsAlike
  simp only [nrCall, dispatchMut, deleteIfArray] at accepted
  split at accepted
  · rename_i missing
    cases accepted
    refine ⟨_, ?_, iff_of_true rfl (forall_missing missing)⟩
    simp only [hashCall, hashDeleteIfReadOnly, missing]
    rfl
  · rename_i entry found
    rw [DirectoryCall.Agrees, forall_found found]
    simp only [hashCall, hashDeleteIfReadOnly, found, ← val_eq_numaMem]
    split at accepted
    · rename_i marked
      cases accepted
      simp only [if_pos marked]
      exact ⟨_, rfl, refused_eq_iff⟩
    · rename_i unmarked
      simp only [if_neg unmarked]
      split at accepted
      · rename_i absent
        cases accepted
        simp only [absent, nullCNStatus, and_self, if_true, ne_eq, not_true_eq_false, false_implies]
        refine ⟨_, rfl, iff_of_true ?_ trivial⟩
        rw [ffiDeleteIf, if_pos rfl, if_pos ⟨rfl, fun _ => rfl⟩]
      · rename_i present
        split at accepted
        · cases accepted
        · cases accepted
          have there : ¬ ((entry.cnArray nid).cnIdx = none ∧
              (entry.cnArray nid).invalidate = false) := by
            rintro ⟨free, valid⟩
            exact present (by rw [nullCNStatus, ← free, ← valid])
          simp only [if_neg there]
          refine ⟨_, rfl, (dropped_eq_iff key _).trans ?_⟩
          exact ⟨fun valid _ => valid, fun valid => valid present⟩

theorem stepsAlike_of_nrCall {call : DirectoryCall Key nodes}
    (accepted : nrCall storage call = .ok (after, answer)) :
    StepsAlike storage call after answer := by
  unfold StepsAlike
  cases call with
  | checkAndInsert key cnIndex nid wmetaIdx => exact stepsAlike_checkAndInsert accepted
  | insert key cnIndex nid =>
    simp only [nrCall, dispatchMut, stored] at accepted
    split at accepted
    · rename_i missing
      cases accepted
      refine ⟨_, ?_, iff_of_true rfl trivial⟩
      simp only [hashCall, missing]
      rfl
    · rename_i entry found
      cases accepted
      refine ⟨_, ?_, iff_of_true rfl trivial⟩
      simp only [hashCall, found]
  | delete key =>
    simp only [nrCall, dispatchMut] at accepted
    split at accepted
    · rename_i missing
      cases accepted
      refine ⟨_, ?_, iff_of_true rfl (forall_missing missing)⟩
      have untouched : storage.remove key = storage := by
        rw [Directory.remove, ← missing, Function.update_eq_self]
      simp only [hashCall, missing, untouched]
      rfl
    · rename_i entry found
      cases accepted
      refine ⟨_, rfl, ?_⟩
      rw [DirectoryCall.Agrees, forall_found found, found]
      exact deleted_eq_iff key entry.wmetaIdx
  | deleteLocal key nid =>
    simp only [nrCall, dispatchMut] at accepted
    split at accepted
    · rename_i missing
      cases accepted
      refine ⟨_, ?_, iff_of_true rfl (forall_missing missing)⟩
      simp only [hashCall, missing]
      rfl
    · rename_i entry found
      cases accepted
      refine ⟨_, by simp only [hashCall, found]; rfl, ?_⟩
      rw [DirectoryCall.Agrees, forall_found found, ← without_eq_none_iff]
      exact ⟨Answer.flag.inj, congrArg Answer.flag⟩
  | deleteIfReadOnly key nid => exact stepsAlike_deleteIfReadOnly accepted
  | switchToReadOnly key =>
    simp only [nrCall, dispatchMut] at accepted
    split at accepted
    · rename_i missing
      cases accepted
      refine ⟨_, by simp only [hashCall, missing]; rfl, iff_of_false ?_ ?_⟩
      · intro same
        cases same
      · rintro ⟨entry, present, _⟩
        rw [missing] at present
        cases present
    · rename_i entry found
      cases accepted
      refine ⟨_, by simp only [hashCall, found]; rfl, ?_⟩
      rw [DirectoryCall.Agrees, found]
      simp only [Option.some.injEq, exists_eq_left']
      exact ⟨fun same => (Answer.record.inj same).symm, fun one => congrArg Answer.record one.symm⟩
  | invalidateSwitchToRWShared key wmetaIdx =>
    simp only [nrCall, dispatchMut] at accepted
    split at accepted
    · rename_i missing
      cases accepted
      refine ⟨_, ?_, iff_of_true rfl (forall_missing missing)⟩
      simp only [hashCall, hashInvalidateSwitch, missing]
      rfl
    · rename_i entry found
      rw [DirectoryCall.Agrees, forall_found found]
      simp only [hashCall, hashInvalidateSwitch, found]
      split at accepted
      · rename_i readOnly
        cases accepted
        simp only [readOnly, if_true, true_implies]
        exact ⟨_, rfl, code_switched key _⟩
      · rename_i readWrite
        cases accepted
        simp only [readWrite, if_false, false_implies]
        refine ⟨_, rfl, iff_of_true ?_ trivial⟩
        rw [invalidateSwitchToRWSharedCode, if_pos rfl]
  | get key =>
    cases accepted
    refine ⟨_, rfl, iff_of_true ?_ trivial⟩
    unfold dispatch
    cases storage key <;> rfl

end

/-! ### Agreement of a sequence of calls -/

section

variable {Key : Type} {nodes : Nat} [BlockKey Key]

/-- One thread's calls of a handle, in order: the answers and the map they leave. -/
def runCalls {ε : Type}
    (handle : Directory Key nodes → DirectoryCall Key nodes →
      Except ε (Directory Key nodes × Answer nodes)) :
    Directory Key nodes → List (DirectoryCall Key nodes) →
      Except ε (List (Answer nodes) × Directory Key nodes)
  | storage, [] => .ok ([], storage)
  | storage, call :: calls => do
      let (after, answer) ← handle storage call
      let (answers, final) ← runCalls handle after calls
      return (answer :: answers, final)

def CallsAgree : Directory Key nodes → List (DirectoryCall Key nodes) → Prop
  | _, [] => True
  | storage, call :: calls =>
    call.Agrees storage ∧ ∀ after answer, nrCall storage call = .ok (after, answer) →
      CallsAgree after calls

omit [BlockKey Key] in
theorem runCalls_cons {ε : Type}
    {handle : Directory Key nodes → DirectoryCall Key nodes →
      Except ε (Directory Key nodes × Answer nodes)}
    {storage after : Directory Key nodes} {call : DirectoryCall Key nodes} {answer : Answer nodes}
    (calls : List (DirectoryCall Key nodes)) (step : handle storage call = .ok (after, answer)) :
    runCalls handle storage (call :: calls) =
      (runCalls handle after calls).map fun out => (answer :: out.1, out.2) := by
  rw [runCalls, step]
  cases rest : runCalls handle after calls <;> simp [bind, Except.bind, Except.map, rest, pure,
    Except.pure]

/-- Along every sequence of calls that does not panic, the hash map holds what the replicated
map holds, and the answers are the same if and only if every call meets its condition. -/
theorem hashCalls_from {calls : List (DirectoryCall Key nodes)} :
    ∀ {storage final : Directory Key nodes} {answers : List (Answer nodes)},
      runCalls nrCall storage calls = .ok (answers, final) →
      ∃ answers', runCalls hashCall storage calls = .ok (answers', final) ∧
        (answers' = answers ↔ CallsAgree storage calls) := by
  induction calls with
  | nil =>
    intro storage final answers accepted
    cases accepted
    exact ⟨[], rfl, iff_of_true rfl trivial⟩
  | cons call calls rest =>
    intro storage final answers accepted
    cases stepped : nrCall storage call with
    | error bug =>
      rw [runCalls, stepped] at accepted
      cases accepted
    | ok out =>
      obtain ⟨after, answer⟩ := out
      rw [runCalls_cons calls stepped] at accepted
      cases ran : runCalls nrCall after calls with
      | error bug =>
        rw [ran] at accepted
        cases accepted
      | ok out =>
        rw [ran] at accepted
        cases accepted
        obtain ⟨answer', hashed, alike⟩ := stepsAlike_of_nrCall stepped
        obtain ⟨answers', hashedRest, restAlike⟩ := rest ran
        refine ⟨answer' :: answers', ?_, ?_⟩
        · rw [runCalls_cons calls hashed, hashedRest]
          rfl
        · rw [List.cons.injEq, alike, restAlike, CallsAgree, stepped]
          refine and_congr_right fun _ => ⟨fun agree _ _ same => ?_, fun agree =>
            agree _ _ rfl⟩
          cases same
          exact agree

/-- The two handles give the same answers to the same calls on an empty directory, and leave
the same map, if and only if every call meets its condition. -/
theorem handles_agree {calls : List (DirectoryCall Key nodes)} {answers : List (Answer nodes)}
    {final : Directory Key nodes}
    (accepted : runCalls nrCall (fun _ => none) calls = .ok (answers, final)) :
    runCalls hashCall (fun _ => none) calls = .ok (answers, final) ↔
      CallsAgree (fun _ => none) calls := by
  obtain ⟨answers', hashed, alike⟩ := hashCalls_from accepted
  rw [hashed, ← alike, Except.ok.injEq, Prod.mk.injEq, and_iff_left rfl]

end

def deleteReadOnly : List (DirectoryCall BlockId 1) :=
  [.checkAndInsert firstKey 7 sharedCacheNode none, .delete firstKey]

/-- A read-only page is deleted: the replicated handle succeeds, the hash map says that there
was no entry. -/
theorem answers_differ_deleteReadOnly :
    ∃ answers final,
      runCalls nrCall (fun _ => none) deleteReadOnly = .ok (answers, final) ∧
      runCalls hashCall (fun _ => none) deleteReadOnly ≠ .ok (answers, final) := by
  refine ⟨[.code .noError, .deleted (.ok none)], _, rfl, ?_⟩
  intro same
  cases same

/-- A page enters with record 1 and is taken back to read-only. -/
theorem handles_agree_switch :
    ∃ answers final,
      runCalls nrCall (fun _ => none)
        ([.checkAndInsert firstKey 7 0 (some 1), .switchToReadOnly firstKey, .get firstKey] :
          List (DirectoryCall BlockId 1)) = .ok (answers, final) ∧
      runCalls hashCall (fun _ => none)
        [.checkAndInsert firstKey 7 0 (some 1), .switchToReadOnly firstKey, .get firstKey] =
          .ok (answers, final) := by
  refine ⟨_, _, rfl, (handles_agree rfl).mpr ⟨⟨?_, ?_⟩, ?_⟩⟩
  · intro entry found
    cases found
  · intro _
    decide
  · intro after answer inserted
    cases inserted
    exact ⟨⟨_, rfl, rfl⟩, fun _ _ _ => ⟨trivial, fun _ _ _ => trivial⟩⟩

end Megalon.Index
