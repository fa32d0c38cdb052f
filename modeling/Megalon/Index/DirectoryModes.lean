import Megalon.Index.DirectoryHandle

/-!
Contract: the modes of directory entries, and the copies entries have.

Owns: what an entry in read-write mode looks like, under which operations every entry looks
so and no operation panics; and the exclusive local copies that `MoveIndexToLocal` leaves.

Does not own: the pages behind the copies.
-/

namespace Megalon.Index

open Function Foundations

section

variable {nodes : Nat}

/-- A copy is present, an absent copy is not marked, and an entry with a record has the
CXL copy and no valid local one. -/
structure GCDEntry.Modes (entry : GCDEntry nodes) : Prop where
  present : ∃ i, (entry.cnArray i).cnIdx ≠ none
  unmarked : ∀ i, (entry.cnArray i).cnIdx = none → (entry.cnArray i).invalidate = false
  shared : entry.wmetaIdx ≠ none → (entry.cnArray sharedCacheNode).cnIdx ≠ none
  exclusive : entry.wmetaIdx ≠ none → ∀ i, i ≠ sharedCacheNode → entry.existOnArrayIdx i = false

variable {entry : GCDEntry nodes} {i : Fin (nodes + 1)}

theorem existOnArrayIdx_eq_false :
    entry.existOnArrayIdx i = false ↔
      (entry.cnArray i).cnIdx = none ∨ (entry.cnArray i).invalidate = true := by
  unfold GCDEntry.existOnArrayIdx
  cases (entry.cnArray i).cnIdx <;> cases (entry.cnArray i).invalidate <;> simp

theorem existOnArrayIdx_congr {entry' : GCDEntry nodes}
    (same : entry.cnArray i = entry'.cnArray i) :
    entry.existOnArrayIdx i = entry'.existOnArrayIdx i := by
  rw [GCDEntry.existOnArrayIdx, GCDEntry.existOnArrayIdx, same]

namespace GCDEntry.Modes

variable {entry : GCDEntry nodes}

theorem init (cn : Nat) (idx : Fin (nodes + 1)) :
    (initGcdEntry (some cn) idx : GCDEntry nodes).Modes where
  present := ⟨idx, by simp [initGcdEntry]⟩
  unmarked := fun i _ => by
    simp only [initGcdEntry]
    split <;> rfl
  shared := fun record => absurd rfl record
  exclusive := fun record => absurd rfl record

variable (modes : entry.Modes)

include modes

theorem setReadOnly : (entry.setWmeta none).Modes where
  present := modes.present
  unmarked := modes.unmarked
  shared := fun record => absurd rfl record
  exclusive := fun record => absurd rfl record

theorem setRecord (wmeta : Option Nat)
    (shared : (entry.cnArray sharedCacheNode).cnIdx ≠ none)
    (exclusive : ∀ i, i ≠ sharedCacheNode → entry.existOnArrayIdx i = false) :
    (entry.setWmeta wmeta).Modes where
  present := modes.present
  unmarked := modes.unmarked
  shared := fun _ => shared
  exclusive := fun _ => exclusive

theorem setCopy (cn : Nat) (idx : Fin (nodes + 1))
    (readOnly : idx ≠ sharedCacheNode → entry.wmetaIdx = none) :
    (entry.setCn idx ⟨some cn, false⟩).Modes where
  present := ⟨idx, by simp⟩
  unmarked := fun i absent => by
    by_cases same : i = idx
    · subst same
      rw [cnArray_setCn_self]
    · rw [cnArray_setCn_of_ne entry _ same] at absent ⊢
      exact modes.unmarked i absent
  shared := fun record => by
    by_cases same : sharedCacheNode = idx
    · subst same
      simp
    · rw [cnArray_setCn_of_ne entry _ same]
      exact modes.shared record
  exclusive := fun record i other => by
    have shared : idx = sharedCacheNode := by
      by_contra isLocal
      exact record (readOnly isLocal)
    subst shared
    rw [existOnArrayIdx_congr (cnArray_setCn_of_ne entry _ other)]
    exact modes.exclusive record i other

theorem invalidateExcept : (entry.invalidateExcept sharedCacheNode).Modes where
  present := by
    obtain ⟨i, present⟩ := modes.present
    exact ⟨i, by rwa [cnIdx_invalidateExcept]⟩
  unmarked := fun i absent => by
    rw [cnIdx_invalidateExcept] at absent
    simp only [GCDEntry.invalidateExcept]
    rw [if_neg (by simp [absent])]
    exact modes.unmarked i absent
  shared := fun record => by
    rw [cnIdx_invalidateExcept]
    exact modes.shared record
  exclusive := fun record i other => by
    rw [existOnArrayIdx_eq_false]
    simp only [GCDEntry.invalidateExcept]
    split
    · exact .inr rfl
    · exact existOnArrayIdx_eq_false.mp (modes.exclusive record i other)

end GCDEntry.Modes

theorem existOnArrayIdx_invalidateExcept (entry : GCDEntry nodes) (other : i ≠ sharedCacheNode) :
    (entry.invalidateExcept sharedCacheNode).existOnArrayIdx i = false := by
  rw [existOnArrayIdx_eq_false]
  simp only [GCDEntry.invalidateExcept]
  split
  · exact .inr rfl
  · rename_i kept
    left
    by_contra present
    exact kept ⟨present, Ne.symm other⟩

theorem GCDEntry.Modes.move (modes : entry.Modes) (cn : Nat) {idx : Fin (nodes + 1)}
    (isLocal : idx ≠ sharedCacheNode) :
    (((entry.setCn idx ⟨some cn, false⟩).setWmeta none).setCn sharedCacheNode
      nullCNStatus).Modes where
  present := ⟨idx, by simp [cnArray_setCn_of_ne _ _ isLocal]⟩
  unmarked := fun i absent => by
    by_cases shared : i = sharedCacheNode
    · subst shared
      rw [cnArray_setCn_self]
      rfl
    · rw [cnArray_setCn_of_ne _ _ shared, cnArray_setWmeta] at absent ⊢
      by_cases same : i = idx
      · subst same
        rw [cnArray_setCn_self]
      · rw [cnArray_setCn_of_ne entry _ same] at absent ⊢
        exact modes.unmarked i absent
  shared := fun record => absurd rfl record
  exclusive := fun record => absurd rfl record

theorem GCDEntry.Modes.without {left : GCDEntry nodes} (modes : entry.Modes) {idx : Fin (nodes + 1)}
    (rest : entry.without idx = some left)
    (readOnly : idx = sharedCacheNode → entry.wmetaIdx = none ∨
      ∀ i, i ≠ sharedCacheNode → (entry.cnArray i).cnIdx = none) : left.Modes := by
  unfold GCDEntry.without at rest
  split at rest
  · cases rest
  · rename_i copies
    obtain rfl := Option.some.inj rest
    have present : ∃ i, ((entry.setCn idx nullCNStatus).cnArray i).cnIdx ≠ none := by
      by_contra gone
      simp only [ne_eq, not_exists, not_not] at gone
      exact copies (decide_eq_true gone)
    refine ⟨present, fun i absent => ?_, fun record => ?_, fun record i other => ?_⟩
    · by_cases same : i = idx
      · subst same
        rw [cnArray_setCn_self]
        rfl
      · rw [cnArray_setCn_of_ne entry _ same] at absent ⊢
        exact modes.unmarked i absent
    · by_cases same : sharedCacheNode = idx
      · subst same
        rcases readOnly rfl with noRecord | alone
        · exact absurd noRecord record
        · obtain ⟨i, kept⟩ := present
          by_cases shared : i = sharedCacheNode
          · subst shared
            simp [nullCNStatus] at kept
          · rw [cnArray_setCn_of_ne entry _ shared] at kept
            exact absurd (alone i shared) kept
      · rw [cnArray_setCn_of_ne entry _ same]
        exact modes.shared record
    · by_cases same : i = idx
      · subst same
        rw [existOnArrayIdx_eq_false, cnArray_setCn_self]
        exact .inl rfl
      · rw [existOnArrayIdx_congr (cnArray_setCn_of_ne entry _ same)]
        exact modes.exclusive record i other

end

/-! ### Modes along runs -/

section

variable {Key : Type} {nodes : Nat}

def DirectoryModes (storage : Directory Key nodes) : Prop :=
  ∀ key entry, storage key = some entry → entry.Modes

/-- The condition on an operation: a record comes to an entry with the CXL copy and without
valid local copies, a local copy to an entry without a record, the CXL copy leaves an entry
without a record, and `MoveIndexToLocal` finds its key. -/
def HandleOp.KeepsModes (storage : Directory Key nodes) : HandleOp Key nodes → Prop
  | .checkAndInsert key _ nid wmetaIdx => ∀ entry, storage key = some entry →
      (nid = sharedCacheNode → wmetaIdx ≠ none →
        ∀ i, i ≠ sharedCacheNode → entry.existOnArrayIdx i = false) ∧
      (nid ≠ sharedCacheNode → (entry.cnArray nid).cnIdx = none → entry.wmetaIdx = none)
  | .invalidateSwitchToRWShared key _ => ∀ entry, storage key = some entry →
      (entry.cnArray sharedCacheNode).cnIdx ≠ none
  | .deleteLocal key nid => nid = sharedCacheNode → ∀ entry, storage key = some entry →
      entry.wmetaIdx = none ∨ ∀ i, i ≠ sharedCacheNode → (entry.cnArray i).cnIdx = none
  | .moveIndexToLocal key _ _ => storage key ≠ none
  | _ => True

variable [BlockKey Key]

theorem DirectoryModes.update {storage : Directory Key nodes} (modes : DirectoryModes storage)
    (key : Key) {new : Option (GCDEntry nodes)} (mine : ∀ entry, new = some entry → entry.Modes) :
    DirectoryModes (update storage key new) := by
  intro key' entry found
  by_cases same : key' = key
  · subst same
    rw [update_self] at found
    exact mine entry found
  · rw [update_of_ne same] at found
    exact modes key' entry found

theorem DirectoryModes.insert {storage : Directory Key nodes} (modes : DirectoryModes storage)
    (key : Key) {entry : GCDEntry nodes} (mine : entry.Modes) :
    DirectoryModes (storage.insert key entry) :=
  modes.update key fun _ same => Option.some.inj same ▸ mine

variable {storage : Directory Key nodes}

/-- `dispatch_mut` accepts the operation, and the entries are in a mode afterwards. -/
def AcceptedInMode (storage : Directory Key nodes) (op : Modify Key nodes) : Prop :=
  ∃ after response, dispatchMut storage op = .ok (after, response) ∧ DirectoryModes after

omit [BlockKey Key] in
theorem GCDEntry.Modes.setWmeta {entry : GCDEntry nodes} (modes : entry.Modes)
    {wmetaIdx : Option Nat} (shared : (entry.cnArray sharedCacheNode).cnIdx ≠ none)
    (exclusive : wmetaIdx ≠ none →
      ∀ i, i ≠ sharedCacheNode → entry.existOnArrayIdx i = false) :
    (entry.setWmeta wmetaIdx).Modes := by
  cases wmetaIdx with
  | none => exact modes.setReadOnly
  | some w => exact modes.setRecord _ shared (exclusive (by simp))

theorem acceptedInMode_checkAndInsert (modes : DirectoryModes storage) {key : Key} {cn : Nat}
    {nid : Fin (nodes + 1)} {wmetaIdx : Option Nat}
    (allowed : (HandleOp.checkAndInsert key cn nid wmetaIdx).KeepsModes storage) :
    AcceptedInMode storage (.checkPutArrayWmeta key (some cn) nid wmetaIdx) := by
  have sharedIff : nid.val = numaMem ↔ nid = sharedCacheNode := by
    rw [Fin.ext_iff]
    rfl
  unfold AcceptedInMode
  simp only [dispatchMut, checkPutArrayWmeta, stored]
  split
  · refine ⟨_, _, rfl, modes.insert key ?_⟩
    split
    · rename_i shared
      rw [sharedIff] at shared
      subst shared
      refine (GCDEntry.Modes.init cn sharedCacheNode).setWmeta (by simp [initGcdEntry]) ?_
      intro _ i other
      rw [existOnArrayIdx_eq_false]
      left
      simp only [initGcdEntry]
      rw [if_neg fun same => other (Fin.ext same)]
      rfl
    · exact .init cn nid
  · rename_i entry found
    have mine := modes key entry found
    obtain ⟨onShared, onLocal⟩ := allowed entry found
    split
    · rename_i absent
      rw [if_neg (by simp [mine.unmarked nid absent])]
      split
      · rename_i wmeta record isLocal
        rw [decide_eq_false_iff_not, sharedIff] at isLocal
        rw [onLocal isLocal absent] at record
        cases record
      · rename_i shared
        rw [decide_eq_true_eq, sharedIff] at shared
        subst shared
        refine ⟨_, _, rfl, modes.insert key ?_⟩
        refine (mine.setCopy cn sharedCacheNode fun other => absurd rfl other).setWmeta
          (by simp) fun record i other => ?_
        rw [existOnArrayIdx_congr (cnArray_setCn_of_ne entry _ other)]
        exact onShared rfl record i other
      · rename_i readOnly _
        exact ⟨_, _, rfl, modes.insert key (mine.setCopy cn nid fun _ => readOnly)⟩
    · rename_i present
      split
      · rename_i shared
        rw [sharedIff] at shared
        subst shared
        split
        · exact ⟨_, _, rfl, modes.insert key (mine.setWmeta present (onShared rfl))⟩
        · exact ⟨_, _, rfl, modes⟩
      · exact ⟨_, _, rfl, modes⟩

theorem acceptedInMode_of_keepsModes (modes : DirectoryModes storage) {op : HandleOp Key nodes}
    (allowed : op.KeepsModes storage) : AcceptedInMode storage op.toModify := by
  cases op with
  | checkAndInsert key cn nid wmetaIdx => exact acceptedInMode_checkAndInsert modes allowed
  | insert key cn nid =>
    unfold AcceptedInMode
    simp only [HandleOp.toModify, dispatchMut, stored]
    split
    · exact ⟨_, _, rfl, modes.insert key (GCDEntry.Modes.init cn nid)⟩
    · rename_i entry found
      refine ⟨_, _, rfl, modes.insert key ?_⟩
      exact (modes key entry found).setReadOnly.setCopy cn nid fun _ => rfl
  | invalidateSwitchToRWShared key wmetaIdx =>
    unfold AcceptedInMode
    simp only [HandleOp.toModify, dispatchMut, stored]
    split
    · exact ⟨_, _, rfl, modes⟩
    · rename_i entry found
      have invalidated := (modes key entry found).invalidateExcept
      split
      · refine ⟨_, _, rfl, modes.insert key (invalidated.setRecord _ ?_ ?_)⟩
        · rw [cnIdx_invalidateExcept]
          exact allowed entry found
        · exact fun i other => existOnArrayIdx_invalidateExcept entry other
      · exact ⟨_, _, rfl, modes.insert key invalidated⟩
  | switchToReadOnly key =>
    unfold AcceptedInMode
    simp only [HandleOp.toModify, dispatchMut]
    split
    · exact ⟨_, _, rfl, modes⟩
    · rename_i entry found
      exact ⟨_, _, rfl, modes.insert key (modes key entry found).setReadOnly⟩
  | moveIndexToLocal key cn nid =>
    unfold AcceptedInMode
    simp only [HandleOp.toModify, dispatchMut]
    rw [if_neg (by simp)]
    split
    · rename_i missing
      exact absurd missing allowed
    · rename_i entry found
      split
      · exact ⟨_, _, rfl,
          modes.insert key ((modes key entry found).move cn (Fin.succ_ne_zero nid))⟩
      · exact ⟨_, _, rfl, modes⟩
  | delete key =>
    unfold AcceptedInMode
    simp only [HandleOp.toModify, dispatchMut]
    split
    · exact ⟨_, _, rfl, modes⟩
    · exact ⟨_, _, rfl, modes.update key fun _ absent => by cases absent⟩
  | deleteLocal key nid =>
    unfold AcceptedInMode
    simp only [HandleOp.toModify, dispatchMut, dropCopy_eq]
    split
    · exact ⟨_, _, rfl, modes⟩
    · rename_i entry found
      refine ⟨_, _, rfl, modes.update key fun left rest => ?_⟩
      exact (modes key entry found).without rest fun shared => allowed shared entry found
  | deleteIfReadOnly key nid =>
    unfold AcceptedInMode
    simp only [HandleOp.toModify, dispatchMut, deleteIfArray, dropCopy_eq]
    split
    · exact ⟨_, _, rfl, modes⟩
    · rename_i entry found
      have mine := modes key entry found
      split
      · exact ⟨_, _, rfl, modes⟩
      · rename_i readOnly
        split
        · exact ⟨_, _, rfl, modes⟩
        · rename_i present
          split
          · rename_i valid
            have invalid := existOnArrayIdx_eq_false.mp
              (mine.exclusive valid.2.2 nid fun shared => valid.1 (by rw [shared]; rfl))
            rcases invalid with absent | marked
            · have unmarked := mine.unmarked nid absent
              refine absurd ?_ present
              rw [nullCNStatus, ← absent, ← unmarked]
            · exact absurd marked valid.2.1
          · refine ⟨_, _, rfl, modes.update key fun left rest => ?_⟩
            refine mine.without rest fun shared => .inl ?_
            by_contra record
            exact readOnly ⟨by rw [shared]; rfl, record⟩
  | seqCountWrapAround key =>
    unfold AcceptedInMode
    simp only [HandleOp.toModify, dispatchMut]
    split <;> exact ⟨_, _, rfl, modes⟩

/-- **Directory modes.** Along every run whose operations meet the condition the entries are
in a mode, and an operation that meets it does not panic. -/
theorem directory_modes
    (reached : (handleSystem Key nodes).ReachableWhere (fun s op => op.KeepsModes s) storage) :
    DirectoryModes storage ∧ ∀ op : HandleOp Key nodes, op.KeepsModes storage →
      ∃ out, dispatchMut storage op.toModify = .ok out := by
  have modes : DirectoryModes storage := by
    refine reached.invariant ?_ ?_
    · rintro s rfl key entry found
      cases found
    · intro s op s' modes allowed taken
      obtain ⟨response, accepted⟩ := handleSystem_step taken
      obtain ⟨after, response', accepted', kept⟩ := acceptedInMode_of_keepsModes modes allowed
      rw [accepted] at accepted'
      cases accepted'
      exact kept
  refine ⟨modes, fun op allowed => ?_⟩
  obtain ⟨after, response, accepted, _⟩ := acceptedInMode_of_keepsModes modes allowed
  exact ⟨_, accepted⟩

end

section

/-- A page is replicated to node 1, and then its CXL copy gets a record. -/
def recordOverReplica : List (HandleOp BlockId 1) :=
  [.checkAndInsert firstKey 7 sharedCacheNode none, .checkAndInsert firstKey 9 (Fin.last 1) none,
    .checkAndInsert firstKey 8 sharedCacheNode (some 3)]

def replicate : HandleOp BlockId 1 := .checkAndInsert firstKey 9 (Fin.last 1) none

/-- The entry has a record and a valid local copy; and a local copy for an entry with a
record panics. -/
theorem modes_broken_recordOverReplica :
    (∃ s, (handleSystem BlockId 1).Reachable s ∧ ¬ DirectoryModes s) ∧
      ∃ s, (handleSystem BlockId 1).Reachable s ∧ ∃ op : HandleOp BlockId 1,
        s op.key ≠ none ∧ ∃ bug, dispatchMut s op.toModify = .error bug := by
  constructor
  · obtain ⟨s, reached, broken⟩ := System.exists_reachable_of_run (handleSystem BlockId 1) rfl
      recordOverReplica
      (fun s => (s firstKey).any fun entry => entry.wmetaIdx.isSome && entry.existOnArrayIdx 1)
      (by decide +kernel)
    refine ⟨s, reached, fun modes => ?_⟩
    rw [Option.any_eq_true] at broken
    obtain ⟨entry, found, both⟩ := broken
    rw [Bool.and_eq_true, Option.isSome_iff_ne_none] at both
    have invalid := (modes firstKey entry found).exclusive both.1 1 (by decide)
    rw [both.2] at invalid
    cases invalid
  · obtain ⟨s, reached, panics⟩ := System.exists_reachable_of_run (handleSystem BlockId 1) rfl
      [.checkAndInsert firstKey 7 0 (some 3)]
      (fun s => (s firstKey).isSome && !(dispatchMut s replicate.toModify).isOk)
      (by decide +kernel)
    rw [Bool.and_eq_true, Option.isSome_iff_ne_none, Bool.not_eq_true'] at panics
    refine ⟨s, reached, replicate, panics.1, ?_⟩
    cases outcome : dispatchMut s replicate.toModify with
    | error bug => exact ⟨bug, rfl⟩
    | ok out =>
      rw [outcome] at panics
      cases panics.2

/-- A page is created in read-only mode and gets a record. -/
theorem directory_modes_switch :
    ∃ s, (handleSystem BlockId 1).ReachableWhere (fun s op => op.KeepsModes s) s ∧
      cxlSlot (s firstKey) = some 7 ∧ DirectoryModes s := by
  have created : (handleSystem BlockId 1).ReachableWhere (fun s op => op.KeepsModes s) _ :=
    .step (.initial rfl) (e := .checkAndInsert firstKey 7 0 none)
      (fun entry found => by cases found) rfl
  have switched : (handleSystem BlockId 1).ReachableWhere (fun s op => op.KeepsModes s) _ :=
    .step created (e := .invalidateSwitchToRWShared firstKey 3)
      (fun entry found => by obtain rfl := Option.some.inj found; decide) rfl
  exact ⟨_, switched, rfl, (directory_modes switched).1⟩

end

end Megalon.Index
