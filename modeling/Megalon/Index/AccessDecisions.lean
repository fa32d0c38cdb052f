import Megalon.Index.DirectoryHandle

/-!
Contract: what `selectCacheNode` and `checkCacheNode` (`shm_obj_handle.cc`) hand to a read or
a write.

Owns: the copy each of them chooses, when a chosen copy can be used, and an entry for which
`checkCacheNode` chooses none.

Does not own: what is done with a copy.

A handle without an entry is one with the empty entry.
-/

namespace Megalon.Index

section

variable {nodes : Nat}

/-- The array index a read goes to, with the `cn_index` of its handle. -/
def ReadLocation.chosen (nid : Fin nodes) : ReadLocation → Option (Fin (nodes + 1) × Option Nat)
  | .cxlShared cn => some (sharedCacheNode, cn)
  | .localNode cn | .localNodeExclusive cn => some (nid.succ, cn)
  | .noEntry | .remoteNode => none

/-- The same for a write whose handle has `NO_ERROR`. -/
def WriteLocation.chosen (nid : Fin nodes) : WriteLocation → Option (Fin (nodes + 1) × Option Nat)
  | .onCxl cn => some (sharedCacheNode, cn)
  | .onNode cn => some (nid.succ, cn)
  | .pageNotFound | .pageRO _ => none

def GCDEntry.Holds (entry : GCDEntry nodes) (choice : Fin (nodes + 1) × Option Nat) : Prop :=
  entry.existOnArrayIdx choice.1 = true ∧ (entry.cnArray choice.1).cnIdx = choice.2 ∧
    choice.2.isSome = true

/-- Both decisions can be used on logical node `nid`, and a page is missing only if it has
no valid copy. -/
structure DecisionsUsable (entry : GCDEntry nodes) (nid : Fin nodes) : Prop where
  write : ∀ choice, (checkCacheNode entry nid).chosen nid = some choice → entry.Holds choice
  read : ∀ choice, (selectCacheNode entry nid).chosen nid = some choice → entry.Holds choice
  writeMissing : checkCacheNode entry nid = .pageNotFound ↔
    ∀ idx, entry.existOnArrayIdx idx = false
  readMissing : selectCacheNode entry nid = .noEntry ↔
    ∀ idx, entry.existOnArrayIdx idx = false

variable {entry : GCDEntry nodes} {nid : Fin nodes}

theorem isEntryEmpty_iff : entry.isEntryEmpty = true ↔ ∀ idx, entry.existOnArrayIdx idx = false :=
  decide_eq_true_iff

theorem holds_of_exists {idx : Fin (nodes + 1)} (valid : entry.existOnArrayIdx idx = true) :
    entry.Holds (idx, (entry.cnArray idx).cnIdx) := by
  have both := valid
  rw [GCDEntry.existOnArrayIdx, Bool.and_eq_true] at both
  exact ⟨valid, rfl, both.1⟩

theorem selectCacheNode_missing :
    selectCacheNode entry nid = .noEntry ↔ ∀ idx, entry.existOnArrayIdx idx = false := by
  rw [← isEntryEmpty_iff, selectCacheNode]
  repeat' split
  all_goals simp_all

theorem checkCacheNode_missing :
    checkCacheNode entry nid = .pageNotFound ↔ ∀ idx, entry.existOnArrayIdx idx = false := by
  rw [← isEntryEmpty_iff, checkCacheNode]
  repeat' split
  all_goals simp_all

theorem holds_of_selectCacheNode {choice : Fin (nodes + 1) × Option Nat}
    (chosen : (selectCacheNode entry nid).chosen nid = some choice) : entry.Holds choice := by
  rw [selectCacheNode] at chosen
  split at chosen
  · cases chosen
  · split at chosen
    · rename_i onNode
      split at chosen
      · cases chosen
        exact holds_of_exists onNode
      · cases chosen
        exact holds_of_exists onNode
    · split at chosen
      · rename_i onCxl
        cases chosen
        exact holds_of_exists onCxl
      · cases chosen

theorem checkCacheNode_onNode (other : ∃ idx, entry.existOnArrayIdx idx = true)
    (offCxl : entry.existOnArrayIdx sharedCacheNode = false) (switched : entry.isRO = false) :
    checkCacheNode entry nid = .onNode (entry.cnArray nid.succ).cnIdx := by
  obtain ⟨idx, valid⟩ := other
  have present : entry.isEntryEmpty = false := by
    apply eq_false_of_ne_true
    intro empty
    rw [isEntryEmpty_iff.mp empty idx] at valid
    cases valid
  simp [checkCacheNode, present, switched, offCxl]

theorem holds_of_checkCacheNode
    (near : ∀ other, other ≠ nid → entry.existOnArrayIdx other.succ = true →
      entry.existOnArrayIdx sharedCacheNode = true ∨ entry.isRO = true ∨
        entry.existOnArrayIdx nid.succ = true)
    {choice : Fin (nodes + 1) × Option Nat}
    (chosen : (checkCacheNode entry nid).chosen nid = some choice) : entry.Holds choice := by
  rw [checkCacheNode] at chosen
  split at chosen
  · cases chosen
  · rename_i present
    split at chosen
    · cases chosen
    · rename_i switched
      split at chosen
      · rename_i onCxl
        cases chosen
        exact holds_of_exists onCxl
      · rename_i offCxl
        cases chosen
        apply holds_of_exists
        -- some copy is valid, and it is not the one on CXL
        obtain ⟨idx, valid⟩ : ∃ idx, entry.existOnArrayIdx idx = true := by
          by_contra none
          apply present
          rw [isEntryEmpty_iff]
          exact fun idx => eq_false_of_ne_true fun valid => none ⟨idx, valid⟩
        obtain ⟨other, rfl⟩ := Fin.eq_succ_of_ne_zero fun zero => offCxl (zero ▸ valid)
        by_cases same : other = nid
        · exact same ▸ valid
        · rcases near other same valid with onCxl | readOnly | onNode
          · exact absurd onCxl offCxl
          · exact absurd readOnly switched
          · exact onNode

/-- **Which decisions can be used.** A page that is valid on another node has to be on CXL,
in read-only mode or also on the node of the caller. -/
theorem decisions_usable_iff (entry : GCDEntry nodes) (nid : Fin nodes) :
    DecisionsUsable entry nid ↔
      ∀ other, other ≠ nid → entry.existOnArrayIdx other.succ = true →
        entry.existOnArrayIdx sharedCacheNode = true ∨ entry.isRO = true ∨
          entry.existOnArrayIdx nid.succ = true := by
  constructor
  · intro usable other different valid
    by_contra lost
    simp only [not_or, Bool.not_eq_true] at lost
    obtain ⟨offCxl, switched, offNode⟩ := lost
    have checked : checkCacheNode entry nid = .onNode (entry.cnArray nid.succ).cnIdx :=
      checkCacheNode_onNode ⟨other.succ, valid⟩ offCxl switched
    have held := usable.write (nid.succ, (entry.cnArray nid.succ).cnIdx) (by rw [checked]; rfl)
    exact absurd held.1 (by rw [offNode]; decide)
  · intro near
    exact ⟨fun _ => holds_of_checkCacheNode near, fun _ => holds_of_selectCacheNode,
      checkCacheNode_missing, selectCacheNode_missing⟩

end

/-! ### A page moved to another node -/

def movedAway : List (HandleOp BlockId 2) :=
  [.checkAndInsert ⟨1, 0⟩ 5 sharedCacheNode none, .moveIndexToLocal ⟨1, 0⟩ 7 ⟨0, Nat.two_pos⟩]

/-- A write on node 1 then gets no error and no copy. -/
theorem decisions_not_usable_movedAway :
    ∃ storage entry, (handleSystem BlockId 2).Reachable storage ∧
      storage ⟨1, 0⟩ = some entry ∧ checkCacheNode entry ⟨1, Nat.one_lt_two⟩ = .onNode none ∧
      ¬DecisionsUsable entry ⟨1, Nat.one_lt_two⟩ := by
  obtain ⟨storage, reached, found⟩ := Foundations.System.exists_reachable_of_run
    (handleSystem BlockId 2) (s := fun _ => none) rfl movedAway
    (fun storage => (storage ⟨1, 0⟩).any fun entry =>
      checkCacheNode entry ⟨1, Nat.one_lt_two⟩ == .onNode none) (by decide +kernel)
  rw [Option.any_eq_true] at found
  obtain ⟨entry, present, checked⟩ := found
  rw [beq_iff_eq] at checked
  refine ⟨storage, entry, reached, present, checked, fun usable => ?_⟩
  have held := usable.write (Fin.succ ⟨1, Nat.one_lt_two⟩, none) (by rw [checked]; rfl)
  exact absurd held.2.2 (by decide)

end Megalon.Index
