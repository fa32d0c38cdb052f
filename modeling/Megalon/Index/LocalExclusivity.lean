import Megalon.Index.DirectoryModes

/-!
Contract: `MoveIndexToLocal` turns a page in CXL memory into one exclusive local copy.

Owns: under which operations an entry without the CXL copy has exactly one valid local copy
and each installed CXL copy is moved away at most once; and the run in which two nodes move
the same page.

Does not own: the copy of the page itself.
-/

namespace Megalon.Index

open Function Foundations

section

variable {Key : Type} {nodes : Nat}

/-- An entry without the CXL copy has exactly one valid local copy. -/
def LocalExclusive (storage : Directory Key nodes) : Prop :=
  ∀ key entry, storage key = some entry → (entry.cnArray sharedCacheNode).cnIdx = none →
    ∃! i, i ≠ sharedCacheNode ∧ entry.existOnArrayIdx i = true

/-- The operations of a migrating page, on keys that exist where they need one. -/
def HandleOp.Migrates (storage : Directory Key nodes) : HandleOp Key nodes → Prop
  | .checkAndInsert _ _ _ _ | .invalidateSwitchToRWShared _ _ | .switchToReadOnly _ => True
  | .moveIndexToLocal key _ _ => storage key ≠ none
  | _ => False

/-- The condition on an operation: an entry without the CXL copy gets no further local copy
and no record, and a page is moved from its CXL copy while no other node has a valid one. -/
def HandleOp.MigratesOnce (storage : Directory Key nodes) : HandleOp Key nodes → Prop
  | .checkAndInsert key _ nid _ => ∀ entry, storage key = some entry → nid ≠ sharedCacheNode →
      (entry.cnArray sharedCacheNode).cnIdx = none → (entry.cnArray nid).cnIdx ≠ none
  | .invalidateSwitchToRWShared key _ => ∀ entry, storage key = some entry →
      (entry.cnArray sharedCacheNode).cnIdx ≠ none
  | .moveIndexToLocal key _ nid => ∀ entry, storage key = some entry →
      entry.existOnArrayIdx nid.succ = false →
        (entry.cnArray sharedCacheNode).cnIdx ≠ none ∧
          ∀ i, i ≠ sharedCacheNode → i ≠ nid.succ → entry.existOnArrayIdx i = false
  | _ => True

variable [BlockKey Key]

/-- `MoveIndexToLocal` of the key reports success. -/
def HandleOp.movesAway (key : Key) (storage : Directory Key nodes) (op : HandleOp Key nodes) :
    Bool :=
  match op with
  | .moveIndexToLocal key' _ _ => decide (key' = key) && (respond storage op.toModify).isSome
  | _ => false

def HandleOp.installs (key : Key) (storage : Directory Key nodes) (op : HandleOp Key nodes) :
    Bool :=
  (cxlSlot (storage key)).isNone && (cxlSlot (applyOp storage op.toModify key)).isSome

/-- How often the CXL copy of a key was moved away, and how often it was installed. -/
def moves (key : Key) (trace : List (Directory Key nodes × HandleOp Key nodes)) : Nat :=
  trace.countP fun moment => moment.2.movesAway key moment.1

def installations (key : Key) (trace : List (Directory Key nodes × HandleOp Key nodes)) : Nat :=
  trace.countP fun moment => moment.2.installs key moment.1

/-- An entry without the CXL copy is exclusive to one node, and every copy that was
installed is still there or was moved away once. -/
structure MigratedOnce (trace : List (Directory Key nodes × HandleOp Key nodes))
    (storage : Directory Key nodes) : Prop where
  exclusive : LocalExclusive storage
  once : ∀ key, installations key trace = moves key trace + (cxlSlot (storage key)).isSome.toNat

theorem LocalExclusive.insert {storage : Directory Key nodes} (before : LocalExclusive storage)
    (key : Key) {new : GCDEntry nodes} (mine : (new.cnArray sharedCacheNode).cnIdx = none →
      ∃! i, i ≠ sharedCacheNode ∧ new.existOnArrayIdx i = true) :
    LocalExclusive (storage.insert key new) := by
  intro key' entry found absent
  unfold Directory.insert at found
  by_cases same : key' = key
  · subst same
    rw [update_self, Option.some.injEq] at found
    subst found
    exact mine absent
  · rw [update_of_ne same] at found
    exact before key' entry found absent

def CountsOnce (storage after : Directory Key nodes) (op : HandleOp Key nodes) : Prop :=
  ∀ key, (op.installs key storage).toNat + (cxlSlot (storage key)).isSome.toNat =
    (op.movesAway key storage).toNat + (cxlSlot (after key)).isSome.toNat

section

variable {storage after : Directory Key nodes} {op : HandleOp Key nodes}
  {response : Option (GCDResponse Key nodes)} {key : Key}

theorem count_of_kept (accepted : dispatchMut storage op.toModify = .ok (after, response))
    (stays : op.movesAway key storage = false)
    (kept : cxlSlot (storage key) ≠ none → cxlSlot (after key) ≠ none) :
    (op.installs key storage).toNat + (cxlSlot (storage key)).isSome.toNat =
      (op.movesAway key storage).toNat + (cxlSlot (after key)).isSome.toNat := by
  rw [stays, HandleOp.installs, applyOp_of_ok accepted]
  cases before : cxlSlot (storage key) with
  | none => simp
  | some c =>
    obtain ⟨c', now⟩ := Option.ne_none_iff_exists'.mp (kept (by simp [before]))
    simp [now]

theorem countsOnce_insert {new : GCDEntry nodes}
    (accepted : dispatchMut storage op.toModify = .ok (storage.insert key new, response))
    (stays : ∀ key', op.movesAway key' storage = false)
    (kept : cxlSlot (storage key) ≠ none → cxlSlot (some new) ≠ none) :
    CountsOnce storage (storage.insert key new) op := by
  intro key'
  refine count_of_kept accepted (stays key') fun present => ?_
  unfold Directory.insert
  by_cases same : key' = key
  · subst same
    rw [update_self]
    exact kept present
  · rwa [update_of_ne same]

theorem countsOnce_unchanged (accepted : dispatchMut storage op.toModify = .ok (storage, response))
    (stays : ∀ key', op.movesAway key' storage = false) : CountsOnce storage storage op :=
  fun key' => count_of_kept accepted (stays key') id

omit [BlockKey Key] in
theorem existsUnique_init (cn : Nat) {nid : Fin (nodes + 1)} (isLocal : nid ≠ sharedCacheNode) :
    ∃! i, i ≠ sharedCacheNode ∧
      (initGcdEntry (some cn) nid : GCDEntry nodes).existOnArrayIdx i = true := by
  refine ⟨nid, ⟨isLocal, by simp [GCDEntry.existOnArrayIdx, initGcdEntry]⟩, fun i valid => ?_⟩
  obtain ⟨_, exists_i⟩ := valid
  by_contra other
  have absent : (initGcdEntry (some cn) nid : GCDEntry nodes).existOnArrayIdx i = false := by
    rw [existOnArrayIdx_eq_false, initGcdEntry]
    simp only
    rw [if_neg fun same => other (Fin.ext same)]
    exact .inl rfl
  rw [absent] at exists_i
  cases exists_i

theorem migratesOnce_checkAndInsert {cn : Nat} {nid : Fin (nodes + 1)} {wmetaIdx : Option Nat}
    (before : LocalExclusive storage)
    (allowed : (HandleOp.checkAndInsert key cn nid wmetaIdx).MigratesOnce storage)
    (accepted : dispatchMut storage (HandleOp.checkAndInsert key cn nid wmetaIdx).toModify =
      .ok (after, response)) :
    LocalExclusive after ∧
      CountsOnce storage after (HandleOp.checkAndInsert key cn nid wmetaIdx) := by
  have sharedIff : nid.val = numaMem ↔ nid = sharedCacheNode := by
    rw [Fin.ext_iff]
    rfl
  have outcome := accepted
  simp only [HandleOp.toModify, dispatchMut, checkPutArrayWmeta, stored] at outcome
  split at outcome
  · rename_i missing
    cases outcome
    refine ⟨before.insert key fun absent => ?_,
      countsOnce_insert accepted (fun _ => rfl) fun present => ?_⟩
    · have isLocal : nid ≠ sharedCacheNode := by
        rintro rfl
        simp [numaMem, initGcdEntry] at absent
      rw [if_neg fun shared => isLocal (sharedIff.mp shared)]
      exact existsUnique_init cn isLocal
    · rw [missing] at present
      exact absurd rfl present
  · rename_i entry found
    have mine := before key entry found
    -- the CXL copy stays where it was or is the one that is added
    have added : ∀ wmeta, (entry.cnArray nid).cnIdx = none →
        cxlSlot (some ((entry.setCn nid ⟨some cn, false⟩).setWmeta wmeta)) ≠ none := by
      intro wmeta free
      rw [kept_setWmeta, slot_setCn]
      split
      · simp
      · rename_i isLocal
        intro absent
        exact allowed entry found isLocal absent free
    split at outcome
    · rename_i free
      split at outcome
      · cases outcome
      · split at outcome <;> cases outcome
        · exact ⟨before.insert key fun absent => absurd absent (added _ free),
            countsOnce_insert accepted (fun _ => rfl) fun _ => added _ free⟩
        · exact ⟨before.insert key fun absent => absurd absent (added entry.wmetaIdx free),
            countsOnce_insert accepted (fun _ => rfl) fun _ => added entry.wmetaIdx free⟩
    · split at outcome
      · split at outcome <;> cases outcome
        · refine ⟨before.insert key mine, countsOnce_insert accepted (fun _ => rfl) ?_⟩
          rw [found, kept_setWmeta]
          exact id
        · exact ⟨before, countsOnce_unchanged accepted fun _ => rfl⟩
      · cases outcome
        exact ⟨before, countsOnce_unchanged accepted fun _ => rfl⟩

omit [BlockKey Key] in
theorem cnArray_moved (entry : GCDEntry nodes) (cn : Nat) {i idx : Fin (nodes + 1)}
    (isLocal : i ≠ sharedCacheNode) (other : i ≠ idx) :
    (((entry.setCn idx ⟨some cn, false⟩).setWmeta none).setCn sharedCacheNode
      nullCNStatus).cnArray i = entry.cnArray i := by
  rw [cnArray_setCn_of_ne _ _ isLocal, cnArray_setWmeta, cnArray_setCn_of_ne _ _ other]

theorem migratesOnce_move {cn : Nat} {nid : Fin nodes} (before : LocalExclusive storage)
    (allowed : (HandleOp.moveIndexToLocal key cn nid).MigratesOnce storage)
    (accepted : dispatchMut storage (HandleOp.moveIndexToLocal key cn nid).toModify =
      .ok (after, response)) :
    LocalExclusive after ∧ CountsOnce storage after (HandleOp.moveIndexToLocal key cn nid) := by
  have responded := respond_of_ok accepted
  have outcome := accepted
  simp only [HandleOp.toModify, dispatchMut] at outcome
  rw [if_neg (by simp)] at outcome
  split at outcome
  · cases outcome
  · rename_i entry found
    split at outcome
    · rename_i invalid
      obtain ⟨shared, others⟩ := allowed entry found (existOnArrayIdx_eq_false.mpr invalid)
      cases outcome
      have isLocal : nid.succ ≠ (sharedCacheNode : Fin (nodes + 1)) := Fin.succ_ne_zero nid
      refine ⟨before.insert key fun _ => ⟨nid.succ, ⟨isLocal, ?_⟩, fun i valid => ?_⟩,
        fun key' => ?_⟩
      · simp [GCDEntry.existOnArrayIdx, cnArray_setCn_of_ne _ _ isLocal]
      · by_contra other
        have absent := others i valid.1 other
        rw [← existOnArrayIdx_congr (cnArray_moved entry cn valid.1 other), valid.2] at absent
        cases absent
      · by_cases same : key' = key
        · subst same
          have moved : (HandleOp.moveIndexToLocal key' cn nid).movesAway key' storage = true := by
            rw [HandleOp.movesAway, responded]
            simp
          have gone : cxlSlot ((storage.insert key' (((entry.setCn nid.succ
              ⟨some cn, false⟩).setWmeta none).setCn 0 nullCNStatus)) key') = none := by
            rw [Directory.insert, update_self, cxlSlot_some, cnArray_setCn_self]
            rfl
          obtain ⟨c, present⟩ := Option.ne_none_iff_exists'.mp shared
          rw [moved, gone, HandleOp.installs, found, cxlSlot_some, present]
          rfl
        · refine count_of_kept accepted ?_ fun present => ?_
          · rw [HandleOp.movesAway, decide_eq_false (Ne.symm same), Bool.false_and]
          · rwa [Directory.insert, update_of_ne same]
    · cases outcome
      refine ⟨before, countsOnce_unchanged accepted fun key' => ?_⟩
      rw [HandleOp.movesAway, responded]
      simp

theorem migratesOnce_step (before : LocalExclusive storage) (kind : op.Migrates storage)
    (allowed : op.MigratesOnce storage)
    (accepted : dispatchMut storage op.toModify = .ok (after, response)) :
    LocalExclusive after ∧ CountsOnce storage after op := by
  cases op with
  | checkAndInsert key cn nid wmetaIdx => exact migratesOnce_checkAndInsert before allowed accepted
  | moveIndexToLocal key cn nid => exact migratesOnce_move before allowed accepted
  | invalidateSwitchToRWShared key wmetaIdx =>
    have outcome := accepted
    simp only [HandleOp.toModify, dispatchMut, stored] at outcome
    split at outcome
    · cases outcome
      exact ⟨before, countsOnce_unchanged accepted fun _ => rfl⟩
    · rename_i entry found
      have shared : cxlSlot (some (entry.invalidateExcept sharedCacheNode)) ≠ none := by
        rw [cxlSlot_some, cnIdx_invalidateExcept]
        exact allowed entry found
      split at outcome <;> cases outcome
      · exact ⟨before.insert key fun absent => absurd absent shared,
          countsOnce_insert accepted (fun _ => rfl) fun _ => shared⟩
      · exact ⟨before.insert key fun absent => absurd absent shared,
          countsOnce_insert accepted (fun _ => rfl) fun _ => shared⟩
  | switchToReadOnly key =>
    have outcome := accepted
    simp only [HandleOp.toModify, dispatchMut] at outcome
    split at outcome
    · cases outcome
      exact ⟨before, countsOnce_unchanged accepted fun _ => rfl⟩
    · rename_i entry found
      cases outcome
      refine ⟨before.insert key (before key entry found),
        countsOnce_insert accepted (fun _ => rfl) ?_⟩
      rw [found, kept_setWmeta]
      exact id
  | _ => exact kind.elim

end

/-- **Local exclusivity.** Along every run of a migrating page whose operations meet the
condition. -/
theorem local_exclusivity {s₀ storage : Directory Key nodes}
    {trace : List (Directory Key nodes × HandleOp Key nodes)} (start : s₀ = fun _ => none)
    (run : (handleSystem Key nodes).Segment
      (fun s op => op.Migrates s ∧ op.MigratesOnce s) s₀ trace storage) :
    MigratedOnce trace storage := by
  induction run with
  | refl =>
    subst start
    refine ⟨fun key entry found => ?_, fun key => rfl⟩
    cases found
  | @snoc s s' op trace before meets taken inductionHypothesis =>
    obtain ⟨response, accepted⟩ := handleSystem_step taken
    obtain ⟨exclusive, counts⟩ :=
      migratesOnce_step inductionHypothesis.exclusive meets.1 meets.2 accepted
    refine ⟨exclusive, fun key => ?_⟩
    have earlier := inductionHypothesis.once key
    have now := counts key
    rw [installations, moves, List.countP_append, List.countP_append, List.countP_singleton,
      List.countP_singleton]
    rw [installations, moves] at earlier
    cases installed : op.installs key s <;> cases moved : op.movesAway key s <;>
      simp_all <;> omega

end

section

def createShared : HandleOp BlockId 2 := .checkAndInsert firstKey 7 sharedCacheNode none

def bothMove : List (HandleOp BlockId 2) :=
  [.moveIndexToLocal firstKey 8 ⟨0, Nat.zero_lt_two⟩,
    .moveIndexToLocal firstKey 9 ⟨1, Nat.one_lt_two⟩]

def migratesTest (storage : Directory BlockId 2) : HandleOp BlockId 2 → Bool
  | .checkAndInsert _ _ _ _ | .invalidateSwitchToRWShared _ _ | .switchToReadOnly _ => true
  | .moveIndexToLocal key _ _ => (storage key).isSome
  | _ => false

theorem migratesTest_sound :
    System.Tests (handleSystem BlockId 2) (fun _ => True) migratesTest
      (fun s op => op.Migrates s) :=
  .of_sound _ _ fun s op passes => by
    cases op with
    | moveIndexToLocal key cn nid => exact Option.isSome_iff_ne_none.mp passes
    | checkAndInsert | invalidateSwitchToRWShared | switchToReadOnly => trivial
    | _ => cases passes

/-- Both moves succeed, although one CXL copy was installed, and both copies are valid. -/
theorem exclusivity_lost_bothMove :
    ∃ trace s, (handleSystem BlockId 2).Segment (fun s op => op.Migrates s) (fun _ => none)
      trace s ∧ ¬ LocalExclusive s ∧ installations firstKey trace < moves firstKey trace := by
  obtain ⟨trace, s, run, evaluated⟩ := System.exists_segment_of_trace migratesTest_sound rfl
    createShared bothMove
    (fun trace s => decide (installations firstKey ((fun _ => none, createShared) :: trace) <
        moves firstKey ((fun _ => none, createShared) :: trace)) &&
      (s firstKey).any fun entry => (entry.cnArray 0).cnIdx.isNone && entry.existOnArrayIdx 1 &&
        entry.existOnArrayIdx 2)
    (by decide +kernel)
  rw [Bool.and_eq_true, decide_eq_true_eq, Option.any_eq_true] at evaluated
  obtain ⟨more, entry, found, copies⟩ := evaluated
  simp only [Bool.and_eq_true, Option.isNone_iff_eq_none] at copies
  refine ⟨_, s, run, fun exclusive => ?_, more⟩
  have unique : (1 : Fin 3) = 2 := (exclusive firstKey entry found copies.1.1).unique
    ⟨by decide, copies.1.2⟩ ⟨by decide, copies.2⟩
  exact absurd unique (by decide)

def sharedPage : Directory BlockId 2 := applyOp (fun _ => none) createShared.toModify

/-- One node moves it. -/
theorem local_exclusivity_oneMove :
    ∃ trace s, (handleSystem BlockId 2).Segment
        (fun s op => op.Migrates s ∧ op.MigratesOnce s) (fun _ => none) trace s ∧
      moves firstKey trace = 1 ∧ MigratedOnce trace s := by
  have created : (handleSystem BlockId 2).Segment
      (fun s op => op.Migrates s ∧ op.MigratesOnce s) (fun _ => none) _ sharedPage :=
    System.Segment.refl.snoc (e := createShared)
      ⟨trivial, fun entry found => by cases found⟩ rfl
  have meets : (HandleOp.moveIndexToLocal firstKey 8 0).Migrates sharedPage ∧
      (HandleOp.moveIndexToLocal firstKey 8 0).MigratesOnce sharedPage := by
    refine ⟨fun missing => (by cases missing), fun entry found => ?_⟩
    obtain rfl := Option.some.inj found
    decide
  have moved := created.snoc meets rfl
  exact ⟨_, _, moved, by decide, local_exclusivity rfl moved⟩

end

end Megalon.Index
