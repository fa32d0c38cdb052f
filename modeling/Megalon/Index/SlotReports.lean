import Megalon.Index.Directory

/-!
Contract: which directory operations tell the replay code the CXL slot of the entry they
change.

Owns: what a response has to report, the condition on operation and directory under which
it does, and that the condition is exact for each of the eighteen operations.

Does not own: what the replay code does with the reported slot.
-/

namespace Megalon.Index

open Function

/-! ### Reports -/

section

variable {Key : Type} {nodes : Nat}

def cxlSlot (entry : Option (GCDEntry nodes)) : Option Nat :=
  entry.bind fun e => (e.cnArray sharedCacheNode).cnIdx

/-- The slot a change of an entry is about: the one it had, or else the one it has then. -/
def touchedSlot (old new : Option (GCDEntry nodes)) : Option Nat :=
  (cxlSlot old).or (cxlSlot new)

/-- The response names the slot of every entry that changes, and what it names is the CXL
slot of some entry. -/
structure Reports (storage after : Directory Key nodes)
    (response : Option (GCDResponse Key nodes)) : Prop where
  changed : ∀ key c, after key ≠ storage key → touchedSlot (storage key) (after key) = some c →
    responseCnIdx response = some c
  isSlot : ∀ c, responseCnIdx response = some c →
    ∃ key, cxlSlot (storage key) = some c ∨ cxlSlot (after key) = some c

/-- The response names the slot of one entry that changes from `old` to `new`. -/
def ReportsChange (old new : Option (GCDEntry nodes)) (reported : Option Nat) : Prop :=
  new ≠ old → ∀ c, touchedSlot old new = some c → reported = some c

@[simp]
theorem cxlSlot_some (entry : GCDEntry nodes) :
    cxlSlot (some entry) = (entry.cnArray sharedCacheNode).cnIdx := rfl

@[simp]
theorem cxlSlot_none : cxlSlot (none : Option (GCDEntry nodes)) = none := rfl

variable {storage : Directory Key nodes} {response : Option (GCDResponse Key nodes)}

theorem reports_unchanged :
    Reports storage storage response ↔
      ∀ c, responseCnIdx response = some c → ∃ key, cxlSlot (storage key) = some c := by
  constructor
  · intro reports c named
    obtain ⟨key, found⟩ := reports.isSlot c named
    exact ⟨key, found.elim id id⟩
  · intro slots
    refine ⟨fun key c moved => absurd rfl moved, fun c named => ?_⟩
    obtain ⟨key, found⟩ := slots c named
    exact ⟨key, .inl found⟩

theorem reports_unchanged_none (silent : responseCnIdx response = none) :
    Reports storage storage response := by
  rw [reports_unchanged]
  intro c named
  rw [silent] at named
  cases named

theorem reports_iff_changes {after : Directory Key nodes} :
    Reports storage after response ↔
      (∀ key, ReportsChange (storage key) (after key) (responseCnIdx response)) ∧
        ∀ c, responseCnIdx response = some c →
          ∃ key, cxlSlot (storage key) = some c ∨ cxlSlot (after key) = some c :=
  ⟨fun reports => ⟨fun key moved c => reports.changed key c moved, reports.isSlot⟩,
    fun both => ⟨fun key c moved => both.1 key moved c, both.2⟩⟩

variable [BlockKey Key]

theorem reports_update {key : Key} {new : Option (GCDEntry nodes)} :
    Reports storage (update storage key new) response ↔
      ReportsChange (storage key) new (responseCnIdx response) ∧
        ∀ c, responseCnIdx response = some c →
          (∃ key', cxlSlot (storage key') = some c) ∨ cxlSlot new = some c := by
  rw [reports_iff_changes, forall_update_iff storage fun key' new =>
    ReportsChange (storage key') new (responseCnIdx response)]
  refine and_congr (and_iff_left fun key' _ moved => absurd rfl moved)
    (forall₂_congr fun c _ => ⟨?_, ?_⟩)
  · rintro ⟨key', before | after⟩
    · exact .inl ⟨key', before⟩
    · by_cases same : key' = key
      · rw [same, update_self] at after
        exact .inr after
      · rw [update_of_ne same] at after
        exact .inl ⟨key', after⟩
  · rintro (⟨key', before⟩ | after)
    · exact ⟨key', .inl before⟩
    · exact ⟨key, .inr (by rwa [update_self])⟩

theorem reportsChange_update_update {first second : Key} (different : first ≠ second)
    {new new' : Option (GCDEntry nodes)} {reported : Option Nat} :
    (∀ key, ReportsChange (storage key) (update (update storage first new) second new' key)
      reported) ↔
    ReportsChange (storage first) new reported ∧ ReportsChange (storage second) new' reported := by
  refine ⟨fun all => ⟨?_, ?_⟩, fun both => ?_⟩
  · simpa [different] using all first
  · simpa using all second
  · refine (forall_update_iff _ fun key new => ReportsChange (storage key) new reported).mpr
      ⟨both.2, fun key _ => ?_⟩
    exact (forall_update_iff _ fun key new => ReportsChange (storage key) new reported).mpr
      ⟨both.1, fun key _ moved => absurd rfl moved⟩ key

end

/-! ### A change of one entry -/

section

variable {Key : Type} {nodes : Nat} {old new : Option (GCDEntry nodes)} {reported : Option Nat}

theorem reportsChange_new :
    ReportsChange old new (cxlSlot new) ↔ cxlSlot old = none ∨ cxlSlot old = cxlSlot new := by
  constructor
  · intro reports
    cases before : cxlSlot old with
    | none => exact .inl rfl
    | some c =>
      right
      by_contra lost
      have moved : new ≠ old := by
        rintro rfl
        exact lost before.symm
      exact lost (reports moved c (by simp [touchedSlot, before])).symm
  · rintro (absent | kept) _ c touched
    · simpa [touchedSlot, absent] using touched
    · rw [← kept]
      rw [touchedSlot, ← kept, Option.or_self] at touched
      exact touched

/-- A response that carries the slot the entry had: it is the one that is touched unless
the entry gets its first slot. -/
theorem reportsChange_old (fresh : cxlSlot old = none → cxlSlot new = none) :
    ReportsChange old new (cxlSlot old) := by
  intro _ c touched
  cases before : cxlSlot old with
  | none => simp [touchedSlot, before, fresh before] at touched
  | some c' => simpa [touchedSlot, before] using touched

theorem reportsChange_none :
    ReportsChange old new none ↔ new = old ∨ (cxlSlot old = none ∧ cxlSlot new = none) := by
  constructor
  · intro reports
    by_cases same : new = old
    · exact .inl same
    · have untouched : touchedSlot old new = none := by
        rw [Option.eq_none_iff_forall_ne_some]
        intro c touched
        cases reports same c touched
      rw [touchedSlot, Option.or_eq_none_iff] at untouched
      exact .inr untouched
  · rintro (same | ⟨before, after⟩) moved c touched
    · exact absurd same moved
    · simp [touchedSlot, before, after] at touched

end

/-! ### The slots of changed entries -/

section

variable {nodes : Nat} (entry : GCDEntry nodes) {idx : Fin (nodes + 1)}

/-- What is left of an entry without the copy at `idx`. -/
def GCDEntry.without (idx : Fin (nodes + 1)) : Option (GCDEntry nodes) :=
  if (entry.setCn idx nullCNStatus).allAbsent then none else some (entry.setCn idx nullCNStatus)

theorem cnArray_setCn_of_ne (status : CNStatus) {i : Fin (nodes + 1)} (other : i ≠ idx) :
    (entry.setCn idx status).cnArray i = entry.cnArray i :=
  update_of_ne other _ _

@[simp]
theorem cnArray_setCn_self (status : CNStatus) : (entry.setCn idx status).cnArray idx = status :=
  update_self _ _ _

@[simp]
theorem cnArray_setWmeta (wmeta : Option Nat) : (entry.setWmeta wmeta).cnArray = entry.cnArray :=
  rfl

theorem setCn_self (status : CNStatus) (same : entry.cnArray idx = status) :
    entry.setCn idx status = entry := by
  rw [GCDEntry.setCn, ← same, update_eq_self]

theorem kept_setWmeta (wmeta : Option Nat) :
    cxlSlot (some (entry.setWmeta wmeta)) = cxlSlot (some entry) := rfl

theorem kept_invalidate (idx : Fin (nodes + 1)) :
    cxlSlot (some (entry.setCn idx { entry.cnArray idx with invalidate := true })) =
      cxlSlot (some entry) := by
  by_cases same : sharedCacheNode = idx
  · subst same
    rw [cxlSlot_some, cnArray_setCn_self, cxlSlot_some]
  · rw [cxlSlot_some, cnArray_setCn_of_ne entry _ same, cxlSlot_some]

@[simp]
theorem cnIdx_invalidateExcept (i : Fin (nodes + 1)) :
    ((entry.invalidateExcept idx).cnArray i).cnIdx = (entry.cnArray i).cnIdx := by
  simp only [GCDEntry.invalidateExcept]
  split <;> rfl

theorem invalidateExcept_eq_self :
    entry.invalidateExcept idx = entry ↔
      ∀ i, i ≠ idx → (entry.cnArray i).cnIdx ≠ none → (entry.cnArray i).invalidate = true := by
  constructor
  · intro same i other present
    have at_i := congrFun (congrArg GCDEntry.cnArray same) i
    simp only [GCDEntry.invalidateExcept] at at_i
    rw [if_pos ⟨present, other.symm⟩] at at_i
    rw [← at_i]
  · intro invalidated
    refine GCDEntry.ext rfl (funext fun i => ?_)
    simp only [GCDEntry.invalidateExcept]
    split
    · rename_i both
      have marked := invalidated i both.2.symm both.1
      rw [← marked]
    · rfl

theorem cxlSlot_without_of_ne (other : sharedCacheNode ≠ idx) :
    cxlSlot (entry.without idx) = cxlSlot (some entry) := by
  unfold GCDEntry.without
  split
  · rename_i gone
    have absent := of_decide_eq_true gone sharedCacheNode
    rw [cnArray_setCn_of_ne entry _ other] at absent
    rw [cxlSlot_some, absent, cxlSlot_none]
  · rw [cxlSlot_some, cnArray_setCn_of_ne entry _ other, cxlSlot_some]

theorem cxlSlot_without_self : cxlSlot (entry.without sharedCacheNode) = none := by
  unfold GCDEntry.without
  split
  · rfl
  · rw [cxlSlot_some, cnArray_setCn_self]
    rfl

theorem without_of_null (null : entry.cnArray idx = nullCNStatus) :
    entry.without idx = some entry ∨ cxlSlot (some entry) = none := by
  unfold GCDEntry.without
  rw [setCn_self entry _ null]
  split
  · rename_i gone
    exact .inr (of_decide_eq_true gone sharedCacheNode)
  · exact .inl rfl

theorem null_of_without (same : entry.without idx = some entry) :
    entry.cnArray idx = nullCNStatus := by
  unfold GCDEntry.without at same
  split at same
  · cases same
  · rw [← Option.some.inj same, cnArray_setCn_self]

/-- The copy at `idx` can be dropped by an operation that reports `reported`: it is not
there, or there is no slot to report, or it is reported. -/
def GCDEntry.DropReported (idx : Fin (nodes + 1)) (reported : Option Nat) : Prop :=
  entry.cnArray idx = nullCNStatus ∨ cxlSlot (some entry) = none ∨
    cxlSlot (some entry) = reported

theorem touchedSlot_without :
    touchedSlot (some entry) (entry.without idx) = cxlSlot (some entry) := by
  by_cases same : sharedCacheNode = idx
  · subst same
    rw [touchedSlot, cxlSlot_without_self, Option.or_none]
  · rw [touchedSlot, cxlSlot_without_of_ne entry same, Option.or_self]

theorem reportsChange_without (reported : Option Nat) :
    ReportsChange (some entry) (entry.without idx) reported ↔ entry.DropReported idx reported := by
  unfold ReportsChange GCDEntry.DropReported
  rw [touchedSlot_without]
  constructor
  · intro reports
    by_cases same : entry.without idx = some entry
    · exact .inl (null_of_without entry same)
    · cases slot : cxlSlot (some entry) with
      | none => exact .inr (.inl rfl)
      | some c => exact .inr (.inr (reports same c slot).symm)
  · rintro (null | absent | named) moved c slot
    · rcases without_of_null entry null with same | absent
      · exact absurd same moved
      · rw [absent] at slot
        cases slot
    · rw [absent] at slot
      cases slot
    · rw [← named, slot]

/-! ### `CheckPutArray` -/

/-- The entry after `CheckPutArray`. -/
def putEntry (cn : Option Nat) (idx : Fin (nodes + 1)) : Option (GCDEntry nodes) → GCDEntry nodes
  | none => initGcdEntry cn idx
  | some entry =>
    if (entry.cnArray idx).cnIdx = none then entry.setCn idx ⟨cn, false⟩ else entry

def putReport (cn : Option Nat) (idx : Fin (nodes + 1)) : Option (GCDEntry nodes) → Option Nat
  | none => if idx = sharedCacheNode then cn else none
  | some entry =>
    if (entry.cnArray idx).cnIdx = none then
      if idx = sharedCacheNode then cn else (entry.cnArray sharedCacheNode).cnIdx
    else none

theorem slot_initGcdEntry (cn : Option Nat) (idx : Fin (nodes + 1)) :
    cxlSlot (some (initGcdEntry cn idx : GCDEntry nodes)) =
      if idx = sharedCacheNode then cn else none := by
  simp only [cxlSlot_some, initGcdEntry]
  by_cases same : idx = sharedCacheNode
  · subst same
    rw [if_pos rfl, if_pos rfl]
  · rw [if_neg same, if_neg]
    · rfl
    · intro equal
      exact same (Fin.ext equal.symm)

theorem slot_setCn (entry : GCDEntry nodes) (cn : Option Nat) (idx : Fin (nodes + 1)) :
    cxlSlot (some (entry.setCn idx ⟨cn, false⟩)) =
      if idx = sharedCacheNode then cn else cxlSlot (some entry) := by
  by_cases same : idx = sharedCacheNode
  · subst same
    rw [if_pos rfl, cxlSlot_some, cnArray_setCn_self]
  · rw [if_neg same, cxlSlot_some, cnArray_setCn_of_ne entry _ (Ne.symm same), cxlSlot_some]

theorem cxlSlot_putEntry (cn : Option Nat) (idx : Fin (nodes + 1))
    (old : Option (GCDEntry nodes)) {c : Nat} (named : putReport cn idx old = some c) :
    cxlSlot (some (putEntry cn idx old)) = some c := by
  cases old with
  | none =>
    rw [putEntry, slot_initGcdEntry]
    exact named
  | some entry =>
    simp only [putReport] at named
    split at named
    · rename_i absent
      rw [putEntry, if_pos absent, slot_setCn]
      exact named
    · cases named

theorem reportsChange_putEntry (cn : Option Nat) (idx : Fin (nodes + 1))
    (old : Option (GCDEntry nodes)) :
    ReportsChange old (some (putEntry cn idx old)) (putReport cn idx old) := by
  cases old with
  | none =>
    have reported : putReport cn idx none = cxlSlot (some (putEntry cn idx none)) := by
      rw [putEntry, slot_initGcdEntry]
      rfl
    rw [reported]
    exact reportsChange_new.mpr (.inl rfl)
  | some entry =>
    by_cases absent : (entry.cnArray idx).cnIdx = none
    · have reported : putReport cn idx (some entry) =
          cxlSlot (some (putEntry cn idx (some entry))) := by
        rw [putEntry, if_pos absent, slot_setCn]
        exact if_pos absent
      rw [reported, reportsChange_new, putEntry, if_pos absent, slot_setCn]
      by_cases same : idx = sharedCacheNode
      · subst same
        exact .inl absent
      · exact .inr (if_neg same).symm
    · rw [putEntry, if_neg absent]
      intro moved
      exact absurd rfl moved

end

section

variable {Key : Type} {nodes : Nat} [BlockKey Key]
  {storage : Directory Key nodes} {key : Key} {response : Option (GCDResponse Key nodes)}

theorem checkPutArray_spec {after : Directory Key nodes} {cn : Option Nat} {idx : Fin (nodes + 1)}
    (accepted : checkPutArray storage key cn idx = .ok (after, response)) :
    after = update storage key (some (putEntry cn idx (storage key))) ∧
      responseCnIdx response = putReport cn idx (storage key) := by
  unfold checkPutArray stored at accepted
  cases found : storage key with
  | none =>
    rw [found] at accepted
    cases accepted
    exact ⟨rfl, slot_initGcdEntry cn idx⟩
  | some entry =>
    rw [found] at accepted
    simp only at accepted
    split at accepted
    · rename_i absent
      cases accepted
      refine ⟨by rw [putEntry, if_pos absent]; rfl, ?_⟩
      rw [putReport, if_pos absent]
      exact slot_setCn entry cn idx
    · rename_i present
      cases accepted
      refine ⟨?_, by rw [putReport, if_neg present]; rfl⟩
      rw [putEntry, if_neg present, ← found, update_eq_self]

theorem dropCopy_eq (storage : Directory Key nodes) (key : Key) (entry : GCDEntry nodes)
    (idx : Fin (nodes + 1)) :
    dropCopy storage key entry idx = update storage key (entry.without idx) := by
  unfold dropCopy GCDEntry.without
  split <;> rfl

theorem reports_stored {value : GCDEntry nodes} :
    Reports storage (storage.insert key value) (some ⟨key, value⟩) ↔
      cxlSlot (storage key) = none ∨ cxlSlot (storage key) = cxlSlot (some value) := by
  rw [Directory.insert, reports_update]
  change ReportsChange (storage key) (some value) (cxlSlot (some value)) ∧ _ ↔ _
  rw [reportsChange_new]
  exact and_iff_left fun c named => .inr named

theorem reports_silent {new : Option (GCDEntry nodes)} (silent : responseCnIdx response = none) :
    Reports storage (update storage key new) response ↔
      new = storage key ∨ (cxlSlot (storage key) = none ∧ cxlSlot new = none) := by
  rw [reports_update, silent, reportsChange_none]
  exact and_iff_left (by simp)

theorem reports_old {new : Option (GCDEntry nodes)}
    (named : responseCnIdx response = cxlSlot (storage key))
    (fresh : cxlSlot (storage key) = none → cxlSlot new = none) :
    Reports storage (update storage key new) response := by
  rw [reports_update, named]
  exact ⟨reportsChange_old fresh, fun c slot => .inl ⟨key, slot⟩⟩

/-- An operation that drops the copy at `idx` and reports its index as a slot. -/
def DropNamed (storage : Directory Key nodes) (key : Key) (idx : Fin (nodes + 1)) : Prop :=
  ∀ entry, storage key = some entry → idx ≠ sharedCacheNode →
    entry.DropReported idx (entry.cnArray idx).cnIdx ∧
      ∀ c, (entry.cnArray idx).cnIdx = some c → ∃ key', cxlSlot (storage key') = some c

theorem reports_drop {entry : GCDEntry nodes} {idx : Fin (nodes + 1)}
    (found : storage key = some entry) : Reports storage (dropCopy storage key entry idx)
        (some ⟨key, initGcdEntry (entry.cnArray idx).cnIdx numaMem⟩) ↔
      DropNamed storage key idx := by
  have named : responseCnIdx (some ⟨key, initGcdEntry (entry.cnArray idx).cnIdx numaMem⟩ :
      Option (GCDResponse Key nodes)) = (entry.cnArray idx).cnIdx :=
    slot_initGcdEntry (entry.cnArray idx).cnIdx sharedCacheNode
  rw [dropCopy_eq]
  by_cases shared : idx = sharedCacheNode
  · subst shared
    refine iff_of_true (reports_old ?_ fun _ => cxlSlot_without_self entry)
      fun _ _ other => absurd rfl other
    rw [named, found, cxlSlot_some]
  · rw [reports_update, named, found, reportsChange_without]
    constructor
    · rintro ⟨reported, slots⟩ entry' present _
      rw [found, Option.some.injEq] at present
      subst present
      refine ⟨reported, fun c value => (slots c value).elim id fun left => ⟨key, ?_⟩⟩
      rwa [found, ← cxlSlot_without_of_ne entry (Ne.symm shared)]
    · intro dropNamed
      obtain ⟨reported, slots⟩ := dropNamed entry found shared
      exact ⟨reported, fun c value => .inl (slots c value)⟩

/-- The condition under which an operation reports the slot of each entry it changes. -/
def Modify.ReportsSlot (storage : Directory Key nodes) : Modify Key nodes → Prop
  | .put key value =>
    cxlSlot (storage key) = none ∨ cxlSlot (storage key) = cxlSlot (some value)
  | .checkPut _ _ | .checkPutArray _ _ _ | .checkPutArrayWmeta _ _ _ _
  | .checkMoveLocalArray _ _ _ | .dummyLog _ => True
  | .delete key => cxlSlot (storage key) = none
  | .swap toRemove toInsert value =>
    (toRemove ≠ toInsert → cxlSlot (storage toRemove) = none) ∧
      (storage toInsert = some value ∨
        (cxlSlot (storage toInsert) = none ∧ cxlSlot (some value) = none))
  | .putArray key cn idx | .putArrayWmeta key cn idx _ =>
    idx = sharedCacheNode → cxlSlot (storage key) = none ∨ cxlSlot (storage key) = cn
  | .checkPutSwapArray key cn new old =>
    ∀ entry, storage key = some entry →
      entry.DropReported old (putReport cn new (some (entry.setCn old nullCNStatus)))
  | .invalidateArray key idx =>
    ∀ entry, storage key = some entry → cxlSlot (some entry) = none ∨
      ((entry.cnArray idx).cnIdx ≠ none → (entry.cnArray idx).invalidate = true)
  | .invalidateExceptArray key idx =>
    ∀ entry, storage key = some entry → cxlSlot (some entry) = none ∨
      ∀ i, i ≠ idx → (entry.cnArray i).cnIdx ≠ none → (entry.cnArray i).invalidate = true
  | .invalidateExceptArrayUpdateWmeta key idx _ =>
    ∀ entry, storage key = some entry → entry.wmetaIdx = none ∨ cxlSlot (some entry) = none ∨
      ∀ i, i ≠ idx → (entry.cnArray i).cnIdx ≠ none → (entry.cnArray i).invalidate = true
  | .deleteArray key idx | .deleteIfArray key idx => DropNamed storage key idx
  | .checkSwapArray oldKey newKey cn oldIdx newIdx =>
    ∀ entry, storage oldKey = some entry → entry.DropReported oldIdx (putReport cn newIdx
      (if newKey = oldKey then entry.without oldIdx else storage newKey))
  | .checkSwitchWmetaArray key wmetaIdx =>
    wmetaIdx = none → ∀ entry, storage key = some entry →
      entry.wmetaIdx = none ∨ cxlSlot (some entry) = none

/-- The condition is exact for the operation. -/
def Modify.ReportsIff (storage : Directory Key nodes) (op : Modify Key nodes) : Prop :=
  ∀ after response, dispatchMut storage op = .ok (after, response) →
    (Reports storage after response ↔ op.ReportsSlot storage)

section

variable {key : Key} {idx : Fin (nodes + 1)} {cn : Option Nat} {entry : GCDEntry nodes}

theorem reports_silent_kept {new : GCDEntry nodes} (found : storage key = some entry)
    (kept : cxlSlot (some new) = cxlSlot (some entry))
    (silent : responseCnIdx response = none) :
    Reports storage (storage.insert key new) response ↔
      cxlSlot (some entry) = none ∨ new = entry := by
  rw [Directory.insert, reports_silent silent, found, kept, and_self, Option.some.injEq, or_comm]

omit [BlockKey Key] in
theorem reports_missing {P : GCDEntry nodes → Prop} (missing : storage key = none) :
    Reports storage storage none ↔ ∀ entry, storage key = some entry → P entry := by
  refine iff_of_true (reports_unchanged_none rfl) fun entry present => ?_
  rw [missing] at present
  cases present

omit [BlockKey Key] in
theorem forall_found {P : GCDEntry nodes → Prop} (found : storage key = some entry) :
    (∀ e, storage key = some e → P e) ↔ P entry := by
  rw [found]
  simp

theorem reports_putArray {value : GCDEntry nodes}
    (slot : cxlSlot (some value) = if idx = sharedCacheNode then cn else cxlSlot (storage key)) :
    Reports storage (storage.insert key value) (some ⟨key, value⟩) ↔
      (idx = sharedCacheNode → cxlSlot (storage key) = none ∨ cxlSlot (storage key) = cn) := by
  rw [reports_stored, slot]
  by_cases shared : idx = sharedCacheNode
  · rw [if_pos shared]
    exact ⟨fun kept _ => kept, fun kept => kept shared⟩
  · rw [if_neg shared]
    exact iff_of_true (.inr rfl) fun same => absurd same shared

theorem reportsIff_checkPut {value : GCDEntry nodes} :
    (Modify.checkPut key value).ReportsIff storage := by
  intro after response accepted
  simp only [dispatchMut] at accepted
  split at accepted <;> cases accepted
  · rename_i missing
    exact iff_of_true (reports_stored.mpr (.inl (by rw [missing, cxlSlot_none]))) trivial
  · exact iff_of_true (reports_unchanged_none rfl) trivial

theorem reportsIff_delete : (Modify.delete key).ReportsIff storage := by
  intro after response accepted
  simp only [dispatchMut] at accepted
  split at accepted <;> cases accepted
  · rename_i missing
    exact iff_of_true (reports_unchanged_none rfl) (by rw [Modify.ReportsSlot, missing]; rfl)
  · rename_i entry found
    rw [Directory.remove, reports_silent rfl, Modify.ReportsSlot, found]
    simp

theorem reportsIff_swap {toRemove toInsert : Key} {value : GCDEntry nodes} :
    (Modify.swap toRemove toInsert value).ReportsIff storage := by
  rintro _ _ ⟨⟩
  rw [Directory.insert, Directory.remove, Modify.ReportsSlot]
  by_cases same : toRemove = toInsert
  · subst same
    rw [update_idem, reports_silent rfl, eq_comm]
    exact ⟨fun rest => ⟨fun other => absurd rfl other, rest⟩, And.right⟩
  · have removed : ReportsChange (storage toRemove) none none ↔
        cxlSlot (storage toRemove) = none := by
      rw [reportsChange_none]
      constructor
      · rintro (missing | ⟨absent, _⟩)
        · rw [← missing, cxlSlot_none]
        · exact absent
      · exact fun absent => .inr ⟨absent, rfl⟩
    rw [reports_iff_changes, reportsChange_update_update same]
    change ((ReportsChange _ none none ∧ ReportsChange _ _ none) ∧ _) ↔ _
    rw [removed, reportsChange_none, forall_prop_of_true same, eq_comm (a := some value)]
    exact and_iff_left (by simp [responseCnIdx])

theorem reportsIff_putArray : (Modify.putArray key cn idx).ReportsIff storage := by
  intro after response accepted
  simp only [dispatchMut] at accepted
  split at accepted <;> cases accepted
  · rename_i missing
    exact reports_putArray (by rw [slot_initGcdEntry, missing, cxlSlot_none])
  · rename_i entry found
    exact reports_putArray (by rw [slot_setCn, found])

variable {wmetaIdx : Option Nat}

theorem reportsIff_putArrayWmeta :
    (Modify.putArrayWmeta key cn idx wmetaIdx).ReportsIff storage := by
  intro after response accepted
  simp only [dispatchMut] at accepted
  split at accepted <;> cases accepted
  · rename_i missing
    refine reports_putArray ?_
    rw [missing, cxlSlot_none, ← slot_initGcdEntry]
    rfl
  · rename_i entry found
    refine reports_putArray ?_
    rw [found, ← slot_setCn]
    rfl

theorem reportsIff_checkPutArray : (Modify.checkPutArray key cn idx).ReportsIff storage := by
  intro after response accepted
  obtain ⟨rfl, named⟩ := checkPutArray_spec accepted
  rw [reports_update, named]
  exact iff_of_true ⟨reportsChange_putEntry cn idx (storage key),
    fun c reported => .inr (cxlSlot_putEntry cn idx (storage key) reported)⟩ trivial

theorem reportsIff_checkPutArrayWmeta :
    (Modify.checkPutArrayWmeta key cn idx wmetaIdx).ReportsIff storage := by
  intro after response accepted
  refine iff_of_true ?_ trivial
  simp only [dispatchMut, checkPutArrayWmeta, stored] at accepted
  split at accepted
  · rename_i absent
    cases accepted
    exact reports_stored.mpr (.inl (by rw [absent, cxlSlot_none]))
  · rename_i entry found
    -- a copy that is added is the first one at its node, so a slot the entry had stays
    have added : ∀ wmeta, (entry.cnArray idx).cnIdx = none →
        cxlSlot (storage key) = none ∨ cxlSlot (storage key) =
          cxlSlot (some ((entry.setCn idx ⟨cn, false⟩).setWmeta wmeta)) := by
      intro wmeta free
      rw [found]
      by_cases shared : idx = sharedCacheNode
      · subst shared
        exact .inl free
      · right
        rw [cxlSlot_some, cxlSlot_some, cnArray_setWmeta,
          cnArray_setCn_of_ne entry _ (Ne.symm shared)]
    split at accepted
    · rename_i free
      split at accepted
      · cases accepted
      · split at accepted <;> cases accepted
        · exact reports_stored.mpr (added _ free)
        · exact reports_stored.mpr (added entry.wmetaIdx free)
    · split at accepted
      · split at accepted <;> cases accepted
        · exact reports_old (by rw [found]; rfl) fun none => by rw [found] at none; exact none
        · exact reports_unchanged_none rfl
      · cases accepted
        exact reports_unchanged_none rfl

omit [BlockKey Key] in
theorem reportsChange_dropThenPut {new : Fin (nodes + 1)} (old : Fin (nodes + 1))
    {middle : Option (GCDEntry nodes)}
    (slot : cxlSlot middle = none ∨ cxlSlot middle = cxlSlot (some entry))
    (same : middle = some entry → entry.cnArray old = nullCNStatus)
    (null : entry.cnArray old = nullCNStatus → middle = some entry ∨ cxlSlot (some entry) = none) :
    ReportsChange (some entry) (some (putEntry cn new middle)) (putReport cn new middle) ↔
      entry.DropReported old (putReport cn new middle) := by
  have put := reportsChange_putEntry cn new middle
  by_cases refused : some (putEntry cn new middle) = middle ∧ putReport cn new middle = none
  · rw [refused.1, refused.2, reportsChange_none]
    constructor
    · rintro (kept | ⟨absent, _⟩)
      · exact .inl (same kept)
      · exact .inr (.inl absent)
    · have silent : cxlSlot (some entry) = none →
          cxlSlot (some entry) = none ∧ cxlSlot middle = none := by
        intro absent
        exact ⟨absent, slot.elim id fun equal => equal.trans absent⟩
      rintro (gone | absent | absent)
      · exact (null gone).imp id silent
      · exact .inr (silent absent)
      · exact .inr (silent absent)
  · have reported : putReport cn new middle = cxlSlot (some (putEntry cn new middle)) := by
      cases middle with
      | none => exact (slot_initGcdEntry cn new).symm
      | some kept =>
        by_cases free : (kept.cnArray new).cnIdx = none
        · rw [putReport, putEntry, if_pos free, if_pos free, slot_setCn]
          rfl
        · refine absurd ⟨?_, ?_⟩ refused
          · rw [putEntry, if_neg free]
          · rw [putReport, if_neg free]
    rw [reported, reportsChange_new]
    refine ⟨.inr, ?_⟩
    rintro (gone | rest)
    · rcases null gone with rfl | absent
      · rw [reported] at put
        exact reportsChange_new.mp put
      · exact .inl absent
    · exact rest

theorem reportsIff_checkPutSwapArray {new old : Fin (nodes + 1)} :
    (Modify.checkPutSwapArray key cn new old).ReportsIff storage := by
  intro after response accepted
  simp only [dispatchMut, stored] at accepted
  split at accepted
  · rename_i missing
    cases accepted
    refine iff_of_true (reports_stored.mpr (.inl (by rw [missing, cxlSlot_none]))) ?_
    rw [Modify.ReportsSlot, missing]
    simp
  rename_i entry found
  have slot : cxlSlot (some (entry.setCn old nullCNStatus)) =
      if old = sharedCacheNode then none else cxlSlot (some entry) := slot_setCn entry none old
  obtain ⟨rfl, named⟩ : after = update storage key
        (some (putEntry cn new (some (entry.setCn old nullCNStatus)))) ∧
      responseCnIdx response = putReport cn new (some (entry.setCn old nullCNStatus)) := by
    split at accepted
    · rename_i free
      cases accepted
      rw [putEntry, putReport, if_pos free, if_pos free]
      exact ⟨rfl, slot_setCn _ cn new⟩
    · rename_i present
      cases accepted
      rw [putEntry, putReport, if_neg present, if_neg present]
      exact ⟨rfl, rfl⟩
  rw [Modify.ReportsSlot, forall_found found, reports_update, named, found,
    reportsChange_dropThenPut old]
  · exact and_iff_left fun c reported => .inr (cxlSlot_putEntry cn new _ reported)
  · rw [slot]
    split
    · exact .inl rfl
    · exact .inr rfl
  · intro kept
    rw [← Option.some.inj kept, cnArray_setCn_self]
  · intro gone
    rw [setCn_self entry _ gone]
    exact .inl rfl

theorem reportsIff_invalidateArray : (Modify.invalidateArray key idx).ReportsIff storage := by
  intro after response accepted
  simp only [dispatchMut] at accepted
  split at accepted
  · rename_i missing
    cases accepted
    exact reports_missing missing
  · rename_i entry found
    rw [Modify.ReportsSlot, forall_found found]
    split at accepted <;> cases accepted
    · rename_i present
      rw [reports_silent_kept found (kept_invalidate entry idx) rfl]
      refine or_congr_right ⟨fun same _ => ?_, fun marked => ?_⟩
      · rw [← same, cnArray_setCn_self]
      · refine setCn_self entry _ ?_
        rw [← marked present]
    · rename_i gone
      exact iff_of_true (reports_unchanged_none rfl) (.inr fun present => absurd present gone)

theorem reportsIff_invalidateExceptArray :
    (Modify.invalidateExceptArray key idx).ReportsIff storage := by
  intro after response accepted
  simp only [dispatchMut] at accepted
  split at accepted <;> cases accepted
  · rename_i missing
    exact reports_missing missing
  · rename_i entry found
    rw [Modify.ReportsSlot, forall_found found, reports_silent_kept found _ rfl,
      invalidateExcept_eq_self]
    exact cnIdx_invalidateExcept entry sharedCacheNode

theorem reportsIff_invalidateExceptArrayUpdateWmeta :
    (Modify.invalidateExceptArrayUpdateWmeta key idx wmetaIdx).ReportsIff storage := by
  intro after response accepted
  simp only [dispatchMut] at accepted
  split at accepted
  · rename_i missing
    cases accepted
    exact reports_missing missing
  · rename_i entry found
    rw [Modify.ReportsSlot, forall_found found]
    split at accepted <;> cases accepted
    · rename_i readOnly
      refine iff_of_true (reports_stored.mpr (.inr ?_)) (.inl readOnly)
      rw [found]
      exact (cnIdx_invalidateExcept entry sharedCacheNode).symm
    · rename_i readWrite
      rw [reports_silent_kept found _ rfl, invalidateExcept_eq_self]
      · exact ⟨.inr, Or.rec (fun none => absurd none readWrite) id⟩
      · exact cnIdx_invalidateExcept entry sharedCacheNode

theorem reportsIff_checkMoveLocalArray :
    (Modify.checkMoveLocalArray key cn idx).ReportsIff storage := by
  intro after response accepted
  simp only [dispatchMut] at accepted
  split at accepted
  · cases accepted
  · split at accepted
    · cases accepted
    · rename_i entry found
      split at accepted <;> cases accepted
      · refine iff_of_true (reports_old ?_ fun _ => ?_) trivial
        · rw [found]
          exact slot_initGcdEntry _ sharedCacheNode
        · rw [cxlSlot_some, cnArray_setCn_self]
          rfl
      · exact iff_of_true (reports_unchanged_none rfl) trivial

theorem reportsIff_deleteArray : (Modify.deleteArray key idx).ReportsIff storage := by
  intro after response accepted
  simp only [dispatchMut] at accepted
  split at accepted <;> cases accepted
  · rename_i missing
    exact reports_missing missing
  · rename_i entry found
    exact reports_drop found

theorem reportsIff_deleteIfArray : (Modify.deleteIfArray key idx).ReportsIff storage := by
  intro after response accepted
  simp only [dispatchMut, deleteIfArray] at accepted
  split at accepted
  · rename_i absent
    cases accepted
    exact reports_missing absent
  · rename_i entry found
    split at accepted
    · rename_i readWrite
      cases accepted
      refine iff_of_true (reports_unchanged_none ?_) fun _ _ other => ?_
      · simp [responseCnIdx, initGcdEntry, numaMem, nullCNStatus]
      · exact absurd (Fin.ext readWrite.1) other
    · split at accepted
      · rename_i null
        cases accepted
        refine iff_of_true (reports_unchanged_none rfl) fun entry' present _ => ?_
        rw [found, Option.some.injEq] at present
        subst present
        rw [null]
        exact ⟨.inl null, fun c value => by cases value⟩
      · split at accepted <;> cases accepted
        exact reports_drop found

theorem reportsIff_checkSwapArray {oldKey newKey : Key} {oldIdx newIdx : Fin (nodes + 1)} :
    (Modify.checkSwapArray oldKey newKey cn oldIdx newIdx).ReportsIff storage := by
  intro after response accepted
  simp only [dispatchMut] at accepted
  split at accepted
  · rename_i missing
    cases accepted
    exact reports_missing missing
  rename_i entry found
  rw [Modify.ReportsSlot, forall_found found]
  obtain ⟨rfl, named⟩ := checkPutArray_spec accepted
  rw [dropCopy_eq] at named ⊢
  by_cases same : newKey = oldKey
  · subst same
    rw [update_self] at named ⊢
    rw [update_idem, reports_update, named, found, if_pos rfl,
      reportsChange_dropThenPut oldIdx]
    · exact and_iff_left fun c reported => .inr (cxlSlot_putEntry cn newIdx _ reported)
    · by_cases shared : oldIdx = sharedCacheNode
      · subst shared
        exact .inl (cxlSlot_without_self entry)
      · exact .inr (cxlSlot_without_of_ne entry (Ne.symm shared))
    · exact null_of_without entry
    · exact without_of_null entry
  · rw [update_of_ne same] at named ⊢
    rw [if_neg same, ← reportsChange_without, reports_iff_changes,
      reportsChange_update_update (Ne.symm same), named, found]
    refine (and_iff_left fun c reported => ⟨newKey, .inr ?_⟩).trans
      (and_iff_left (reportsChange_putEntry cn newIdx (storage newKey)))
    rw [update_self]
    exact cxlSlot_putEntry cn newIdx _ reported

theorem reportsIff_checkSwitchWmetaArray :
    (Modify.checkSwitchWmetaArray key wmetaIdx).ReportsIff storage := by
  intro after response accepted
  simp only [dispatchMut] at accepted
  split at accepted
  · rename_i missing
    cases accepted
    exact iff_of_true (reports_unchanged_none rfl) fun _ entry present => by
      simp [missing] at present
  · rename_i entry found
    split at accepted
    · rename_i toReadOnly
      cases accepted
      rw [Modify.ReportsSlot, forall_found found, forall_prop_of_true toReadOnly,
        reports_silent_kept found (kept_setWmeta entry none) rfl, or_comm]
      refine or_congr_left ⟨fun same => ?_, fun readOnly => ?_⟩
      · rw [← same]
        rfl
      · rw [GCDEntry.setWmeta, ← readOnly]
    · rename_i toReadWrite
      refine iff_of_true ?_ fun toReadOnly => absurd toReadOnly toReadWrite
      split at accepted <;> cases accepted
      · exact reports_stored.mpr (.inr (by rw [found]; rfl))
      · exact reports_unchanged_none rfl

theorem reportsIff_dummyLog : (Modify.dummyLog key).ReportsIff storage := by
  intro after response accepted
  simp only [dispatchMut] at accepted
  split at accepted <;> cases accepted
  · exact iff_of_true (reports_unchanged_none rfl) trivial
  · rename_i entry found
    refine iff_of_true (reports_unchanged.mpr fun c named => ⟨key, ?_⟩) trivial
    rw [found]
    exact named

/-- **Reported slots.** An accepted operation reports the slot of each entry it changes, and
nothing but slots, exactly if it meets the condition. -/
theorem reports_iff {after : Directory Key nodes} {op : Modify Key nodes}
    (accepted : dispatchMut storage op = .ok (after, response)) :
    Reports storage after response ↔ op.ReportsSlot storage := by
  cases op with
  | put =>
    cases accepted
    exact reports_stored
  | checkPut => exact reportsIff_checkPut _ _ accepted
  | delete => exact reportsIff_delete _ _ accepted
  | swap => exact reportsIff_swap _ _ accepted
  | putArray => exact reportsIff_putArray _ _ accepted
  | putArrayWmeta => exact reportsIff_putArrayWmeta _ _ accepted
  | checkPutArray => exact reportsIff_checkPutArray _ _ accepted
  | checkPutArrayWmeta => exact reportsIff_checkPutArrayWmeta _ _ accepted
  | checkPutSwapArray => exact reportsIff_checkPutSwapArray _ _ accepted
  | invalidateArray => exact reportsIff_invalidateArray _ _ accepted
  | invalidateExceptArray => exact reportsIff_invalidateExceptArray _ _ accepted
  | invalidateExceptArrayUpdateWmeta =>
    exact reportsIff_invalidateExceptArrayUpdateWmeta _ _ accepted
  | checkMoveLocalArray => exact reportsIff_checkMoveLocalArray _ _ accepted
  | deleteArray => exact reportsIff_deleteArray _ _ accepted
  | deleteIfArray => exact reportsIff_deleteIfArray _ _ accepted
  | checkSwapArray => exact reportsIff_checkSwapArray _ _ accepted
  | checkSwitchWmetaArray => exact reportsIff_checkSwitchWmetaArray _ _ accepted
  | dummyLog => exact reportsIff_dummyLog _ _ accepted

end

end

/-! ### One page -/

section

def firstKey : BlockId := ⟨1, 0⟩

def onePage (wmetaIdx : Option Nat) : Directory BlockId 1 :=
  update (fun _ => none) firstKey
    (some ((initGcdEntry (some 7) numaMem).setWmeta wmetaIdx))

/-- `SwitchToReadOnly` takes the record from the entry and names no slot. -/
theorem switchToReadOnly_reports_nothing :
    ∃ after response,
      dispatchMut (onePage (some 3)) (.checkSwitchWmetaArray firstKey none) =
          .ok (after, response) ∧
        ¬ Reports (onePage (some 3)) after response := by
  refine ⟨_, _, rfl, fun reports => ?_⟩
  have named := reports.changed firstKey 7 ?_ rfl
  · cases named
  · intro same
    cases congrArg (Option.bind · GCDEntry.wmetaIdx) same

def switchToReadWrite : Modify BlockId 1 :=
  .invalidateExceptArrayUpdateWmeta firstKey sharedCacheNode (some 3)

/-- `InvalidateSwitchToRWShared` on the read-only page names it. -/
theorem reports_iff_switchToReadWrite :
    ∃ after response,
      dispatchMut (onePage none) switchToReadWrite = .ok (after, response) ∧
        Reports (onePage none) after response := by
  have meets : switchToReadWrite.ReportsSlot (onePage none) := by
    intro entry found
    obtain rfl := Option.some.inj found
    exact .inl rfl
  have accepted : dispatchMut (onePage none) switchToReadWrite = .ok _ := rfl
  exact ⟨_, _, accepted, (reports_iff accepted).mpr meets⟩

end

end Megalon.Index
