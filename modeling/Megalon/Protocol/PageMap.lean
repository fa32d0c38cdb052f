import Megalon.Protocol.Shared

/-!
Contract: the directory as a map from keys to a slot and possibly a record.

Owns: what the four directory operations do to such a map, what they answer, and that
the directory of every replica of the default build is one.

Does not own: who issues the operations.
-/

namespace Megalon.Protocol

open Function Index

/-- A page in a CXL slot: read-only without a record, read-write shared with one. -/
structure Page where
  slot : Nat
  wmeta : Option Nat
  deriving DecidableEq, Repr

abbrev PageMap (Key : Type) := Key → Option Page

section

variable {Key : Type}

def PageMap.record (pages : PageMap Key) (key : Key) : Option Nat := (pages key).bind Page.wmeta

def PageMap.slot (pages : PageMap Key) (key : Key) : Option Nat := (pages key).map Page.slot

variable [BlockKey Key]

def Request.apply (pages : PageMap Key) : Request Key → PageMap Key
  | .checkAndInsert key slot wmeta =>
    match pages key with
    | none => update pages key (some ⟨slot, wmeta⟩)
    | some page =>
      if wmeta = none ∨ page.wmeta = none then
        update pages key (some ⟨page.slot, wmeta⟩)
      else pages
  | .switchToReadOnly key =>
    match pages key with
    | none => pages
    | some page => update pages key (some ⟨page.slot, none⟩)
  | .invalidateSwitchToRWShared key wmeta =>
    match pages key with
    | none => pages
    | some page =>
      if page.wmeta = none then update pages key (some ⟨page.slot, some wmeta⟩)
      else pages
  | .seqCountWrapAround _ => pages

omit [BlockKey Key] in
/-- The slot an operation reports to the replaying replicas. A switch to read-only
reports none. -/
def Request.reports (pages : PageMap Key) : Request Key → Option Nat
  | .checkAndInsert key slot wmeta =>
    match pages key with
    | none => some slot
    | some page => if wmeta = none ∨ page.wmeta = none then some page.slot else none
  | .switchToReadOnly _ => none
  | .invalidateSwitchToRWShared key _ =>
    (pages key).bind fun page => if page.wmeta = none then some page.slot else none
  | .seqCountWrapAround key => pages.slot key

def insertError (pages : PageMap Key) (key : Key) (wmeta : Option Nat) : NrGcdError :=
  match pages key with
  | none => if key = BlockKey.nullBlockId then .slotUpdateFailed else .noError
  | some page =>
    if wmeta = none ∨ page.wmeta = none then .slotUpdateFailed else .slotWmetaUpdateFailed

def switchError (pages : PageMap Key) (key : Key) : NrGcdError :=
  match pages key with
  | none => .entryNoexist
  | some page =>
    if page.wmeta = none ∧ key ≠ BlockKey.nullBlockId then .noError else .slotWmetaUpdateFailed

end

/-! ### Records of keys -/

section

variable {Key : Type} [BlockKey Key]

theorem PageMap.record_update (pages : PageMap Key) (key : Key) (page : Page) :
    PageMap.record (update pages key (some page)) =
      update pages.record key page.wmeta := by
  funext other
  by_cases same : other = key
  · subst same
    simp [PageMap.record]
  · simp [PageMap.record, same]

variable {pages : PageMap Key} {page : Page}

omit [BlockKey Key] in
theorem PageMap.record_of_some {key : Key} (present : pages key = some page) :
    pages.record key = page.wmeta := by
  rw [record, present, Option.bind_some]

omit [BlockKey Key] in
theorem PageMap.record_of_none {key : Key} (absent : pages key = none) :
    pages.record key = none := by
  rw [record, absent, Option.bind_none]

theorem record_insert_absent {key : Key} (slot : Nat) (wmeta : Option Nat)
    (absent : pages key = none) :
    ((Request.checkAndInsert key slot wmeta).apply pages).record =
      update pages.record key wmeta := by
  simp only [Request.apply, absent, PageMap.record_update]

theorem record_insert_present {key : Key} (slot : Nat) {wmeta : Option Nat}
    (present : pages key = some page) (sameMode : page.wmeta.isSome = wmeta.isSome) :
    ((Request.checkAndInsert key slot wmeta).apply pages).record = pages.record := by
  have known := PageMap.record_of_some present
  cases wmeta with
  | none =>
    have readOnly : page.wmeta = none := by simpa using sameMode
    rw [readOnly] at known
    simp only [Request.apply, present, true_or, if_true, PageMap.record_update]
    rw [← known, update_eq_self]
  | some w =>
    have readWrite : page.wmeta ≠ none := by
      intro none
      simp [none] at sameMode
    simp [Request.apply, present, readWrite]

theorem record_switchToReadOnly (pages : PageMap Key) (key : Key) :
    ((Request.switchToReadOnly key).apply pages).record =
      update pages.record key none := by
  cases present : pages key with
  | none =>
    simp only [Request.apply, present]
    rw [← PageMap.record_of_none present, update_eq_self]
  | some page => simp only [Request.apply, present, PageMap.record_update]

theorem record_switchToRW_ro {key : Key} (w : Nat) (present : pages key = some page)
    (readOnly : page.wmeta = none) :
    ((Request.invalidateSwitchToRWShared key w).apply pages).record =
      update pages.record key (some w) := by
  simp only [Request.apply, present, readOnly, if_true, PageMap.record_update]

end

/-! ### Refinement of the directory -/

section

variable {Key : Type} {nodes : Nat}

def Page.toEntry (page : Page) : GCDEntry nodes := cxlEntry page.slot page.wmeta

def PageMap.toDirectory (pages : PageMap Key) : Directory Key nodes :=
  fun key => (pages key).map Page.toEntry

variable {pages : PageMap Key}

theorem PageMap.toDirectory_none {key : Key} (absent : pages key = none) :
    (pages.toDirectory : Directory Key nodes) key = none := by
  rw [toDirectory, absent, Option.map_none]

theorem PageMap.toDirectory_some (nodes : Nat) {key : Key} {page : Page}
    (present : pages key = some page) :
    (pages.toDirectory : Directory Key nodes) key = some (cxlEntry page.slot page.wmeta) := by
  rw [toDirectory, present, Option.map_some, Page.toEntry]

variable [BlockKey Key]

theorem PageMap.insert_toDirectory (pages : PageMap Key) (key : Key) (page : Page) :
    (pages.toDirectory : Directory Key nodes).insert key (cxlEntry page.slot page.wmeta) =
      PageMap.toDirectory (update pages key (some page)) := by
  funext other
  by_cases same : other = key
  · subst same
    simp [Directory.insert, toDirectory, Page.toEntry]
  · simp [Directory.insert, toDirectory, same]

theorem PageMap.insert_toDirectory_self (nodes : Nat) {key : Key} {page : Page}
    (present : pages key = some page) :
    (pages.toDirectory : Directory Key nodes).insert key (cxlEntry page.slot page.wmeta) =
      pages.toDirectory := by
  rw [insert_toDirectory, ← present, update_eq_self]

/-- What `dispatch_mut` does on a map of pages: the new map, the slot it reports and the
codes the callers read. -/
structure Answers (pages : PageMap Key) (request : Request Key)
    (response : Option (GCDResponse Key nodes)) : Prop where
  reports : responseCnIdx response = request.reports pages
  inserted : ∀ key slot wmeta, request = .checkAndInsert key slot wmeta →
    checkAndInsertCode response = insertError pages key wmeta
  reclaimed : ∀ key, request = .switchToReadOnly key →
    switchToReadOnlyResult response = pages.record key
  switched : ∀ key wmeta, request = .invalidateSwitchToRWShared key wmeta →
    invalidateSwitchToRWSharedCode response = switchError pages key

theorem Answers.dispatched {request : Request Key} {after : Directory Key nodes}
    {response : Option (GCDResponse Key nodes)}
    (accepted : dispatchMut pages.toDirectory (request.toModify nodes) = .ok (after, response))
    (refines : after = (request.apply pages).toDirectory)
    (answers : Answers pages request response) :
    ∃ response, dispatchMut pages.toDirectory (request.toModify nodes) =
      .ok ((request.apply pages).toDirectory, response) ∧ Answers pages request response :=
  ⟨response, refines ▸ accepted, answers⟩

/-- **Refinement.** No operation panics, and the new directory is again a map of pages. -/
theorem dispatchMut_toDirectory (nodes : Nat) (pages : PageMap Key) (request : Request Key) :
    ∃ response, dispatchMut pages.toDirectory (request.toModify nodes) =
      .ok ((request.apply pages).toDirectory, response) ∧ Answers pages request response := by
  cases request with
  | checkAndInsert key slot wmeta =>
    cases present : pages key with
    | none =>
      refine Answers.dispatched (insert_absent slot wmeta (PageMap.toDirectory_none present)) ?_ ?_
      · rw [PageMap.insert_toDirectory pages key ⟨slot, wmeta⟩, Request.apply, present]
      · constructor <;> intros <;>
          simp_all [responseCnIdx, Request.reports, checkAndInsertCode, insertError]
    | some page =>
      by_cases overwrites : wmeta = none ∨ page.wmeta = none
      · refine Answers.dispatched
          (insert_present slot (PageMap.toDirectory_some nodes present) overwrites) ?_ ?_
        · rw [PageMap.insert_toDirectory pages key ⟨page.slot, wmeta⟩]
          simp only [Request.apply, present, if_pos overwrites]
        · constructor
          · simp only [responseCnIdx, Request.reports, present, if_pos overwrites,
              Option.bind_some, cnArray_cxlEntry_zero]
          · rintro key' slot' wmeta' ⟨⟩
            simp only [checkAndInsertCode, insertError, present, if_pos overwrites, if_true]
          · rintro key' ⟨⟩
          · rintro key' wmeta' ⟨⟩
      · obtain ⟨new, rfl⟩ := Option.ne_none_iff_exists'.mp fun none => overwrites (.inl none)
        obtain ⟨old, found⟩ := Option.ne_none_iff_exists'.mp fun none => overwrites (.inr none)
        have entry := PageMap.toDirectory_some nodes present
        rw [found] at entry
        refine Answers.dispatched (insert_present_rw slot new entry) ?_ ?_
        · simp only [Request.apply, present, if_neg overwrites]
        · constructor
          · simp only [responseCnIdx, Request.reports, present, if_neg overwrites,
              Option.bind_none]
          · rintro key' slot' wmeta' ⟨⟩
            simp only [checkAndInsertCode, insertError, present, if_neg overwrites]
          · rintro key' ⟨⟩
          · rintro key' wmeta' ⟨⟩
  | switchToReadOnly key =>
    cases present : pages key with
    | none =>
      refine Answers.dispatched (switchToReadOnly_absent (PageMap.toDirectory_none present)) ?_ ?_
      · rw [Request.apply, present]
      · constructor <;> intros <;>
          simp_all [responseCnIdx, Request.reports, switchToReadOnlyResult, PageMap.record]
    | some page =>
      refine Answers.dispatched (switchToReadOnly_present (PageMap.toDirectory_some nodes present))
        ?_ ?_
      · rw [PageMap.insert_toDirectory pages key ⟨page.slot, none⟩, Request.apply, present]
      · constructor <;> intros <;>
          simp_all [responseCnIdx, Request.reports, switchToReadOnlyResult, PageMap.record,
            initEmptyGcdEntryWithWmetaIdx, nullCNStatus]
  | invalidateSwitchToRWShared key wmeta =>
    cases present : pages key with
    | none =>
      refine Answers.dispatched (switchToRW_absent wmeta (PageMap.toDirectory_none present)) ?_ ?_
      · rw [Request.apply, present]
      · constructor <;> intros <;>
          simp_all [responseCnIdx, Request.reports, invalidateSwitchToRWSharedCode, switchError]
    | some page =>
      have entry := PageMap.toDirectory_some nodes present
      cases found : page.wmeta with
      | none =>
        rw [found] at entry
        refine Answers.dispatched (switchToRW_ro wmeta entry) ?_ ?_
        · rw [PageMap.insert_toDirectory pages key ⟨page.slot, some wmeta⟩]
          simp only [Request.apply, present, found, if_true]
        · constructor <;> intros <;>
            simp_all [responseCnIdx, Request.reports, invalidateSwitchToRWSharedCode,
              switchError]
      | some old =>
        rw [found] at entry
        have unchanged := PageMap.insert_toDirectory_self nodes present
        rw [found] at unchanged
        refine Answers.dispatched (switchToRW_rw wmeta entry) ?_ ?_
        · rw [unchanged]
          simp only [Request.apply, present, found, reduceCtorEq, if_false]
        · constructor <;> intros <;>
            simp_all [responseCnIdx, Request.reports, invalidateSwitchToRWSharedCode,
              switchError, initEmptyGcdEntry, initEmptyGcdEntryWithWmetaIdx, nullCNStatus]
  | seqCountWrapAround key =>
    refine Answers.dispatched (dummyLog_ok _ key) rfl ?_
    constructor
    · cases present : pages key with
      | none => simp [responseCnIdx, Request.reports, PageMap.slot, PageMap.toDirectory, present]
      | some page =>
        simp [responseCnIdx, Request.reports, PageMap.slot, PageMap.toDirectory, present,
          Page.toEntry]
    · rintro key' slot' wmeta' ⟨⟩
    · rintro key' ⟨⟩
    · rintro key' wmeta' ⟨⟩

end

/-! ### The log -/

section

variable {Key : Type} [BlockKey Key]

/-- The pages after the first `n` entries of the log. -/
def pagesAt (log : List (LogEntry Key)) (n : Nat) : PageMap Key :=
  (log.take n).foldl (fun pages entry => entry.request.apply pages) fun _ => none

def latestPages (log : List (LogEntry Key)) : PageMap Key := pagesAt log log.length

variable {log : List (LogEntry Key)}

theorem pagesAt_append (more : List (LogEntry Key)) {n : Nat} (inside : n ≤ log.length) :
    pagesAt (log ++ more) n = pagesAt log n := by
  rw [pagesAt, List.take_append_of_le_length inside, pagesAt]

theorem pagesAt_succ {n : Nat} {entry : LogEntry Key} (present : log[n]? = some entry) :
    pagesAt log (n + 1) = entry.request.apply (pagesAt log n) := by
  rw [pagesAt, List.take_add_one, present, List.foldl_append]
  rfl

theorem latestPages_append (log : List (LogEntry Key)) (entry : LogEntry Key) :
    latestPages (log ++ [entry]) = entry.request.apply (latestPages log) := by
  have present : (log ++ [entry])[log.length]? = some entry := by simp
  rw [latestPages, List.length_append, List.length_singleton, pagesAt_succ present,
    pagesAt_append [entry] le_rfl, latestPages]

theorem foldl_toDirectory (nodes : Nat) (entries : List (LogEntry Key)) (pages : PageMap Key) :
    entries.foldl (fun storage entry => applyOp storage (entry.request.toModify nodes))
        pages.toDirectory =
      (entries.foldl (fun pages entry => entry.request.apply pages) pages).toDirectory := by
  induction entries generalizing pages with
  | nil => rfl
  | cons entry rest ih =>
    obtain ⟨response, accepted, _⟩ := dispatchMut_toDirectory nodes pages entry.request
    rw [List.foldl_cons, List.foldl_cons, applyOp_of_ok accepted, ih]

theorem stateAt_eq (nodes : Nat) (log : List (LogEntry Key)) (n : Nat) :
    stateAt nodes log n = (pagesAt log n).toDirectory :=
  foldl_toDirectory nodes (log.take n) fun _ => none

theorem latest_eq (nodes : Nat) (log : List (LogEntry Key)) :
    latest nodes log = (latestPages log).toDirectory :=
  stateAt_eq nodes log log.length

theorem replaySlot_eq (nodes : Nat) {i : Nat} {entry : LogEntry Key}
    (present : log[i]? = some entry) :
    replaySlot nodes log i = entry.request.reports (pagesAt log i) := by
  obtain ⟨response, accepted, answers⟩ :=
    dispatchMut_toDirectory nodes (pagesAt log i) entry.request
  rw [replaySlot, present, Option.bind_some, stateAt_eq, respond_of_ok accepted, answers.reports]

end

/-! ### Slots of keys -/

section

variable {Key : Type} [BlockKey Key]

omit [BlockKey Key] in
theorem PageMap.slot_of_some {pages : PageMap Key} {key : Key} {page : Page}
    (present : pages key = some page) : pages.slot key = some page.slot := by
  rw [slot, present, Option.map_some]

/-- An operation changes nothing, inserts a page for a key that has none, or gives a
page another record. -/
theorem Request.apply_cases (request : Request Key) (pages : PageMap Key) :
    request.apply pages = pages ∨
      (∃ key slot wmeta, request = .checkAndInsert key slot wmeta ∧ pages key = none ∧
        request.apply pages = update pages key (some ⟨slot, wmeta⟩)) ∨
      ∃ key page wmeta, pages key = some page ∧
        request.apply pages = update pages key (some ⟨page.slot, wmeta⟩) := by
  cases request with
  | checkAndInsert key slot wmeta =>
    cases found : pages key with
    | none => exact .inr (.inl ⟨key, slot, wmeta, rfl, found, by simp [Request.apply, found]⟩)
    | some page =>
      by_cases overwrites : wmeta = none ∨ page.wmeta = none
      · exact .inr (.inr ⟨key, page, wmeta, found, by simp [Request.apply, found, overwrites]⟩)
      · exact .inl (by simp [Request.apply, found, overwrites])
  | switchToReadOnly key =>
    cases found : pages key with
    | none => exact .inl (by simp [Request.apply, found])
    | some page => exact .inr (.inr ⟨key, page, none, found, by simp [Request.apply, found]⟩)
  | invalidateSwitchToRWShared key wmeta =>
    cases found : pages key with
    | none => exact .inl (by simp [Request.apply, found])
    | some page =>
      by_cases readOnly : page.wmeta = none
      · exact .inr (.inr ⟨key, page, some wmeta, found,
          by simp [Request.apply, found, readOnly]⟩)
      · exact .inl (by simp [Request.apply, found, readOnly])
  | seqCountWrapAround key => exact .inl rfl

omit [BlockKey Key] in
def Request.key : Request Key → Key
  | .checkAndInsert key _ _ | .switchToReadOnly key | .invalidateSwitchToRWShared key _
  | .seqCountWrapAround key => key

theorem Request.apply_of_ne (request : Request Key) (pages : PageMap Key) {key : Key}
    (other : key ≠ request.key) : request.apply pages key = pages key := by
  cases request with
  | checkAndInsert key' slot wmeta =>
    cases found : pages key' with
    | none =>
      simp only [Request.apply, found]
      exact update_of_ne other _ _
    | some page =>
      simp only [Request.apply, found]
      split
      · exact update_of_ne other _ _
      · rfl
  | switchToReadOnly key' =>
    cases found : pages key' with
    | none => simp only [Request.apply, found]
    | some page =>
      simp only [Request.apply, found]
      exact update_of_ne other _ _
  | invalidateSwitchToRWShared key' wmeta =>
    cases found : pages key' with
    | none => simp only [Request.apply, found]
    | some page =>
      simp only [Request.apply, found]
      split
      · exact update_of_ne other _ _
      · rfl
  | seqCountWrapAround key' => rfl

theorem Request.slot_apply_cases (request : Request Key) (pages : PageMap Key) (key : Key) :
    (request.apply pages).slot key = pages.slot key ∨ ∃ slot wmeta,
      request = .checkAndInsert key slot wmeta ∧ pages key = none ∧
      request.apply pages key = some ⟨slot, wmeta⟩ := by
  rcases request.apply_cases pages with
    same | ⟨other, slot, wmeta, rfl, absent, inserted⟩ | ⟨other, page, wmeta, present, replaced⟩
  · exact .inl (by rw [same])
  · by_cases same : key = other
    · subst same
      exact .inr ⟨slot, wmeta, rfl, absent, by rw [inserted, update_self]⟩
    · exact .inl (by rw [inserted, PageMap.slot, update_of_ne same, PageMap.slot])
  · left
    rw [replaced, PageMap.slot]
    by_cases same : key = other
    · subst same
      rw [update_self, Option.map_some, PageMap.slot_of_some present]
    · rw [update_of_ne same, PageMap.slot]

theorem Request.slot_apply (request : Request Key) {pages : PageMap Key} {key : Key} {slot : Nat}
    (known : pages.slot key = some slot) : (request.apply pages).slot key = some slot := by
  rcases request.slot_apply_cases pages key with same | ⟨_, _, _, absent, _⟩
  · rw [same, known]
  · simp [PageMap.slot, absent] at known

theorem slot_pagesAt_mono {log : List (LogEntry Key)} {key : Key} {slot n m : Nat} (le : n ≤ m)
    (known : (pagesAt log n).slot key = some slot) : (pagesAt log m).slot key = some slot := by
  induction m, le using Nat.le_induction with
  | base => exact known
  | succ m le ih =>
    cases present : log[m]? with
    | none =>
      have short : log.length ≤ m := List.getElem?_eq_none_iff.mp present
      rw [pagesAt, List.take_of_length_le short] at ih
      rw [pagesAt, List.take_of_length_le (by omega)]
      exact ih
    | some entry =>
      rw [pagesAt_succ present]
      exact entry.request.slot_apply ih

end

end Megalon.Protocol
