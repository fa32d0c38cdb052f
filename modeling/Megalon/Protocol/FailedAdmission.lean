import Mathlib.Data.List.Basic
import Megalon.Protocol.CacheNodes

/-!
Contract: what a failed `Admit`, `AdmitWrite` or `CreateEntry` leaves behind.

Owns: the dirty bits, the thread that has locked each record, the account of what each
thread does between its `CheckAndInsert` and its return, and which failed calls undo
their insertion, slot and record.

Does not own: what the callers do with the error code.
-/

namespace Megalon.Protocol

open Function Core Foundations Index

section

variable {Key Mem : Type} [BlockKey Key] (cfg : Config Key Mem)

/-- A call of `RecycleWmeta`: the word it loads, the thread that has locked the record, and
whether its compare-exchange finds the word unchanged. -/
structure Recycling where
  word : SeqWord
  owner : Option Nat
  swapped : Bool

/-- `found` has the calls of `RecycleWmeta`; `counted` is what they took from
`allocated_slot_num_`. -/
structure Account (nodes : Nat) where
  wmeta : Option Nat
  before : Option (GCDEntry nodes)
  after : Option (GCDEntry nodes)
  found : List Recycling
  counted : Int

/-- The protocol with its dirty bits, the owners of the locks, and an account for each
thread. -/
structure AdmissionState where
  base : cfg.State
  dirty : Nat → Bool
  owner : Nat → Option Nat
  account : Nat → Account cfg.nodes

variable {cfg}

variable (cfg) in
/-- `write_data != nullptr` in the function that creates the page. -/
def Call.dirtied (call : Call Key) : Bool :=
  match call.kind with
  | .put => call.data.isSome
  | .write => (call.toWrite cfg).isSome
  | _ => false

def Pc.givesBack {nodes : Nat} : Pc Key nodes → Option Nat
  | .createRecycle slot _ => some slot
  | _ => none

def Pc.written {nodes : Nat} : Pc Key nodes → Option Nat
  | .writeSeqEnd slot _ => some slot
  | _ => none

/-- `SetDirty` before the insertion, after a lost insertion with a record, and after the
copy of `WriteToCXL`. -/
def setDirty (s s' : cfg.State) (dirty : Nat → Bool) : Event Key → Nat → Bool
  | .thread t _ => fun slot =>
    if (s'.threads t).pc.reinitialized = some slot then (s'.threads t).call.dirtied cfg
    else if (s.threads t).pc.givesBack = some slot then false
    else if (s'.threads t).pc.written = some slot then true
    else dirty slot
  | _ => dirty

def setOwner (s s' : cfg.State) (owner : Nat → Option Nat) :
    Event Key → Nat → Option Nat
  | .thread t _ => fun w =>
    if s'.shared.word w = s.shared.word w then owner w
    else if (s'.shared.word w).isLocked then some t
    else none
  | _ => owner

/-- The account of thread `t` after a step of its own. -/
def Account.advance (s s' : cfg.State) (owner : Nat → Option Nat) (t choice : Nat)
    (account : Account cfg.nodes) : Account cfg.nodes :=
  match (s.threads t).pc with
  | .createInsert _ wmeta =>
    ⟨wmeta, latest cfg.nodes s.shared.log (s.threads t).call.key,
      latest cfg.nodes s'.shared.log (s.threads t).call.key, [], 0⟩
  | .createRecycleTwice _ w | .createRecycle _ w =>
    { account with
      found := account.found ++ [⟨s.shared.word w, owner w, choice == 0⟩]
      counted := account.counted + (s.shared.allocatedSlotNum - s'.shared.allocatedSlotNum) }
  | _ => account

def setAccount (s s' : cfg.State) (owner : Nat → Option Nat)
    (account : Nat → Account cfg.nodes) : Event Key → Nat → Account cfg.nodes
  | .thread t choice => update account t ((account t).advance s s' owner t choice)
  | _ => account

variable (cfg) in
def admissionSystem : System (AdmissionState cfg) (Event Key) where
  init := fun s => Initial cfg s.base ∧ (∀ slot, s.dirty slot = false) ∧ ∀ w, s.owner w = none
  step := fun s e =>
    (step cfg s.base e).map fun base =>
      ⟨base, setDirty s.base base s.dirty e, setOwner s.base base s.owner e,
        setAccount s.base base s.owner s.account e⟩

/-! ### Undone -/

namespace Recycling

variable (t : Nat) (found : Recycling)

/-- The record is freed. -/
def frees : Bool := !found.word.isFree && found.word.isLocked && found.swapped

def freesOwn : Bool := found.frees && decide (found.owner = some t)

def freesForeign : Bool := found.frees && decide (found.owner ≠ some t)

/-- The record is in use, and unlocked or no longer what was loaded: nothing happens. -/
def fails : Bool := !found.word.isFree && !(found.word.isLocked && found.swapped)

/-- One is taken from `allocated_slot_num_`. -/
def counts : Bool := found.word.isFree || found.word.isLocked && found.swapped

end Recycling

def Account.reserved {nodes : Nat} (account : Account nodes) : Nat :=
  if account.wmeta.isSome then 1 else 0

/-- The call of thread `t` that reserved `slot` returns with its last step, from `s` to
`s'`: the entry is as it was before the insertion, the slot is free and clean, the record
was released once, and no record or slot of another thread was. -/
structure Undone (s s' : AdmissionState cfg) (t slot : Nat) : Prop where
  entry : (s.account t).after = (s.account t).before
  free : s'.base.shared.freeBit slot = true
  clean : s'.dirty slot = false
  released : (s.account t).found.countP (·.freesOwn t) = (s.account t).reserved
  counted : (s.account t).counted = (s.account t).reserved
  records : ∀ found ∈ (s.account t).found, found.freesForeign t = false
  slots : (∀ t', t' ≠ t → (s.base.threads t').pc.slotHeld ≠ some slot) ∧
    ∀ key, cxlSlot (latest cfg.nodes s.base.shared.log key) ≠ some slot

/-- The insertion found an entry: without a record, as the call has none; or with one, while
of the two `RecycleWmeta` one found the record locked by this thread and freed it, and the
other found it in use, and unlocked or changed before its compare-exchange. -/
def Account.Clearable {nodes : Nat} (account : Account nodes) (t : Nat) : Prop :=
  ∃ entry, account.before = some entry ∧
    ((account.wmeta = none ∧ entry.wmetaIdx = none) ∨
      (account.wmeta ≠ none ∧ entry.wmetaIdx ≠ none ∧
        ∃ first second, account.found = [first, second] ∧
          ((first.freesOwn t = true ∧ second.fails = true) ∨
            (first.fails = true ∧ second.freesOwn t = true))))

/-- And the one attempt of `RecycleCacheNode` sets the bit. -/
def Recoverable (s : AdmissionState cfg) (t choice : Nat) : Prop :=
  choice = 0 ∧ (s.account t).Clearable t

end

/-! ### Program counters of an admission -/

section

variable {Key Mem : Type} [BlockKey Key] {cfg : Config Key Mem} (call : Call Key)

/-- Between the reservation of a slot, with its record, and the return. -/
def Pc.creating {nodes : Nat} : Pc Key nodes → Bool
  | .createFill _ _ _ | .createFlush _ _ _ | .createInsert _ _ | .createWait _ _ _ _
  | .createRecycleTwice _ _ | .createRecycle _ _ | .createRecycleNode _ => true
  | _ => false

theorem creating_entryPc : (call.entryPc cfg).creating = false := by
  unfold Call.entryPc
  repeat' split
  all_goals rfl

end

/-! ### The invariant -/

section

variable {Key Mem : Type} [BlockKey Key] {cfg : Config Key Mem}

variable (cfg) in
def Pc.Unfilled (call : Call Key) : cfg.Pc → Prop
  | .createFill _ none _ | .createFlush _ none _ | .createInsert _ none
  | .createWait _ none _ _ => call.dirtied cfg = false
  | _ => True

def Pc.cleanSlot {nodes : Nat} : Pc Key nodes → Option Nat
  | .createInsert slot none | .createWait slot none _ .slotWmetaUpdateFailed
  | .createWait slot none _ .slotUpdateFailed | .createRecycleNode slot => some slot
  | _ => none

namespace Account

variable {nodes : Nat}

def Lost (account : Account nodes) : NrGcdError → Prop
  | .slotUpdateFailed => ∃ entry entry', account.before = some entry ∧
      account.after = some entry' ∧ entry'.wmetaIdx = account.wmeta ∧
      (account.wmeta = none ∨ entry.wmetaIdx = none) ∧
      (entry.wmetaIdx = account.wmeta → entry' = entry)
  | .slotWmetaUpdateFailed => ∃ entry, account.before = some entry ∧ account.wmeta ≠ none ∧
      entry.wmetaIdx ≠ none ∧ account.after = account.before
  | _ => True

/-- `RecycleWmeta` counts a record that it finds free or frees. -/
def Tallied (account : Account nodes) (calls : Nat) : Prop :=
  account.found.length = calls ∧
    account.counted = account.found.countP Recycling.counts

end Account

/-- The account of a thread at each program counter of a lost insertion. -/
def Pc.Accounted {nodes : Nat} (account : Account nodes) : Pc Key nodes → Prop
  | .createWait _ wmeta _ error =>
    account.wmeta = wmeta ∧ account.Lost error ∧ account.Tallied 0
  | .createRecycleTwice _ w =>
    account.wmeta = some w ∧ account.Lost .slotWmetaUpdateFailed ∧ account.Tallied 0
  | .createRecycle _ w => account.wmeta = some w ∧
      ((account.Lost .slotUpdateFailed ∧ account.Tallied 0) ∨
        (account.Lost .slotWmetaUpdateFailed ∧ account.Tallied 1))
  | .createRecycleNode _ =>
    (account.wmeta = none ∧ account.Lost .slotUpdateFailed ∧ account.Tallied 0) ∨
    (account.wmeta ≠ none ∧ account.Lost .slotUpdateFailed ∧ account.Tallied 1) ∨
    (account.Lost .slotWmetaUpdateFailed ∧ account.Tallied 2)
  | _ => True

structure AdmissionInv (s : AdmissionState cfg) : Prop where
  slots : SlotsOwned cfg s.base
  targets : TargetsKnown s.base
  named : ∀ t, (s.base.threads t).pc ≠ .idle →
    (s.base.threads t).call.key ≠ BlockKey.nullBlockId
  unfilled : ∀ t, (s.base.threads t).pc.Unfilled cfg (s.base.threads t).call
  clean : ∀ t slot, (s.base.threads t).pc.cleanSlot = some slot → s.dirty slot = false
  accounted : ∀ t, (s.base.threads t).pc.Accounted (s.account t)

variable {nodes : Nat} {pc : Pc Key nodes}

omit [BlockKey Key] in
theorem slotHeld_of_cleanSlot {slot : Nat} (clean : pc.cleanSlot = some slot) :
    pc.slotHeld = some slot := by
  cases pc with
  | createInsert slot' wmeta =>
    cases wmeta with
    | none => exact clean
    | some w => cases clean
  | createWait slot' wmeta index error =>
    cases wmeta <;> cases error <;> cases clean
    all_goals rfl
  | createRecycleNode slot' => exact clean
  | _ => cases clean

theorem unfilled_of_outside {call : Call Key} {pc : cfg.Pc}
    (outside : pc.creating = false) : pc.Unfilled cfg call := by
  cases pc <;> trivial

omit [BlockKey Key] in
theorem accounted_of_outside {account : Account nodes} (outside : pc.creating = false) :
    pc.Accounted account := by
  cases pc <;> trivial

omit [BlockKey Key] in
theorem cleanSlot_of_outside (outside : pc.creating = false) : pc.cleanSlot = none := by
  cases pc <;> first | rfl | cases outside

theorem admissionInv_initial {s : AdmissionState cfg} (start : (admissionSystem cfg).init s) :
    AdmissionInv s := by
  have outside : ∀ t, (s.base.threads t).pc.creating = false := by
    intro t
    rw [start.1.threads t]
    rfl
  refine ⟨slotsOwned_initial s.base start.1, targetsKnown_initial s.base start.1,
    fun t busy => absurd (start.1.threads t) busy, fun t => unfilled_of_outside (outside t), ?_,
    fun t => accounted_of_outside (outside t)⟩
  intro t slot clean
  rw [cleanSlot_of_outside (outside t)] at clean
  cases clean

/-! ### Steps of the admitting thread -/

section

variable {t choice : Nat} {call : Call Key} {pc pc' : cfg.Pc} {act : Act Key}
  {reply : act.Reply cfg.nodes}

theorem unfilled_move (before : pc.Unfilled cfg call)
    (move : Move cfg t call choice pc act reply pc') : pc'.Unfilled cfg call := by
  cases move with
  | createEmpty kind data => simp [Pc.Unfilled, Call.dirtied, kind, data]
  | createFetched reads _ =>
    cases kind : call.kind <;> simp_all [Pc.Unfilled, Call.dirtied, Call.isWrite]
  | @createFill _ wmeta | @createFilled _ wmeta | @createFlush _ wmeta | @createFlushed _ wmeta
  | @createInsert _ wmeta => cases wmeta <;> trivial
  | _ => trivial

theorem lost_insert {log : List (LogEntry Key)} {key : Key} {slot t : Nat} {wmeta : Option Nat}
    (named : key ≠ BlockKey.nullBlockId) : (Account.mk wmeta (latest cfg.nodes log key)
      (latest cfg.nodes (log ++ [⟨.checkAndInsert key slot wmeta, t⟩]) key) [] 0).Lost
        (insertError (latestPages log) key wmeta) := by
  simp only [latest_eq, latestPages_append]
  cases present : latestPages log key with
  | none =>
    rw [insertError, present]
    simp only [named, if_false]
    trivial
  | some page =>
    simp only [insertError, Request.apply, present]
    split
    · rename_i updated
      refine ⟨page.toEntry, Page.toEntry ⟨page.slot, wmeta⟩,
        PageMap.toDirectory_some cfg.nodes present,
        PageMap.toDirectory_some cfg.nodes (update_self ..), rfl, updated, ?_⟩
      intro same
      have kept : page.wmeta = wmeta := same
      rw [← kept]
    · rename_i kept
      rw [not_or] at kept
      exact ⟨page.toEntry, PageMap.toDirectory_some cfg.nodes present, kept.1, kept.2, rfl⟩

theorem counted_recycle (s : cfg.Shared) (w : Nat) (owner : Option Nat) (swapped : Bool) :
    s.allocatedSlotNum - (recycle cfg s w swapped).allocatedSlotNum =
      if (Recycling.mk (s.word w) owner swapped).counts then 1 else 0 := by
  cases free : (s.word w).isFree <;> cases set : (s.word w).isLocked <;> cases swapped <;>
    simp [recycle, Recycling.counts, free, set, Shared.countRecycled, Shared.setWord]

theorem Account.Tallied.recycle {account : Account cfg.nodes} {calls : Nat}
    (tallied : account.Tallied calls) (s : cfg.Shared) (w : Nat)
    (owner : Option Nat) (swapped : Bool) :
    ({ account with
        found := account.found ++ [⟨s.word w, owner, swapped⟩]
        counted := account.counted +
          (s.allocatedSlotNum - (Protocol.recycle cfg s w swapped).allocatedSlotNum) } :
      Account cfg.nodes).Tallied (calls + 1) := by
  obtain ⟨length, counted⟩ := tallied
  refine ⟨by simp [length], ?_⟩
  simp only [counted_recycle s w owner, counted, List.countP_append, List.countP_singleton]
  split <;> simp

theorem accounted_own {s : AdmissionState cfg} {base : cfg.State}
    (inv : AdmissionInv s) (taken : step cfg s.base (.thread t choice) = some base) :
    (base.threads t).pc.Accounted ((s.account t).advance s.base base s.owner t choice) := by
  obtain ⟨act, reply, shared, pc', move, acted, rfl⟩ := step_move taken
  have before := inv.accounted t
  have keys := inv.named t
  simp only [update_self]
  generalize counter : (s.base.threads t).pc = pc at move before keys
  cases move with
  | createInsert =>
    obtain ⟨rfl, _, answers⟩ := perform_submit acted
    simp only [Account.advance, counter]
    refine ⟨rfl, ?_, rfl, rfl⟩
    have inserted := answers.inserted _ _ _ rfl
    simp only at inserted
    rw [inserted]
    exact lost_insert (keys (by simp))
  | createLostBoth =>
    simp only [Account.advance, counter]
    exact before
  | createLostSlot =>
    obtain ⟨reserved, lost, tallied⟩ := before
    simp only [Account.advance, counter]
    exact ⟨reserved, .inl ⟨lost, tallied⟩⟩
  | createLost failed _ =>
    obtain ⟨reserved, lost, tallied⟩ := before
    simp only [Account.advance, counter]
    rcases failed with rfl | rfl
    · obtain ⟨_, _, present, _⟩ := lost
      exact absurd reserved present
    · exact .inl ⟨reserved, lost, tallied⟩
  | @createRecycleTwice slot w =>
    obtain rfl := perform_recycleWmeta acted
    obtain ⟨reserved, lost, tallied⟩ := before
    simp only [Account.advance, counter]
    exact ⟨reserved, .inr ⟨lost, tallied.recycle s.base.shared w (s.owner w) _⟩⟩
  | @createRecycle slot w =>
    obtain rfl := perform_recycleWmeta acted
    simp only [Account.advance, counter]
    rcases before with ⟨reserved, ⟨lost, tallied⟩ | ⟨lost, tallied⟩⟩
    · refine .inr (.inl ⟨?_, lost, tallied.recycle s.base.shared w (s.owner w) _⟩)
      simp [reserved]
    · exact .inr (.inr ⟨lost, tallied.recycle s.base.shared w (s.owner w) _⟩)
  | _ => trivial

/-- A slot without data comes from the insertion that is about to be made, from the step
before, or from `SetDirty(new_index, false)`. -/
theorem cleanSlot_move {slot : Nat} (move : Move cfg t call choice pc act reply pc')
    (clean : pc'.cleanSlot = some slot) :
    pc' = .createInsert slot none ∨ (∃ w, pc = .createRecycle slot w) ∨
      pc.cleanSlot = some slot := by
  cases move with
  | @createInsert _ wmeta _ response =>
    cases wmeta with
    | none =>
      cases error : checkAndInsertCode response <;> rw [error] at clean
      all_goals first
        | exact .inr (.inr clean)
        | cases clean
    | some w => cases clean
  | createLost lost _ => rcases lost with rfl | rfl <;> exact .inr (.inr clean)
  | createRecycle =>
    cases clean
    exact .inr (.inl ⟨_, rfl⟩)
  | createEmpty =>
    cases clean
    exact .inl rfl
  | @createFlushed _ wmeta =>
    cases wmeta with
    | none =>
      cases clean
      exact .inl rfl
    | some w => cases clean
  | _ => cases clean

end

/-! ### Steps of all threads -/

section

variable {s : AdmissionState cfg} {e : Event Key} {base : cfg.State}

theorem accounted_step (inv : AdmissionInv s) (taken : step cfg s.base e = some base) (t : Nat) :
    (base.threads t).pc.Accounted (setAccount s.base base s.owner s.account e t) := by
  by_cases own : ∃ choice, e = .thread t choice
  · obtain ⟨choice, rfl⟩ := own
    rw [setAccount, update_self]
    exact accounted_own inv taken
  · have kept : setAccount s.base base s.owner s.account e t = s.account t := by
      cases e with
      | thread t' choice =>
        have other : t ≠ t' := by
          rintro rfl
          exact own ⟨choice, rfl⟩
        exact update_of_ne other ..
      | _ => rfl
    rw [kept]
    rcases threads_of_step taken t with same | ⟨call, _, _, entered⟩ | ⟨choice, now, _⟩
    · rw [same]
      exact inv.accounted t
    · rw [entered]
      exact accounted_of_outside (creating_entryPc call)
    · exact absurd ⟨choice, now⟩ own

theorem unfilled_step (inv : AdmissionInv s) (taken : step cfg s.base e = some base) (t : Nat) :
    (base.threads t).pc.Unfilled cfg (base.threads t).call :=
  forall_threads_step (P := fun _ thread => thread.pc.Unfilled cfg thread.call) taken
    (fun t _ => inv.unfilled t) (fun _ call => unfilled_of_outside (creating_entryPc call))
    (fun _ _ move _ => unfilled_move (inv.unfilled _) move) t

theorem clean_kept (inv : AdmissionInv s) (taken : step cfg s.base e = some base) {t slot : Nat}
    (clean : (base.threads t).pc.cleanSlot = some slot)
    (own : (∃ choice, e = .thread t choice) → (base.threads t).pc.reinitialized ≠ some slot ∧
      (s.base.threads t).pc.givesBack ≠ some slot) : s.dirty slot = false := by
  rcases threads_of_step taken t with same | ⟨call, _, _, entered⟩ | ⟨choice, rfl, _, _⟩
  · rw [same] at clean
    exact inv.clean t slot clean
  · rw [entered, cleanSlot_of_outside (creating_entryPc call)] at clean
    cases clean
  · obtain ⟨notInsert, notRecycle⟩ := own ⟨choice, rfl⟩
    obtain ⟨_, _, _, _, move, _, rfl⟩ := step_move taken
    simp only [update_self] at clean notInsert
    rcases cleanSlot_move move clean with inserts | ⟨w, counter⟩ | before
    · rw [inserts] at notInsert
      exact absurd rfl notInsert
    · rw [counter] at notRecycle
      exact absurd rfl notRecycle
    · exact inv.clean t slot before

theorem dirtied_of_cleanSlot {call : Call Key} {pc : cfg.Pc} {slot : Nat}
    (unfilled : pc.Unfilled cfg call) (clean : pc.cleanSlot = some slot)
    (inserts : pc.reinitialized = some slot) : call.dirtied cfg = false := by
  cases pc with
  | createInsert slot' wmeta =>
    cases wmeta with
    | none => exact unfilled
    | some w => cases clean
  | _ => cases inserts

theorem clean_step (inv : AdmissionInv s) (slots : SlotsOwned cfg base)
    (targets : TargetsKnown base) (taken : step cfg s.base e = some base) (t slot : Nat)
    (clean : (base.threads t).pc.cleanSlot = some slot) :
    setDirty s.base base s.dirty e slot = false := by
  have held := slotHeld_of_cleanSlot clean
  -- Only its holder inserts the slot, and nobody has it in a handle.
  have holder : ∀ t', (base.threads t').pc.reinitialized = some slot → t' = t :=
    fun t' inserts => slots.unique t' t slot (slotHeld_of_reinitialized inserts) held
  have unwritten : ∀ t', (base.threads t').pc.written ≠ some slot := by
    intro t' writes
    have target : (base.threads t').pc.target = some slot := by
      cases reached : (base.threads t').pc <;> rw [reached] at writes <;>
        first | exact writes | cases writes
    exact (slots.held t slot held).2 _ (targets t' slot target)
  cases e with
  | thread t' choice =>
    simp only [setDirty, if_neg (unwritten t')]
    split
    · rename_i inserts
      obtain rfl := holder t' inserts
      exact dirtied_of_cleanSlot (unfilled_step inv taken t') clean inserts
    · rename_i notInsert
      split
      · rfl
      · rename_i notRecycle
        refine clean_kept inv taken clean ?_
        rintro ⟨choice', same⟩
        cases same
        exact ⟨notInsert, notRecycle⟩
  | _ =>
    refine clean_kept inv taken clean ?_
    rintro ⟨choice', same⟩
    cases same

theorem admissionInv_step (s : AdmissionState cfg) (e : Event Key) (s' : AdmissionState cfg)
    (inv : AdmissionInv s) (named : e.named = true)
    (taken : (admissionSystem cfg).step s e = some s') : AdmissionInv s' := by
  obtain ⟨base, stepped, rfl⟩ := Option.map_eq_some_iff.mp taken
  have slots := slotsOwned_step s.base e base inv.slots (insertsNamed_of_keys e inv.named) stepped
  have targets := targetsKnown_step s.base e base inv.targets stepped
  exact ⟨slots, targets, named_step inv.named named stepped, unfilled_step inv stepped,
    clean_step inv slots targets stepped, accounted_step inv stepped⟩

end

/-! ### Which failed calls undo what they did -/

section

variable {t nodes : Nat} {account : Account nodes}

def Account.Clears (account : Account nodes) (t : Nat) : Prop :=
  account.after = account.before ∧ account.found.countP (·.freesOwn t) = account.reserved ∧
    account.counted = account.reserved ∧ ∀ found ∈ account.found, found.freesForeign t = false

theorem clears_of_admit (none : account.wmeta = none) (lost : account.Lost .slotUpdateFailed)
    (tallied : account.Tallied 0) : account.Clears t ↔ account.Clearable t := by
  obtain ⟨entry, entry', before, after, readOnly, _, kept⟩ := lost
  obtain ⟨length, counted⟩ := tallied
  rw [List.length_eq_zero_iff] at length
  rw [length] at counted
  constructor
  · intro clears
    have same : entry' = entry := by
      have entries := clears.1
      rw [before, after] at entries
      exact Option.some.inj entries
    exact ⟨entry, before, .inl ⟨none, by rw [← same, readOnly, none]⟩⟩
  · rintro ⟨found, present, ⟨_, wmetaIdx⟩ | ⟨some, _⟩⟩
    · rw [before] at present
      obtain rfl := Option.some.inj present
      have same : entry' = entry := kept (by rw [wmetaIdx, none])
      have noRecord : account.reserved = 0 := by simp [Account.reserved, none]
      refine ⟨by rw [before, after, same], ?_, ?_, ?_⟩
      · rw [length, noRecord]
        rfl
      · rw [counted, noRecord]
        rfl
      · rw [length]
        simp
    · exact absurd none some

theorem not_clears_of_update (reserved : account.wmeta ≠ none)
    (lost : account.Lost .slotUpdateFailed) (tallied : account.Tallied 1) :
    account.Clears t ↔ account.Clearable t := by
  obtain ⟨entry, entry', before, after, written, found, _⟩ := lost
  have readOnly : entry.wmetaIdx = none := found.resolve_left reserved
  refine iff_of_false (fun clears => ?_) ?_
  · have entries := clears.1
    rw [before, after] at entries
    rw [Option.some.inj entries, readOnly] at written
    exact reserved written.symm
  · rintro ⟨_, _, ⟨none, _⟩ | ⟨_, _, first, second, two, _⟩⟩
    · exact reserved none
    · have length := tallied.1
      rw [two] at length
      cases length

/-- A call counts a free record, frees one, or fails. -/
theorem recycling_cases (t : Nat) (found : Recycling) :
    (found.counts = true ∧ found.freesOwn t = false ∧ found.freesForeign t = false ∧
      found.fails = false) ∨
    (found.counts = true ∧ found.freesOwn t = true ∧ found.freesForeign t = false ∧
      found.fails = false) ∨
    (found.counts = true ∧ found.freesOwn t = false ∧ found.freesForeign t = true ∧
      found.fails = false) ∨
    (found.counts = false ∧ found.freesOwn t = false ∧ found.freesForeign t = false ∧
      found.fails = true) := by
  unfold Recycling.counts Recycling.freesOwn Recycling.freesForeign Recycling.fails Recycling.frees
  by_cases own : found.owner = some t <;> simp only [own, ne_eq, not_true, not_false_iff,
    decide_true, decide_false] <;> cases found.word.isFree <;> cases found.word.isLocked <;>
    cases found.swapped <;> decide

theorem clears_of_recycleTwice (lost : account.Lost .slotWmetaUpdateFailed)
    (tallied : account.Tallied 2) : account.Clears t ↔ account.Clearable t := by
  obtain ⟨entry, before, reserved, readWrite, same⟩ := lost
  obtain ⟨length, counted⟩ := tallied
  obtain ⟨first, second, two⟩ := List.length_eq_two.mp length
  have one : account.reserved = 1 := by simp [Account.reserved, Option.isSome_iff_ne_none, reserved]
  have records : account.Clears t ↔ (first.freesOwn t = true ∧ second.fails = true) ∨
      (first.fails = true ∧ second.freesOwn t = true) := by
    rw [Account.Clears, counted, one, two, and_iff_right same]
    simp only [List.countP_cons, List.countP_nil, List.forall_mem_cons]
    rcases recycling_cases t first with kind | kind | kind | kind <;>
      rcases recycling_cases t second with kind' | kind' | kind' | kind' <;>
      simp [kind, kind']
  rw [records]
  constructor
  · exact fun found => ⟨entry, before, .inr ⟨reserved, readWrite, first, second, two, found⟩⟩
  · rintro ⟨_, _, ⟨none, _⟩ | ⟨_, _, first', second', two', found⟩⟩
    · exact absurd none reserved
    · rw [two] at two'
      cases two'
      exact found

omit [BlockKey Key] in
theorem clears_iff {slot : Nat}
    (accounted : (Pc.createRecycleNode slot : Pc Key nodes).Accounted account) :
    account.Clears t ↔ account.Clearable t := by
  rcases accounted with ⟨none, lost, tallied⟩ | ⟨reserved, lost, tallied⟩ | ⟨lost, tallied⟩
  · exact clears_of_admit none lost tallied
  · exact not_clears_of_update reserved lost tallied
  · exact clears_of_recycleTwice lost tallied

end

theorem reinitialized_afterCreate (call : Call Key) :
    (call.afterCreate cfg).reinitialized = none := by
  unfold Call.afterCreate
  repeat' split
  all_goals rfl

theorem written_afterCreate (call : Call Key) : (call.afterCreate cfg).written = none := by
  unfold Call.afterCreate
  repeat' split
  all_goals rfl

/-- **A failed admission is undone** exactly if nothing stood in its way that its own steps
cannot undo. -/
theorem failed_admission_undone {s s' : AdmissionState cfg} {t slot choice : Nat}
    (reached : (admissionSystem cfg).ReachableWhere (fun _ e => e.named = true) s)
    (returning : (s.base.threads t).pc = .createRecycleNode slot)
    (taken : (admissionSystem cfg).step s (.thread t choice) = some s') :
    Undone s s' t slot ↔ Recoverable s t choice := by
  have inv : AdmissionInv s :=
    reached.invariant (fun _ start => admissionInv_initial start) admissionInv_step
  have accounted := inv.accounted t
  have held : (s.base.threads t).pc.slotHeld = some slot := by rw [returning]; rfl
  have clean := inv.clean t slot (by rw [returning]; rfl)
  rw [returning] at accounted
  obtain ⟨base, stepped, rfl⟩ := Option.map_eq_some_iff.mp taken
  obtain ⟨instr, shared, reply, fetched, acted, rfl⟩ := step_thread stepped
  rw [returning] at fetched
  cases fetched
  cases acted
  have clears := clears_iff (t := t) accounted
  constructor
  · intro undone
    refine ⟨?_, clears.mp ⟨undone.entry, undone.released, undone.counted, undone.records⟩⟩
    by_contra fails
    have free := undone.free
    simp [fails, (inv.slots.held t slot held).1] at free
  · rintro ⟨rfl, clearable⟩
    obtain ⟨entry, released, counted, records⟩ := clears.mpr clearable
    refine ⟨entry, by simp, ?_, released, counted, records, ?_, ?_⟩
    · simp [setDirty, returning, Pc.givesBack, reinitialized_afterCreate, written_afterCreate,
        clean]
    · intro t' other held'
      exact other (inv.slots.unique t' t slot held' held)
    · intro key present
      rw [latest, cxlSlot_stateAt] at present
      exact (inv.slots.held t slot held).2 key present

end

/-! ### Two races -/

section

def Pc.givesSlot {Key : Type} {nodes : Nat} : Pc Key nodes → Option Nat
  | .createRecycleNode slot => some slot
  | _ => none

theorem eq_createRecycleNode {Key : Type} {nodes slot : Nat} {pc : Pc Key nodes}
    (gives : pc.givesSlot = some slot) : pc = .createRecycleNode slot := by
  cases pc <;> cases gives
  rfl

def admissionStart : AdmissionState onePool :=
  ⟨start, fun _ => false, fun _ => none, fun _ => ⟨none, none, none, [], 0⟩⟩

theorem initial_admissionStart : (admissionSystem onePool).init admissionStart :=
  ⟨initial_start, fun _ => rfl, fun _ => rfl⟩

/-- `CreateEntry` of thread 0 loses to an `Admit` and is about to return. -/
def putLost (s : AdmissionState onePool) : Bool :=
  (s.base.threads 0).pc.givesSlot = some 0 &&
    ((s.account 0).before.map GCDEntry.wmetaIdx = some none &&
      (s.account 0).after.map GCDEntry.wmetaIdx = some (some 0)) &&
    ((admissionSystem onePool).step s (.thread 0 0)).isSome

/-- The entry that another thread has inserted is left with the record of the failed call. -/
theorem entry_changed_putAgainstRead :
    ∃ s s', (admissionSystem onePool).Reachable s ∧
      (s.base.threads 0).pc = .createRecycleNode 0 ∧
      (admissionSystem onePool).step s (.thread 0 0) = some s' ∧ ¬ Undone s s' 0 0 := by
  obtain ⟨s, reached, lost⟩ := System.exists_reachable_of_run (admissionSystem onePool)
    initial_admissionStart putAgainstRead putLost (by decide +kernel)
  simp only [putLost, Bool.and_eq_true, decide_eq_true_eq, Option.isSome_iff_exists] at lost
  obtain ⟨⟨gives, before, after⟩, s', taken⟩ := lost
  refine ⟨s, s', reached, eq_createRecycleNode gives, taken, fun undone => ?_⟩
  rw [undone.entry, before] at after
  cases after

/-- Two `Read` of the same missing page; thread 0 inserts second. -/
def readAgainstRead : List (Event BlockId) :=
  [.start 0 (readCall .read 1)] ++ steps 6 0 0 ++ [.start 1 (readCall .read 1)] ++ steps 7 1 1 ++
  steps 1 0 0 ++ catchUp 2 0 ++ steps 1 0 0

/-- `Admit` of thread 0 has found a read-only entry and is about to return. -/
def readLost (s : AdmissionState onePool) : Bool :=
  (s.base.threads 0).pc.givesSlot = some 0 &&
    ((s.account 0).wmeta = none && (s.account 0).before.map GCDEntry.wmetaIdx = some none) &&
    ((admissionSystem onePool).step s (.thread 0 0)).isSome

theorem failed_admission_undone_readAgainstRead :
    ∃ s s', (admissionSystem onePool).ReachableWhere (fun _ e => e.named = true) s ∧
      (s.base.threads 0).pc = .createRecycleNode 0 ∧
      (admissionSystem onePool).step s (.thread 0 0) = some s' ∧
      Recoverable s 0 0 ∧ Undone s s' 0 0 := by
  obtain ⟨s, reached, lost⟩ := System.exists_reachableWhere_of_run
    (.of_sound (admissionSystem onePool) (fun _ e => e.named) fun _ _ passes => passes)
    initial_admissionStart readAgainstRead readLost (by decide +kernel)
  simp only [readLost, Bool.and_eq_true, decide_eq_true_eq, Option.isSome_iff_exists,
    Option.map_eq_some_iff] at lost
  obtain ⟨⟨gives, none, entry, before, readOnly⟩, s', taken⟩ := lost
  have recoverable : Recoverable s 0 0 := ⟨rfl, entry, before, .inl ⟨none, readOnly⟩⟩
  have returning := eq_createRecycleNode gives
  exact ⟨s, s', reached, returning, taken, recoverable,
    (failed_admission_undone reached returning taken).mpr recoverable⟩

end

end Megalon.Protocol
