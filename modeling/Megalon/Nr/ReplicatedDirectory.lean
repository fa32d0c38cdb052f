import Megalon.Nr.Linearizable

/-!
Contract: the global cache directory of all hosts, `NrHashMapFFi` behind node replication.

Owns: that the hosts agree on who has created a page and in which slot.

Does not own: the order in which calls take effect, and the single operations.
-/

namespace Megalon.Nr

open Foundations Index

/-- Every host starts with the empty directory. -/
def directoryConfig (geometry : Log.Geometry) (slots : Slots) (nodes : Nat) :
    Config (Directory BlockId nodes) BlockId (Modify BlockId nodes)
      (Option (GCDResponse BlockId nodes)) :=
  ⟨geometry, directoryDispatch nodes, slots, fun _ => none⟩

abbrev DirectoryState (nodes : Nat) :=
  State (Directory BlockId nodes) BlockId (Modify BlockId nodes)
    (Option (GCDResponse BlockId nodes))

section

variable {nodes : Nat} {d : Directory BlockId nodes} {key : BlockId} {slot slot' : Nat}
  {wmeta : Option Nat}

/-- `CheckAndInsert` of a CXL copy. -/
abbrev createsPage (key : BlockId) (slot : Nat) (wmeta : Option Nat) : Modify BlockId nodes :=
  .checkPutArrayWmeta key (some slot) sharedCacheNode wmeta

/-- Call `k` of thread `t` was a `CheckAndInsert` that has returned `NO_ERROR`. -/
def Created (s : DirectoryState nodes) (t : Thread) (k : Nat) (key : BlockId) (slot : Nat) : Prop :=
  1 ≤ t.tid ∧ ∃ wmeta resp, (s.issued t)[k]? = some (createsPage key slot wmeta) ∧
    (s.received t)[k]? = some resp ∧ checkAndInsertCode resp = .noError

theorem cxlSlot_of_noError
    (won : checkAndInsertCode (respond d (createsPage key slot wmeta)) = .noError) :
    cxlSlot (d key) = none ∧ cxlSlot (applyOp d (createsPage key slot wmeta) key) = some slot := by
  simp only [respond, applyOp, dispatchMut, checkPutArrayWmeta] at won ⊢
  cases found : d key with
  | none => simp [stored, Directory.insert, cxlSlot, GCDEntry.setWmeta, initGcdEntry, numaMem]
  | some entry =>
    simp only [found] at won ⊢
    by_cases absent : (entry.cnArray sharedCacheNode).cnIdx = none
    · refine ⟨by rw [cxlSlot, Option.bind_some, absent], ?_⟩
      by_cases invalid : (entry.cnArray sharedCacheNode).invalidate = true
      · simp [absent, invalid, checkAndInsertCode] at won
      · simp [absent, invalid, stored, Directory.insert, cxlSlot, GCDEntry.setWmeta,
          GCDEntry.setCn, numaMem]
    · by_cases clears : wmeta = none ∨ entry.wmetaIdx = none
      · simp [absent, clears, numaMem, checkAndInsertCode] at won
      · simp [absent, clears, numaMem, checkAndInsertCode] at won

variable (cfg : Config (Directory BlockId nodes) BlockId (Modify BlockId nodes)
  (Option (GCDResponse BlockId nodes))) (s : DirectoryState nodes)

/-- Some operation in this part of the log gives the page another slot, or none. -/
def SlotChanges (key : BlockId) (i n : Nat) : Prop :=
  ∃ j, i ≤ j ∧ j < n ∧ cxlSlot (s.dataAt cfg (j + 1) key) ≠ cxlSlot (s.dataAt cfg j key)

variable {cfg s}

theorem cxlSlot_or_changes {i n : Nat} (before : i ≤ n) :
    cxlSlot (s.dataAt cfg n key) = cxlSlot (s.dataAt cfg i key) ∨ SlotChanges cfg s key i n := by
  induction n, before using Nat.le_induction with
  | base => exact .inl rfl
  | succ n before ih =>
    by_cases same : cxlSlot (s.dataAt cfg (n + 1) key) = cxlSlot (s.dataAt cfg n key)
    · rcases ih with kept | ⟨j, low, high, changed⟩
      · exact .inl (same.trans kept)
      · exact .inr ⟨j, low, high.trans n.lt_succ_self, changed⟩
    · exact .inr ⟨n, before, n.lt_succ_self, same⟩

variable (cfg s) (s' : DirectoryState nodes)

/-- Of two successful `CheckAndInsert` calls for one page the first one in the log is followed
by an operation that takes its slot away. A lookup that is called, on any host, after such a
call has returned in `s` finds the page in the slot of the call, unless an operation in
between has changed it. -/
structure PagesAgree : Prop where
  once : ∀ t k t' k' key slot slot', Created s t k key slot → Created s t' k' key slot' →
    (t, k) = (t', k') ∨ ∃ i j, (s.EntryAt t k i ∧ s.EntryAt t' k' j ∨
      s.EntryAt t' k' i ∧ s.EntryAt t k j) ∧ i < j ∧ SlotChanges cfg s key (i + 1) j
  found : ∀ t k key slot t' l locked n, Created s t k key slot → s.pc t' = .idle →
    s'.pc t' = .reading l locked n → l.op = key → ∃ i, s'.EntryAt t k i ∧ i < n ∧
      (responseCnIdx (dispatch (s'.dataAt cfg n) key) = some slot ∨
        SlotChanges cfg s' key (i + 1) n)

end

section

variable {nodes : Nat} {geometry : Log.Geometry} {slots : Slots} {s s' : DirectoryState nodes}
  {t t' : Thread} {k k' : Nat} {key : BlockId} {slot slot' : Nat}

section

variable (reached : (replicaSystem (directoryConfig geometry slots nodes)).ReachableWhere Regular s)

include reached

theorem slot_of_created (created : Created s t k key slot) : ∃ i, s.EntryAt t k i ∧
      cxlSlot (s.dataAt (directoryConfig geometry slots nodes) i key) = none ∧
      cxlSlot (s.dataAt (directoryConfig geometry slots nodes) (i + 1) key) = some slot := by
  obtain ⟨token, wmeta, resp, issued, received, code⟩ := created
  obtain ⟨i, op, called, entry, response⟩ :=
    (sequential_of_reachable reached).updates t k resp token received
  rw [issued] at called
  cases called
  rw [response] at code
  obtain ⟨absent, present⟩ := cxlSlot_of_noError code
  refine ⟨i, ⟨_, entry⟩, absent, ?_⟩
  rw [State.dataAt, List.take_add_one, entry, Option.toList_some, List.foldl_append]
  exact present

theorem changes_of_created_twice
    (created : Created s t k key slot) (again : Created s t' k' key slot') {i j : Nat}
    (entry : s.EntryAt t k i) (entry' : s.EntryAt t' k' j) (before : i < j) :
    SlotChanges (directoryConfig geometry slots nodes) s key (i + 1) j := by
  have once := (sequential_of_reachable reached).once
  obtain ⟨i', found, _, present⟩ := slot_of_created reached created
  obtain ⟨j', found', absent, _⟩ := slot_of_created reached again
  obtain rfl := once t k i i' entry found
  obtain rfl := once t' k' j j' entry' found'
  refine (cxlSlot_or_changes before).resolve_left fun same => ?_
  rw [absent, present] at same
  cases same

end

theorem responseCnIdx_dispatch (d : Directory BlockId nodes) :
    responseCnIdx (dispatch d key) = cxlSlot (d key) := by
  unfold dispatch
  cases d key <;> rfl

theorem call_of_entryAt {i : Nat} (entry : s.EntryAt t k i) (entry' : s.EntryAt t' k' i) :
    (t, k) = (t', k') := by
  obtain ⟨op, entry⟩ := entry
  obtain ⟨op', entry'⟩ := entry'
  obtain ⟨q, tid⟩ := t
  obtain ⟨q', tid'⟩ := t'
  cases entry.symm.trans entry'
  rfl

/-- **The hosts agree on their pages.** -/
theorem created_pages_agree
    {trace : List (DirectoryState nodes × ReplicaEvent BlockId (Modify BlockId nodes))}
    (reached : (replicaSystem (directoryConfig geometry slots nodes)).ReachableWhere Regular s)
    (segment : (replicaSystem (directoryConfig geometry slots nodes)).Segment Regular s trace s') :
    PagesAgree (directoryConfig geometry slots nodes) s s' := by
  constructor
  · intro t k t' k' key slot slot' created again
    obtain ⟨i, entry, _⟩ := slot_of_created reached created
    obtain ⟨j, entry', _⟩ := slot_of_created reached again
    rcases lt_trichotomy i j with before | rfl | after
    · exact .inr ⟨i, j, .inl ⟨entry, entry'⟩, before,
        changes_of_created_twice reached created again entry entry' before⟩
    · exact .inl (call_of_entryAt entry entry')
    · exact .inr ⟨j, i, .inr ⟨entry', entry⟩, after,
        changes_of_created_twice reached again created entry' entry after⟩
  · intro t k key slot t' l locked n created idle reading looked
    obtain ⟨i, entry, _, present⟩ := slot_of_created reached created
    obtain ⟨token, _, _, _, received, _⟩ := created
    have grows := grows_of_segment reached segment
    have later := entryAt_mono grows entry
    have calls := (calls_or_idle segment idle).resolve_right (by simp [reading])
    have below := (realTime_of_segment reached segment).update_lookup t k i t' l locked n token
      (List.getElem?_eq_some_iff.mp received).1 later calls reading
    refine ⟨i, later, below, (cxlSlot_or_changes below).imp_left fun same => ?_⟩
    obtain ⟨op, entry⟩ := entry
    rw [responseCnIdx_dispatch, same, dataAt_mono grows (List.getElem?_eq_some_iff.mp entry).1]
    exact present

end

/-- The lookup of a thread inside its read section: the key, and the operations it has seen. -/
def lookupAt (s : DirectoryState 1) (t : Thread) : Option (BlockId × Nat) :=
  match s.pc t with
  | .reading l _ seen => some (l.op, seen)
  | _ => none

/-- A thread of host 0 creates a page in slot 7, and then one of host 1 looks it up. -/
theorem created_pages_agree_twoHosts :
    ∃ s trace s', (replicaSystem (directoryConfig Log.twoReplicas pageSlots 1)).ReachableWhere
        Regular s ∧
      (replicaSystem (directoryConfig Log.twoReplicas pageSlots 1)).Segment Regular s trace s' ∧
      ((s.received ⟨0, 1⟩).map checkAndInsertCode = [.noError] ∧
        (s.pc ⟨1, 1⟩).isIdle = true ∧ lookupAt s' ⟨1, 1⟩ = some (firstKey, 1) ∧
        cxlSlot ((s'.replicas 1).data firstKey) = some 7) ∧
      PagesAgree (directoryConfig Log.twoReplicas pageSlots 1) s s' := by
  obtain ⟨s₀, s, trace, s', reached, meets, taken, segment, evaluated⟩ :=
    System.exists_segment_of_runThenTrace
      (regular_tests (directoryConfig Log.twoReplicas pageSlots 1) [⟨0, 1⟩, ⟨1, 1⟩]) rfl
      ([.register 0, .start ⟨0, 1⟩ (.executeMut (createsPage firstKey 7 none))] ++
        List.replicate 43 (.step ⟨0, 1⟩ true)) (.step ⟨0, 1⟩ true)
      ([.register 1, .start ⟨1, 1⟩ (.execute firstKey false)] ++
        List.replicate 44 (.step ⟨1, 1⟩ true))
      (fun _ s _ s' => decide ((s.received ⟨0, 1⟩).map checkAndInsertCode = [.noError] ∧
        (s.pc ⟨1, 1⟩).isIdle = true ∧ lookupAt s' ⟨1, 1⟩ = some (firstKey, 1) ∧
        cxlSlot ((s'.replicas 1).data firstKey) = some 7))
      (by decide +kernel)
  have before := reached.step meets taken
  exact ⟨s, trace, s', before, segment, of_decide_eq_true evaluated,
    created_pages_agree before segment⟩

end Megalon.Nr
