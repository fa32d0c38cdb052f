import Megalon.Core.NodeList
import Megalon.Foundations.Transition

/-!
Contract: `LocalPageList` (`local_pages.cc`), used as its callers may: only listed nodes are
evicted, and only evicted nodes are recycled.

Owns: the calls, with the slot index in each node, what holds after every sequence of calls, and
when `Insert` has no node to write to.

Does not own: the eviction of the pages.
-/

namespace Megalon.Core

open Function Foundations

structure LocalPages (n : Nat) where
  list : NodeList n
  cnIndex : Fin n → BitVec 64

namespace LocalPages

/-! ### The calls -/

section

variable {n : Nat}

/-- `UINT64_MAX`. -/
def noIndex : BitVec 64 := BitVec.allOnes 64

def initialized (size : ListSize) : LocalPages size.max := ⟨.initialized size, fun _ => noIndex⟩

/-- `none` if a null pointer is dereferenced. The node is taken from the free list and written
to before the list is known to have room. -/
def insert (s : LocalPages n) (cnIdx : BitVec 64) : Option (LocalPages n × Bool) :=
  match s.list.reserve with
  | (_, none) => none
  | (list, some toInsert) =>
    let s := { list := list, cnIndex := update s.cnIndex toInsert cnIdx }
    if list.isFullLocked then some (s, false)
    else (list.append toInsert).map fun list => ({ s with list := list }, true)

def evictLocked (s : LocalPages n) (toEvict : Fin n) : LocalPages n where
  list := s.list.evictLocked toEvict
  cnIndex := update s.cnIndex toEvict noIndex

def recycleListNode (s : LocalPages n) (entry : Fin n) : LocalPages n :=
  { s with list := s.list.recycleLocked entry }

end

/-! ### Sequences of calls -/

inductive Role where
  | free
  | listed
  | evicted
  deriving DecidableEq, Repr

structure Run (n : Nat) where
  pages : LocalPages n
  role : Fin n → Role

inductive Call (n : Nat) where
  | insert (cnIdx : BitVec 64)
  | evictLocked (x : Fin n)
  | recycleListNode (x : Fin n)

section

variable {n : Nat}

def Run.moves (s : Run n) (x : Fin n) (role : Role) (pages : LocalPages n) : Run n :=
  ⟨pages, update s.role x role⟩

/-- An `Insert` that returns `true` has listed the node that was the first free one. A call that
is not allowed, or that dereferences a null pointer, is not a step. -/
def Run.step (s : Run n) : Call n → Option (Run n)
  | .insert cnIdx =>
    match s.pages.insert cnIdx, s.pages.list.freeList with
    | some (pages, true), some x => some (s.moves x .listed pages)
    | some (pages, _), _ => some { s with pages := pages }
    | none, _ => none
  | .evictLocked x =>
    if s.role x = .listed then some (s.moves x .evicted (s.pages.evictLocked x)) else none
  | .recycleListNode x =>
    if s.role x = .evicted then some (s.moves x .free (s.pages.recycleListNode x)) else none

end

def system (size : ListSize) : System (Run size.max) (Call size.max) where
  init s := s = ⟨.initialized size, fun _ => .free⟩
  step s call := s.step call

/-! ### What holds after every sequence of calls -/

section

variable {n : Nat} {s : Run n} {listed free : List (Fin n)} {x : Fin n} {cnIdx : BitVec 64}

/-- The lists are those of the nodes with the roles. -/
structure Inv (s : Run n) (listed free : List (Fin n)) : Prop where
  nodes : s.pages.list.Represents listed free
  members : ∀ x, x ∈ listed ↔ s.role x = .listed
  frees : ∀ x, x ∈ free ↔ s.role x = .free

theorem Inv.moves (inv : Inv s listed free) {pages : LocalPages n} {listed' free' : List (Fin n)}
    {role : Role} (nodes : pages.list.Represents listed' free')
    (member : x ∈ listed' ↔ role = .listed) (isFree : x ∈ free' ↔ role = .free)
    (others : ∀ y, y ≠ x → (y ∈ listed' ↔ y ∈ listed) ∧ (y ∈ free' ↔ y ∈ free)) :
    Inv (s.moves x role pages) listed' free' where
  nodes := nodes
  members := NodeList.mem_iff_update inv.members member fun y other => (others y other).1
  frees := NodeList.mem_iff_update inv.frees isFree fun y other => (others y other).2

theorem insert_represents {s : LocalPages n} (small : n < 2 ^ 64)
    (inv : s.list.Represents listed (x :: free)) (cnIdx : BitVec 64) :
    ∃ list, s.insert cnIdx =
        some (⟨list, update s.cnIndex x cnIdx⟩, true) ∧
      list.Represents (listed ++ [x]) free := by
  obtain ⟨out, after⟩ := inv.reserve
  have unlisted : x ∉ listed := fun member => inv.disjoint member (List.mem_cons_self ..)
  have fresh : x ∉ free :=
    (List.nodup_cons.mp (List.nodup_append.mp inv.nodup).2.1).1
  obtain ⟨list, appended, kept⟩ := after.append unlisted fresh
  refine ⟨list, ?_, kept⟩
  have reserved : s.list.reserve = (s.list.reserve.1, some x) := Prod.ext rfl out
  rw [insert, reserved]
  simp [after.not_full small unlisted, appended]

theorem insert_none {s : LocalPages n} (inv : s.list.Represents listed []) (cnIdx : BitVec 64) :
    s.insert cnIdx = none := by
  rw [insert, inv.reserve_empty]

theorem Inv.step (inv : Inv s listed free) (small : n < 2 ^ 64) {call : Call n} {s' : Run n}
    (stepped : s.step call = some s') : ∃ listed' free', Inv s' listed' free' := by
  cases call with
  | insert cnIdx =>
    cases free with
    | nil =>
      rw [Run.step, insert_none inv.nodes] at stepped
      cases stepped
    | cons x free =>
      have first : s.pages.list.freeList = some x := inv.nodes.freeList
      have fresh : x ∉ free :=
        (List.nodup_cons.mp (List.nodup_append.mp inv.nodes.nodup).2.1).1
      obtain ⟨list, inserted, after⟩ := insert_represents small inv.nodes cnIdx
      rw [Run.step, inserted, first] at stepped
      cases stepped
      refine ⟨listed ++ [x], free, inv.moves after (by simp) (by simpa using fresh) ?_⟩
      intro y other
      simp [other]
  | evictLocked x =>
    rw [Run.step] at stepped
    by_cases isListed : s.role x = .listed
    · rw [if_pos isListed] at stepped
      cases stepped
      have member : x ∈ listed := (inv.members x).mpr isListed
      obtain ⟨l, r, rfl⟩ := List.append_of_mem member
      have gone := (List.nodup_cons.mp (List.nodup_middle.mp inv.nodes.nodup_listed)).1
      have taken : x ∉ free := inv.nodes.disjoint member
      refine ⟨l ++ r, free, inv.moves inv.nodes.evictLocked (by simpa using gone)
        (by simpa using taken) ?_⟩
      intro y other
      simp [other]
    · rw [if_neg isListed] at stepped
      cases stepped
  | recycleListNode x =>
    rw [Run.step] at stepped
    by_cases evicted : s.role x = .evicted
    · rw [if_pos evicted] at stepped
      cases stepped
      have unlisted : x ∉ listed := fun member => by
        rw [(inv.members x).mp member] at evicted
        cases evicted
      have taken : x ∉ free := fun member => by
        rw [(inv.frees x).mp member] at evicted
        cases evicted
      refine ⟨listed, x :: free, inv.moves (inv.nodes.recycleLocked unlisted taken)
        (by simp [unlisted]) (by simp) ?_⟩
      intro y other
      simp [other]
    · rw [if_neg evicted] at stepped
      cases stepped

end

theorem inv_of_reachable (size : ListSize) {s : Run size.max}
    (reached : (system size).Reachable s) : ∃ listed free, Inv s listed free := by
  refine reached.invariant (P := fun s => ∃ listed free, Inv s listed free) ?_ ?_
  · rintro s rfl
    exact ⟨[], List.finRange size.max, NodeList.represents_initialized size, by simp, by simp⟩
  · rintro s call s' ⟨listed, free, inv⟩ stepped
    exact inv.step size.bounded stepped

/-- The lists the pointers stand for. A node in neither of them has been evicted. -/
structure Correct {n : Nat} (s : Run n) (listed free : List (Fin n)) : Prop where
  head : s.pages.list.head = listed.head?
  tail : s.pages.list.tail = listed.getLast?
  linked : Linked s.pages.list.prev s.pages.list.next none listed none
  freeList : s.pages.list.freeList = free.head?
  chained : Chained s.pages.list.next free
  nodup : (listed ++ free).Nodup
  members : ∀ x, x ∈ listed ↔ s.role x = .listed
  frees : ∀ x, x ∈ free ↔ s.role x = .free
  count : s.pages.list.count.toNat = listed.length
  freeCount : s.pages.list.freeCount.toNat = free.length

/-- `Insert` returns; the index is at the end of the list, or the lists and counts are what they
were. -/
def InsertSafe {n : Nat} (s : LocalPages n) (cnIdx : BitVec 64) : Prop :=
  ∃ after added, s.insert cnIdx = some (after, added) ∧
    if added then ∃ x, after.list.tail = some x ∧ after.cnIndex x = cnIdx
    else after.list = s.list

/-- **The lists are well formed, and `Insert` needs a free node.** -/
theorem local_pages_safe_iff (size : ListSize) {s : Run size.max}
    (reached : (system size).Reachable s) :
    (∃ listed free, Correct s listed free) ∧
      ∀ cnIdx, InsertSafe s.pages cnIdx ↔ s.pages.list.freeList ≠ none := by
  obtain ⟨listed, free, inv⟩ := inv_of_reachable size reached
  have nodes := inv.nodes
  refine ⟨⟨listed, free, nodes.head, nodes.tail, nodes.linked, nodes.freeList, nodes.chained,
    nodes.nodup, inv.members, inv.frees, nodes.count_toNat size.bounded,
    nodes.freeCount_toNat size.bounded⟩, fun cnIdx => ?_⟩
  rw [nodes.freeList]
  cases free with
  | nil =>
    refine iff_of_false ?_ (by simp)
    rintro ⟨after, added, inserted, -⟩
    rw [insert_none nodes] at inserted
    cases inserted
  | cons x free =>
    refine iff_of_true ?_ (by simp)
    obtain ⟨list, inserted, after⟩ := insert_represents size.bounded nodes cnIdx
    refine ⟨_, true, inserted, x, ?_, update_self ..⟩
    rw [after.tail, List.getLast?_concat]

/-! ### One and two nodes -/

/-- The first page is evicted and its node recycled: the next `Insert` takes it. -/
theorem local_pages_safe_recycled :
    ∃ s, (system twoNodes).Reachable s ∧ s.pages.list.count = 1 ∧
      (∃ listed free, Correct s listed free) ∧ InsertSafe s.pages 9#64 := by
  obtain ⟨s, reached, left⟩ := System.exists_reachable_of_run (system twoNodes) rfl
    [.insert 7#64, .insert 8#64, .evictLocked ⟨0, Nat.two_pos⟩, .recycleListNode ⟨0, Nat.two_pos⟩]
    (fun s => s.pages.list.count = 1 && s.pages.list.freeList.isSome) (by decide)
  simp only [Bool.and_eq_true, decide_eq_true_eq] at left
  have both := local_pages_safe_iff twoNodes reached
  exact ⟨s, reached, left.1, both.1, (both.2 9#64).mpr (Option.isSome_iff_ne_none.mp left.2)⟩

def oneNode : ListSize := ⟨1, Nat.one_pos, by decide⟩

/-- The second `Insert` writes its index through a null pointer. -/
theorem local_pages_not_safe_oneNode :
    ∃ s, (system oneNode).Reachable s ∧ s.pages.insert 8#64 = none ∧
      ¬InsertSafe s.pages 8#64 := by
  obtain ⟨s, reached, refused⟩ := System.exists_reachable_of_run (system oneNode) rfl
    [.insert 7#64] (fun s => (s.pages.insert 8#64).isNone) (by decide)
  have null := Option.isNone_iff_eq_none.mp refused
  refine ⟨s, reached, null, ?_⟩
  rintro ⟨after, added, inserted, -⟩
  rw [null] at inserted
  cases inserted

end LocalPages

end Megalon.Core
