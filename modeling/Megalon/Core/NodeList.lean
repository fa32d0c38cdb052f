import Mathlib.Algebra.Ring.Nat
import Mathlib.Data.Fintype.Card
import Mathlib.Data.List.FinRange
import Mathlib.Tactic.Simps.Basic
import Megalon.Foundations.LinkedList

/-!
Contract: the array of nodes under `LruPolicy` (`lru_policy.cc`) and `LocalPageList`
(`local_pages.cc`), whose nodes are in a doubly linked list or in a singly linked free list.

Owns: the pointer assignments the two classes share, and the invariant that relates the pointers
to the nodes of the two lists.

Does not own: who calls what, and the locks. What is between two locks is one call here.

A node is its index in `nodes_`, and `none` is the null pointer.
-/

namespace Megalon.Core

open Function Foundations

/-- `max_elements_`. -/
structure ListSize where
  max : Nat
  positive : 0 < max
  bounded : max < 2 ^ 64

structure NodeList (n : Nat) where
  head : Option (Fin n)
  tail : Option (Fin n)
  freeList : Option (Fin n)
  prev : Fin n → Option (Fin n)
  next : Fin n → Option (Fin n)
  count : BitVec 64
  freeCount : BitVec 64

namespace NodeList

section

variable {n : Nat}

@[simps]
def setPrev (s : NodeList n) (x : Fin n) (value : Option (Fin n)) : NodeList n :=
  { s with prev := update s.prev x value }

@[simps]
def setNext (s : NodeList n) (x : Fin n) (value : Option (Fin n)) : NodeList n :=
  { s with next := update s.next x value }

/-- After the constructor and `Initialize`: every node is free, linked in the order of the
array. -/
def initialized (size : ListSize) : NodeList size.max where
  head := none
  tail := none
  freeList := some ⟨0, size.positive⟩
  prev _ := none
  next i := if below : i.val + 1 < size.max then some ⟨i.val + 1, below⟩ else none
  count := 0#64
  freeCount := BitVec.ofNat 64 size.max

def isFullLocked (s : NodeList n) : Bool := decide (n ≤ s.count.toNat)

/-- `ReserveCacheNode` and `ReserveListNode`. -/
def reserve (s : NodeList n) : NodeList n × Option (Fin n) :=
  match s.freeList with
  | none => (s, none)
  | some out =>
    ({ s with freeList := s.next out, freeCount := s.freeCount - 1#64 }.setNext out none,
      some out)

/-- The end of both `Insert`s. The pointer to the last node is read when there is a first one;
`none` if it is null. -/
def append (s : NodeList n) (inserted : Fin n) : Option (NodeList n) := do
  let s := { s with count := s.count + 1#64 }
  let s ← match s.head, s.tail with
    | none, _ => some { s with head := some inserted }
    | some _, some last => some ((s.setNext last (some inserted)).setPrev inserted (some last))
    | some _, none => none
  return { s with tail := some inserted }.setNext inserted none

def evictLocked (s : NodeList n) (pn : Fin n) : NodeList n :=
  let s := match s.prev pn, s.next pn with
    | none, none => { s with head := none, tail := none }
    | none, some first => { s with head := some first }.setPrev first none
    | some last, none => { s with tail := some last }.setNext last none
    | some before, some after => (s.setNext before (some after)).setPrev after (some before)
  ({ s with count := s.count - 1#64 }.setNext pn none).setPrev pn none

/-- `RecycleCacheNodeLocked` and `RecycleListNodeLocked`. -/
def recycleLocked (s : NodeList n) (pn : Fin n) : NodeList n :=
  { (s.setNext pn s.freeList).setPrev pn none with
    freeList := some pn, freeCount := s.freeCount + 1#64 }

/-- `RecycleCacheNodeBulkLocked` and `RecycleListNodeBulkLocked`. -/
def recycleBulkLocked (s : NodeList n) (head tail : Fin n) : NodeList n :=
  { (s.setNext tail s.freeList).setPrev head none with freeList := some head }

end

/-! ### The nodes of the two lists -/

section

variable {n : Nat}

/-- `listed` are the nodes of the doubly linked list, in its order, and `free` those of the free
list. A node that is not in the list has no `prev`. -/
structure Represents (s : NodeList n) (listed free : List (Fin n)) : Prop where
  linked : Linked s.prev s.next none listed none
  head : s.head = listed.head?
  tail : s.tail = listed.getLast?
  chained : Chained s.next free
  freeList : s.freeList = free.head?
  nodup : (listed ++ free).Nodup
  unlinked : ∀ x, x ∉ listed → s.prev x = none
  count : s.count = BitVec.ofNat 64 listed.length
  freeCount : s.freeCount = BitVec.ofNat 64 free.length

variable {s : NodeList n} {listed free : List (Fin n)} {x : Fin n}

section

variable (inv : s.Represents listed free)

include inv

theorem Represents.nodup_listed : listed.Nodup :=
  (List.nodup_append.mp inv.nodup).1

theorem Represents.disjoint (member : x ∈ listed) : x ∉ free :=
  fun other => (List.nodup_append.mp inv.nodup).2.2 x member x other rfl

theorem Represents.length_le : listed.length + free.length ≤ n := by
  have bound := inv.nodup.length_le_card
  rwa [List.length_append, Fintype.card_fin] at bound

theorem Represents.count_toNat (small : n < 2 ^ 64) : s.count.toNat = listed.length := by
  have bound := inv.length_le
  rw [inv.count, BitVec.toNat_ofNat, Nat.mod_eq_of_lt (by omega)]

theorem Represents.freeCount_toNat (small : n < 2 ^ 64) : s.freeCount.toNat = free.length := by
  have bound := inv.length_le
  rw [inv.freeCount, BitVec.toNat_ofNat, Nat.mod_eq_of_lt (by omega)]

theorem Represents.not_full (small : n < 2 ^ 64)
    (outside : x ∉ listed) : s.isFullLocked = false := by
  have bound := (List.nodup_cons.mpr ⟨outside, inv.nodup_listed⟩).length_le_card
  rw [List.length_cons, Fintype.card_fin] at bound
  rw [isFullLocked, inv.count_toNat small]
  exact decide_eq_false (by omega)

end

theorem chained_drop (size : ListSize) (left i : Nat) (rounds : i + left = size.max) :
    Chained (initialized size).next ((List.finRange size.max).drop i) := by
  induction left generalizing i with
  | zero =>
    have last : (List.finRange size.max).length ≤ i := by simp; omega
    rw [List.drop_of_length_le last]
    trivial
  | succ left ih =>
    have below : i < (List.finRange size.max).length := by simp; omega
    rw [List.drop_eq_getElem_cons below]
    refine ⟨?_, ih (i + 1) (by omega)⟩
    rw [List.head?_drop]
    by_cases more : i + 1 < size.max
    · simp [initialized, more]
    · simp [initialized, more]

theorem represents_initialized (size : ListSize) :
    (initialized size).Represents [] (List.finRange size.max) where
  linked := trivial
  head := rfl
  tail := rfl
  chained := by simpa using chained_drop size size.max 0 (Nat.zero_add _)
  freeList := by
    rw [List.head?_eq_getElem?]
    simp [initialized, size.positive]
  nodup := by simpa using List.nodup_finRange size.max
  unlinked _ _ := rfl
  count := rfl
  freeCount := by simp [initialized]

/-! ### What the calls do to the two lists -/

theorem ofNat_add_one (k : Nat) : BitVec.ofNat 64 k + 1#64 = BitVec.ofNat 64 (k + 1) := by
  rw [BitVec.ofNat_add]

theorem ofNat_succ_sub_one (k : Nat) : BitVec.ofNat 64 (k + 1) - 1#64 = BitVec.ofNat 64 k := by
  rw [← ofNat_add_one, BitVec.add_sub_cancel]

theorem Represents.setNext (inv : s.Represents listed free) (unlisted : x ∉ listed)
    (taken : x ∉ free) (value : Option (Fin n)) : (s.setNext x value).Represents listed free where
  linked := inv.linked.congr fun y member => by
    have other : y ≠ x := fun same => unlisted (same ▸ member)
    simp [other]
  head := inv.head
  tail := inv.tail
  chained := inv.chained.congr fun y member => by
    have other : y ≠ x := fun same => taken (same ▸ member)
    simp [other]
  freeList := inv.freeList
  nodup := inv.nodup
  unlinked := inv.unlinked
  count := inv.count
  freeCount := inv.freeCount

theorem Represents.setPrev_none (inv : s.Represents listed free) (unlisted : x ∉ listed) :
    s.setPrev x none = s := by
  rw [NodeList.setPrev, ← inv.unlinked x unlisted, update_eq_self]

theorem Represents.reserve_empty (inv : s.Represents listed []) : s.reserve = (s, none) := by
  have null : s.freeList = none := inv.freeList
  rw [reserve, null]

theorem Represents.reserve (inv : s.Represents listed (x :: free)) :
    s.reserve.2 = some x ∧ s.reserve.1.Represents listed free := by
  have first : s.freeList = some x := inv.freeList
  have nodup := List.nodup_middle.mp inv.nodup
  rw [List.nodup_cons, List.mem_append, not_or] at nodup
  obtain ⟨⟨unlisted, taken⟩, rest⟩ := nodup
  have popped : ({ s with freeList := s.next x, freeCount := s.freeCount - 1#64 } :
      NodeList n).Represents listed free := by
    refine ⟨inv.linked, inv.head, inv.tail, inv.chained.2, inv.chained.1, rest, inv.unlinked,
      inv.count, ?_⟩
    rw [inv.freeCount, List.length_cons, ofNat_succ_sub_one]
  rw [NodeList.reserve, first]
  exact ⟨rfl, popped.setNext unlisted taken none⟩

theorem Represents.recycleLocked (inv : s.Represents listed free) (unlisted : x ∉ listed)
    (taken : x ∉ free) : (s.recycleLocked x).Represents listed (x :: free) := by
  have pushed := inv.setNext unlisted taken s.freeList
  rw [NodeList.recycleLocked, pushed.setPrev_none unlisted]
  refine ⟨pushed.linked, pushed.head, pushed.tail, ⟨?_, pushed.chained⟩, rfl, ?_,
    pushed.unlinked, pushed.count, ?_⟩
  · simp [inv.freeList]
  · rw [List.nodup_middle, List.nodup_cons, List.mem_append, not_or]
    exact ⟨⟨unlisted, taken⟩, inv.nodup⟩
  · rw [inv.freeCount, ofNat_add_one, List.length_cons]

theorem Represents.append_eq (inv : s.Represents listed free) (unlisted : x ∉ listed) :
    s.append x = some
      { s with
        head := (listed ++ [x]).head?
        tail := some x
        prev := update s.prev x listed.getLast?
        next := update (assignAt s.next listed.getLast? (some x)) x none
        count := s.count + 1#64 } := by
  rcases List.eq_nil_or_concat' listed with rfl | ⟨front, z, rfl⟩
  · have head : s.head = none := inv.head
    have alone : update s.prev x none = s.prev := by
      rw [← inv.unlinked x unlisted, update_eq_self]
    simp [NodeList.append, head, assignAt, NodeList.setNext, alone]
  · have head : s.head = some (front.head?.getD z) := by simp [inv.head]
    have tail : s.tail = some z := by simp [inv.tail]
    simp [NodeList.append, head, tail, assignAt, NodeList.setNext, NodeList.setPrev]

theorem Represents.append (inv : s.Represents listed free) (unlisted : x ∉ listed)
    (taken : x ∉ free) : ∃ s', s.append x = some s' ∧ s'.Represents (listed ++ [x]) free := by
  refine ⟨_, inv.append_eq unlisted, ?_⟩
  have nodup : (listed ++ [x]).Nodup := by
    rw [List.nodup_append_comm, List.singleton_append, List.nodup_cons]
    exact ⟨unlisted, inv.nodup_listed⟩
  have last : listed.getLast? ≠ some x := fun same => unlisted (List.mem_of_getLast? same)
  have front : Linked s.prev (update s.next x none) none listed none :=
    inv.linked.congr fun y member => by
      have other : y ≠ x := fun same => unlisted (same ▸ member)
      simp [other]
  have back : Linked s.prev (update s.next x none) (s.prev x) [x] none :=
    ⟨rfl, update_self .., trivial⟩
  have joined := front.join back nodup
  rw [assignAt_update last] at joined
  constructor
  case linked => exact joined
  case head => rfl
  case tail => simp
  case chained =>
    refine inv.chained.congr fun y member => ?_
    have other : y ≠ x := fun same => taken (same ▸ member)
    have apart : listed.getLast? ≠ some y :=
      fun same => inv.disjoint (List.mem_of_getLast? same) member
    simp [other, assignAt_of_ne apart]
  case freeList => exact inv.freeList
  case nodup =>
    rw [List.append_assoc, List.singleton_append, List.nodup_middle, List.nodup_cons,
      List.mem_append, not_or]
    exact ⟨⟨unlisted, taken⟩, inv.nodup⟩
  case unlinked =>
    intro y outside
    rw [List.mem_append, List.mem_singleton, not_or] at outside
    simp [outside.2, inv.unlinked y outside.1]
  case count => rw [inv.count, ofNat_add_one, List.length_append, List.length_singleton]
  case freeCount => exact inv.freeCount

theorem Represents.evictLocked_eq {l r : List (Fin n)} (inv : s.Represents (l ++ x :: r) free) :
    s.evictLocked x =
      { s with
        head := (l ++ r).head?
        tail := (l ++ r).getLast?
        prev := update (assignAt s.prev r.head? l.getLast?) x none
        next := update (assignAt s.next l.getLast? r.head?) x none
        count := s.count - 1#64 } := by
  obtain ⟨-, before, after, -⟩ := linked_append_cons.mp inv.linked
  have head := inv.head
  have tail := inv.tail
  rcases List.eq_nil_or_concat' l with rfl | ⟨front, z, rfl⟩
  · cases r with
    | nil => simp_all [NodeList.evictLocked, assignAt, NodeList.setNext, NodeList.setPrev]
    | cons y rest => simp_all [NodeList.evictLocked, assignAt, NodeList.setNext, NodeList.setPrev]
  · cases r with
    | nil => simp_all [NodeList.evictLocked, assignAt, NodeList.setNext, NodeList.setPrev]
    | cons y rest => simp_all [NodeList.evictLocked, assignAt, NodeList.setNext, NodeList.setPrev]

theorem Represents.evictLocked {l r : List (Fin n)} (inv : s.Represents (l ++ x :: r) free) :
    (s.evictLocked x).Represents (l ++ r) free := by
  obtain ⟨front, -, -, back⟩ := linked_append_cons.mp inv.linked
  have taken : x ∉ free := inv.disjoint (by simp)
  have nodup := List.nodup_middle.mp inv.nodup_listed
  obtain ⟨gone, nodup⟩ := List.nodup_cons.mp nodup
  have joined := front.join back nodup
  rw [inv.evictLocked_eq]
  constructor
  case linked =>
    refine joined.congr fun y member => ?_
    have other : y ≠ x := fun same => gone (same ▸ member)
    simp [other]
  case head => rfl
  case tail => rfl
  case chained =>
    refine inv.chained.congr fun y member => ?_
    have other : y ≠ x := fun same => taken (same ▸ member)
    have apart : l.getLast? ≠ some y :=
      fun same => inv.disjoint (List.mem_append_left _ (List.mem_of_getLast? same)) member
    simp [other, assignAt_of_ne apart]
  case freeList => exact inv.freeList
  case nodup =>
    have whole := inv.nodup
    rw [List.append_assoc, List.cons_append, List.nodup_middle, List.nodup_cons] at whole
    rw [List.append_assoc]
    exact whole.2
  case unlinked =>
    intro y outside
    by_cases here : y = x
    · simp [here]
    · have apart : r.head? ≠ some y :=
        fun same => outside (List.mem_append_right _ (List.mem_of_mem_head? same))
      have unlisted : y ∉ l ++ x :: r := by
        rw [List.mem_append, not_or] at outside
        simp [outside, here]
      simp [here, assignAt_of_ne apart, inv.unlinked y unlisted]
  case count =>
    have length : (l ++ x :: r).length = (l ++ r).length + 1 := by simp; omega
    rw [inv.count, length, ofNat_succ_sub_one]
  case freeCount => exact inv.freeCount

end

theorem mem_iff_update {n : Nat} {R : Type} {role : Fin n → R} {x : Fin n} {mine target : R}
    {before after : List (Fin n)} (members : ∀ y, y ∈ before ↔ role y = target)
    (member : x ∈ after ↔ mine = target) (others : ∀ y, y ≠ x → (y ∈ after ↔ y ∈ before))
    (y : Fin n) : y ∈ after ↔ update role x mine y = target := by
  by_cases here : y = x
  · subst here
    rwa [update_self]
  · rw [update_of_ne here, others y here]
    exact members y

end NodeList

def twoNodes : ListSize := ⟨2, Nat.two_pos, by decide⟩

end Megalon.Core
