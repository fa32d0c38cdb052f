import Mathlib.Data.List.Perm.Basic
import Mathlib.Data.List.Nodup
import Megalon.Core.NodeList
import Megalon.Foundations.Transition

/-!
Contract: `LruPolicy` (`lru_policy.cc`), used as its callers may: a node is reserved before it is
inserted, and only listed nodes are touched or evicted.

Owns: the calls, the role each node has for the callers, the order of the list, and what
recycling a chain of nodes at once leaves undone.

Does not own: the pages of the nodes.
-/

namespace Megalon.Core

open Function Foundations

/-- How a call ends: it returns, it waits for an eviction, or it dereferences a null pointer. -/
inductive Outcome (α : Type) where
  | done (value : α)
  | waits
  | nullDeref

def Outcome.map {α β : Type} (f : α → β) : Outcome α → Outcome β
  | .done value => .done (f value)
  | .waits => .waits
  | .nullDeref => .nullDeref

def Outcome.ofOption {α : Type} : Option α → Outcome α
  | some value => .done value
  | none => .nullDeref

namespace LruPolicy

/-! ### The calls -/

section

variable {n : Nat}

def reserveCacheNode (s : NodeList n) : NodeList n × Option (Fin n) := s.reserve

def insert (s : NodeList n) (inserted : Fin n) : Outcome (NodeList n) :=
  if s.isFullLocked then .waits else .ofOption (s.append inserted)

def touchLocked (s : NodeList n) (pn : Fin n) : Option (NodeList n) :=
  match s.next pn with
  | none => some s
  | some after => do
      let s := match s.prev pn with
        | none => { s with head := some after }.setPrev after none
        | some before => (s.setNext before (some after)).setPrev after (some before)
      let s ← match s.head, s.tail with
        | none, _ => some ({ s with head := some pn }.setPrev pn none)
        | some _, some last => some ((s.setNext last (some pn)).setPrev pn (some last))
        | some _, none => none
      return { s with tail := some pn }.setNext pn none

def evictLocked (s : NodeList n) (pn : Fin n) : NodeList n := s.evictLocked pn

def recycleCacheNodeLocked (s : NodeList n) (pn : Fin n) : NodeList n := s.recycleLocked pn

def recycleCacheNodeBulkLocked (s : NodeList n) (head tail : Fin n) : NodeList n :=
  s.recycleBulkLocked head tail

end

/-! ### Sequences of calls -/

/-- What a node is to the callers. -/
inductive Role where
  | free
  | reserved
  | listed
  | evicted
  deriving DecidableEq, Repr

/-- `used` is the time of the last insertion or touch of a node. -/
structure Run (n : Nat) where
  policy : NodeList n
  role : Fin n → Role
  used : Fin n → Nat
  clock : Nat

inductive Call (n : Nat) where
  | reserveCacheNode
  | insert (x : Fin n)
  | touch (x : Fin n)
  | evict (x : Fin n)
  | recycleCacheNode (x : Fin n)

section

variable {n : Nat}

def Run.allows (s : Run n) : Call n → Bool
  | .reserveCacheNode => true
  | .insert x => s.role x = .reserved
  | .touch x | .evict x => s.role x = .listed
  | .recycleCacheNode x => s.role x = .reserved || s.role x = .evicted

def Run.uses (s : Run n) (x : Fin n) (policy : NodeList n) : Run n where
  policy := policy
  role := update s.role x .listed
  used := update s.used x s.clock
  clock := s.clock + 1

def Run.moves (s : Run n) (x : Fin n) (role : Role) (policy : NodeList n) : Run n :=
  { s with policy := policy, role := update s.role x role }

def Run.call (s : Run n) : Call n → Outcome (Run n)
  | .reserveCacheNode =>
    match LruPolicy.reserveCacheNode s.policy with
    | (policy, some x) => .done (s.moves x .reserved policy)
    | (policy, none) => .done { s with policy := policy }
  | .insert x => (LruPolicy.insert s.policy x).map (s.uses x)
  | .touch x => (Outcome.ofOption (touchLocked s.policy x)).map (s.uses x)
  | .evict x => .done (s.moves x .evicted (evictLocked s.policy x))
  | .recycleCacheNode x => .done (s.moves x .free (recycleCacheNodeLocked s.policy x))

end

/-- After `Initialize`. -/
def Run.initial (size : ListSize) : Run size.max :=
  ⟨.initialized size, fun _ => .free, fun _ => 0, 0⟩

def system {n : Nat} (start : Run n) : System (Run n) (Call n) where
  init s := s = start
  step s call :=
    if s.allows call then
      match s.call call with
      | .done s' => some s'
      | .waits | .nullDeref => none
    else none

/-! ### Touching a node -/

section

variable {n : Nat} {s : NodeList n} {free : List (Fin n)} {x : Fin n} {l : List (Fin n)}

theorem touchLocked_last (inv : s.Represents (l ++ [x]) free) : touchLocked s x = some s := by
  obtain ⟨-, -, after, -⟩ := linked_append_cons.mp inv.linked
  rw [touchLocked, after]
  rfl

theorem touchLocked_eq {r : List (Fin n)} {y : Fin n} (inv : s.Represents (l ++ x :: y :: r) free) :
    touchLocked s x = (s.evictLocked x).append x := by
  obtain ⟨-, before, after, -⟩ := linked_append_cons.mp inv.linked
  have nodup := List.nodup_middle.mp inv.nodup_listed
  have gone := (List.nodup_cons.mp nodup).1
  obtain ⟨z, last⟩ : ∃ z, (y :: r).getLast? = some z := ⟨_, List.getLast?_cons⟩
  have lasts : (l ++ y :: r).getLast? = some z := by rw [List.getLast?_append, last]; rfl
  have tail : s.tail = some z := by
    rw [inv.tail, List.getLast?_append, List.getLast?_cons, last]
    rfl
  have other : z ≠ x := by
    rintro rfl
    exact gone (List.mem_of_getLast? lasts)
  have relinked : ∀ field : Fin n → Option (Fin n),
      update (assignAt (update field x none) (some z) (some x)) x none =
        update (update field z (some x)) x none := by
    intro field
    rw [assignAt_update (fun same => other (Option.some.inj same)), update_idem]
    rfl
  have counted : s.count - 1#64 + 1#64 = s.count := BitVec.sub_add_cancel ..
  rw [inv.evictLocked.append_eq gone, inv.evictLocked_eq]
  simp only [lasts, relinked, counted, update_idem]
  rcases List.eq_nil_or_concat' l with rfl | ⟨front, w, rfl⟩
  · have first : s.prev x = none := before
    simp [touchLocked, after, first, tail, assignAt, NodeList.setNext, NodeList.setPrev]
  · have inner : s.prev x = some w := by simp [before]
    have head : s.head = some (front.head?.getD w) := by simp [inv.head]
    simp [touchLocked, after, inner, head, tail, assignAt, NodeList.setNext, NodeList.setPrev]

theorem touchLocked_represents {r : List (Fin n)} (inv : s.Represents (l ++ x :: r) free) :
    ∃ s', touchLocked s x = some s' ∧ s'.Represents (l ++ r ++ [x]) free := by
  cases r with
  | nil => exact ⟨s, touchLocked_last inv, by simpa using inv⟩
  | cons y r =>
    have taken : x ∉ free := inv.disjoint (by simp)
    have gone := (List.nodup_cons.mp (List.nodup_middle.mp inv.nodup_listed)).1
    obtain ⟨s', appended, after⟩ := inv.evictLocked.append gone taken
    exact ⟨s', (touchLocked_eq inv).trans appended, after⟩

end

/-! ### What holds after every sequence of calls -/

section

variable {n : Nat} {s : Run n} {listed free : List (Fin n)} {x : Fin n}

/-- The lists are those of the nodes with the roles, in the order of their last use. -/
structure Inv (s : Run n) (listed free : List (Fin n)) : Prop where
  nodes : s.policy.Represents listed free
  members : ∀ x, x ∈ listed ↔ s.role x = .listed
  frees : ∀ x, x ∈ free ↔ s.role x = .free
  order : listed.Pairwise fun a b => s.used a < s.used b
  past : ∀ x, x ∈ listed → s.used x < s.clock

theorem Inv.moves (inv : Inv s listed free) {policy : NodeList n} {listed' free' : List (Fin n)}
    {role : Role} (nodes : policy.Represents listed' free') (sub : listed'.Sublist listed)
    (member : x ∈ listed' ↔ role = .listed) (isFree : x ∈ free' ↔ role = .free)
    (others : ∀ y, y ≠ x → (y ∈ listed' ↔ y ∈ listed) ∧ (y ∈ free' ↔ y ∈ free)) :
    Inv (s.moves x role policy) listed' free' where
  nodes := nodes
  members := NodeList.mem_iff_update inv.members member fun y other => (others y other).1
  frees := NodeList.mem_iff_update inv.frees isFree fun y other => (others y other).2
  order := inv.order.sublist sub
  past y inside := inv.past y (sub.subset inside)

theorem Inv.uses (inv : Inv s listed free) {policy : NodeList n} {rest : List (Fin n)}
    (nodes : policy.Represents (rest ++ [x]) free) (sub : rest.Sublist listed)
    (others : ∀ y, y ≠ x → (y ∈ rest ↔ y ∈ listed)) : Inv (s.uses x policy) (rest ++ [x]) free := by
  have gone : x ∉ rest := by
    have nodup := nodes.nodup_listed
    rw [List.nodup_append_comm, List.singleton_append, List.nodup_cons] at nodup
    exact nodup.1
  have kept : ∀ y, y ∈ rest → (s.uses x policy).used y = s.used y := by
    intro y inside
    have other : y ≠ x := fun same => gone (same ▸ inside)
    simp [Run.uses, other]
  have now : (s.uses x policy).used x = s.clock := update_self ..
  have taken : x ∉ free := nodes.disjoint (List.mem_append_right _ (List.mem_singleton_self x))
  refine ⟨nodes, ?_, ?_, ?_, fun y inside => ?_⟩
  · refine NodeList.mem_iff_update inv.members (by simp) fun y other => ?_
    simp [other, others y other]
  · exact NodeList.mem_iff_update inv.frees (by simp [taken]) fun _ _ => Iff.rfl
  · rw [List.pairwise_append]
    refine ⟨?_, List.pairwise_singleton _ _, fun a before b last => ?_⟩
    · refine (inv.order.sublist sub).imp_of_mem fun first second ordered => ?_
      rw [kept _ first, kept _ second]
      exact ordered
    · rw [List.mem_singleton.mp last, kept a before, now]
      exact inv.past a (sub.subset before)
  · rcases List.mem_append.mp inside with before | last
    · rw [kept y before]
      exact Nat.lt_succ_of_lt (inv.past y (sub.subset before))
    · rw [List.mem_singleton.mp last, now]
      exact Nat.lt_succ_self _

theorem Inv.call (inv : Inv s listed free) (small : n < 2 ^ 64) {call : Call n}
    (allowed : s.allows call = true) :
    ∃ s' listed' free', s.call call = .done s' ∧ Inv s' listed' free' := by
  cases call with
  | reserveCacheNode =>
    cases free with
    | nil =>
      refine ⟨s, listed, [], ?_, inv⟩
      rw [Run.call, reserveCacheNode, inv.nodes.reserve_empty]
    | cons x free =>
      obtain ⟨out, after⟩ := inv.nodes.reserve
      have unlisted : x ∉ listed := fun member =>
        inv.nodes.disjoint member (List.mem_cons_self ..)
      have fresh : x ∉ free := by
        have nodup := (List.nodup_append.mp inv.nodes.nodup).2.1
        exact (List.nodup_cons.mp nodup).1
      refine ⟨s.moves x .reserved s.policy.reserve.1, listed, free, ?_, ?_⟩
      · rw [Run.call, reserveCacheNode, ← Prod.eta s.policy.reserve, out]
      · refine inv.moves after (List.Sublist.refl _) (by simp [unlisted]) (by simp [fresh])
          fun y other => ⟨Iff.rfl, by simp [other]⟩
  | insert x =>
    have reserved : s.role x = .reserved := of_decide_eq_true allowed
    have unlisted : x ∉ listed := fun member => by
      rw [(inv.members x).mp member] at reserved
      cases reserved
    have taken : x ∉ free := fun member => by
      rw [(inv.frees x).mp member] at reserved
      cases reserved
    obtain ⟨policy, appended, after⟩ := inv.nodes.append unlisted taken
    refine ⟨s.uses x policy, listed ++ [x], free, ?_, ?_⟩
    · rw [Run.call, insert, inv.nodes.not_full small unlisted, appended]
      rfl
    · exact inv.uses after (List.Sublist.refl _) fun _ _ => Iff.rfl
  | touch x =>
    have member : x ∈ listed := (inv.members x).mpr (of_decide_eq_true allowed)
    obtain ⟨l, r, rfl⟩ := List.append_of_mem member
    obtain ⟨policy, touched, after⟩ := touchLocked_represents inv.nodes
    refine ⟨s.uses x policy, l ++ r ++ [x], free, ?_, ?_⟩
    · rw [Run.call, touched]
      rfl
    · refine inv.uses after ?_ fun y other => by simp [other]
      exact List.Sublist.append_left (List.sublist_cons_self ..) l
  | evict x =>
    have member : x ∈ listed := (inv.members x).mpr (of_decide_eq_true allowed)
    obtain ⟨l, r, rfl⟩ := List.append_of_mem member
    have gone := (List.nodup_cons.mp (List.nodup_middle.mp inv.nodes.nodup_listed)).1
    have taken : x ∉ free := inv.nodes.disjoint member
    refine ⟨_, l ++ r, free, rfl, ?_⟩
    refine inv.moves inv.nodes.evictLocked ?_ (by simpa using gone) (by simpa using taken)
      fun y other => by simp [other]
    exact List.Sublist.append_left (List.sublist_cons_self ..) l
  | recycleCacheNode x =>
    have out : s.role x = .reserved ∨ s.role x = .evicted := by
      simpa [Run.allows] using allowed
    have unlisted : x ∉ listed := fun member => by
      rw [(inv.members x).mp member] at out
      simp at out
    have taken : x ∉ free := fun member => by
      rw [(inv.frees x).mp member] at out
      simp at out
    refine ⟨_, listed, x :: free, rfl, ?_⟩
    exact inv.moves (inv.nodes.recycleLocked unlisted taken) (List.Sublist.refl _)
      (by simp [unlisted]) (by simp) fun y other => ⟨Iff.rfl, by simp [other]⟩

end

theorem inv_of_reachable (size : ListSize) {s : Run size.max}
    (reached : (system (.initial size)).Reachable s) : ∃ listed free, Inv s listed free := by
  refine reached.invariant (P := fun s => ∃ listed free, Inv s listed free) ?_ ?_
  · rintro s rfl
    refine ⟨[], List.finRange size.max, NodeList.represents_initialized size, ?_, ?_, .nil, ?_⟩
    · simp [Run.initial]
    · simp [Run.initial]
    · intro x member
      cases member
  · rintro s call s' ⟨listed, free, inv⟩ stepped
    rw [system] at stepped
    by_cases allowed : s.allows call = true
    · obtain ⟨after, listed', free', called, kept⟩ := inv.call size.bounded allowed
      simp only [allowed, if_true, called, Option.some.injEq] at stepped
      subst stepped
      exact ⟨listed', free', kept⟩
    · simp [allowed] at stepped

/-- The lists the pointers of a policy stand for, with the nodes that are in neither. -/
structure Correct {n : Nat} (s : Run n) (listed free out : List (Fin n)) : Prop where
  head : s.policy.head = listed.head?
  tail : s.policy.tail = listed.getLast?
  linked : Linked s.policy.prev s.policy.next none listed none
  members : ∀ x, x ∈ listed ↔ s.role x = .listed
  order : listed.Pairwise fun a b => s.used a < s.used b
  freeList : s.policy.freeList = free.head?
  chained : Chained s.policy.next free
  outside : ∀ x, x ∈ out ↔ s.role x = .reserved ∨ s.role x = .evicted
  nodes : (listed ++ free ++ out).Perm (List.finRange n)
  count : s.policy.count.toNat = listed.length
  freeCount : s.policy.freeCount.toNat = free.length
  returns : ∀ call, s.allows call = true → ∃ s', s.call call = .done s'

/-- **The list is the one the callers made.** After every sequence of calls the pointers are
those of the listed nodes in the order of their last use, and no call waits. -/
theorem lru_list_correct (size : ListSize) {s : Run size.max}
    (reached : (system (.initial size)).Reachable s) :
    ∃ listed free out, Correct s listed free out := by
  obtain ⟨listed, free, inv⟩ := inv_of_reachable size reached
  have nodes := inv.nodes
  let out := (List.finRange size.max).filter fun x =>
    s.role x = .reserved ∨ s.role x = .evicted
  have outside : ∀ x, x ∈ out ↔ s.role x = .reserved ∨ s.role x = .evicted := by
    intro x
    simp [out]
  have disjoint : ∀ x, x ∈ listed ++ free → x ∉ out := by
    intro x member other
    have role := (outside x).mp other
    rcases List.mem_append.mp member with inList | inFree
    · rw [(inv.members x).mp inList] at role
      simp at role
    · rw [(inv.frees x).mp inFree] at role
      simp at role
  have nodup : (listed ++ free ++ out).Nodup := by
    refine List.nodup_append.mpr ⟨nodes.nodup, (List.nodup_finRange _).filter _, ?_⟩
    intro x member y other same
    exact disjoint x member (same ▸ other)
  refine ⟨listed, free, out, nodes.head, nodes.tail, nodes.linked, inv.members, inv.order,
    nodes.freeList, nodes.chained, outside, ?_, nodes.count_toNat size.bounded,
    nodes.freeCount_toNat size.bounded, ?_⟩
  · rw [List.perm_ext_iff_of_nodup nodup (List.nodup_finRange _)]
    intro x
    rw [List.mem_append, List.mem_append, inv.members, inv.frees, outside]
    cases s.role x <;> simp
  · intro call allowed
    obtain ⟨s', -, -, called, -⟩ := inv.call size.bounded allowed
    exact ⟨s', called⟩

def node0 : Fin 2 := ⟨0, Nat.two_pos⟩

def node1 : Fin 2 := ⟨1, Nat.one_lt_two⟩

/-- Both nodes are inserted, and the first is touched. -/
theorem lru_list_correct_touched :
    ∃ s : Run 2, s.policy.head = some node1 ∧ s.policy.tail = some node0 ∧
      ∃ listed free out, Correct s listed free out := by
  obtain ⟨s, reached, ends⟩ := System.exists_reachable_of_run (system (.initial twoNodes)) rfl
    [.reserveCacheNode, .reserveCacheNode, .insert node0, .insert node1, .touch node0]
    (fun s : Run 2 => decide (s.policy.head = some node1 ∧ s.policy.tail = some node0))
    (by decide)
  have both := of_decide_eq_true ends
  exact ⟨s, both.1, both.2, lru_list_correct twoNodes reached⟩

/-! ### Recycling a chain at once -/

section

variable {n : Nat}

/-- Nodes the callers hold, linked through `next`. Their `prev` is what it is. -/
structure NodeChain (s : Run n) where
  first : Fin n
  rest : List (Fin n)
  linked : (first :: rest).IsChain fun a b => s.policy.next a = some b
  nodup : (first :: rest).Nodup
  held : ∀ x, x ∈ first :: rest → s.role x = .reserved ∨ s.role x = .evicted

variable {s : Run n}

def NodeChain.nodes (chain : NodeChain s) : List (Fin n) := chain.first :: chain.rest

def NodeChain.last (chain : NodeChain s) : Fin n := chain.rest.getLast?.getD chain.first

def NodeChain.returned (chain : NodeChain s) (policy : NodeList n) : Run n :=
  { s with policy := policy, role := fun x => if x ∈ chain.nodes then .free else s.role x }

def NodeChain.recycleBulk (chain : NodeChain s) : Run n :=
  chain.returned (recycleCacheNodeBulkLocked s.policy chain.first chain.last)

def NodeChain.recycleEach (chain : NodeChain s) : Run n :=
  chain.returned (chain.nodes.foldl recycleCacheNodeLocked s.policy)

def FreeNode (s : NodeList n) (x : Fin n) : Prop :=
  ∃ free, Chained s.next free ∧ s.freeList = free.head? ∧ x ∈ free

/-- Recycling the chain at once does what recycling its nodes does, and later calls keep the
list of the inserted nodes linked. -/
structure NodeChain.BulkAsEach (chain : NodeChain s) : Prop where
  freeCount : chain.recycleBulk.policy.freeCount = chain.recycleEach.policy.freeCount
  freeNodes : ∀ x, FreeNode chain.recycleBulk.policy x ↔ FreeNode chain.recycleEach.policy x
  linked : ∀ s', (system chain.recycleBulk).Reachable s' →
    ∃ listed, s'.policy.head = listed.head? ∧ s'.policy.tail = listed.getLast? ∧
      Linked s'.policy.prev s'.policy.next none listed none ∧
      ∀ x, x ∈ listed ↔ s'.role x = .listed

theorem freeCount_foldl (nodes : List (Fin n)) (policy : NodeList n) :
    (nodes.foldl recycleCacheNodeLocked policy).freeCount =
      policy.freeCount + BitVec.ofNat 64 nodes.length := by
  induction nodes generalizing policy with
  | nil => simp
  | cons x rest ih =>
    rw [List.foldl_cons, ih, List.length_cons, ← NodeList.ofNat_add_one]
    simp only [recycleCacheNodeLocked, NodeList.recycleLocked]
    rw [BitVec.add_assoc, BitVec.add_comm 1#64]

end

/-- **Recycling at once never counts.** Each node recycled alone adds one to `free_count_`, and
the chain adds nothing. -/
theorem bulk_never_as_each (size : ListSize) (s : Run size.max) (chain : NodeChain s) :
    ¬chain.BulkAsEach := by
  intro same
  have counts : s.policy.freeCount =
      s.policy.freeCount + BitVec.ofNat 64 (chain.rest.length + 1) := by
    have each := freeCount_foldl chain.nodes s.policy
    exact same.freeCount.trans each
  have bound := chain.nodup.length_le_card
  rw [List.length_cons, Fintype.card_fin] at bound
  have small := size.bounded
  have values := congrArg BitVec.toNat counts
  rw [BitVec.toNat_add, BitVec.toNat_ofNat] at values
  have fits := s.policy.freeCount.isLt
  omega

def bothHeld : Run 2 where
  policy :=
    { head := none, tail := none, freeList := none
      prev := fun x => if x = node1 then some node0 else none
      next := fun x => if x = node0 then some node1 else none
      count := 0#64, freeCount := 0#64 }
  role _ := .reserved
  used _ := 0
  clock := 0

def bothLinked : NodeChain bothHeld where
  first := node0
  rest := [node1]
  linked := by decide
  nodup := by decide
  held := by decide

/-- Neither node is counted, and the second keeps its `prev`: once it was alone in the list it
stays `head_` after its eviction. -/
theorem bulk_not_as_each_bothLinked :
    ¬bothLinked.BulkAsEach ∧
      bothLinked.recycleBulk.policy.freeCount = 0#64 ∧
      bothLinked.recycleEach.policy.freeCount = 2#64 ∧
      ∃ s, (system bothLinked.recycleBulk).Reachable s ∧ s.role node1 = .evicted ∧
        s.policy.head = some node1 := by
  refine ⟨fun same => ?_, by decide, by decide, ?_⟩
  · exact absurd same.freeCount (by decide)
  · obtain ⟨s, reached, left⟩ := System.exists_reachable_of_run (system bothLinked.recycleBulk) rfl
      [.reserveCacheNode, .reserveCacheNode, .insert node1, .evict node1]
      (fun s => decide (s.role node1 = .evicted ∧ s.policy.head = some node1)) (by decide)
    exact ⟨s, reached, of_decide_eq_true left⟩

end LruPolicy

end Megalon.Core
