import Megalon.Index.SlotReports
import Megalon.Protocol.SlotOwnership

/-!
Contract: who owns a CXL slot, and whose key its `CacheNode` carries, along all runs with named
keys.

Owns: the block ids of the shared `CacheNode`s over the protocol, and the invariant that ties
them to the directory, the bitmap and the threads that hold slots.

Does not own: page data and records; the length, the eviction counter and the active node of a
`CacheNode`.

A `CacheNode` has a cache line of its own, and the thread that holds the slot flushes it right
after `Reinitialize`: both are taken together with the access before `CheckAndInsert`.
-/

namespace Megalon.Protocol

open Function Core Foundations Index

section

variable {Key Mem : Type} [BlockKey Key] (cfg : Config Key Mem)

/-- The protocol with the block id of each shared `CacheNode`, nothing before its first
`Reinitialize`. -/
structure NodeState where
  base : cfg.State
  blockId : Nat → Option Key

variable {cfg}

def Pc.reinitialized {nodes : Nat} : Pc Key nodes → Option Nat
  | .createInsert slot _ => some slot
  | _ => none

/-- `Reinitialize` by the thread of an event. -/
def reinitializeNode (s : cfg.State) (blockId : Nat → Option Key) :
    Event Key → Nat → Option Key
  | .thread t _ =>
    match (s.threads t).pc.reinitialized with
    | some slot => update blockId slot (some (s.threads t).call.key)
    | none => blockId
  | _ => blockId

variable (cfg) in
/-- The protocol over its `CacheNode`s. -/
def nodeSystem : System (NodeState cfg) (Event Key) where
  init := fun s => Initial cfg s.base ∧ ∀ slot, s.blockId slot = none
  step := fun s e =>
    (step cfg s.base e).map fun base => ⟨base, reinitializeNode base s.blockId e⟩

/-- The key of a call is not the null key. A reclaim loop has no key of its own. -/
def Event.named : Event Key → Bool
  | .start _ call => decide (call.key ≠ BlockKey.nullBlockId)
  | _ => true

/-- The slots of the directory, at a replica that has replayed any number of entries, are
pairwise distinct and reserved, and their nodes carry the keys of the entries; a slot a thread
holds is reserved, in no entry, and held by no other thread. -/
structure SlotOwnership (s : NodeState cfg) : Prop where
  distinct : ∀ n key key' c, cxlSlot (stateAt cfg.nodes s.base.shared.log n key) = some c →
    cxlSlot (stateAt cfg.nodes s.base.shared.log n key') = some c → key = key'
  reserved : ∀ n key c, cxlSlot (stateAt cfg.nodes s.base.shared.log n key) = some c →
    s.base.shared.freeBit c = false
  held : ∀ t c, (s.base.threads t).pc.slotHeld = some c → s.base.shared.freeBit c = false ∧
    ∀ n key, cxlSlot (stateAt cfg.nodes s.base.shared.log n key) ≠ some c
  unique : ∀ t t' c, (s.base.threads t).pc.slotHeld = some c →
    (s.base.threads t').pc.slotHeld = some c → t = t'
  carries : ∀ n key c, cxlSlot (stateAt cfg.nodes s.base.shared.log n key) = some c →
    s.blockId c = some key

/-! ### The invariant -/

/-- The calls in progress have keys, and the nodes of published slots and of slots about to be
published carry theirs. -/
structure NodeInv (s : NodeState cfg) : Prop where
  slots : SlotsOwned cfg s.base
  named : ∀ t, (s.base.threads t).pc ≠ .idle →
    (s.base.threads t).call.key ≠ BlockKey.nullBlockId
  labelled : ∀ t slot, (s.base.threads t).pc.reinitialized = some slot →
    s.blockId slot = some (s.base.threads t).call.key
  carries : ∀ key c, (latestPages s.base.shared.log).slot key = some c → s.blockId c = some key

omit [BlockKey Key] in
theorem slotHeld_of_reinitialized {nodes slot : Nat} {pc : Pc Key nodes}
    (filled : pc.reinitialized = some slot) : pc.slotHeld = some slot := by
  cases pc <;> first | exact filled | cases filled

theorem nodeInv_initial {s : NodeState cfg} (start : (nodeSystem cfg).init s) : NodeInv s where
  slots := slotsOwned_initial s.base start.1
  named := fun t busy => absurd (start.1.threads t) busy
  labelled := by
    intro t slot filled
    rw [start.1.threads t] at filled
    cases filled
  carries := by
    intro key c present
    rw [start.1.log] at present
    cases present

variable {s : cfg.State}

theorem threads_of_step {s' : cfg.State} {e : Event Key}
    (taken : step cfg s e = some s') (t : Nat) :
    s'.threads t = s.threads t ∨ (∃ call, e = .start t call ∧ (s'.threads t).call = call ∧
      (s'.threads t).pc = call.entryPc cfg) ∨
      ∃ choice, e = .thread t choice ∧ (s'.threads t).call = (s.threads t).call ∧
        (s.threads t).pc ≠ .idle := by
  cases stepForm_of_step taken with
  | @start t' call _ =>
    by_cases same : t = t'
    · subst same
      exact .inr (.inl ⟨call, rfl, by simp, by simp⟩)
    · exact .inl (by simp [same])
  | @thread t' choice _ _ _ _ move _ =>
    by_cases same : t = t'
    · subst same
      refine .inr (.inr ⟨choice, rfl, by simp, fun idle => ?_⟩)
      rw [idle] at move
      cases move
    · exact .inl (by simp [same])
  | replica => exact .inl rfl

theorem reinitialized_entryPc (call : Call Key) :
    (call.entryPc cfg : cfg.Pc).reinitialized = none := by
  unfold Call.entryPc
  repeat' split
  all_goals rfl

theorem named_step {s' : cfg.State} {e : Event Key}
    (keys : ∀ t, (s.threads t).pc ≠ .idle → (s.threads t).call.key ≠ BlockKey.nullBlockId)
    (named : e.named = true) (taken : step cfg s e = some s') (t : Nat)
    (busy : (s'.threads t).pc ≠ .idle) : (s'.threads t).call.key ≠ BlockKey.nullBlockId := by
  rcases threads_of_step taken t with same | ⟨call, rfl, callSame, _⟩ |
    ⟨choice, _, callSame, before⟩
  · rw [same] at busy ⊢
    exact keys t busy
  · rw [callSame]
    exact of_decide_eq_true named
  · rw [callSame]
    exact keys t before

theorem insertsNamed_of_keys (e : Event Key)
    (keys : ∀ t, (s.threads t).pc ≠ .idle → (s.threads t).call.key ≠ BlockKey.nullBlockId) :
    InsertsNamed s e := by
  rintro t choice slot wmeta _ counter
  exact keys t (by rw [counter]; simp)

section

variable {s : NodeState cfg} {e : Event Key} {base : cfg.State}

theorem blockId_reinitializeNode {slot : Nat} (blockId : Nat → Option Key)
    (elsewhere : ∀ t choice, e = .thread t choice →
      (base.threads t).pc.reinitialized ≠ some slot) :
    reinitializeNode base blockId e slot = blockId slot := by
  cases e with
  | thread t choice =>
    simp only [reinitializeNode]
    cases filled : (base.threads t).pc.reinitialized with
    | none => rfl
    | some slot' =>
      refine update_of_ne ?_ ..
      rintro rfl
      exact elsewhere t choice rfl filled
  | _ => rfl

theorem labelled_step (inv : NodeInv s) (slots : SlotsOwned cfg base)
    (taken : step cfg s.base e = some base) (t slot : Nat)
    (filled : (base.threads t).pc.reinitialized = some slot) :
    reinitializeNode base s.blockId e slot = some (base.threads t).call.key := by
  by_cases own : ∃ choice, e = .thread t choice
  · obtain ⟨choice, rfl⟩ := own
    simp only [reinitializeNode, filled]
    exact update_self ..
  · -- Another thread that reinitializes a node holds another slot.
    have same : base.threads t = s.base.threads t := by
      rcases threads_of_step taken t with same | ⟨call, _, _, entered⟩ | ⟨choice, now, _⟩
      · exact same
      · rw [entered, reinitialized_entryPc] at filled
        cases filled
      · exact absurd ⟨choice, now⟩ own
    rw [blockId_reinitializeNode]
    · rw [same] at filled ⊢
      exact inv.labelled t slot filled
    · rintro t' choice rfl filled'
      have holder := slots.unique t t' slot (slotHeld_of_reinitialized filled)
        (slotHeld_of_reinitialized filled')
      exact own ⟨choice, by rw [holder]⟩

theorem carries_step (inv : NodeInv s) (slots : SlotsOwned cfg base)
    (taken : step cfg s.base e = some base) (key : Key) (c : Nat)
    (present : (latestPages base.shared.log).slot key = some c) :
    reinitializeNode base s.blockId e c = some key := by
  rw [blockId_reinitializeNode]
  · rcases slot_step taken key with same | ⟨t, choice, slot, wmeta, _, own, counter, _, inserted⟩
    · exact inv.carries key c (same.symm.trans present)
    · -- The slot is published by the thread that has just labelled its node.
      have label := inv.labelled t slot (by rw [counter]; rfl)
      have published : slot = c := by simpa [PageMap.slot, inserted] using present
      rw [← published, label, own]
  · rintro t choice rfl filled
    exact (slots.held t c (slotHeld_of_reinitialized filled)).2 key present

end

theorem nodeInv_step (s : NodeState cfg) (e : Event Key) (s' : NodeState cfg) (inv : NodeInv s)
    (named : e.named = true) (taken : (nodeSystem cfg).step s e = some s') : NodeInv s' := by
  obtain ⟨base, stepped, rfl⟩ := Option.map_eq_some_iff.mp taken
  have slots := slotsOwned_step s.base e base inv.slots (insertsNamed_of_keys e inv.named) stepped
  exact ⟨slots, named_step inv.named named stepped, labelled_step inv slots stepped,
    carries_step inv slots stepped⟩

theorem cxlSlot_stateAt (log : List (LogEntry Key)) (n : Nat) (key : Key) :
    cxlSlot (stateAt cfg.nodes log n key) = (pagesAt log n).slot key := by
  rw [stateAt_eq, PageMap.toDirectory, PageMap.slot]
  cases pagesAt log n key with
  | none => rfl
  | some page => simp [cxlSlot, Page.toEntry, cnArray_cxlEntry_zero]

/-- **Slot ownership** holds in every state of every run whose calls have keys. -/
theorem slot_ownership {s : NodeState cfg}
    (reached : (nodeSystem cfg).ReachableWhere (fun _ e => e.named = true) s) :
    SlotOwnership s := by
  have inv : NodeInv s := reached.invariant (fun _ start => nodeInv_initial start) nodeInv_step
  have known : ∀ n key c, cxlSlot (stateAt cfg.nodes s.base.shared.log n key) = some c →
      (latestPages s.base.shared.log).slot key = some c := by
    intro n key c present
    rw [cxlSlot_stateAt] at present
    exact slot_latest_of_pagesAt present
  refine ⟨?_, ?_, ?_, inv.slots.unique, ?_⟩
  · intro n key key' c present present'
    exact inv.slots.distinct key key' c (known n key c present) (known n key' c present')
  · intro n key c present
    exact inv.slots.named key c (known n key c present)
  · intro t c holds
    obtain ⟨reserved, unpublished⟩ := inv.slots.held t c holds
    exact ⟨reserved, fun n key present => unpublished key (known n key c present)⟩
  · intro n key c present
    exact inv.carries key c (known n key c present)

end

/-- Two slots, and a `Put` that loses the insertion to a `Read` of the same page. -/
theorem slot_ownership_putAgainstRead :
    ∃ s, (nodeSystem onePool).ReachableWhere (fun _ e => e.named = true) s ∧
      (cxlSlot (latest onePool.nodes s.base.shared.log pageKey) = some 1 ∧
        s.blockId 0 = some pageKey ∧ s.base.shared.freeBit 0 = false) ∧ SlotOwnership s := by
  obtain ⟨s, reached, evaluated⟩ := System.exists_reachableWhere_of_run
    (.of_sound (nodeSystem onePool) (fun _ e => e.named) fun _ _ passes => passes)
    (s := ⟨start, fun _ => none⟩) ⟨initial_start, fun _ => rfl⟩ putAgainstRead
    (fun s => decide (cxlSlot (latest onePool.nodes s.base.shared.log pageKey) = some 1 ∧
      s.blockId 0 = some pageKey ∧ s.base.shared.freeBit 0 = false)) (by decide +kernel)
  exact ⟨s, reached, of_decide_eq_true evaluated, slot_ownership reached⟩

end Megalon.Protocol
