import Megalon.Protocol.PageMemory

/-!
Contract: page memory as a family of independent slots.

Owns: the memory of one slot, what it means for a page memory to consist of such
memories, and when a host can overwrite a slot so that no copy of its old bytes is left.
Private caches over shared memory are shown to be of this form.

Does not own: which thread accesses which slot.
-/

namespace Megalon.Protocol

open Function Foundations

/-- Accesses to the bytes and the lines of one slot. -/
structure SlotMemory (Host Slot : Type) where
  load : Slot → Host → Nat → UInt8 × Slot
  store : Slot → Host → Nat → UInt8 → Slot
  flushLine : Slot → Host → Nat → Slot

def SlotMemory.seen {Host Slot : Type} (one : SlotMemory Host Slot) (x : Slot) (h : Host)
    (i : Nat) : UInt8 :=
  (one.load x h i).1

/-- An access to a slot reads and changes the part of the memory for this slot only. -/
structure PageMemory.Splits {Host Mem Slot : Type} (memory : PageMemory Host Mem)
    (one : SlotMemory Host Slot) (part : Mem → Nat → Slot) : Prop where
  load : ∀ m h slot i, (memory.load m h slot i).1 = one.seen (part m slot) h i
  part_load : ∀ m h slot i, part (memory.load m h slot i).2 =
    update (part m) slot (one.load (part m slot) h i).2
  part_store : ∀ m h slot i value, part (memory.store m h slot i value) =
    update (part m) slot (one.store (part m slot) h i value)
  part_flushLine : ∀ m h slot line, part (memory.flushLine m h slot line) =
    update (part m) slot (one.flushLine (part m slot) h line)

/-- `modifiedBy x h lines`: the cached lines of the slot are all on host `h`, all modified
there and all among `lines`. -/
structure SlotMemory.WritesBack {Host Slot : Type} (one : SlotMemory Host Slot) (lineSize : Nat)
    (modifiedBy : Slot → Host → (Nat → Prop) → Prop) : Prop where
  mono : ∀ x h lines lines', (∀ line, lines line → lines' line) → modifiedBy x h lines →
    modifiedBy x h lines'
  uncached : ∀ x h h' i, modifiedBy x h (fun _ => False) →
    modifiedBy x h' (fun _ => False) ∧ one.seen x h' i = one.seen x h i
  store : ∀ x h lines i value, modifiedBy x h lines →
    modifiedBy (one.store x h i value) h fun line => lines line ∨ line = i / lineSize
  seen_store : ∀ x h i j value,
    one.seen (one.store x h i value) h j = if j = i then value else one.seen x h j
  flushLine : ∀ x h lines h' line, modifiedBy x h lines →
    modifiedBy (one.flushLine x h' line) h fun other => lines other ∧ (h' = h → other ≠ line)
  seen_flushLine : ∀ x h lines h' line i, modifiedBy x h lines →
    one.seen (one.flushLine x h' line) h i = one.seen x h i
  ext : ∀ x x' h, modifiedBy x h (fun _ => False) → modifiedBy x' h (fun _ => False) →
    (∀ i, one.seen x h i = one.seen x' h i) → x = x'

/-- Slots are independent, and nobody caches a slot at the start. -/
structure PageMemory.IsolatesSlots {Host Mem Slot : Type} (memory : PageMemory Host Mem)
    (one : SlotMemory Host Slot) (part : Mem → Nat → Slot) (lineSize : Nat)
    (modifiedBy : Slot → Host → (Nat → Prop) → Prop) : Prop where
  splits : memory.Splits one part
  writesBack : one.WritesBack lineSize modifiedBy
  initial : ∀ m slot h, memory.initial m → modifiedBy (part m slot) h fun _ => False

/-! ### Two memories with the same slot -/

section

variable {Host Slot : Type} {one : SlotMemory Host Slot} {lineSize : Nat}
  {modifiedBy : Slot → Host → (Nat → Prop) → Prop}

/-- Host `h` is overwriting the slot in both memories, and the bytes it sees differ at most
where `differs` says so. -/
structure AlikeFor (one : SlotMemory Host Slot)
    (modifiedBy : Slot → Host → (Nat → Prop) → Prop) (h : Host) (lines differs : Nat → Prop)
    (x x' : Slot) : Prop where
  left : modifiedBy x h lines
  right : modifiedBy x' h lines
  seen : ∀ i, ¬differs i → one.seen x h i = one.seen x' h i

namespace AlikeFor

variable {h : Host} {lines differs : Nat → Prop} {x x' : Slot}

variable (writesBack : one.WritesBack lineSize modifiedBy)

include writesBack

theorem mono {lines' differs' : Nat → Prop} (alike : AlikeFor one modifiedBy h lines differs x x')
    (moreLines : ∀ line, lines line → lines' line) (moreBytes : ∀ i, differs i → differs' i) :
    AlikeFor one modifiedBy h lines' differs' x x' where
  left := writesBack.mono x h lines lines' moreLines alike.left
  right := writesBack.mono x' h lines lines' moreLines alike.right
  seen := fun i agrees => alike.seen i fun before => agrees (moreBytes i before)

theorem uncached (alike : AlikeFor one modifiedBy h (fun _ => False) differs x x') (h' : Host) :
    AlikeFor one modifiedBy h' (fun _ => False) differs x x' where
  left := (writesBack.uncached x h h' 0 alike.left).1
  right := (writesBack.uncached x' h h' 0 alike.right).1
  seen := fun i agrees => by
    rw [(writesBack.uncached x h h' i alike.left).2, (writesBack.uncached x' h h' i alike.right).2]
    exact alike.seen i agrees

theorem store
    (alike : AlikeFor one modifiedBy h lines differs x x') (i : Nat) (value value' : UInt8) :
    AlikeFor one modifiedBy h (fun line => lines line ∨ line = i / lineSize)
      (fun j => if j = i then value ≠ value' else differs j)
      (one.store x h i value) (one.store x' h i value') where
  left := writesBack.store x h lines i value alike.left
  right := writesBack.store x' h lines i value' alike.right
  seen := fun j agrees => by
    rw [writesBack.seen_store, writesBack.seen_store]
    by_cases same : j = i
    · simpa [same] using agrees
    · simp only [if_neg same] at agrees ⊢
      exact alike.seen j agrees

theorem flushLine (alike : AlikeFor one modifiedBy h lines differs x x') (h' : Host) (line : Nat) :
    AlikeFor one modifiedBy h (fun other => lines other ∧ (h' = h → other ≠ line)) differs
      (one.flushLine x h' line) (one.flushLine x' h' line) where
  left := writesBack.flushLine x h lines h' line alike.left
  right := writesBack.flushLine x' h lines h' line alike.right
  seen := fun i agrees => by
    rw [writesBack.seen_flushLine x h lines h' line i alike.left,
      writesBack.seen_flushLine x' h lines h' line i alike.right]
    exact alike.seen i agrees

theorem eq (alike : AlikeFor one modifiedBy h (fun _ => False) (fun _ => False) x x') : x = x' :=
  writesBack.ext x x' h alike.left alike.right fun i => alike.seen i id

end AlikeFor

end

/-! ### Private caches -/

section

variable (Host : Type) [DecidableEq Host] {lineSize : Nat} (nonempty : 0 < lineSize)

/-- A slot behind private caches: its lines, of `lineSize` bytes each. -/
abbrev CachedSlot (lineSize : Nat) := Memory Host Nat (Fin lineSize → UInt8)

/-- The offset of byte `i` into its line. -/
def inLine (i : Nat) : Fin lineSize := ⟨i % lineSize, Nat.mod_lt i nonempty⟩

def cachedSlot : SlotMemory Host (CachedSlot Host lineSize) where
  load := fun x h i => (x.view h (i / lineSize) (inLine nonempty i), x.fill h (i / lineSize))
  store := fun x h i value =>
    x.modify h (i / lineSize) fun line => update line (inLine nonempty i) value
  flushLine := fun x h line => x.flush h line

variable {Host}

def trimLine (lineSize : Nat) (line : Nat → UInt8) : Fin lineSize → UInt8 := fun i => line i

def trimCopy (lineSize : Nat) (copy : Line (Nat → UInt8)) : Line (Fin lineSize → UInt8) :=
  ⟨trimLine lineSize copy.value, copy.dirty⟩

def slotPart (lineSize : Nat) (m : CachedPages Host) (slot : Nat) : CachedSlot Host lineSize where
  memory := fun line => trimLine lineSize (m.memory (slot, line))
  cache := fun h line => (m.cache h (slot, line)).map (trimCopy lineSize)

omit [DecidableEq Host] in
theorem view_slotPart (m : CachedPages Host) (h : Host) (slot line : Nat) :
    (slotPart lineSize m slot).view h line = trimLine lineSize (m.view h (slot, line)) := by
  simp only [Memory.view, slotPart]
  cases m.cache h (slot, line) <;> rfl

theorem slotPart_setLine (m : CachedPages Host) (h : Host) (slot line : Nat)
    (copy : Option (Line (Nat → UInt8))) :
    slotPart lineSize (Memory.setLine m h (slot, line) copy) =
      update (slotPart lineSize m) slot
        ((slotPart lineSize m slot).setLine h line (copy.map (trimCopy lineSize))) := by
  funext other
  by_cases same : other = slot
  · subst same
    rw [update_self]
    simp only [slotPart, Memory.setLine, Memory.mk.injEq, true_and]
    funext h' line'
    by_cases sameHost : h' = h <;> by_cases sameLine : line' = line <;>
      simp [sameHost, sameLine]
  · rw [update_of_ne same]
    simp only [slotPart, Memory.setLine, Memory.mk.injEq, true_and]
    funext h' line'
    by_cases sameHost : h' = h <;> simp [sameHost, same]

omit [DecidableEq Host] in
theorem slotPart_memory (m : CachedPages Host) (slot line : Nat) (value : Nat → UInt8) :
    slotPart lineSize
      (⟨update m.memory (slot, line) value, m.cache⟩ : CachedPages Host) =
      update (slotPart lineSize m) slot
        ⟨update (slotPart lineSize m slot).memory line (trimLine lineSize value),
          (slotPart lineSize m slot).cache⟩ := by
  funext other
  by_cases same : other = slot
  · subst same
    rw [update_self]
    simp only [slotPart, Memory.mk.injEq, and_true]
    funext line'
    by_cases sameLine : line' = line <;> simp [sameLine]
  · rw [update_of_ne same]
    simp only [slotPart, Memory.mk.injEq, and_true]
    funext line'
    simp [same]

theorem trimLine_update (line : Nat → UInt8) (i : Nat) (value : UInt8) :
    trimLine lineSize (update line (i % lineSize) value) =
      update (trimLine lineSize line) (inLine nonempty i) value := by
  funext j
  by_cases same : j = inLine nonempty i
  · subst same
    simp [trimLine, inLine]
  · have other : (j : Nat) ≠ i % lineSize := fun equal => same (Fin.ext equal)
    simp [trimLine, same, other]

theorem splits_privateCacheMemory :
    (privateCacheMemory Host lineSize).Splits (cachedSlot Host nonempty)
      (slotPart lineSize) where
  load := fun m h slot i => by
    simp only [SlotMemory.seen, cachedSlot, view_slotPart]
    rfl
  part_load := fun m h slot i => by
    simp only [privateCacheMemory, cachedSlot, Memory.fill]
    cases cached : m.cache h (slot, i / lineSize) with
    | some copy =>
      have present : (slotPart lineSize m slot).cache h (i / lineSize) =
          some (trimCopy lineSize copy) := by
        simp [slotPart, cached]
      rw [present]
      exact (update_eq_self slot (slotPart lineSize m)).symm
    | none =>
      have absent : (slotPart lineSize m slot).cache h (i / lineSize) = none := by
        simp [slotPart, cached]
      rw [absent]
      exact slotPart_setLine m h slot (i / lineSize) _
  part_store := fun m h slot i value => by
    simp only [privateCacheMemory, cachedSlot, Memory.modify, Memory.store, slotPart_setLine,
      view_slotPart, Option.map_some, trimCopy, trimLine_update nonempty]
  part_flushLine := fun m h slot line => by
    simp only [privateCacheMemory, cachedSlot, Memory.flush]
    cases cached : m.cache h (slot, line) with
    | none =>
      have absent : (slotPart lineSize m slot).cache h line = none := by
        simp [slotPart, cached]
      rw [absent]
      exact slotPart_setLine m h slot line none
    | some copy =>
      have present : (slotPart lineSize m slot).cache h line = some (trimCopy lineSize copy) := by
        simp [slotPart, cached]
      rw [present]
      obtain ⟨value, dirty⟩ := copy
      cases dirty with
      | false => exact slotPart_setLine m h slot line none
      | true =>
        simp only [slotPart_setLine, slotPart_memory, update_idem,
          update_self, Option.map_none, trimCopy]

/-- The cached lines of a slot are all on host `h`, modified and among `lines`. -/
def modifiedBy (x : CachedSlot Host lineSize) (h : Host) (lines : Nat → Prop) : Prop :=
  ∀ h' line copy, x.cache h' line = some copy → h' = h ∧ copy.dirty = true ∧ lines line

variable {x : CachedSlot Host lineSize} {h : Host} {lines : Nat → Prop}

omit [DecidableEq Host] in
theorem cache_eq_none (modified : modifiedBy x h lines) {h' : Host} {line : Nat}
    (other : h' ≠ h ∨ ¬lines line) : x.cache h' line = none := by
  cases cached : x.cache h' line with
  | none => rfl
  | some copy =>
    obtain ⟨mine, _, inside⟩ := modified h' line copy cached
    rcases other with different | outside
    · exact absurd mine different
    · exact absurd inside outside

omit [DecidableEq Host] in
theorem view_of_unmodified (modified : modifiedBy x h fun _ => False) (h' : Host) (line : Nat) :
    x.view h' line = x.memory line :=
  Memory.view_of_none (cache_eq_none modified (.inr id))

theorem modifiedBy_store (modified : modifiedBy x h lines) (line : Nat)
    (value : Fin lineSize → UInt8) :
    modifiedBy (x.store h line value) h fun other => lines other ∨ other = line := by
  intro h' other copy cached
  by_cases here : h' = h ∧ other = line
  · obtain ⟨rfl, rfl⟩ := here
    rw [Memory.cache_store_same, Option.some.injEq] at cached
    exact ⟨rfl, by rw [← cached], .inr rfl⟩
  · rw [Memory.cache_store_of_ne x value here] at cached
    obtain ⟨mine, dirty, inside⟩ := modified h' other copy cached
    exact ⟨mine, dirty, .inl inside⟩

theorem modifiedBy_flush (modified : modifiedBy x h lines) (h' : Host) (line : Nat) :
    modifiedBy (x.flush h' line) h fun other => lines other ∧ (h' = h → other ≠ line) := by
  intro k other copy cached
  by_cases here : k = h' ∧ other = line
  · obtain ⟨rfl, rfl⟩ := here
    rw [Memory.cache_flush_same] at cached
    cases cached
  · rw [Memory.cache_flush_of_ne x here] at cached
    obtain ⟨rfl, dirty, inside⟩ := modified k other copy cached
    exact ⟨rfl, dirty, inside, fun same equal => here ⟨same.symm, equal⟩⟩

theorem view_flush (modified : modifiedBy x h lines) (h' : Host) (line other : Nat) :
    (x.flush h' line).view h other = x.view h other := by
  by_cases here : h = h' ∧ other = line
  · obtain ⟨rfl, rfl⟩ := here
    rw [Memory.view_of_none (Memory.cache_flush_same x h other)]
    cases cached : x.cache h other with
    | none =>
      rw [Memory.memory_flush_of_clean (fun copy present => by simp [cached] at present),
        Memory.view_of_none cached]
    | some copy =>
      obtain ⟨_, dirty, _⟩ := modified h other copy cached
      obtain ⟨value, _⟩ := copy
      subst dirty
      rw [Memory.memory_flush_of_dirty cached, update_self, Memory.view_of_some cached]
  · have sameCache := Memory.cache_flush_of_ne x (h := h') (a := line) here
    cases cached : x.cache h other with
    | some copy =>
      rw [Memory.view_of_some (sameCache.trans cached), Memory.view_of_some cached]
    | none =>
      rw [Memory.view_of_none (sameCache.trans cached), Memory.view_of_none cached]
      by_cases sameHost : h' = h
      · subst sameHost
        exact Memory.memory_flush_of_ne x h' fun equal => here ⟨rfl, equal⟩
      · rw [Memory.memory_flush_of_clean fun copy present => by
          simp [cache_eq_none modified (.inl sameHost)] at present]

theorem view_store_of_ne (x : CachedSlot Host lineSize) (h : Host) {line other : Nat}
    (value : Fin lineSize → UInt8) (different : other ≠ line) :
    (x.store h line value).view h other = x.view h other := by
  have sameCache := Memory.cache_store_of_ne x (h := h) value
    fun here : h = h ∧ other = line => different here.2
  simp only [Memory.view, sameCache, Memory.memory_store]

theorem seen_store_cachedSlot (x : CachedSlot Host lineSize) (h : Host) (i j : Nat)
    (value : UInt8) :
    (cachedSlot Host nonempty).seen ((cachedSlot Host nonempty).store x h i value) h j =
      if j = i then value else (cachedSlot Host nonempty).seen x h j := by
  simp only [SlotMemory.seen, cachedSlot, Memory.modify]
  by_cases sameLine : j / lineSize = i / lineSize
  · rw [sameLine, Memory.view_of_some (Memory.cache_store_same x h _ _)]
    by_cases same : j = i
    · simp [same]
    · have otherByte : inLine nonempty j ≠ inLine nonempty i := by
        intro equal
        have rest : j % lineSize = i % lineSize := congrArg Fin.val equal
        exact same (by rw [← Nat.div_add_mod j lineSize, sameLine, rest, Nat.div_add_mod])
      simp [same, otherByte]
  · have different : j ≠ i := fun equal => sameLine (by rw [equal])
    rw [if_neg different]
    rw [view_store_of_ne x h _ sameLine]

theorem writesBack_cachedSlot : (cachedSlot Host nonempty).WritesBack lineSize modifiedBy where
  mono := fun x h lines lines' more modified h' line copy cached => by
    obtain ⟨mine, dirty, inside⟩ := modified h' line copy cached
    exact ⟨mine, dirty, more line inside⟩
  uncached := fun x h h' i modified => by
    refine ⟨fun k line copy cached => ?_, ?_⟩
    · simp [cache_eq_none modified (.inr id)] at cached
    · simp only [SlotMemory.seen, cachedSlot, view_of_unmodified modified]
  store := fun x h lines i value modified => modifiedBy_store modified _ _
  seen_store := seen_store_cachedSlot nonempty
  flushLine := fun x h lines h' line modified => modifiedBy_flush modified h' line
  seen_flushLine := fun x h lines h' line i modified => by
    simp only [SlotMemory.seen, cachedSlot, view_flush modified]
  ext := fun x x' h modified modified' agree => by
    obtain ⟨memory, cache⟩ := x
    obtain ⟨memory', cache'⟩ := x'
    have sameCache : cache = cache' := by
      funext k line
      exact (cache_eq_none modified (.inr id)).trans (cache_eq_none modified' (.inr id)).symm
    have sameMemory : memory = memory' := by
      funext line offset
      have here := agree (line * lineSize + offset)
      simp only [SlotMemory.seen, cachedSlot, view_of_unmodified modified,
        view_of_unmodified modified'] at here
      have lineOf : (line * lineSize + offset) / lineSize = line := by
        rw [Nat.add_comm, Nat.add_mul_div_right _ _ nonempty, Nat.div_eq_of_lt offset.isLt,
          Nat.zero_add]
      have offsetOf : inLine nonempty (line * lineSize + offset) = offset := by
        apply Fin.ext
        simp [inLine, Nat.add_comm, Nat.add_mul_mod_self_right, Nat.mod_eq_of_lt offset.isLt]
      rwa [lineOf, offsetOf] at here
    rw [sameCache, sameMemory]

theorem isolatesSlots_privateCacheMemory :
    (privateCacheMemory Host lineSize).IsolatesSlots (cachedSlot Host nonempty)
      (slotPart lineSize) lineSize modifiedBy where
  splits := splits_privateCacheMemory nonempty
  writesBack := writesBack_cachedSlot nonempty
  initial := fun m slot h initial h' line copy cached => by
    simp [slotPart, initial h' (slot, line)] at cached

end

end Megalon.Protocol
