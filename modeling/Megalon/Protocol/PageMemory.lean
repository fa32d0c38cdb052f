import Megalon.Foundations.PrivateCache

/-!
Contract: the memory that holds the page data of the slots, as the hosts access it.

Owns: the interface of byte loads, byte stores and line flushes, its two instances
(memory that all hosts see alike, `FULL_COHERENCE` or one host, and memory behind private
caches of lines, `SCR`), and the accesses under which either has one content for all hosts.

Does not own: records, log and directory, which every host sees alike.
-/

namespace Megalon.Protocol

open Function Foundations

/-- Accesses of a host to byte `i` of a slot, and the flush of a line of a slot. -/
structure PageMemory (Host Mem : Type) where
  initial : Mem → Prop
  load : Mem → Host → Nat → Nat → UInt8 × Mem
  store : Mem → Host → Nat → Nat → UInt8 → Mem
  flushLine : Mem → Host → Nat → Nat → Mem

/-- Page bytes by slot and index. -/
abbrev Pages := Nat → Nat → UInt8

def Pages.set (pages : Pages) (slot i : Nat) (value : UInt8) : Pages :=
  update pages slot (update (pages slot) i value)

def coherentMemory (Host : Type) : PageMemory Host Pages where
  initial := fun _ => True
  load := fun pages _ slot i => (pages slot i, pages)
  store := fun pages _ slot i value => pages.set slot i value
  flushLine := fun pages _ _ _ => pages

/-- Lines by slot and line number; a line holds the byte at each offset into it. -/
abbrev CachedPages (Host : Type) := Memory Host (Nat × Nat) (Nat → UInt8)

/-- Private caches of lines of `lineSize` bytes, empty at the start. -/
def privateCacheMemory (Host : Type) [DecidableEq Host] (lineSize : Nat) :
    PageMemory Host (CachedPages Host) where
  initial := fun m => ∀ h a, m.cache h a = none
  load := fun m h slot i =>
    (m.view h (slot, i / lineSize) (i % lineSize), m.fill h (slot, i / lineSize))
  store := fun m h slot i value =>
    m.modify h (slot, i / lineSize) fun line => update line (i % lineSize) value
  flushLine := fun m h slot line => m.flush h (slot, line)

/-- The flush of the first `lines` lines of a slot. -/
def PageMemory.flushLines {Host Mem : Type} (memory : PageMemory Host Mem) (m : Mem) (h : Host)
    (slot : Nat) : Nat → Mem
  | 0 => m
  | lines + 1 => memory.flushLine (memory.flushLines m h slot lines) h slot lines

@[simp]
theorem Pages.set_same (pages : Pages) (slot i : Nat) (value : UInt8) :
    pages.set slot i value slot i = value := by
  simp [Pages.set]

theorem Pages.set_of_ne (pages : Pages) {slot slot' i i' : Nat} (value : UInt8)
    (different : ¬(slot' = slot ∧ i' = i)) : pages.set slot i value slot' i' = pages slot' i' := by
  by_cases sameSlot : slot' = slot
  · subst sameSlot
    have otherIndex : i' ≠ i := fun equal => different ⟨rfl, equal⟩
    simp [Pages.set, otherIndex]
  · simp [Pages.set, sameSlot]

/-- The bytes of a page in its lines. -/
def Pages.ofLines (lineSize : Nat) (lines : Nat × Nat → Nat → UInt8) : Pages :=
  fun slot i => lines (slot, i / lineSize) (i % lineSize)

theorem Pages.ofLines_update (lineSize slot i : Nat) (lines : Nat × Nat → Nat → UInt8)
    (value : UInt8) : ofLines lineSize (update lines (slot, i / lineSize)
        (update (lines (slot, i / lineSize)) (i % lineSize) value)) =
      (ofLines lineSize lines).set slot i value := by
  funext slot' i'
  simp only [ofLines]
  by_cases line : (slot', i' / lineSize) = (slot, i / lineSize)
  · rw [line, update_self]
    obtain ⟨rfl, number⟩ := Prod.mk.inj line
    by_cases same : i' = i
    · subst same
      rw [update_self, Pages.set_same]
    · have offset : i' % lineSize ≠ i % lineSize := fun equal => same (by
        rw [← Nat.div_add_mod i' lineSize, ← Nat.div_add_mod i lineSize, number, equal])
      rw [update_of_ne offset, Pages.set_of_ne _ _ fun equal => same equal.2, ← number]
      rfl
  · have different : ¬(slot' = slot ∧ i' = i) := by
      rintro ⟨rfl, rfl⟩
      exact line rfl
    rw [update_of_ne line, Pages.set_of_ne _ _ different]
    rfl

/-! ### One content for all hosts -/

/-- What the hosts have made of the pages. As long as the memory is `sound` and a host accesses
bytes that are `current` for it, it sees this content, and only stores change it. -/
structure PageMemory.OneContent {Host Mem : Type} (memory : PageMemory Host Mem) where
  contents : Mem → Pages
  sound : Mem → Prop
  current : Mem → Host → Nat → Nat → Prop
  initial : ∀ m, memory.initial m → sound m
  seen : ∀ m h slot i, sound m → current m h slot i →
    (memory.load m h slot i).1 = contents m slot i
  load : ∀ m h slot i, sound m → sound (memory.load m h slot i).2 ∧
    contents (memory.load m h slot i).2 = contents m
  store : ∀ m h slot i value, sound m → current m h slot i →
    sound (memory.store m h slot i value) ∧
      contents (memory.store m h slot i value) = (contents m).set slot i value
  flushLine : ∀ m h slot line, sound m → sound (memory.flushLine m h slot line) ∧
    contents (memory.flushLine m h slot line) = contents m

def coherentContent (Host : Type) : (coherentMemory Host).OneContent where
  contents := id
  sound := fun _ => True
  current := fun _ _ _ _ => True
  initial := fun _ _ => trivial
  seen := fun _ _ _ _ _ _ => rfl
  load := fun _ _ _ _ _ => ⟨trivial, rfl⟩
  store := fun _ _ _ _ _ _ _ => ⟨trivial, rfl⟩
  flushLine := fun _ _ _ _ _ => ⟨trivial, rfl⟩

/-- Behind private caches a byte is current for a host if no other host has modified its line
and the host has no old copy of it. -/
noncomputable def cachedContent (Host : Type) [DecidableEq Host] (lineSize : Nat) :
    (privateCacheMemory Host lineSize).OneContent where
  contents := fun m => .ofLines lineSize m.latest
  sound := Memory.Exclusive
  current := fun m h slot i => m.UpToDate h (slot, i / lineSize)
  initial := fun m (empty : ∀ h a, m.cache h a = none) h k a v w present => by
    simp [empty] at present
  seen := fun m h slot i exclusive current => congrFun (current.view exclusive) (i % lineSize)
  load := fun m h slot i exclusive => by
    obtain ⟨after, same⟩ := exclusive.fill h (slot, i / lineSize)
    exact ⟨after, by simp only [privateCacheMemory, same]⟩
  store := fun m h slot i value exclusive current => by
    obtain ⟨after, changed⟩ := exclusive.store current
      (update (m.view h (slot, i / lineSize)) (i % lineSize) value)
    refine ⟨after, ?_⟩
    rw [current.view exclusive] at changed
    rw [← Pages.ofLines_update, ← changed, ← current.view exclusive]
    rfl
  flushLine := fun m h slot line exclusive => by
    obtain ⟨after, same⟩ := exclusive.flush h (slot, line)
    exact ⟨after, by simp only [privateCacheMemory, same]⟩

theorem PageMemory.OneContent.flushLines {Host Mem : Type} {memory : PageMemory Host Mem}
    (view : memory.OneContent) (m : Mem) (h : Host) (slot lines : Nat) (sound : view.sound m) :
    view.sound (memory.flushLines m h slot lines) ∧
      view.contents (memory.flushLines m h slot lines) = view.contents m := by
  induction lines with
  | zero => exact ⟨sound, rfl⟩
  | succ lines ih =>
    obtain ⟨before, same⟩ := ih
    obtain ⟨after, kept⟩ := view.flushLine _ h slot lines before
    exact ⟨after, kept.trans same⟩

end Megalon.Protocol
