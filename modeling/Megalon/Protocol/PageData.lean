import Megalon.Protocol.ExclusiveWriter

/-!
Contract: what a step does to the bytes of the pages.

Owns: the two places that store page bytes, `CopyFromUserBufferCXL` and the filling of
a new slot; that no other step changes a byte as long as these store to lines that are
current for their host, and that the bytes of a page in the directory change by copies
only.

Does not own: which flushes keep the lines current.
-/

namespace Megalon.Protocol

open Core Foundations Index

section

variable {Key Mem : Type} [BlockKey Key] {cfg : Config Key Mem}

/-- The byte a thread stores at a program counter. -/
inductive Stores (cfg : Config Key Mem) (t : Nat) (call : Call Key) :
    cfg.Pc → Nat → Nat → UInt8 → Prop
  | copy (slot w : Nat) {i buffer} (inside : i < call.bytesWrite cfg)
      (data : call.data = some buffer) :
      Stores cfg t call (.writeCopy slot w i) slot (call.offset + i) (buffer i)
  | fill (slot : Nat) (wmeta : Option Nat) {i value}
      (present : (call.content cfg t).1[i]? = some value) :
      Stores cfg t call (.createFill slot wmeta i) slot i value

theorem stores_of_move {t choice slot i : Nat} {value : UInt8} {call : Call Key}
    {pc pc' : cfg.Pc} {reply : (Act.storeByte slot i value : Act Key).Reply cfg.nodes}
    (move : Move cfg t call choice pc (.storeByte slot i value) reply pc') :
    Stores cfg t call pc slot i value := by
  cases move with
  | createFill byte => exact .fill slot _ byte
  | writeByte left data => exact .copy slot _ left data

/-! ### Stores to current lines -/

/-- A byte that the step stores is current for the host of the thread. -/
def storesCurrent (view : cfg.memory.OneContent) (s : cfg.State) : Event Key → Prop
  | .thread t _ => ∀ slot i value,
      Stores cfg t (s.threads t).call (s.threads t).pc slot i value →
        view.current s.shared.pages (cfg.replica t) slot i
  | _ => True

/-- A step that stores only to current lines of a sound memory. -/
structure CurrentStep (view : cfg.memory.OneContent) (s : cfg.State)
    (e : Event Key) : Prop where
  sound : view.sound s.shared.pages
  stores : storesCurrent view s e

variable {view : cfg.memory.OneContent}

theorem contents_perform {t : Nat} {s s' : cfg.Shared} {act : Act Key}
    {reply : act.Reply cfg.nodes} (sound : view.sound s.pages)
    (current : ∀ slot i value, act = .storeByte slot i value →
      view.current s.pages (cfg.replica t) slot i)
    (acted : perform cfg t s act = some (s', reply)) :
    view.sound s'.pages ∧
      ((view.contents s'.pages = view.contents s.pages ∧
          ∀ slot i value, act ≠ .storeByte slot i value) ∨
        ∃ slot i value, act = .storeByte slot i value ∧
          view.contents s'.pages = (view.contents s.pages).set slot i value) := by
  cases act with
  | loadByte slot i =>
    cases acted
    obtain ⟨after, same⟩ := view.load s.pages (cfg.replica t) slot i sound
    exact ⟨after, .inl ⟨same, fun _ _ _ => nofun⟩⟩
  | storeByte slot i value =>
    cases acted
    obtain ⟨after, set⟩ := view.store s.pages (cfg.replica t) slot i value sound
      (current slot i value rfl)
    exact ⟨after, .inr ⟨slot, i, value, rfl, set⟩⟩
  | flushLine slot line =>
    cases acted
    obtain ⟨after, same⟩ := view.flushLine s.pages (cfg.replica t) slot line sound
    exact ⟨after, .inl ⟨same, fun _ _ _ => nofun⟩⟩
  | _ =>
    rw [(perform_frame acted).pages rfl]
    exact ⟨sound, .inl ⟨rfl, fun _ _ _ => nofun⟩⟩

section

variable {s s' : cfg.State} {e : Event Key}

theorem CurrentStep.move {t choice : Nat} {act : Act Key} {reply : act.Reply cfg.nodes}
    {pc' : cfg.Pc} {shared : cfg.Shared} (steps : CurrentStep view s (.thread t choice))
    (move : Move cfg t (s.threads t).call choice (s.threads t).pc act reply pc')
    (acted : perform cfg t s.shared act = some (shared, reply)) :
    view.sound shared.pages ∧
      ((view.contents shared.pages = view.contents s.shared.pages ∧
          ∀ slot i value, act ≠ .storeByte slot i value) ∨
        ∃ slot i value, act = .storeByte slot i value ∧
          view.contents shared.pages = (view.contents s.shared.pages).set slot i value) := by
  refine contents_perform steps.sound ?_ acted
  rintro slot i value rfl
  exact steps.stores slot i value (stores_of_move move)

/-- **Page data steps.** A step leaves the bytes of all pages alone, or it stores one
byte of a page that is written or filled. -/
theorem contents_step (steps : CurrentStep view s e) (taken : step cfg s e = some s') :
    view.sound s'.shared.pages ∧
      (view.contents s'.shared.pages = view.contents s.shared.pages ∨ ∃ t choice slot i value,
        e = .thread t choice ∧ Stores cfg t (s.threads t).call (s.threads t).pc slot i value ∧
        view.contents s'.shared.pages = (view.contents s.shared.pages).set slot i value) := by
  cases stepForm_of_step taken with
  | start => exact ⟨steps.sound, .inl rfl⟩
  | @thread t choice _ _ _ _ move acted =>
    obtain ⟨after, ⟨same, _⟩ | ⟨slot, i, value, rfl, set⟩⟩ := steps.move move acted
    · exact ⟨after, .inl same⟩
    · exact ⟨after, .inr ⟨t, choice, slot, i, value, rfl, stores_of_move move, set⟩⟩
  | replica _ flushed =>
    rcases flushed with rfl | ⟨r, slot, rfl⟩
    · exact ⟨steps.sound, .inl rfl⟩
    · obtain ⟨after, same⟩ := view.flushLines s.shared.pages r slot cfg.lines steps.sound
      exact ⟨after, .inl same⟩

/-- Runs that store only to current lines keep the memory sound. -/
theorem sound_of_reachable {allowed : cfg.State → Event Key → Prop}
    (current : ∀ s e, allowed s e → storesCurrent view s e)
    (reached : (system cfg).ReachableWhere allowed s) : view.sound s.shared.pages := by
  refine reached.invariant (P := fun s => view.sound s.shared.pages) (fun s₀ start => ?_)
    fun u e _ sound meets taken => (contents_step ⟨sound, current u e meets⟩ taken).1
  exact view.initial _ start.pages

end

variable (cfg)

def Call.filled (call : Call Key) (t : Nat) : Nat := (call.content cfg t).1.length

variable {cfg} in
theorem filled_le_content (call : Call Key) (t : Nat) :
    call.filled cfg t ≤ (call.content cfg t).2 := by
  have file : (call.fileContent cfg t).1.length ≤ (call.fileContent cfg t).2 := by
    unfold Call.fileContent
    split
    · cases present : cfg.pread call.key with
      | none => simp
      | some bytes => simpa using cfg.pread_length call.key bytes present
    · exact Nat.le_refl 0
  unfold Call.filled Call.content
  repeat' split
  all_goals first
    | exact file
    | simp [copyOf]

/-- The event is a byte store of `WriteToCXL` into the slot. -/
def copiesInto (slot : Nat) (s : cfg.State) : Event Key → Bool
  | .thread t _ =>
    match (s.threads t).pc with
    | .writeCopy slot' _ i => slot' == slot && decide (i < (s.threads t).call.bytesWrite cfg)
    | _ => false
  | _ => false

variable {cfg}

/-- Without a copy of `WriteToCXL` the page of a key keeps its bytes: nobody fills the
slot either. -/
theorem contents_of_not_copiesInto {u u' : cfg.State} {e : Event Key}
    (steps : CurrentStep view u e) (slots : SlotsOwned cfg u) {slot : Nat} {key : Key}
    (known : (latestPages u.shared.log).slot key = some slot)
    (quiet : copiesInto cfg slot u e = false) (taken : step cfg u e = some u') :
    view.contents u'.shared.pages slot = view.contents u.shared.pages slot := by
  rcases (contents_step steps taken).2 with
    same | ⟨t', choice, slot', i, value, rfl, stores, set⟩
  · rw [same]
  have other : slot ≠ slot' := by
    rintro rfl
    generalize counter : (u.threads t').pc = pc at stores
    cases stores with
    | copy _ _ inside => simp [copiesInto, counter, inside] at quiet
    | fill =>
      exact (slots.held t' slot (by rw [counter]; rfl)).2 key known
  rw [set, Pages.set, Function.update_of_ne other]

end

end Megalon.Protocol
