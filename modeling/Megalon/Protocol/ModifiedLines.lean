import Megalon.Protocol.PageData

/-!
Contract: which lines of the pages are modified in a cache and not yet written back.

Owns: what the memory itself holds of a page, the lines a thread has stored to and not
flushed, that no other line is modified, and that a page keeps its bytes in memory as
long as nobody writes it.

Does not own: what a host sees through its cache.
-/

namespace Megalon.Protocol

open Core Foundations Index

/-! ### Memory behind caches -/

/-- `stored` is what the memory itself holds; `modified m h slot line`: host `h` caches
the line and has changed it. -/
structure PageMemory.Backed {Host Mem : Type} (memory : PageMemory Host Mem) (lineSize : Nat)
    (stored : Mem → Pages) (modified : Mem → Host → Nat → Nat → Prop) : Prop where
  initial : ∀ m h slot line, memory.initial m → ¬modified m h slot line
  load : ∀ m h slot i, stored (memory.load m h slot i).2 = stored m
  modified_load : ∀ m h slot i h' c line, modified (memory.load m h slot i).2 h' c line →
    modified m h' c line
  store : ∀ m h slot i value c, c ≠ slot → stored (memory.store m h slot i value) c = stored m c
  modified_store : ∀ m h slot i value h' c line,
    modified (memory.store m h slot i value) h' c line →
      modified m h' c line ∨ (h' = h ∧ c = slot ∧ line = i / lineSize)
  flushLine : ∀ m h slot line c, (c = slot → ¬modified m h slot line) →
    stored (memory.flushLine m h slot line) c = stored m c
  modified_flushLine : ∀ m h slot line h' c line',
    modified (memory.flushLine m h slot line) h' c line' →
      modified m h' c line' ∧ ¬(h' = h ∧ c = slot ∧ line' = line)

section

variable {Host : Type} [DecidableEq Host] (lineSize : Nat)

def CachedPages.stored {Host : Type} (lineSize : Nat) (m : CachedPages Host) : Pages :=
  fun slot i => m.memory (slot, i / lineSize) (i % lineSize)

def CachedPages.modified {Host : Type} (m : CachedPages Host) (h : Host) (slot line : Nat) : Prop :=
  ∃ value, m.cache h (slot, line) = some ⟨value, true⟩

theorem modified_setLine {m : CachedPages Host} {h h' : Host} {slot line c line' : Nat}
    {cached : Option (Line (Nat → UInt8))}
    (modified : CachedPages.modified (m.setLine h (slot, line) cached) h' c line') :
    (h' = h ∧ c = slot ∧ line' = line ∧ ∃ value, cached = some ⟨value, true⟩) ∨
      (¬(h' = h ∧ c = slot ∧ line' = line) ∧ CachedPages.modified m h' c line') := by
  obtain ⟨value, present⟩ := modified
  by_cases same : h' = h ∧ (c, line') = (slot, line)
  · obtain ⟨rfl, equal⟩ := same
    obtain ⟨rfl, rfl⟩ := Prod.mk.inj equal
    rw [Memory.cache_setLine_same] at present
    exact .inl ⟨rfl, rfl, rfl, value, present⟩
  · rw [Memory.cache_setLine_of_ne m cached same] at present
    refine .inr ⟨?_, value, present⟩
    rintro ⟨rfl, rfl, rfl⟩
    exact same ⟨rfl, rfl⟩

theorem stored_flush {m : CachedPages Host} {h : Host} {slot line c : Nat}
    (clean : c = slot → ¬CachedPages.modified m h slot line) :
    CachedPages.stored lineSize (m.flush h (slot, line)) c = CachedPages.stored lineSize m c := by
  funext i
  simp only [CachedPages.stored]
  by_cases same : c = slot
  · rw [Memory.memory_flush_of_clean]
    rintro ⟨value, dirty⟩ present
    cases dirty with
    | false => rfl
    | true => exact absurd ⟨value, present⟩ (clean same)
  · rw [Memory.memory_flush_of_ne]
    intro equal
    exact same (Prod.mk.inj equal).1

theorem backed_privateCacheMemory :
    (privateCacheMemory Host lineSize).Backed lineSize (CachedPages.stored lineSize)
      CachedPages.modified where
  initial := by
    rintro m h slot line empty ⟨value, present⟩
    rw [empty] at present
    cases present
  load := by
    intro m h slot i
    funext c j
    simp only [privateCacheMemory, CachedPages.stored, Memory.memory_fill]
  modified_load := by
    intro m h slot i h' c line modified
    simp only [privateCacheMemory, Memory.fill] at modified
    split at modified
    · exact modified
    · rcases modified_setLine modified with ⟨_, _, _, value, clean⟩ | ⟨_, before⟩
      · cases clean
      · exact before
  store := fun _ _ _ _ _ _ _ => rfl
  modified_store := by
    intro m h slot i value h' c line modified
    rcases modified_setLine modified with ⟨host, same, at_line, _⟩ | ⟨_, before⟩
    · exact .inr ⟨host, same, at_line⟩
    · exact .inl before
  flushLine := fun _ _ _ _ _ clean => stored_flush lineSize clean
  modified_flushLine := by
    intro m h slot line h' c line' modified
    simp only [privateCacheMemory, Memory.flush] at modified
    split at modified
    all_goals
      rcases modified_setLine modified with ⟨_, _, _, value, dropped⟩ | ⟨other, before⟩
      · cases dropped
      · exact ⟨before, other⟩

end

theorem PageMemory.Backed.flushLines {Host Mem : Type} {memory : PageMemory Host Mem}
    {lineSize : Nat} {stored : Mem → Pages} {modified : Mem → Host → Nat → Nat → Prop}
    (backed : memory.Backed lineSize stored modified) (m : Mem) (h : Host) (slot lines : Nat) :
    (∀ h' c line, modified (memory.flushLines m h slot lines) h' c line → modified m h' c line) ∧
      ∀ c, (∀ line, ¬modified m h c line) →
        stored (memory.flushLines m h slot lines) c = stored m c := by
  induction lines with
  | zero => exact ⟨fun _ _ _ before => before, fun _ _ => rfl⟩
  | succ lines ih =>
    obtain ⟨fewer, same⟩ := ih
    refine ⟨fun h' c line after => ?_, fun c clean => ?_⟩
    · exact fewer h' c line (backed.modified_flushLine _ _ _ _ _ _ _ after).1
    rw [PageMemory.flushLines, backed.flushLine, same c clean]
    rintro rfl before
    exact clean lines (fewer h c lines before)

/-! ### Lines that threads have modified -/

section

variable {Key Mem : Type} [BlockKey Key] (cfg : Config Key Mem)

/-- The lines of a slot that a thread has stored to and not flushed. -/
def Pc.modifies (t : Nat) (call : Call Key) : cfg.Pc → Nat → Nat → Prop
  | .createFill slot _ i => fun c line =>
    c = slot ∧ line * cfg.lineSize < min i (call.filled cfg t)
  | .createFlush slot _ done => fun c line =>
    c = slot ∧ done ≤ line ∧ line * cfg.lineSize < (call.content cfg t).2
  | .writeCopy slot _ i => fun c line =>
    c = slot ∧ call.offset / cfg.lineSize ≤ line ∧
      line * cfg.lineSize < call.offset + min i (call.bytesWrite cfg)
  | .writeFlush slot _ done => fun c line =>
    c = slot ∧ done ≤ line ∧ line * cfg.lineSize < call.offset + call.bytesWrite cfg
  | _ => fun _ _ => False

/-- Every modified line is one that a thread of the host is about to flush. -/
def LinesOwned (modified : Mem → Fin cfg.nodes → Nat → Nat → Prop) (s : cfg.State) : Prop :=
  ∀ h c line, modified s.shared.pages h c line → ∃ t, cfg.replica t = h ∧
    (s.threads t).pc.modifies cfg t (s.threads t).call c line

def Unwritten (slot : Nat) (s : cfg.State) : Prop :=
  ∀ t, (s.threads t).pc.slotHeld ≠ some slot ∧
    ∀ w, (s.threads t).pc.writeSection ≠ some (slot, w)

variable {cfg} {t c line : Nat} {act : Act Key} {reply : act.Reply cfg.nodes}

theorem modifies_move {choice : Nat} {call : Call Key} {pc pc' : cfg.Pc}
    (move : Move cfg t call choice pc act reply pc') (before : pc.modifies cfg t call c line)
    (kept : ∀ slot done, act = .flushLine slot done → ¬(c = slot ∧ line = done)) :
    pc'.modifies cfg t call c line := by
  cases move with
  | createFill =>
    obtain ⟨rfl, inside⟩ := before
    exact ⟨rfl, by omega⟩
  | createFilled =>
    obtain ⟨rfl, inside⟩ := before
    have : call.filled cfg t ≤ (call.content cfg t).2 := filled_le_content call t
    exact ⟨rfl, Nat.zero_le _, by omega⟩
  | writeByte | writeCopied =>
    obtain ⟨rfl, from_start, inside⟩ := before
    exact ⟨rfl, from_start, by omega⟩
  | createFlush | writeFlush =>
    obtain ⟨rfl, from_done, inside⟩ := before
    have other := kept c _ rfl
    exact ⟨rfl, by omega, inside⟩
  | createFlushed done | writeFlushed done =>
    obtain ⟨rfl, from_done, inside⟩ := before
    exact absurd (Nat.lt_of_le_of_lt (Nat.mul_le_mul_right _ from_done) inside) done
  | _ => exact before.elim

variable {slot : Nat}

theorem modifies_store {choice i : Nat} {value : UInt8} {call : Call Key}
    {pc pc' : cfg.Pc} {reply : Unit}
    (move : Move cfg t call choice pc (.storeByte slot i value) reply pc') :
    pc'.modifies cfg t call slot (i / cfg.lineSize) := by
  have below := Nat.div_mul_le_self i cfg.lineSize
  cases move with
  | writeByte left data =>
    exact ⟨rfl, Nat.div_le_div_right (Nat.le_add_right _ _), by omega⟩
  | createFill byte =>
    have inside : i < call.filled cfg t := (List.getElem?_eq_some_iff.mp byte).1
    exact ⟨rfl, by omega⟩

variable {s : cfg.State}

theorem not_unwritten_of_modifies
    (modifies : (s.threads t).pc.modifies cfg t (s.threads t).call c line) :
    ¬Unwritten cfg c s := by
  intro unwritten
  obtain ⟨notHeld, notWriting⟩ := unwritten t
  cases counter : (s.threads t).pc with
  | createFill | createFlush =>
    rw [counter] at modifies notHeld
    obtain ⟨rfl, _⟩ := modifies
    exact notHeld rfl
  | writeCopy | writeFlush =>
    rw [counter] at modifies notWriting
    obtain ⟨rfl, _⟩ := modifies
    exact notWriting _ rfl
  | _ =>
    rw [counter] at modifies
    exact modifies

variable {stored : Mem → Pages} {modified : Mem → Fin cfg.nodes → Nat → Nat → Prop}

variable (backed : cfg.memory.Backed cfg.lineSize stored modified)

include backed

/-- The lines that are modified after an access were so before, unless it is a store,
and are not the one that was flushed. -/
theorem modified_perform {s s' : cfg.Shared} (acted : perform cfg t s act = some (s', reply))
    {h : Fin cfg.nodes} (after : modified s'.pages h c line) :
    (modified s.pages h c line ∧ ∀ slot done, act = .flushLine slot done → cfg.replica t = h →
      ¬(c = slot ∧ line = done)) ∨
      (cfg.replica t = h ∧ ∃ i value, act = .storeByte c i value ∧ line = i / cfg.lineSize) := by
  cases act with
  | loadByte slot i =>
    cases acted
    exact .inl ⟨backed.modified_load _ _ _ _ _ _ _ after, fun _ _ => nofun⟩
  | storeByte slot i value =>
    cases acted
    rcases backed.modified_store _ _ _ _ _ _ _ _ after with before | ⟨rfl, rfl, rfl⟩
    · exact .inl ⟨before, fun _ _ => nofun⟩
    · exact .inr ⟨rfl, i, value, rfl, rfl⟩
  | flushLine slot done =>
    cases acted
    obtain ⟨before, other⟩ := backed.modified_flushLine _ _ _ _ _ _ _ after
    refine .inl ⟨before, ?_⟩
    rintro _ _ ⟨⟩ rfl ⟨rfl, rfl⟩
    exact other ⟨rfl, rfl, rfl⟩
  | _ =>
    rw [(perform_frame acted).pages rfl] at after
    exact .inl ⟨after, fun _ _ => nofun⟩

theorem linesOwned_initial (start : Initial cfg s) : LinesOwned cfg modified s :=
  fun h c line dirty => absurd dirty (backed.initial _ h c line start.pages)

theorem linesOwned_step {s' : cfg.State} {e : Event Key} (owned : LinesOwned cfg modified s)
    (taken : step cfg s e = some s') : LinesOwned cfg modified s' := by
  intro h c line after
  cases stepForm_of_step taken with
  | @start t _ ready =>
    obtain ⟨t', host, mine⟩ := owned h c line after
    have different : t' ≠ t := by
      rintro rfl
      cases counter : (s.threads t').pc <;> simp_all [Pc.ready, Pc.modifies]
    exact ⟨t', host, by simpa [different] using mine⟩
  | @thread t _ _ _ _ _ move acted =>
    rcases modified_perform backed acted after with
      ⟨before, kept⟩ | ⟨host, i, value, rfl, rfl⟩
    · obtain ⟨t', host, mine⟩ := owned h c line before
      refine ⟨t', host, ?_⟩
      by_cases same : t' = t
      · subst same
        simpa using modifies_move move mine fun slot done flushes => kept slot done flushes host
      · simpa [same] using mine
    · exact ⟨t, host, by simpa using modifies_store move⟩
  | replica _ flushed =>
    refine owned h c line ?_
    rcases flushed with rfl | ⟨r, slot, rfl⟩
    · exact after
    · exact (backed.flushLines _ _ _ _).1 h c line after

theorem memory_perform {s s' : cfg.Shared} (acted : perform cfg t s act = some (s', reply))
    (quiet : ∀ i value, act ≠ .storeByte slot i value)
    (clean : ∀ line, ¬modified s.pages (cfg.replica t) slot line) :
    stored s'.pages slot = stored s.pages slot := by
  cases act with
  | loadByte slot' i =>
    cases acted
    rw [backed.load]
  | storeByte slot' i value =>
    cases acted
    refine backed.store _ _ _ _ _ _ ?_
    rintro rfl
    exact quiet i value rfl
  | flushLine slot' line =>
    cases acted
    refine backed.flushLine _ _ _ _ _ ?_
    rintro rfl
    exact clean line
  | _ => rw [(perform_frame acted).pages rfl]

/-- **Pages in memory.** A page that nobody fills or writes keeps its bytes. -/
theorem memory_step {s' : cfg.State} {e : Event Key} (owned : LinesOwned cfg modified s)
    (unwritten : Unwritten cfg slot s) (taken : step cfg s e = some s') :
    stored s'.shared.pages slot = stored s.shared.pages slot := by
  have clean : ∀ h line, ¬modified s.shared.pages h slot line := by
    intro h line dirty
    obtain ⟨t, _, mine⟩ := owned h slot line dirty
    exact not_unwritten_of_modifies mine unwritten
  cases stepForm_of_step taken with
  | start => rfl
  | @thread t _ _ _ _ _ move acted =>
    refine memory_perform backed acted (fun i value stores => ?_) (clean (cfg.replica t))
    subst stores
    obtain ⟨notHeld, notWriting⟩ := unwritten t
    generalize (s.threads t).pc = pc at move notHeld notWriting
    cases move with
    | writeByte => exact notWriting _ rfl
    | createFill => exact notHeld rfl
  | replica _ flushed =>
    rcases flushed with rfl | ⟨r, slot', rfl⟩
    · rfl
    · exact (backed.flushLines _ _ _ _).2 slot (clean _)

end

end Megalon.Protocol
