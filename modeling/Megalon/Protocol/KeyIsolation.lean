import Megalon.Protocol.CacheNodes
import Megalon.Protocol.PageData
import Megalon.Protocol.SlotMemory

/-!
Contract: what the bytes put to one key can do to the reads of other keys.

Owns: two runs with one schedule whose calls differ in the bytes put to one key, the
bytes that lost insertions of this key leave in free slots, and that along runs which
overwrite them the calls for other keys cannot tell the two runs apart.

Does not own: what a `Get` returns in a single run.
-/

namespace Megalon.Protocol

open Function Core Foundations Index

/-! ### Calls with other bytes -/

section

variable {Key Mem : Type} [BlockKey Key] {cfg : Config Key Mem}

def Call.refill (buffer : Nat → UInt8) (call : Call Key) : Call Key :=
  { call with data := call.data.map fun _ => buffer }

/-- The same call with another content of its buffer, if it is one for the secret key. -/
def Call.vary (secret : Key) (buffer : Nat → UInt8) (call : Call Key) : Call Key :=
  if call.key = secret then call.refill buffer else call

def Event.vary (secret : Key) (buffer : Nat → UInt8) : Event Key → Event Key
  | .start t call => .start t (call.vary secret buffer)
  | e => e

theorem exists_vary_eq (secret : Key) (call : Call Key) :
    ∃ buffer, call.vary secret buffer = call := by
  obtain ⟨kind, key, data, count, offset⟩ := call
  cases data with
  | none => exact ⟨fun _ => 0, by simp [Call.vary, Call.refill]⟩
  | some data => exact ⟨data, by simp [Call.vary, Call.refill]⟩

section

variable (buffer : Nat → UInt8) (call : Call Key)

theorem toWrite_refill :
    (call.refill buffer).toWrite cfg = (call.toWrite cfg).map fun _ => buffer := by
  by_cases full : call.count = cfg.slotSize
  · simp [Call.toWrite, Call.refill, full]
  · simp [Call.toWrite, Call.refill, full]

theorem content_refill (t : Nat) :
    ((call.refill buffer).content cfg t).2 = (call.content cfg t).2 ∧
      ((call.refill buffer).content cfg t).1.length = (call.content cfg t).1.length := by
  have same : (call.refill buffer).kind = call.kind := rfl
  unfold Call.content
  rw [same]
  split
  · cases given : call.data with
    | none => simp [Call.refill, given]
    | some data => simp [Call.refill, given, copyOf]
  · rw [toWrite_refill]
    cases given : call.toWrite cfg with
    | none => exact ⟨rfl, rfl⟩
    | some data => simp [copyOf]
  · exact ⟨rfl, rfl⟩

theorem afterCreate_refill : (call.refill buffer).afterCreate cfg = call.afterCreate cfg := by
  have same : (call.refill buffer).kind = call.kind := rfl
  unfold Call.afterCreate
  rw [same, toWrite_refill]
  simp [Call.refill]

theorem afterInsert_refill (slot : Nat) (wmeta : Option Nat) (error : NrGcdError) :
    (call.refill buffer).afterInsert cfg slot wmeta error =
      call.afterInsert cfg slot wmeta error := by
  unfold Call.afterInsert
  rw [afterCreate_refill]
  rfl

def Pc.copies {nodes : Nat} : Pc Key nodes → Bool
  | .createFill _ _ _ | .writeCopy _ _ _ => true
  | _ => false

theorem next_refill (t choice : Nat) {pc : cfg.Pc} (quiet : pc.copies = false) :
    next cfg t (call.refill buffer) choice pc = next cfg t call choice pc := by
  cases pc with
  | createFill | writeCopy => cases quiet
  | createFlush slot wmeta line =>
    simp only [next, (content_refill buffer call t).1]
  | createReserve =>
    have given : (call.refill buffer).data.isSome = call.data.isSome := by simp [Call.refill]
    simp only [next, given]
    rfl
  | createWait slot wmeta index error =>
    simp only [next, afterInsert_refill]
  | createRecycleNode slot =>
    simp only [next, afterCreate_refill]
  | createSeqEnd w =>
    simp only [next, afterCreate_refill]
  | recordCheck purpose hint => cases hint <;> rfl
  | sampleVictim purpose left candidates => cases left <;> rfl
  | _ => rfl

end

/-! ### One step of two runs -/

/-- The counters of a thread in two runs: the same, up to the bytes that a call for the
secret key has read. -/
inductive Pc.Alike {nodes : Nat} (hidden : Prop) : Pc Key nodes → Pc Key nodes → Prop
  | refl (pc : Pc Key nodes) : Alike hidden pc pc
  | returned (secret : hidden) (n : Nat) {bytes bytes'}
      (length : bytes'.length = bytes.length) :
      Alike hidden (.returned n bytes) (.returned n bytes')
  | readCopy (secret : hidden) (slot : Nat) (guard : Option SeqGuard) {bytes bytes'}
      (length : bytes'.length = bytes.length) :
      Alike hidden (.readCopy slot guard bytes) (.readCopy slot guard bytes')
  | readNotified (secret : hidden) (slot : Nat) (guard : Option SeqGuard)
      {bytes bytes'} (length : bytes'.length = bytes.length) :
      Alike hidden (.readNotified slot guard bytes) (.readNotified slot guard bytes')
  | readRetry (secret : hidden) (slot : Nat) (guard : SeqGuard) {bytes bytes'}
      (length : bytes'.length = bytes.length) :
      Alike hidden (.readRetry slot guard bytes) (.readRetry slot guard bytes')
  | readRemember (secret : hidden) (guard : SeqGuard) {bytes bytes'}
      (length : bytes'.length = bytes.length) :
      Alike hidden (.readRemember guard bytes) (.readRemember guard bytes')

/-- The accesses of a thread in two runs: the same, up to the bytes that a call for the
secret key loads and stores. -/
inductive Instr.Alike {nodes : Nat} (hidden : Prop) : Instr Key nodes → Instr Key nodes → Prop
  | same {act resume resume'}
      (quiet : act.onPages = false) (after : ∀ reply, (resume reply).Alike hidden (resume' reply)) :
      Alike hidden ⟨act, resume⟩ ⟨act, resume'⟩
  | load {slot i resume resume'}
      (after : ∀ value value', (¬hidden → value = value') →
        (resume value).Alike hidden (resume' value')) :
      Alike hidden ⟨.loadByte slot i, resume⟩ ⟨.loadByte slot i, resume'⟩
  | store {slot i value value' resume}
      (bytes : ¬hidden → value = value') :
      Alike hidden ⟨.storeByte slot i value, resume⟩ ⟨.storeByte slot i value', resume⟩
  | flush {slot line resume} :
      Alike hidden ⟨.flushLine slot line, resume⟩ ⟨.flushLine slot line, resume⟩

variable {hidden : Prop}

omit [BlockKey Key] in
theorem Pc.Alike.eq {nodes : Nat} {pc pc' : Pc Key nodes} (alike : pc.Alike hidden pc')
    (visible : ¬hidden) : pc' = pc := by
  cases alike with
  | refl => rfl
  | _ secret => exact absurd secret visible

omit [BlockKey Key] in
theorem Instr.Alike.refl_of_visible {nodes : Nat} (visible : ¬hidden) (instr : Instr Key nodes) :
    instr.Alike hidden instr := by
  obtain ⟨act, resume⟩ := instr
  cases act with
  | loadByte slot i =>
    refine .load fun value value' same => ?_
    rw [same visible]
    exact .refl _
  | storeByte slot i value => exact .store fun _ => rfl
  | flushLine slot line => exact .flush
  | _ => exact .same rfl fun _ => .refl _

variable {t choice : Nat} {call : Call Key} {pc pc' : cfg.Pc}

theorem readCopy_of_move {slot i : Nat} {value : UInt8}
    (move : Move cfg t call choice pc (.loadByte slot i) value pc') :
    ∃ guard bytes, pc = .readCopy slot guard bytes ∧ pc'.slotHeld = none := by
  cases move
  exact ⟨_, _, rfl, rfl⟩

theorem flushes_of_move {slot line : Nat} {reply : Unit}
    (move : Move cfg t call choice pc (.flushLine slot line) reply pc') :
    (∃ wmeta, pc = .createFlush slot wmeta line ∧ pc' = .createFlush slot wmeta (line + 1)) ∨
      pc'.slotHeld = none := by
  cases move with
  | createFlush => exact .inl ⟨_, rfl, rfl⟩
  | readFlush | writeFlush => exact .inr rfl

section

variable {buffer : Nat → UInt8} (secret : hidden) {instr instr' : Instr Key cfg.nodes}

include secret

theorem next_alike_readCopy {slot : Nat} {guard : Option SeqGuard} {bytes bytes' : List UInt8}
    (length : bytes'.length = bytes.length)
    (fetched : next cfg t call choice (.readCopy slot guard bytes) = some instr)
    (fetched' : next cfg t (call.refill buffer) choice (.readCopy slot guard bytes') =
      some instr') : instr.Alike hidden instr' := by
  rw [next_refill buffer call t choice rfl] at fetched'
  simp only [next, length] at fetched fetched'
  split at fetched
  · rename_i inside
    rw [if_pos inside] at fetched'
    cases fetched
    cases fetched'
    rw [length]
    exact .load fun value value' _ => .readCopy secret slot guard (by simp [length])
  · rename_i outside
    rw [if_neg outside] at fetched'
    cases fetched
    cases fetched'
    exact .same rfl fun _ => .readNotified secret slot guard length

theorem next_alike_refill (fetched : next cfg t call choice pc = some instr)
    (fetched' : next cfg t (call.refill buffer) choice pc = some instr') :
    instr.Alike hidden instr' := by
  cases pc with
  | createFill slot wmeta i =>
    have length : ((call.refill buffer).content cfg t).1.length = (call.content cfg t).1.length :=
      (content_refill buffer call t).2
    simp only [next] at fetched fetched'
    by_cases inside : i < (call.content cfg t).1.length
    · rw [List.getElem?_eq_getElem inside] at fetched
      rw [List.getElem?_eq_getElem (length ▸ inside)] at fetched'
      cases fetched
      cases fetched'
      exact .store fun visible => absurd secret visible
    · rw [List.getElem?_eq_none_iff.mpr (by omega)] at fetched
      rw [List.getElem?_eq_none_iff.mpr (by omega)] at fetched'
      cases fetched
      cases fetched'
      exact .same rfl fun _ => .refl _
  | writeCopy slot w i =>
    have sameLength : (call.refill buffer).bytesWrite cfg = call.bytesWrite cfg := rfl
    simp only [next, sameLength] at fetched fetched'
    split at fetched
    · rename_i inside
      rw [if_pos inside] at fetched'
      cases given : call.data with
      | none => simp [given] at fetched
      | some data =>
        have given' : (call.refill buffer).data = some buffer := by simp [Call.refill, given]
        rw [given] at fetched
        rw [given'] at fetched'
        cases fetched
        cases fetched'
        exact .store fun visible => absurd secret visible
    · rename_i outside
      rw [if_neg outside] at fetched'
      cases fetched
      cases fetched'
      exact .same rfl fun _ => .refl _
  | readCopy => exact next_alike_readCopy secret rfl fetched fetched'
  | _ =>
    rw [next_refill buffer call t choice rfl, fetched, Option.some.injEq] at fetched'
    subst fetched'
    obtain ⟨act, resume⟩ := instr
    cases act with
    | loadByte slot i =>
      obtain ⟨guard, bytes, readCopy, _⟩ := readCopy_of_move (move_of_next fetched 0)
      cases readCopy
    | storeByte slot i value => exact .store fun _ => rfl
    | flushLine slot line => exact .flush
    | _ => exact .same rfl fun _ => .refl _

end

/-- **What a thread does next** in two runs that are alike. -/
theorem next_alike {secret : Key} {buffer : Nat → UInt8} {instr instr' : Instr Key cfg.nodes}
    (alike : pc.Alike (call.key = secret) pc') (fetched : next cfg t call choice pc = some instr)
    (fetched' : next cfg t (call.vary secret buffer) choice pc' = some instr') :
    instr.Alike (call.key = secret) instr' := by
  by_cases hidden : call.key = secret
  · rw [Call.vary, if_pos hidden] at fetched'
    cases alike with
    | refl => exact next_alike_refill hidden fetched fetched'
    | returned => cases fetched
    | readCopy _ _ _ length => exact next_alike_readCopy hidden length fetched fetched'
    | readNotified _ slot guard length =>
      cases fetched
      cases fetched'
      refine .same rfl fun valid => ?_
      cases valid with
      | false => exact .refl _
      | true =>
        cases guard with
        | none =>
          simp only [if_true, length]
          exact .returned hidden _ length
        | some guard => exact .readRetry hidden slot guard length
    | readRetry _ slot guard length =>
      cases fetched
      cases fetched'
      refine .same rfl fun word => ?_
      simp only [afterReadCheck, length]
      split
      · exact .refl _
      · split
        · exact .returned hidden _ length
        · exact .readRemember hidden guard length
    | readRemember _ guard length =>
      cases fetched
      cases fetched'
      refine .same rfl fun _ => ?_
      simp only [length]
      exact .returned hidden _ length
  · rw [Call.vary, if_neg hidden, alike.eq hidden, fetched, Option.some.injEq] at fetched'
    subst fetched'
    exact .refl_of_visible hidden instr

end

/-! ### Two runs -/

section

variable {Key Mem : Type} [BlockKey Key] (cfg : Config Key Mem)

/-- The states of two runs with one schedule. `leftover slot` is the number of leading bytes
of a free slot that lost insertions of the secret key may have left there. -/
structure TwoRuns where
  left : cfg.State
  right : cfg.State
  leftover : Nat → Nat

def leaveOver (secret : Key) (s : cfg.State) (leftover : Nat → Nat) :
    Event Key → Nat → Nat
  | .thread t choice =>
    match (s.threads t).pc with
    | .createRecycleNode slot =>
      if choice = 0 then
        update leftover slot
          (if (s.threads t).call.key = secret then
            max (leftover slot) ((s.threads t).call.filled cfg t)
          else 0)
      else leftover
    | _ => leftover
  | _ => leftover

/-- Two runs from one initial state. In the second one the calls for the secret key have
other bytes in their buffers. -/
def twoRuns (secret : Key) : System (TwoRuns cfg) (Event Key × (Nat → UInt8)) where
  init := fun s => Initial cfg s.left ∧ s.right = s.left ∧ ∀ slot, s.leftover slot = 0
  step := fun s e =>
    (step cfg s.left e.1).bind fun left =>
      (step cfg s.right (e.1.vary secret e.2)).map fun right =>
        ⟨left, right, leaveOver cfg secret s.left s.leftover e.1⟩

/-- A call for another key that reserves a slot fills as many bytes of it as lost insertions
of the secret key have left there. -/
def overwrites (secret : Key) (s : TwoRuns cfg) : Event Key × (Nat → UInt8) → Bool
  | (.thread t choice, _) =>
    match (s.left.threads t).pc with
    | .createReserve =>
      decide ((s.left.threads t).call.key = secret) || decide (cfg.numPages ≤ choice) ||
        decide (s.leftover choice ≤ (s.left.threads t).call.filled cfg t)
    | _ => true
  | _ => true

/-- A `Get` of another key that has returned in one of the runs has returned the same bytes
in the other one. -/
def GetsAgree (secret : Key) (s : TwoRuns cfg) : Prop :=
  ∀ t n bytes, (s.left.threads t).call.kind = .get → (s.left.threads t).call.key ≠ secret →
    ((s.left.threads t).pc = .returned n bytes ↔ (s.right.threads t).pc = .returned n bytes)

/-! ### The pages of two runs -/

/-- The lines of its slot that a thread has written and not flushed. -/
def Pc.unflushed (t : Nat) (call : Call Key) : cfg.Pc → Nat → Prop
  | .createFill _ _ i => fun line => line * cfg.lineSize < min i (call.filled cfg t)
  | .createFlush _ _ line => fun other =>
    line ≤ other ∧ other * cfg.lineSize < (call.content cfg t).2
  | _ => fun _ => False

def Pc.filledSoFar (t : Nat) (call : Call Key) : cfg.Pc → Nat
  | .createFill _ _ i => i
  | .createFlush _ _ _ | .createInsert _ _ | .createWait _ _ _ _ | .createRecycleTwice _ _
  | .createRecycle _ _ | .createRecycleNode _ => call.filled cfg t
  | _ => 0

def Thread.differs (secret : Key) (t : Nat) (thread : cfg.Thread) (leftover i : Nat) : Prop :=
  if thread.call.key = secret then i < max leftover (thread.call.filled cfg t)
  else thread.pc.filledSoFar cfg t thread.call ≤ i ∧ i < leftover

variable {Slot : Type} (one : SlotMemory (Fin cfg.nodes) Slot) (part : Mem → Nat → Slot)
  (modifiedBy : Slot → Fin cfg.nodes → (Nat → Prop) → Prop)

structure HeldAlike (secret : Key) (t : Nat) (thread : cfg.Thread) (leftover : Nat)
    (x x' : Slot) : Prop where
  alike : AlikeFor one modifiedBy (cfg.replica t) (thread.pc.unflushed cfg t thread.call)
    (thread.differs cfg secret t leftover) x x'
  covers : thread.call.key ≠ secret → leftover ≤ thread.call.filled cfg t

/-- Slots of other keys are the same in both runs. Nobody caches a free slot, and it is the
same beyond what is left over in it. -/
structure PagesAlike (secret : Key) (s : cfg.State) (leftover : Nat → Nat)
    (pages : Mem) : Prop where
  published : ∀ key c, key ≠ secret → (latestPages s.shared.log).slot key = some c →
    part pages c = part s.shared.pages c
  free : ∀ c h, s.shared.freeBit c = true → AlikeFor one modifiedBy h (fun _ => False)
    (fun i => i < leftover c) (part s.shared.pages c) (part pages c)
  held : ∀ t c, (s.threads t).pc.slotHeld = some c → HeldAlike cfg one modifiedBy secret t
    (s.threads t) (leftover c) (part s.shared.pages c) (part pages c)

variable {cfg one part modifiedBy} {secret : Key} {s : cfg.State}
  {leftover : Nat → Nat} {pages : Mem} {t : Nat} {thread : cfg.Thread}

theorem PagesAlike.quiet (inv : PagesAlike cfg one part modifiedBy secret s leftover pages)
    {shared : cfg.Shared} {leftover' : Nat → Nat} (samePages : shared.pages = s.shared.pages)
    (published : ∀ key c, key ≠ secret → (latestPages shared.log).slot key = some c →
      (latestPages s.shared.log).slot key = some c ∨ part pages c = part s.shared.pages c)
    (free : ∀ c, shared.freeBit c = true →
      (s.shared.freeBit c = true ∧ leftover' c = leftover c) ∨
        ∀ h, AlikeFor one modifiedBy h (fun _ => False) (fun i => i < leftover' c)
          (part s.shared.pages c) (part pages c))
    (others : ∀ t' c, t' ≠ t → (s.threads t').pc.slotHeld = some c → leftover' c = leftover c)
    (mine : ∀ c, thread.pc.slotHeld = some c → HeldAlike cfg one modifiedBy secret t thread
      (leftover' c) (part s.shared.pages c) (part pages c)) :
    PagesAlike cfg one part modifiedBy secret ⟨shared, update s.threads t thread⟩ leftover'
      pages where
  published := fun key c other present => by
    rw [samePages]
    rcases published key c other present with before | same
    · exact inv.published key c other before
    · exact same
  free := fun c h isFree => by
    rw [samePages]
    rcases free c isFree with ⟨before, same⟩ | new
    · rw [same]
      exact inv.free c h before
    · exact new h
  held := fun t' c holds => by
    rw [samePages]
    by_cases same : t' = t
    · subst same
      simp only [update_self] at holds ⊢
      exact mine c holds
    · simp only [update_of_ne same] at holds ⊢
      rw [others t' c same holds]
      exact inv.held t' c holds

variable {x x' : Slot}

theorem PagesAlike.access (inv : PagesAlike cfg one part modifiedBy secret s leftover pages)
    {c₀ : Nat} {shared : cfg.Shared} {pages' : Mem}
    (parts : part shared.pages = update (part s.shared.pages) c₀ x)
    (parts' : part pages' = update (part pages) c₀ x')
    (sameLog : shared.log = s.shared.log) (sameBits : shared.freeBit = s.shared.freeBit)
    (published : ∀ key, key ≠ secret → (latestPages s.shared.log).slot key = some c₀ → x' = x)
    (reserved : s.shared.freeBit c₀ = false)
    (others : ∀ t', t' ≠ t → (s.threads t').pc.slotHeld ≠ some c₀)
    (mine : ∀ c, thread.pc.slotHeld = some c →
      c = c₀ ∧ HeldAlike cfg one modifiedBy secret t thread (leftover c) x x') :
    PagesAlike cfg one part modifiedBy secret ⟨shared, update s.threads t thread⟩ leftover
      pages' where
  published := fun key c other present => by
    rw [sameLog] at present
    rw [parts, parts']
    by_cases here : c = c₀
    · subst here
      rw [update_self, update_self]
      exact published key other present
    · rw [update_of_ne here, update_of_ne here]
      exact inv.published key c other present
  free := fun c h isFree => by
    rw [sameBits] at isFree
    have elsewhere : c ≠ c₀ := by
      rintro rfl
      simp [reserved] at isFree
    rw [parts, parts', update_of_ne elsewhere, update_of_ne elsewhere]
    exact inv.free c h isFree
  held := fun t' c holds => by
    rw [parts, parts']
    by_cases same : t' = t
    · subst same
      simp only [update_self] at holds ⊢
      obtain ⟨rfl, alike⟩ := mine c holds
      rwa [update_self, update_self]
    · simp only [update_of_ne same] at holds ⊢
      have elsewhere : c ≠ c₀ := by
        rintro rfl
        exact others t' same holds
      rw [update_of_ne elsewhere, update_of_ne elsewhere]
      exact inv.held t' c holds

/-! ### The slot a thread fills -/

variable {choice : Nat} {call : Call Key} {pc pc' : cfg.Pc} {act : Act Key}
  {reply : act.Reply cfg.nodes}

theorem filledSoFar_move {c : Nat} (move : Move cfg t call choice pc act reply pc')
    (quiet : act.onPages = false) (holds : pc.slotHeld = some c) :
    pc'.filledSoFar cfg t call ≤ pc.filledSoFar cfg t call := by
  cases move with
  | createFilled done => exact List.getElem?_eq_none_iff.mp done
  | _ =>
    first
      | exact le_rfl
      | exact Nat.zero_le _
      | exact Bool.noConfusion quiet
      | cases holds

theorem unflushed_move (move : Move cfg t call choice pc act reply pc')
    (quiet : act.onPages = false) {line : Nat} (before : pc.unflushed cfg t call line) :
    pc'.unflushed cfg t call line := by
  cases move with
  | createFilled =>
    have fits : call.filled cfg t ≤ (call.content cfg t).2 := filled_le_content call t
    simp only [Pc.unflushed] at before ⊢
    omega
  | createFlushed done =>
    exact done (Nat.lt_of_le_of_lt (Nat.mul_le_mul_right _ before.1) before.2)
  | _ =>
    first
      | exact before.elim
      | cases quiet

/-! ### The invariant -/

omit [BlockKey Key] in
def Shared.withPages {nodes : Nat} (s : Shared Key Mem nodes) (pages : Mem) :
    Shared Key Mem nodes :=
  { s with pages := pages }

theorem perform_withPages (quiet : act.onPages = false) (s : cfg.Shared) (pages : Mem) :
    perform cfg t (s.withPages pages) act =
      (perform cfg t s act).map fun result => (result.1.withPages pages, result.2) := by
  cases act with
  | loadByte | storeByte | flushLine => cases quiet
  | lookup | await | rSeqBegin | tryAllocateLock | reserveCacheNode =>
    simp only [perform, Shared.withPages, apply_ite (Option.map _), Option.map_some,
      Option.map_none]
    rfl
  | wLockOnly | wSeqBegin =>
    simp only [perform, acquire, Shared.withPages, apply_ite (Option.map _), Option.map_some,
      Option.map_none]
    rfl
  | submit request =>
    simp only [perform, Shared.withPages]
    cases dispatchMut (latest cfg.nodes s.log) (request.toModify cfg.nodes) <;> rfl
  | recycleWmeta w swapped =>
    by_cases isFree : (s.word w).isFree = true <;>
      by_cases isLocked : (s.word w).isLocked = true <;> cases swapped <;>
      simp [perform, recycle, Shared.withPages, isFree, isLocked, Shared.countRecycled,
        Shared.setWord]
  | recycleCacheNode slot set => cases set <;> rfl
  | _ => rfl

variable (cfg one part modifiedBy secret) in
/-- Two states agree on everything but the pages, the buffers of calls for the secret key
and what these calls have read. -/
structure StepAlike (left right : cfg.State) (leftover : Nat → Nat) : Prop where
  shared : right.shared = left.shared.withPages right.shared.pages
  threads : ∀ t, ∃ buffer, (right.threads t).call = (left.threads t).call.vary secret buffer ∧
    (left.threads t).pc.Alike ((left.threads t).call.key = secret) (right.threads t).pc
  pages : PagesAlike cfg one part modifiedBy secret left leftover right.shared.pages

variable (cfg one part modifiedBy secret) in
structure IsolationInv (s : TwoRuns cfg) : Prop
    extends StepAlike cfg one part modifiedBy secret s.left s.right s.leftover where
  keys : ∀ t, (s.left.threads t).pc ≠ .idle →
    (s.left.threads t).call.key ≠ BlockKey.nullBlockId
  slots : SlotsOwned cfg s.left
  targets : TargetsKnown s.left

/-! ### Steps of both runs -/

variable {r : TwoRuns cfg} {shared : cfg.Shared} {left' right' : cfg.State} {slot : Nat}
  {buffer : Nat → UInt8}

section

variable (inv : IsolationInv cfg one part modifiedBy secret r)

include inv

theorem pagesAlike_target {thread : cfg.Thread} {x x' : Slot} {pages' : Mem}
    (target : (r.left.threads t).pc.target = some slot)
    (parts : part shared.pages = update (part r.left.shared.pages) slot x)
    (parts' : part pages' = update (part r.right.shared.pages) slot x')
    (sameLog : shared.log = r.left.shared.log) (sameBits : shared.freeBit = r.left.shared.freeBit)
    (same : (r.left.threads t).call.key ≠ secret →
      part r.right.shared.pages slot = part r.left.shared.pages slot → x' = x)
    (empty : thread.pc.slotHeld = none) :
    PagesAlike cfg one part modifiedBy secret ⟨shared, update r.left.threads t thread⟩
      r.leftover pages' := by
  have known := inv.targets t slot target
  refine inv.pages.access parts parts' sameLog sameBits (fun key other present => ?_)
    (inv.slots.named _ slot known) (fun t' _ holds => (inv.slots.held t' slot holds).2 _ known)
    fun c holds => ?_
  · have own := inv.slots.distinct key _ slot present known
    exact same (own ▸ other) (inv.pages.published key slot other present)
  · simp [empty] at holds

theorem pagesAlike_filling {thread : cfg.Thread} {x x' : Slot} {pages' : Mem}
    (holds : (r.left.threads t).pc.slotHeld = some slot)
    (parts : part shared.pages = update (part r.left.shared.pages) slot x)
    (parts' : part pages' = update (part r.right.shared.pages) slot x')
    (sameLog : shared.log = r.left.shared.log) (sameBits : shared.freeBit = r.left.shared.freeBit)
    (mine : ∀ c, thread.pc.slotHeld = some c →
      c = slot ∧ HeldAlike cfg one modifiedBy secret t thread (r.leftover c) x x') :
    PagesAlike cfg one part modifiedBy secret ⟨shared, update r.left.threads t thread⟩
      r.leftover pages' := by
  obtain ⟨reserved, unpublished⟩ := inv.slots.held t slot holds
  exact inv.pages.access parts parts' sameLog sameBits
    (fun key _ present => absurd present (unpublished key)) reserved
    (fun t' other holds' => other (inv.slots.unique t' t slot holds' holds)) mine

theorem IsolationInv.held (counter : (r.left.threads t).pc = pc) (holds : pc.slotHeld = some slot) :
    HeldAlike cfg one modifiedBy secret t ⟨(r.left.threads t).call, pc⟩ (r.leftover slot)
      (part r.left.shared.pages slot) (part r.right.shared.pages slot) := by
  subst counter
  exact inv.pages.held t slot holds

theorem threads_alike_update {call : Call Key}
    {pc pc' : cfg.Pc} (alike : pc.Alike (call.key = secret) pc') (t' : Nat) :
    ∃ buffer', (update r.right.threads t ⟨call.vary secret buffer, pc'⟩ t').call =
        (update r.left.threads t ⟨call, pc⟩ t').call.vary secret buffer' ∧
      (update r.left.threads t ⟨call, pc⟩ t').pc.Alike
        ((update r.left.threads t ⟨call, pc⟩ t').call.key = secret)
        (update r.right.threads t ⟨call.vary secret buffer, pc'⟩ t').pc := by
  by_cases same : t' = t
  · subst same
    simp only [update_self]
    exact ⟨buffer, rfl, alike⟩
  · simp only [update_of_ne same]
    exact inv.threads t'

theorem stepAlike_start {call : Call Key} (taken : step cfg r.left (.start t call) = some left')
    (taken' : step cfg r.right (.start t (call.vary secret buffer)) = some right') :
    StepAlike cfg one part modifiedBy secret left' right' r.leftover := by
  obtain ⟨_, rfl⟩ := step_start taken
  obtain ⟨_, rfl⟩ := step_start taken'
  have entry : (call.vary secret buffer).entryPc cfg = call.entryPc cfg := by
    unfold Call.vary
    split <;> rfl
  have empty : (call.entryPc cfg : cfg.Pc).slotHeld = none := by
    unfold Call.entryPc
    repeat' split
    all_goals rfl
  refine ⟨inv.shared, threads_alike_update inv (entry ▸ .refl _), ?_⟩
  refine inv.pages.quiet rfl (fun _ _ _ => .inl) (fun c isFree => .inl ⟨isFree, rfl⟩)
    (fun _ _ _ _ => rfl) fun c holds => ?_
  simp [empty] at holds

end

/-! ### A memory that isolates slots -/

variable {left : Nat} {wmeta : Option Nat}
  (isolates : cfg.memory.IsolatesSlots one part cfg.lineSize modifiedBy)

include isolates

/-- Both runs flush one line: what relates the parts of a slot has only to be kept there. -/
theorem flushLine_parts (related : Slot → Slot → Prop) {h : Fin cfg.nodes} {slot line c : Nat}
    {pages pages' : Mem} (before : related (part pages c) (part pages' c))
    (kept : related (one.flushLine (part pages c) h line) (one.flushLine (part pages' c) h line)) :
    related (part (cfg.memory.flushLine pages h slot line) c)
      (part (cfg.memory.flushLine pages' h slot line) c) := by
  rw [isolates.splits.part_flushLine, isolates.splits.part_flushLine]
  by_cases here : c = slot
  · subst here
    rwa [update_self, update_self]
  · rwa [update_of_ne here, update_of_ne here]

theorem PagesAlike.flushLine (inv : PagesAlike cfg one part modifiedBy secret s leftover pages)
    (h : Fin cfg.nodes) (slot line : Nat) :
    PagesAlike cfg one part modifiedBy secret
      ⟨{ s.shared with pages := cfg.memory.flushLine s.shared.pages h slot line }, s.threads⟩
      leftover (cfg.memory.flushLine pages h slot line) where
  published := fun key c other present => by
    have before := inv.published key c other present
    exact flushLine_parts isolates Eq before (by rw [before])
  free := fun c h' isFree => by
    have before := inv.free c h' isFree
    exact flushLine_parts isolates _ before <| (before.flushLine isolates.writesBack h line).mono
      isolates.writesBack (fun _ => And.left) fun _ => id
  held := fun t c holds => by
    have before := inv.held t c holds
    exact flushLine_parts isolates (HeldAlike cfg one _ secret t _ _) before
      ⟨(before.alike.flushLine isolates.writesBack h line).mono isolates.writesBack
        (fun _ => And.left) fun _ => id, before.covers⟩

theorem PagesAlike.flushLines
    (inv : PagesAlike cfg one part modifiedBy secret s leftover pages) (h : Fin cfg.nodes)
    (slot lines : Nat) :
    PagesAlike cfg one part modifiedBy secret
      ⟨{ s.shared with pages := cfg.memory.flushLines s.shared.pages h slot lines }, s.threads⟩
      leftover (cfg.memory.flushLines pages h slot lines) := by
  induction lines with
  | zero => exact inv
  | succ lines ih => exact ih.flushLine isolates h slot lines

theorem HeldAlike.move
    {c : Nat} (alike : HeldAlike cfg one modifiedBy secret t ⟨call, pc⟩ left x x')
    (move : Move cfg t call choice pc act reply pc') (quiet : act.onPages = false)
    (holds : pc.slotHeld = some c) :
    HeldAlike cfg one modifiedBy secret t ⟨call, pc'⟩ left x x' where
  alike := by
    refine alike.alike.mono isolates.writesBack
      (fun line before => unflushed_move move quiet before) fun i before => ?_
    have less := filledSoFar_move move quiet holds
    by_cases hidden : call.key = secret
    · simpa only [Thread.differs, if_pos hidden] using before
    · simp only [Thread.differs, if_neg hidden] at before ⊢
      exact ⟨less.trans before.1, before.2⟩
  covers := alike.covers

theorem HeldAlike.fill {i : Nat} {value value' : UInt8}
    (alike : HeldAlike cfg one modifiedBy secret t ⟨call, .createFill slot wmeta i⟩ left x x')
    (inside : i < call.filled cfg t) (bytes : ¬call.key = secret → value = value') :
    HeldAlike cfg one modifiedBy secret t ⟨call, .createFill slot wmeta (i + 1)⟩ left
      (one.store x (cfg.replica t) i value) (one.store x' (cfg.replica t) i value') where
  alike := by
    refine (alike.alike.store isolates.writesBack i value value').mono isolates.writesBack ?_ ?_
    · rintro line (before | rfl)
      · simp only [Pc.unflushed] at before ⊢
        omega
      · have := Nat.div_mul_le_self i cfg.lineSize
        simp only [Pc.unflushed]
        omega
    · intro j before
      by_cases hidden : call.key = secret
      · simp only [Thread.differs, if_pos hidden] at before ⊢
        split at before <;> omega
      · simp only [Thread.differs, if_neg hidden, Pc.filledSoFar, bytes hidden, ne_eq,
          not_true_eq_false] at before ⊢
        split at before
        · exact before.elim
        · omega
  covers := alike.covers

theorem HeldAlike.flush {line : Nat}
    (alike : HeldAlike cfg one modifiedBy secret t ⟨call, .createFlush slot wmeta line⟩ left x x') :
    HeldAlike cfg one modifiedBy secret t ⟨call, .createFlush slot wmeta (line + 1)⟩ left
      (one.flushLine x (cfg.replica t) line) (one.flushLine x' (cfg.replica t) line) where
  alike := by
    refine (alike.alike.flushLine isolates.writesBack (cfg.replica t) line).mono
      isolates.writesBack ?_ fun j before => before
    rintro other ⟨⟨from_line, inside⟩, different⟩
    have := different rfl
    exact ⟨by omega, inside⟩
  covers := alike.covers

theorem HeldAlike.eq_of_insert
    (alike : HeldAlike cfg one modifiedBy secret t ⟨call, .createInsert slot wmeta⟩ left x x')
    (other : call.key ≠ secret) : x' = x := by
  have covers := alike.covers other
  refine ((alike.alike.mono isolates.writesBack (fun _ => id) fun i before => ?_).eq
    isolates.writesBack).symm
  simp only [Thread.differs, if_neg other, Pc.filledSoFar] at before covers
  omega

theorem HeldAlike.free_of_recycle
    (alike : HeldAlike cfg one modifiedBy secret t ⟨call, .createRecycleNode slot⟩ left x x')
    (h : Fin cfg.nodes) : AlikeFor one modifiedBy h (fun _ => False)
      (fun i => i < if call.key = secret then max left (call.filled cfg t) else 0) x x' := by
  refine (alike.alike.mono isolates.writesBack (fun _ => id) fun i before => ?_).uncached
    isolates.writesBack h
  by_cases hidden : call.key = secret
  · simpa only [Thread.differs, if_pos hidden] using before
  · have covers := alike.covers hidden
    simp only [Thread.differs, if_neg hidden, Pc.filledSoFar] at before covers
    omega

theorem AlikeFor.held
    (alike : AlikeFor one modifiedBy (cfg.replica t) (fun _ => False) (fun i => i < left) x x')
    (covers : thread.call.key ≠ secret → left ≤ thread.call.filled cfg t)
    (empty : thread.pc.filledSoFar cfg t thread.call = 0) :
    HeldAlike cfg one modifiedBy secret t thread left x x' where
  alike := by
    refine alike.mono isolates.writesBack (fun _ => False.elim) fun i before => ?_
    simp only [Thread.differs, empty]
    split <;> omega
  covers := covers

theorem isolationInv_initial (s : TwoRuns cfg)
    (start : (twoRuns cfg secret).init s) : IsolationInv cfg one part modifiedBy secret s := by
  obtain ⟨left, right, leftover⟩ := s
  obtain ⟨initial, same, nothing⟩ := start
  simp only at initial same nothing
  subst same
  have unheld : ∀ t c, (right.threads t).pc.slotHeld ≠ some c := by
    intro t c holds
    rw [initial.threads t] at holds
    cases holds
  refine ⟨⟨rfl, fun t => ?_, ?_, ?_, ?_⟩, fun t busy => absurd (initial.threads t) busy,
    slotsOwned_initial right initial, targetsKnown_initial right initial⟩
  · obtain ⟨buffer, same⟩ := exists_vary_eq secret (right.threads t).call
    exact ⟨buffer, same.symm, .refl _⟩
  · intro key c other present
    rfl
  · intro c h _
    have clean := isolates.initial right.shared.pages c h initial.pages
    exact ⟨clean, clean, fun _ _ => rfl⟩
  · intro t c holds
    exact absurd holds (unheld t c)

section

variable (inv : IsolationInv cfg one part modifiedBy secret r)

include inv

theorem pagesAlike_reserve
    (move : Move cfg t (r.left.threads t).call choice .createReserve act reply pc')
    (acted : perform cfg t r.left.shared act = some (shared, reply))
    (covers : (r.left.threads t).call.key ≠ secret → choice < cfg.numPages →
      r.leftover choice ≤ (r.left.threads t).call.filled cfg t) :
    PagesAlike cfg one part modifiedBy secret
      ⟨shared, update r.left.threads t ⟨(r.left.threads t).call, pc'⟩⟩
      r.leftover r.right.shared.pages := by
  have reserved : ∀ {slot : Nat},
      perform cfg t r.left.shared (.reserveCacheNode choice) = some (shared, some slot) →
      pc'.filledSoFar cfg t (r.left.threads t).call = 0 →
      (∀ c, pc'.slotHeld = some c → c = slot) →
      PagesAlike cfg one part modifiedBy secret
        ⟨shared, update r.left.threads t ⟨(r.left.threads t).call, pc'⟩⟩
        r.leftover r.right.shared.pages := by
    intro slot acted empty only
    obtain ⟨rfl, inside, isFree, rfl⟩ := perform_reserved acted
    refine inv.pages.quiet rfl (fun _ _ _ => .inl) (fun c stillFree => .inl ⟨?_, rfl⟩)
      (fun _ _ _ _ => rfl) fun c holds => ?_
    · by_cases same : c = slot
      · simp [same] at stillFree
      · simpa [same] using stillFree
    · obtain rfl := only c holds
      exact (inv.pages.free c (cfg.replica t) isFree).held isolates
        (fun other => covers other inside) empty
  cases move with
  | createRefused | createRetry =>
    obtain rfl := perform_refused acted
    exact inv.pages.quiet rfl (fun _ _ _ => .inl) (fun c isFree => .inl ⟨isFree, rfl⟩)
      (fun _ _ _ _ => rfl) fun c holds => nomatch holds
  | createEmpty kind data =>
    refine reserved acted ?_ fun c holds => (Option.some.inj holds).symm
    simp [Pc.filledSoFar, Call.filled, Call.content, kind, data]
  | createWritten | createFetched =>
    exact reserved acted rfl fun c holds => (Option.some.inj holds).symm
  | createCrash => exact reserved acted rfl fun c holds => nomatch holds

theorem pagesAlike_recycle (counter : (r.left.threads t).pc = .createRecycleNode slot)
    (acted : perform cfg t r.left.shared (.recycleCacheNode slot (choice == 0)) =
      some (shared, ())) (empty : pc'.slotHeld = none) :
    PagesAlike cfg one part modifiedBy secret
      ⟨shared, update r.left.threads t ⟨(r.left.threads t).call, pc'⟩⟩
      (leaveOver cfg secret r.left r.leftover (.thread t choice)) r.right.shared.pages := by
  have holds : (r.left.threads t).pc.slotHeld = some slot := by rw [counter]; rfl
  have held := inv.held counter rfl
  cases acted
  simp only [leaveOver, counter]
  by_cases sets : choice = 0
  · subst sets
    simp only [beq_self_eq_true, if_true]
    refine inv.pages.quiet rfl (fun _ _ _ => .inl) (fun c isFree => ?_) (fun t' c other mine => ?_)
      fun c mine => ?_
    · by_cases same : c = slot
      · subst same
        refine .inr fun h => ?_
        rw [update_self]
        exact held.free_of_recycle isolates h
      · simp only [update_of_ne same] at isFree
        exact .inl ⟨isFree, update_of_ne same _ _⟩
    · refine update_of_ne ?_ _ _
      rintro rfl
      exact other (inv.slots.unique t' t c mine holds)
    · simp [empty] at mine
  · simp only [sets, beq_iff_eq, if_false]
    refine inv.pages.quiet rfl (fun _ _ _ => .inl) (fun c isFree => .inl ⟨isFree, rfl⟩)
      (fun _ _ _ _ => rfl) fun c mine => ?_
    simp [empty] at mine

theorem pagesAlike_quiet (covers : overwrites cfg secret r (.thread t choice, buffer) = true)
    (taken : step cfg r.left (.thread t choice) = some
      ⟨shared, update r.left.threads t ⟨(r.left.threads t).call, pc'⟩⟩)
    (move : Move cfg t (r.left.threads t).call choice (r.left.threads t).pc act reply pc')
    (acted : perform cfg t r.left.shared act = some (shared, reply))
    (quiet : act.onPages = false) :
    PagesAlike cfg one part modifiedBy secret
      ⟨shared, update r.left.threads t ⟨(r.left.threads t).call, pc'⟩⟩
      (leaveOver cfg secret r.left r.leftover (.thread t choice)) r.right.shared.pages := by
  have frame := perform_frame acted
  cases counter : (r.left.threads t).pc with
  | createReserve =>
    rw [counter] at move
    have same : leaveOver cfg secret r.left r.leftover (.thread t choice) = r.leftover := by
      simp [leaveOver, counter]
    rw [same]
    refine pagesAlike_reserve isolates inv move acted fun other inside => ?_
    simpa [overwrites, counter, other, Nat.not_le.mpr inside] using covers
  | createRecycleNode slot =>
    rw [counter] at move
    cases move with
    | recycledDone | recycledAgain => exact pagesAlike_recycle isolates inv counter acted rfl
  | _ =>
    have same : leaveOver cfg secret r.left r.leftover (.thread t choice) = r.leftover := by
      simp [leaveOver, counter]
    have bits : shared.freeBit = r.left.shared.freeBit := by
      refine frame.freeBit (eq_false_of_ne_true fun touches => ?_)
      rcases move_onBitmap move touches with reserves | ⟨slot, recycles⟩
      · simp [counter] at reserves
      · simp [counter] at recycles
    rw [same]
    refine inv.pages.quiet (frame.pages quiet) (fun key c other present => ?_)
      (fun c isFree => .inl ⟨bits ▸ isFree, rfl⟩) (fun _ _ _ _ => rfl) fun c holds => ?_
    · rcases slot_step taken key with
        before | ⟨t', _, slot, wmeta, ⟨⟩, own, inserts, _, inserted⟩
      · exact .inl (before.symm.trans present)
      · -- the slot is published by the thread that has filled it
        right
        have published : slot = c := by simpa [PageMap.slot, inserted] using present
        rw [← published]
        exact (inv.held inserts rfl).eq_of_insert isolates (own ▸ other)
    · have before := slotHeld_move move (by simp [counter]) holds
      exact (inv.pages.held t c before).move isolates move quiet before

theorem pagesAlike_load {i : Nat} {value : UInt8}
    (move : Move cfg t (r.left.threads t).call choice (r.left.threads t).pc (.loadByte slot i)
      value pc') :
    ((r.left.threads t).call.key ≠ secret →
      (cfg.memory.load r.left.shared.pages (cfg.replica t) slot i).1 =
        (cfg.memory.load r.right.shared.pages (cfg.replica t) slot i).1) ∧
    PagesAlike cfg one part modifiedBy secret
      ⟨{ r.left.shared with
          pages := (cfg.memory.load r.left.shared.pages (cfg.replica t) slot i).2 },
        update r.left.threads t ⟨(r.left.threads t).call, pc'⟩⟩
      r.leftover (cfg.memory.load r.right.shared.pages (cfg.replica t) slot i).2 := by
  obtain ⟨guard, bytes, counter, empty⟩ := readCopy_of_move move
  have target : (r.left.threads t).pc.target = some slot := by rw [counter]; rfl
  refine ⟨fun other => ?_, pagesAlike_target inv target (isolates.splits.part_load _ _ _ _)
    (isolates.splits.part_load _ _ _ _) rfl rfl (fun _ same => by rw [same]) empty⟩
  have same := inv.pages.published _ slot other (inv.targets t slot target)
  rw [isolates.splits.load, isolates.splits.load, same]

theorem pagesAlike_store {i : Nat} {value value' : UInt8}
    (bytes : ¬(r.left.threads t).call.key = secret → value = value')
    (move : Move cfg t (r.left.threads t).call choice (r.left.threads t).pc
      (.storeByte slot i value) () pc') :
    PagesAlike cfg one part modifiedBy secret
      ⟨{ r.left.shared with
          pages := cfg.memory.store r.left.shared.pages (cfg.replica t) slot i value },
        update r.left.threads t ⟨(r.left.threads t).call, pc'⟩⟩
      r.leftover (cfg.memory.store r.right.shared.pages (cfg.replica t) slot i value') := by
  generalize counter : (r.left.threads t).pc = pc at move
  cases move with
  | writeByte =>
    have target : (r.left.threads t).pc.target = some slot := by rw [counter]; rfl
    exact pagesAlike_target inv target (isolates.splits.part_store _ _ _ _ _)
      (isolates.splits.part_store _ _ _ _ _) rfl rfl
      (fun other same => by rw [same, bytes other]) rfl
  | @createFill _ wmeta _ _ byte =>
    have holds : (r.left.threads t).pc.slotHeld = some slot := by rw [counter]; rfl
    refine pagesAlike_filling inv holds (isolates.splits.part_store _ _ _ _ _)
      (isolates.splits.part_store _ _ _ _ _) rfl rfl fun c mine => ?_
    cases mine
    exact ⟨rfl, (inv.held counter rfl).fill isolates (List.getElem?_eq_some_iff.mp byte).1 bytes⟩

theorem pagesAlike_flush
    {line : Nat} (move : Move cfg t (r.left.threads t).call choice (r.left.threads t).pc
      (.flushLine slot line) () pc') :
    PagesAlike cfg one part modifiedBy secret
      ⟨{ r.left.shared with
          pages := cfg.memory.flushLine r.left.shared.pages (cfg.replica t) slot line },
        update r.left.threads t ⟨(r.left.threads t).call, pc'⟩⟩
      r.leftover (cfg.memory.flushLine r.right.shared.pages (cfg.replica t) slot line) := by
  rcases flushes_of_move move with ⟨wmeta, counter, rfl⟩ | empty
  · have holds : (r.left.threads t).pc.slotHeld = some slot := by rw [counter]; rfl
    refine pagesAlike_filling inv holds (isolates.splits.part_flushLine _ _ _ _)
      (isolates.splits.part_flushLine _ _ _ _) rfl rfl fun c mine => ?_
    cases mine
    exact ⟨rfl, (inv.held counter rfl).flush isolates⟩
  · refine (inv.pages.flushLine isolates (cfg.replica t) slot line).quiet rfl (fun _ _ _ => .inl)
      (fun c isFree => .inl ⟨isFree, rfl⟩) (fun _ _ _ _ => rfl) fun c holds => ?_
    simp [empty] at holds

theorem stepAlike_thread (covers : overwrites cfg secret r (.thread t choice, buffer) = true)
    (taken : step cfg r.left (.thread t choice) = some left')
    (taken' : step cfg r.right (.thread t choice) = some right') :
    StepAlike cfg one part modifiedBy secret left' right'
      (leaveOver cfg secret r.left r.leftover (.thread t choice)) := by
  have taken₀ := taken
  obtain ⟨instr, shared, reply, fetched, acted, rfl⟩ := step_thread taken
  obtain ⟨instr', shared', reply', fetched', acted', rfl⟩ := step_thread taken'
  obtain ⟨other, sameCall, samePc⟩ := inv.threads t
  rw [sameCall] at fetched'
  rw [inv.shared] at acted'
  have kept : instr.act.onPages = true →
      leaveOver cfg secret r.left r.leftover (.thread t choice) = r.leftover := by
    intro touches
    cases counter : (r.left.threads t).pc with
    | createRecycleNode slot =>
      rw [counter] at fetched
      cases fetched
      cases touches
    | _ => simp [leaveOver, counter]
  have alike := next_alike samePc fetched fetched'
  rw [sameCall]
  cases alike with
  | same quiet after =>
    rw [perform_withPages quiet, acted] at acted'
    cases acted'
    exact ⟨rfl, threads_alike_update inv (after reply),
      pagesAlike_quiet isolates inv covers taken₀ (move_of_next fetched reply) acted quiet⟩
  | load after =>
    rw [kept rfl]
    cases acted
    cases acted'
    obtain ⟨sameByte, pages⟩ := pagesAlike_load isolates inv (move_of_next fetched _)
    exact ⟨rfl, threads_alike_update inv (after _ _ sameByte), pages⟩
  | store bytes =>
    rw [kept rfl]
    cases acted
    cases acted'
    exact ⟨rfl, threads_alike_update inv (.refl _),
      pagesAlike_store isolates inv bytes (move_of_next fetched ())⟩
  | flush =>
    rw [kept rfl]
    cases acted
    cases acted'
    exact ⟨rfl, threads_alike_update inv (.refl _),
      pagesAlike_flush isolates inv (move_of_next fetched ())⟩

theorem stepAlike_replay {n : Nat} (taken : step cfg r.left (.replay n) = some left')
    (taken' : step cfg r.right (.replay n) = some right') :
    StepAlike cfg one part modifiedBy secret left' right' r.leftover := by
  obtain ⟨inside, entry, present, rfl⟩ := step_replay taken
  obtain ⟨_, entry', present', rfl⟩ := step_replay taken'
  rw [inv.shared] at present'
  obtain rfl : entry = entry' := Option.some.inj (present.symm.trans present')
  have shared := inv.shared
  refine ⟨?_, inv.threads, ?_⟩
  · rw [shared]
    rfl
  · rw [shared]
    simp only [replayEntry, Shared.withPages]
    cases reported : replaySlot cfg.nodes r.left.shared.log (r.left.shared.applied ⟨n, inside⟩) with
    | none => exact ⟨inv.pages.published, inv.pages.free, inv.pages.held⟩
    | some slot =>
      by_cases own : cfg.replica entry.thread = ⟨n, inside⟩
      · simp only [if_pos own]
        exact ⟨inv.pages.published, inv.pages.free, inv.pages.held⟩
      · simp only [if_neg own]
        have flushed := inv.pages.flushLines isolates ⟨n, inside⟩ slot cfg.lines
        exact ⟨flushed.published, flushed.free, flushed.held⟩

end

theorem isolationInv_step (r : TwoRuns cfg) (e : Event Key × (Nat → UInt8)) (r' : TwoRuns cfg)
    (inv : IsolationInv cfg one part modifiedBy secret r)
    (allowed : e.1.named = true ∧ overwrites cfg secret r e = true)
    (together : (twoRuns cfg secret).step r e = some r') :
    IsolationInv cfg one part modifiedBy secret r' := by
  obtain ⟨left', taken, stepped⟩ := Option.bind_eq_some_iff.mp together
  obtain ⟨right', taken', rfl⟩ := Option.map_eq_some_iff.mp stepped
  obtain ⟨e, buffer⟩ := e
  obtain ⟨named, covers⟩ := allowed
  simp only at taken taken' named
  have alike : StepAlike cfg one part modifiedBy secret left' right'
      (leaveOver cfg secret r.left r.leftover e) := by
    cases e with
    | start t call => exact stepAlike_start inv taken taken'
    | thread t choice => exact stepAlike_thread isolates inv covers taken taken'
    | replay n => exact stepAlike_replay isolates inv taken taken'
    | sync n =>
      obtain ⟨inside, _, _, rfl⟩ := step_sync taken
      obtain ⟨_, _, _, rfl⟩ := step_sync taken'
      have shared := inv.shared
      refine ⟨?_, inv.threads, inv.pages.published, inv.pages.free, inv.pages.held⟩
      rw [shared]
      rfl
    | complete n =>
      obtain ⟨_, rfl⟩ := step_complete taken
      obtain ⟨_, rfl⟩ := step_complete taken'
      have shared := inv.shared
      refine ⟨?_, inv.threads, inv.pages.published, inv.pages.free, inv.pages.held⟩
      rw [shared]
      rfl
  exact ⟨alike, named_step inv.keys named taken,
    slotsOwned_step r.left e left' inv.slots (insertsNamed_of_keys e inv.keys) taken,
    targetsKnown_step r.left e left' inv.targets taken⟩

/-- **Keys do not leak** into each other in runs that overwrite what lost insertions of the
secret key have left in the slots they reserve. -/
theorem gets_agree {r : TwoRuns cfg}
    (reached : (twoRuns cfg secret).ReachableWhere
      (fun r e => e.1.named = true ∧ overwrites cfg secret r e = true) r) :
    GetsAgree cfg secret r := by
  have inv : IsolationInv cfg one part modifiedBy secret r :=
    reached.invariant (isolationInv_initial isolates) (isolationInv_step isolates)
  intro t n bytes _ other
  obtain ⟨_, _, alike⟩ := inv.threads t
  rw [alike.eq other]

end

/-! ### A short and a full `Put` after a lost one -/

section

def scrPool : Config BlockId (CachedPages (Fin 2)) :=
  twoHosts 2 2 2 Nat.two_pos (privateCacheMemory (Fin 2) 1)

def twoStarts : TwoRuns scrPool where
  left := initialState scrPool ⟨fun _ _ => 0, fun _ _ => none⟩ pageKey
  right := initialState scrPool ⟨fun _ _ => 0, fun _ _ => none⟩ pageKey
  leftover := fun _ => 0

theorem initial_twoStarts : (twoRuns scrPool pageKey).init twoStarts :=
  ⟨initial_initialState scrPool pageKey fun _ _ => rfl, rfl, fun _ => rfl⟩

/-- Thread 0 puts a page and loses the insertion to thread 1; its slot is given back. -/
def lostPut : List (Event BlockId) :=
  List.flatten
    [[.start 0 (putCall 2 7)], steps 13 0 0, [.start 1 (putCall 2 8)], steps 14 1 1, steps 1 0 0,
      catchUp 2 0, steps 4 0 0]

/-- It then puts `count` bytes to another page, in the same slot, and gets two. -/
def putThenGet (count : Nat) : List (Event BlockId) :=
  List.flatten
    [lostPut, [.start 0 { putCall count 5 with key := otherKey }], steps (10 + 2 * count) 0 0,
      catchUp 1 0, steps 2 0 0, [.start 0 { readCall .get 2 with key := otherKey }], steps 11 0 0]

def withSecret (events : List (Event BlockId)) : List (Event BlockId × (Nat → UInt8)) :=
  events.map fun e => (e, fun _ => 9)

def gotTwo (left right : List UInt8) (r : TwoRuns scrPool) : Bool :=
  (r.left.threads 0).call.kind = .get && (r.left.threads 0).call.key = otherKey &&
    (r.left.threads 0).pc.result = some (2, left) && (r.right.threads 0).pc.result = some (2, right)

/-- The second byte of the other page is the byte of the lost `Put`. -/
theorem gets_disagree_putThenGet :
    ∃ r, (twoRuns scrPool pageKey).ReachableWhere (fun _ e => e.1.named = true) r ∧
      ¬ GetsAgree scrPool pageKey r := by
  obtain ⟨r, reached, got⟩ := System.exists_reachableWhere_of_run
    (.of_sound (twoRuns scrPool pageKey) (fun _ e => e.1.named) fun _ _ passes => passes)
    initial_twoStarts (withSecret (putThenGet 1)) (gotTwo [5, 7] [5, 9]) (by decide +kernel)
  simp only [gotTwo, Bool.and_eq_true, decide_eq_true_eq] at got
  obtain ⟨⟨⟨kind, key⟩, left⟩, right⟩ := got
  refine ⟨r, reached, fun agree => ?_⟩
  have other : (r.left.threads 0).call.key ≠ pageKey := by
    rw [key]
    decide
  have same := (agree 0 2 [5, 7] kind other).mp (eq_returned left)
  rw [eq_returned right] at same
  simp at same

/-- A `Put` of the whole page leaves nothing of the lost one. -/
theorem gets_agree_putThenGet :
    ∃ r, (twoRuns scrPool pageKey).ReachableWhere
        (fun r e => e.1.named = true ∧ overwrites scrPool pageKey r e = true) r ∧
      (r.leftover 0 = 2 ∧ (r.left.threads 0).pc = .returned 2 [5, 5]) ∧
      GetsAgree scrPool pageKey r := by
  have tests : System.Tests (twoRuns scrPool pageKey) (fun _ => True)
      (fun r e => e.1.named && overwrites scrPool pageKey r e)
      fun r e => e.1.named = true ∧ overwrites scrPool pageKey r e = true :=
    .of_sound _ _ fun _ _ passes => Bool.and_eq_true_iff.mp passes
  obtain ⟨r, reached, got⟩ := System.exists_reachableWhere_of_run tests initial_twoStarts
    (withSecret (putThenGet 2)) (fun r => gotTwo [5, 5] [5, 5] r && r.leftover 0 = 2)
    (by decide +kernel)
  simp only [gotTwo, Bool.and_eq_true, decide_eq_true_eq] at got
  obtain ⟨⟨⟨_, left⟩, _⟩, leftover⟩ := got
  exact ⟨r, reached, ⟨leftover, eq_returned left⟩,
    gets_agree (isolatesSlots_privateCacheMemory Nat.one_pos) reached⟩

end

end Megalon.Protocol
