import Mathlib.Algebra.BigOperators.Ring.Finset
import Mathlib.Data.Fintype.Card
import Megalon.Core.Bitmap
import Megalon.Foundations.Counter
import Megalon.Foundations.Transition

/-!
Contract: the dirty bitmap and `dirty_count_` of `SharedBitmap` (`core/scr_bitmap.h`).

Owns: `SetDirty` access by access under any number of threads, that the counter and the bits agree
once no call runs; `SetDirty` without other threads, and which bits `IsDirty` reads then.

Does not own: which functions of the store mark a slot, and what is in the slots.
-/

namespace Megalon.Core.SharedBitmap

open Function Foundations

/-- `num_pages_`, for which `BITS_TO_LONGS` does not wrap around. -/
structure DirtyConfig where
  numPages : Nat
  bounded : numPages + 63 < 2 ^ 64

/-- `BITS_TO_LONGS(num_pages_)`. -/
def DirtyConfig.bitmapLen (cfg : DirtyConfig) : Nat := (cfg.numPages + 63) / 64

/-- The arguments of `SetDirty`. -/
structure SetDirty where
  cnIndex : Nat
  dirty : Bool
  deriving DecidableEq, Repr

/-- `load_bit`. -/
def loadBit (words : Nat → BitmapWord) (cnIndex : Nat) : Bool :=
  (words (bitmapIndex cnIndex)).has (bitmapOffset cnIndex)

/-- `try_setbit_exclusive`. Unlike `try_setbit` it refuses a bit that is set. -/
def trySetbitExclusive (word : BitmapWord) (offset : Nat) : BitPlace → BitmapWord × BitProgress
  | .load => (word, if word.has offset then .returned false else .goes (.swap word))
  | .swap curr =>
    if word = curr then (curr ||| bit offset, .returned true) else (word, .returned false)

/-- The function that one of the two loops of `SetDirty` calls. -/
def tryFlip (dirty : Bool) (word : BitmapWord) (offset : Nat) (place : BitPlace) :
    BitmapWord × BitProgress :=
  if dirty then trySetbitExclusive word offset place
  else BitOp.tryClearbitExclusive.access word offset place

inductive DirtyPc where
  | idle
  /-- Before `load_bit`, the condition of the loop. -/
  | loadBit (call : SetDirty)
  /-- In `try_setbit_exclusive` or `try_clearbit_exclusive`. -/
  | flip (call : SetDirty) (place : BitPlace)
  /-- Before `fetch_add` or `fetch_sub`. -/
  | flipped (call : SetDirty)
  deriving DecidableEq

/-- `hadValue t`: since the call of thread `t` began, the bit of its slot has had the value the
call asks for. -/
structure DirtyState (threads : Nat) where
  words : Nat → BitmapWord
  dirtyCount : BitVec 64
  pc : Fin threads → DirtyPc
  hadValue : Fin threads → Bool

inductive DirtyEvent (threads : Nat) where
  | call (t : Fin threads) (call : SetDirty)
  | step (t : Fin threads)

section

variable {threads : Nat}

def DirtyState.goto (s : DirtyState threads) (t : Fin threads) (pc : DirtyPc) :
    DirtyState threads :=
  { s with pc := update s.pc t pc }

def DirtyState.writeWord (s : DirtyState threads) (index : Nat) (word : BitmapWord) :
    DirtyState threads :=
  { s with words := update s.words index word }

def DirtyPc.call : DirtyPc → Option SetDirty
  | .idle => none
  | .loadBit call | .flip call _ | .flipped call => some call

def DirtyState.observe (s : DirtyState threads) : DirtyState threads :=
  { s with
    hadValue := fun t =>
      match (s.pc t).call with
      | some call => s.hadValue t || decide (loadBit s.words call.cnIndex = call.dirty)
      | none => false }

/-- `fetch_add(1)` or `fetch_sub(1)`. -/
def SetDirty.count (call : SetDirty) (dirtyCount : BitVec 64) : BitVec 64 :=
  if call.dirty then dirtyCount + 1 else dirtyCount - 1

def DirtyState.advance (s : DirtyState threads) (t : Fin threads) :
    DirtyPc → Option (DirtyState threads)
  | .idle => none
  | .loadBit call =>
    some (s.goto t (if loadBit s.words call.cnIndex = call.dirty then .idle
      else .flip call .load))
  | .flip call place =>
    match tryFlip call.dirty (s.words (bitmapIndex call.cnIndex)) (bitmapOffset call.cnIndex)
      place with
    | (word, .goes place) =>
      some ((s.writeWord (bitmapIndex call.cnIndex) word).goto t (.flip call place))
    | (word, .returned succeed) =>
      some ((s.writeWord (bitmapIndex call.cnIndex) word).goto t
        (if succeed then .flipped call else .loadBit call))
  | .flipped call => some ({ s with dirtyCount := call.count s.dirtyCount }.goto t .idle)

variable (cfg : DirtyConfig)

def dirtyMove (s : DirtyState threads) : DirtyEvent threads → Option (DirtyState threads)
  | .call t call =>
    if s.pc t = .idle ∧ call.cnIndex < cfg.numPages then some (s.goto t (.loadBit call)) else none
  | .step t => s.advance t (s.pc t)

/-- `SharedBitmap`: no bit of the dirty bitmap is set. -/
def dirtySystem (threads : Nat) : System (DirtyState threads) (DirtyEvent threads) where
  init := fun s => (∀ index, s.words index = 0) ∧ s.dirtyCount = 0 ∧ (∀ t, s.pc t = .idle) ∧
    ∀ t, s.hadValue t = false
  step := fun s e => (dirtyMove cfg s e).map DirtyState.observe

/-- The number of bits that are set in the words of the bitmap. -/
def DirtyState.setBits (s : DirtyState threads) : Nat :=
  ((Finset.range (64 * cfg.bitmapLen)).filter fun cn => bitAt s.words cn = true).card

/-- A call on a slot begins only when no other call on the slot is running. -/
def apart (s : DirtyState threads) : DirtyEvent threads → Prop
  | .call _ call => ∀ t other, (s.pc t).call = some other → other.cnIndex ≠ call.cnIndex
  | .step _ => True

end

/-! ### What a step does -/

section

variable {threads : Nat} {cfg : DirtyConfig} {s : DirtyState threads} {t : Fin threads}

theorem loadBit_eq_bitAt (words : Nat → BitmapWord) (cnIndex : Nat) :
    loadBit words cnIndex = bitAt words cnIndex := by
  rw [loadBit, ← bitAt_bitmapCnIndex words (bitmapOffset_lt cnIndex), bitmapCnIndex_self]

/-- The word that a successful compare-exchange of `tryFlip` leaves. -/
def flipEntry (dirty : Bool) (word : BitmapWord) (offset : Nat) : BitmapWord :=
  if dirty then word ||| bit offset else word &&& ~~~bit offset

theorem bitAt_flipEntry (words : Nat → BitmapWord) (dirty : Bool) (cnIndex : Nat) :
    bitAt (update words (bitmapIndex cnIndex)
      (flipEntry dirty (words (bitmapIndex cnIndex)) (bitmapOffset cnIndex))) =
        update (bitAt words) cnIndex dirty := by
  have inside := bitmapOffset_lt cnIndex
  cases dirty with
  | false =>
    conv_rhs => rw [← bitmapCnIndex_self cnIndex]
    exact bitAt_newEntry words .tryClearbitExclusive inside
  | true =>
    conv_rhs => rw [← bitmapCnIndex_self cnIndex]
    exact bitAt_newEntry words .trySetbit inside

section

variable {dirty : Bool} {word curr : BitmapWord} {offset : Nat}

theorem tryFlip_load (other : word.has offset = !dirty) :
    tryFlip dirty word offset .load = (word, .goes (.swap word)) := by
  cases dirty with
  | false => simp [tryFlip, BitOp.access, BitOp.loaded, other]
  | true => simp [tryFlip, trySetbitExclusive, other]

theorem tryFlip_load_of_value (value : word.has offset = dirty) :
    tryFlip dirty word offset .load = (word, .returned false) := by
  cases dirty with
  | false => simp [tryFlip, BitOp.access, BitOp.loaded, value]
  | true => simp [tryFlip, trySetbitExclusive, value]

theorem tryFlip_swap :
    tryFlip dirty word offset (.swap word) = (flipEntry dirty word offset, .returned true) := by
  cases dirty with
  | false => simp [tryFlip, BitOp.access, flipEntry, BitOp.newEntry]
  | true => simp [tryFlip, trySetbitExclusive, flipEntry]

theorem tryFlip_swap_of_ne (different : word ≠ curr) :
    tryFlip dirty word offset (.swap curr) = (word, .returned false) := by
  cases dirty with
  | false => simp [tryFlip, BitOp.access, different]
  | true => simp [tryFlip, trySetbitExclusive, different]

/-- `tryFlip` goes on to its compare-exchange with a word that has the other value, is refused, or
has written the word it had loaded. -/
theorem tryFlip_cases (dirty : Bool) (word : BitmapWord) (offset : Nat) (place : BitPlace) :
    (place = .load ∧ word.has offset = !dirty ∧
      tryFlip dirty word offset place = (word, .goes (.swap word))) ∨
    tryFlip dirty word offset place = (word, .returned false) ∨
    (place = .swap word ∧
      tryFlip dirty word offset place = (flipEntry dirty word offset, .returned true)) := by
  cases place with
  | load =>
    by_cases value : word.has offset = dirty
    · exact .inr (.inl (tryFlip_load_of_value value))
    · have other := Bool.eq_not_of_ne value
      exact .inl ⟨rfl, other, tryFlip_load other⟩
  | swap curr =>
    by_cases same : word = curr
    · subst same
      exact .inr (.inr ⟨rfl, tryFlip_swap⟩)
    · exact .inr (.inl (tryFlip_swap_of_ne same))

end

/-- The slot is one of the cache, and a compare-exchange has seen the other value. -/
def DirtyPc.Valid (cfg : DirtyConfig) : DirtyPc → Prop
  | .idle => True
  | .loadBit call | .flip call .load | .flipped call => call.cnIndex < cfg.numPages
  | .flip call (.swap curr) => call.cnIndex < cfg.numPages ∧
      curr.has (bitmapOffset call.cnIndex) = !call.dirty

def DirtyPc.tries : DirtyPc → Option SetDirty
  | .loadBit call | .flip call _ => some call
  | .idle | .flipped _ => none

@[simp] def DirtyEvent.thread : DirtyEvent threads → Fin threads
  | .call t _ | .step t => t

/-- What an event does to the state. -/
inductive Change (cfg : DirtyConfig) (s : DirtyState threads) :
    DirtyEvent threads → DirtyState threads → Prop
  | starts {t call} (idle : s.pc t = .idle) (inside : call.cnIndex < cfg.numPages) :
      Change cfg s (.call t call) (s.goto t (.loadBit call))
  | tries {t call pc} (before : (s.pc t).tries = some call) (after : pc.tries = some call)
      (valid : pc.Valid cfg) : Change cfg s (.step t) (s.goto t pc)
  | finds {t call} (before : (s.pc t).tries = some call)
      (value : bitAt s.words call.cnIndex = call.dirty) : Change cfg s (.step t) (s.goto t .idle)
  | flips {t call words} (before : (s.pc t).tries = some call)
      (value : bitAt s.words call.cnIndex = !call.dirty)
      (bits : bitAt words = update (bitAt s.words) call.cnIndex call.dirty) :
      Change cfg s (.step t) ({ s with words := words }.goto t (.flipped call))
  | counts {t call} (before : s.pc t = .flipped call) :
      Change cfg s (.step t) ({ s with dirtyCount := call.count s.dirtyCount }.goto t .idle)

@[simp] theorem goto_pc (s : DirtyState threads) (t : Fin threads) (pc : DirtyPc) :
    (s.goto t pc).pc t = pc := update_self ..

variable {call : SetDirty} {pc : DirtyPc}

theorem DirtyPc.call_of_tries (tries : pc.tries = some call) : pc.call = some call := by
  cases pc with
  | idle | flipped => cases tries
  | loadBit | flip => exact tries

theorem DirtyPc.Valid.inside (valid : pc.Valid cfg) (running : pc.call = some call) :
    call.cnIndex < cfg.numPages := by
  cases pc with
  | idle => cases running
  | loadBit | flipped =>
    cases running
    exact valid
  | flip call place =>
    cases running
    cases place with
    | load => exact valid
    | swap => exact valid.1

theorem writeWord_self (s : DirtyState threads) (index : Nat) :
    s.writeWord index (s.words index) = s := by
  rw [DirtyState.writeWord, update_eq_self]

theorem change_flip {s' : DirtyState threads} {place : BitPlace} (valid : (s.pc t).Valid cfg)
    (now : s.pc t = .flip call place) (taken : s.advance t (.flip call place) = some s') :
    Change cfg s (.step t) s' := by
  have before : (s.pc t).tries = some call := by rw [now]; rfl
  have inside := valid.inside (DirtyPc.call_of_tries before)
  simp only [DirtyState.advance] at taken
  rcases tryFlip_cases call.dirty (s.words (bitmapIndex call.cnIndex)) (bitmapOffset call.cnIndex)
    place with ⟨rfl, other, goes⟩ | refused | ⟨rfl, written⟩
  · rw [goes] at taken
    simp only [writeWord_self] at taken
    cases taken
    exact .tries before rfl ⟨inside, other⟩
  · rw [refused] at taken
    simp only [writeWord_self, Bool.false_eq_true, if_false] at taken
    cases taken
    exact .tries before rfl inside
  · rw [written] at taken
    cases taken
    rw [now] at valid
    refine .flips before ?_ (bitAt_flipEntry s.words call.dirty call.cnIndex)
    rw [← loadBit_eq_bitAt]
    exact valid.2

theorem change_of_move {s' : DirtyState threads} {e : DirtyEvent threads}
    (valid : ∀ t, (s.pc t).Valid cfg) (taken : dirtyMove cfg s e = some s') :
    Change cfg s e s' := by
  cases e with
  | call t call =>
    simp only [dirtyMove] at taken
    split at taken <;> cases taken
    rename_i enabled
    exact .starts enabled.1 enabled.2
  | step t =>
    simp only [dirtyMove] at taken
    cases now : s.pc t with
    | idle =>
      rw [now] at taken
      cases taken
    | loadBit call =>
      have before : (s.pc t).tries = some call := by rw [now]; rfl
      rw [now] at taken
      simp only [DirtyState.advance, loadBit_eq_bitAt] at taken
      split at taken <;> cases taken
      · exact .finds before ‹_›
      · exact .tries before rfl ((valid t).inside (DirtyPc.call_of_tries before))
    | flip call place =>
      rw [now] at taken
      exact change_flip (valid t) now taken
    | flipped call =>
      rw [now] at taken
      cases taken
      exact .counts now

end

/-! ### The counter and the bits -/

section

variable {threads : Nat} {cfg : DirtyConfig} {s s' : DirtyState threads}
  {e : DirtyEvent threads}

/-- What a thread still has to add to `dirty_count_`. -/
def DirtyPc.pending : DirtyPc → Int
  | .flipped call => if call.dirty then 1 else -1
  | _ => 0

def dirtyWeight (set : Bool) : Int := if set then 1 else 0

structure DirtyInv (cfg : DirtyConfig) (s : DirtyState threads) : Prop where
  valid : ∀ t, (s.pc t).Valid cfg
  outside : ∀ cn, cfg.numPages ≤ cn → bitAt s.words cn = false
  balanced : Balanced s.dirtyCount (DirtyPc.pending ∘ s.pc)
    (∑ cn ∈ Finset.range cfg.numPages, dirtyWeight (bitAt s.words cn))
  had : ∀ t call, (s.pc t).call = some call → bitAt s.words call.cnIndex = call.dirty →
    s.hadValue t = true
  flipped : ∀ t call, s.pc t = .flipped call → s.hadValue t = true

variable {pc : DirtyPc} {call : SetDirty}

theorem DirtyPc.pending_of_tries (tries : pc.tries = some call) : pc.pending = 0 := by
  cases pc with
  | flipped => cases tries
  | _ => rfl

variable {t : Fin threads}

section

variable (change : Change cfg s e s')

include change

theorem Change.others (other : t ≠ e.thread) : s'.pc t = s.pc t := by
  cases change <;> exact update_of_ne other ..

theorem Change.valid (inv : DirtyInv cfg s) (t : Fin threads) : (s'.pc t).Valid cfg := by
  rcases ne_or_eq t e.thread with other | rfl
  · rw [change.others other]
    exact inv.valid t
  cases change with
  | starts _ inside => simpa [DirtyPc.Valid] using inside
  | tries _ _ valid => simpa using valid
  | finds | counts => simp [DirtyPc.Valid]
  | flips before =>
    simpa [DirtyPc.Valid] using (inv.valid _).inside (DirtyPc.call_of_tries before)

theorem Change.bits :
    s'.words = s.words ∨ ∃ t call, e = .step t ∧ (s.pc t).tries = some call ∧
      bitAt s'.words = update (bitAt s.words) call.cnIndex call.dirty := by
  cases change with
  | flips before _ bits => exact .inr ⟨_, _, rfl, before, bits⟩
  | _ => exact .inl rfl

theorem Change.outside (inv : DirtyInv cfg s) {cn : Nat} (beyond : cfg.numPages ≤ cn) :
    bitAt s'.words cn = false := by
  rcases change.bits with same | ⟨t, call, _, tries, bits⟩
  · rw [same]
    exact inv.outside cn beyond
  · have inside := (inv.valid t).inside (DirtyPc.call_of_tries tries)
    rw [bits, update_of_ne (by omega)]
    exact inv.outside cn beyond

end

theorem Balanced.goto {counter : BitVec 64} {used : Int}
    (balanced : Balanced counter (DirtyPc.pending ∘ s.pc) used)
    (same : pc.pending = (s.pc t).pending) :
    Balanced counter (DirtyPc.pending ∘ update s.pc t pc) used := by
  have owed : pc.pending - (DirtyPc.pending ∘ s.pc) t = 0 := by
    rw [Function.comp_apply, same]
    omega
  rw [Function.comp_update]
  have moved := balanced.defer t owed
  rwa [Int.add_zero] at moved

theorem Change.balanced (inv : DirtyInv cfg s) (change : Change cfg s e s') :
    Balanced s'.dirtyCount (DirtyPc.pending ∘ s'.pc)
      (∑ cn ∈ Finset.range cfg.numPages, dirtyWeight (bitAt s'.words cn)) := by
  cases change with
  | starts idle _ => exact Balanced.goto inv.balanced (by rw [idle]; rfl)
  | tries before after _ =>
    refine Balanced.goto inv.balanced ?_
    rw [DirtyPc.pending_of_tries before, DirtyPc.pending_of_tries after]
  | finds before _ =>
    refine Balanced.goto inv.balanced ?_
    rw [DirtyPc.pending_of_tries before]
    rfl
  | @flips t call words before value bits =>
    have inside := (inv.valid t).inside (DirtyPc.call_of_tries before)
    have owed : (DirtyPc.flipped call).pending - (DirtyPc.pending ∘ s.pc) t =
        dirtyWeight call.dirty - dirtyWeight (bitAt s.words call.cnIndex) := by
      rw [Function.comp_apply, DirtyPc.pending_of_tries before, value]
      cases dirty : call.dirty <;> simp [DirtyPc.pending, dirty, dirtyWeight]
    have deferred := inv.balanced.defer t owed
    rw [← Function.comp_update, ← sum_update _ _ dirtyWeight (Finset.mem_range.mpr inside),
      ← bits] at deferred
    exact deferred
  | @counts t call before =>
    have paid : (if call.dirty then 1 else -1) +
        (DirtyPc.idle.pending - (DirtyPc.pending ∘ s.pc) t) = 0 := by
      rw [Function.comp_apply, before]
      simp [DirtyPc.pending]
    have counted : call.count s.dirtyCount =
        s.dirtyCount + BitVec.ofInt 64 (if call.dirty then 1 else -1) := by
      cases dirty : call.dirty <;> simp [SetDirty.count, dirty, BitVec.sub_eq_add_neg]
    have updated := inv.balanced.update t paid
    rw [← Function.comp_update, Int.add_zero, ← counted] at updated
    exact updated

/-- Only a compare-exchange that succeeds brings a thread to the update of the counter. -/
theorem Change.flipped (change : Change cfg s e s') (now : s'.pc t = .flipped call) :
    s.pc t = .flipped call ∨
      bitAt s'.words = update (bitAt s.words) call.cnIndex call.dirty := by
  rcases ne_or_eq t e.thread with other | rfl
  · exact .inl ((change.others other).symm.trans now)
  cases change with
  | starts | finds | counts => cases (goto_pc ..).symm.trans now
  | tries _ after _ =>
    rw [(goto_pc ..).symm.trans now] at after
    cases after
  | flips _ _ bits =>
    cases (goto_pc ..).symm.trans now
    exact .inr bits

theorem observe_had (s : DirtyState threads) (t : Fin threads) (call : SetDirty)
    (running : (s.pc t).call = some call) (value : bitAt s.words call.cnIndex = call.dirty) :
    s.observe.hadValue t = true := by
  simp [DirtyState.observe, running, loadBit_eq_bitAt, value]

theorem Change.had (inv : DirtyInv cfg s) (change : Change cfg s e s')
    (now : s'.pc t = .flipped call) : s'.observe.hadValue t = true := by
  have running : (s'.pc t).call = some call := by rw [now]; rfl
  rcases change.flipped now with before | bits
  · have kept : s'.hadValue t = s.hadValue t := by cases change <;> rfl
    simp [DirtyState.observe, running, kept, inv.flipped t call before]
  · exact observe_had s' t call running (by rw [bits, update_self])

theorem dirtyInv_step (inv : DirtyInv cfg s)
    (taken : (dirtySystem cfg threads).step s e = some s') : DirtyInv cfg s' := by
  obtain ⟨moved, move, rfl⟩ := Option.map_eq_some_iff.mp taken
  have change := change_of_move inv.valid move
  have valid := change.valid inv
  have balanced := change.balanced inv
  exact ⟨valid, fun _ beyond => change.outside inv beyond, balanced, observe_had moved,
    fun _ _ now => change.had inv now⟩

theorem bitAt_zero {words : Nat → BitmapWord} (zero : ∀ index, words index = 0) (cn : Nat) :
    bitAt words cn = false := by
  rw [bitAt, zero]
  exact BitVec.getLsbD_zero

theorem dirtyInv_initial (start : (dirtySystem cfg threads).init s) : DirtyInv cfg s := by
  obtain ⟨zero, count, idle, _⟩ := start
  refine ⟨fun t => by simp [idle, DirtyPc.Valid], fun cn _ => bitAt_zero zero cn, ?_, ?_, ?_⟩
  · have unset : ∑ cn ∈ Finset.range cfg.numPages, dirtyWeight (bitAt s.words cn) = 0 := by
      apply Finset.sum_eq_zero
      intro cn _
      rw [bitAt_zero zero]
      rfl
    rw [count, unset]
    exact Balanced.initial fun t => by simp [idle, DirtyPc.pending]
  · intro t call running
    rw [idle] at running
    cases running
  · intro t call now
    rw [idle] at now
    cases now

theorem dirtyInv (reached : (dirtySystem cfg threads).Reachable s) : DirtyInv cfg s :=
  reached.invariant (fun _ start => dirtyInv_initial start)
    fun _ _ _ inv taken => dirtyInv_step inv taken

theorem sum_dirtyWeight (slots : Finset Nat) (set : Nat → Bool) :
    ∑ cn ∈ slots, dirtyWeight (set cn) = (slots.filter fun cn => set cn = true).card := by
  rw [Finset.card_filter, Nat.cast_sum]
  apply Finset.sum_congr rfl
  intro cn _
  cases set cn <;> rfl

theorem setBits_eq (inv : DirtyInv cfg s) :
    ∑ cn ∈ Finset.range cfg.numPages, dirtyWeight (bitAt s.words cn) = s.setBits cfg := by
  have inside : ((Finset.range (64 * cfg.bitmapLen)).filter fun cn => bitAt s.words cn = true) =
      (Finset.range cfg.numPages).filter fun cn => bitAt s.words cn = true := by
    ext cn
    simp only [Finset.mem_filter, Finset.mem_range]
    constructor
    · rintro ⟨_, set⟩
      refine ⟨?_, set⟩
      by_contra beyond
      rw [inv.outside cn (by omega)] at set
      cases set
    · rintro ⟨below, set⟩
      exact ⟨by rw [DirtyConfig.bitmapLen]; omega, set⟩
  rw [DirtyState.setBits, inside, sum_dirtyWeight]

theorem setBits_lt (s : DirtyState threads) : s.setBits cfg < 2 ^ 64 := by
  have bounded := cfg.bounded
  have below := Finset.card_filter_le (Finset.range (64 * cfg.bitmapLen))
    fun cn => bitAt s.words cn = true
  rw [Finset.card_range, DirtyConfig.bitmapLen] at below
  rw [DirtyState.setBits, DirtyConfig.bitmapLen]
  omega

theorem dirtyCount_eq (inv : DirtyInv cfg s) (quiet : ∀ t, s.pc t = .idle) :
    s.dirtyCount.toNat = s.setBits cfg :=
  inv.balanced.settled (fun t => by simp [quiet, DirtyPc.pending]) (setBits_eq inv) (setBits_lt s)

theorem Change.returns (inv : DirtyInv cfg s) (change : Change cfg s e s')
    (running : s.pc t ≠ .idle) (ended : s'.pc t = .idle) : s.hadValue t = true := by
  rcases ne_or_eq t e.thread with other | rfl
  · exact absurd ((change.others other).symm.trans ended) running
  cases change with
  | starts | flips => cases (goto_pc ..).symm.trans ended
  | tries _ after _ =>
    rw [(goto_pc ..).symm.trans ended] at after
    cases after
  | finds before value => exact inv.had _ _ (DirtyPc.call_of_tries before) value
  | counts before => exact inv.flipped _ _ before

/-! ### Calls on one slot that do not overlap -/

/-- The slots of running calls differ, so a bit keeps its value until the call that has flipped it
has updated the counter. -/
structure ApartInv (s : DirtyState threads) : Prop where
  single : ∀ t t' call call', (s.pc t).call = some call → (s.pc t').call = some call' →
    call.cnIndex = call'.cnIndex → t = t'
  flipped : ∀ t call, s.pc t = .flipped call → bitAt s.words call.cnIndex = call.dirty

theorem Change.running (change : Change cfg s e s') (now : (s'.pc t).call = some call) :
    (s.pc t).call = some call ∨ e = .call t call := by
  rcases ne_or_eq t e.thread with other | rfl
  · exact .inl ((change.others other) ▸ now)
  cases change with
  | starts =>
    simp only [DirtyEvent.thread, goto_pc] at now
    cases now
    exact .inr rfl
  | tries before after _ =>
    simp only [DirtyEvent.thread, goto_pc, DirtyPc.call_of_tries after] at now
    exact .inl (now ▸ DirtyPc.call_of_tries before)
  | flips before =>
    simp only [DirtyEvent.thread, goto_pc] at now
    exact .inl (now ▸ DirtyPc.call_of_tries before)
  | finds | counts =>
    simp only [DirtyEvent.thread, goto_pc] at now
    cases now

theorem apartInv_step (inv : ApartInv s) (meets : apart s e) (change : Change cfg s e s') :
    ApartInv s' where
  single := by
    intro t t' call call' first second same
    rcases change.running first with before | rfl
    · rcases change.running second with before' | rfl
      · exact inv.single t t' call call' before before' same
      · exact absurd same (meets t call before)
    · rcases change.running second with before' | now
      · exact absurd same.symm (meets t' call' before')
      · cases now
        rfl
  flipped := by
    intro t call now
    rcases change.flipped now with before | bits
    · have value := inv.flipped t call before
      rcases change.bits with same | ⟨t', call', _, tries, bits⟩
      · rwa [same]
      · rw [bits, update_of_ne, value]
        intro same
        have mine := inv.single t t' call call' (by rw [before]; rfl)
          (DirtyPc.call_of_tries tries) same
        rw [← mine, before] at tries
        cases tries
    · rw [bits, update_self]

theorem apartInv (reached : (dirtySystem cfg threads).ReachableWhere apart s) :
    DirtyInv cfg s ∧ ApartInv s := by
  refine reached.invariant (P := fun s => DirtyInv cfg s ∧ ApartInv s) ?_ ?_
  · refine fun s start => ⟨dirtyInv_initial start, fun t _ call _ running => ?_,
      fun t call now => ?_⟩
    · simp [start.2.2.1 t, DirtyPc.call] at running
    · simp [start.2.2.1 t] at now
  · rintro s e s' ⟨inv, alone⟩ meets taken
    refine ⟨dirtyInv_step inv taken, ?_⟩
    obtain ⟨moved, move, rfl⟩ := Option.map_eq_some_iff.mp taken
    obtain ⟨single, flipped⟩ := apartInv_step alone meets (change_of_move inv.valid move)
    exact ⟨single, flipped⟩

def DirtyPc.flippedTo (dirty : Bool) : DirtyPc → Bool
  | .flipped call => call.dirty == dirty
  | _ => false

/-- The threads that have flipped a bit to `dirty` and are to update the counter. -/
def DirtyState.flippers (s : DirtyState threads) (dirty : Bool) : Finset (Fin threads) :=
  Finset.univ.filter fun t => (s.pc t).flippedTo dirty = true

theorem sum_pending (s : DirtyState threads) :
    ∑ t, (DirtyPc.pending ∘ s.pc) t = (s.flippers true).card - (s.flippers false).card := by
  simp only [DirtyState.flippers, Finset.card_filter, Nat.cast_sum, ← Finset.sum_sub_distrib]
  refine Finset.sum_congr rfl fun t _ => ?_
  rw [Function.comp_apply]
  cases s.pc t with
  | flipped call => cases dirty : call.dirty <;> simp [DirtyPc.pending, DirtyPc.flippedTo, dirty]
  | _ => rfl

/-- The bits of these threads are different bits with that value. -/
theorem card_flippers_le (inv : DirtyInv cfg s) (alone : ApartInv s) (dirty : Bool) :
    (s.flippers dirty).card ≤
      ((Finset.range cfg.numPages).filter fun cn => bitAt s.words cn = dirty).card := by
  have flipped : ∀ t ∈ s.flippers dirty, ∃ call, s.pc t = .flipped call ∧ call.dirty = dirty := by
    intro t member
    simp only [DirtyState.flippers, Finset.mem_filter] at member
    cases now : s.pc t <;> simp [now, DirtyPc.flippedTo] at member
    exact ⟨_, rfl, member⟩
  refine Finset.card_le_card_of_injOn (fun t => ((s.pc t).call.map SetDirty.cnIndex).getD 0) ?_ ?_
  · intro t member
    obtain ⟨call, now, rfl⟩ := flipped t member
    have inside : call.cnIndex < cfg.numPages := (inv.valid t).inside (by rw [now]; rfl)
    simpa [now, DirtyPc.call, inside] using alone.flipped t call now
  · intro t member t' member' same
    obtain ⟨call, now, _⟩ := flipped t member
    obtain ⟨call', now', _⟩ := flipped t' member'
    simp only [now, now'] at same
    exact alone.single t t' call call' (by rw [now]; rfl) (by rw [now']; rfl) same

theorem dirtyCount_ne_zero (inv : DirtyInv cfg s) (alone : ApartInv s)
    (before : s.pc t = .flipped call) (clears : call.dirty = false) : s.dirtyCount ≠ 0 := by
  obtain ⟨total, counts, sum⟩ := inv.balanced
  rw [sum_pending, sum_dirtyWeight] at sum
  have bounded := cfg.bounded
  have dirtied := card_flippers_le inv alone true
  have cleaned := card_flippers_le inv alone false
  have mine : 0 < (s.flippers false).card :=
    Finset.card_pos.mpr ⟨t, by simp [DirtyState.flippers, before, DirtyPc.flippedTo, clears]⟩
  have all := Finset.card_filter_add_card_filter_not (s := Finset.range cfg.numPages)
    fun cn => bitAt s.words cn = true
  simp only [Bool.not_eq_true, Finset.card_range] at all
  obtain ⟨n, rfl⟩ := Int.eq_ofNat_of_zero_le (by omega : 0 ≤ total)
  intro zero
  have wrapped := congrArg BitVec.toNat (counts.symm.trans zero)
  rw [BitVec.ofInt_natCast, BitVec.toNat_ofNat, Nat.mod_eq_of_lt (by omega)] at wrapped
  change n = 0 at wrapped
  omega

/-- The counter and the bits agree when no call is running; a call ends after its bit had the
value; it changes its own bit only; and while calls on one slot do not overlap, `fetch_sub` never
finds a zero. -/
theorem dirty_accounting (cfg : DirtyConfig) (threads : Nat) :
    (∀ s, (dirtySystem cfg threads).Reachable s → (∀ t, s.pc t = .idle) →
      s.dirtyCount.toNat = s.setBits cfg) ∧
    (∀ s e s', (dirtySystem cfg threads).Reachable s →
      (dirtySystem cfg threads).step s e = some s' →
      (∀ t, s.pc t ≠ .idle → s'.pc t = .idle → s.hadValue t = true) ∧
      ∀ cn, bitAt s'.words cn ≠ bitAt s.words cn → ∃ t call, e = .step t ∧
        (s.pc t).call = some call ∧ call.cnIndex = cn ∧ bitAt s'.words cn = call.dirty) ∧
    ∀ s, (dirtySystem cfg threads).ReachableWhere apart s →
      ∀ t call, s.pc t = .flipped call → call.dirty = false → s.dirtyCount ≠ 0 := by
  refine ⟨fun s reached quiet => dirtyCount_eq (dirtyInv reached) quiet, ?_, ?_⟩
  · intro s e s' reached taken
    have inv := dirtyInv reached
    obtain ⟨moved, move, rfl⟩ := Option.map_eq_some_iff.mp taken
    have change := change_of_move inv.valid move
    refine ⟨fun t running ended => change.returns inv running ended, ?_⟩
    intro cn changed
    change bitAt moved.words cn ≠ _ at changed
    rcases change.bits with same | ⟨t, call, stepped, tries, bits⟩
    · exact absurd (by rw [same]) changed
    · have here : call.cnIndex = cn := by
        by_contra elsewhere
        exact changed (by rw [bits, update_of_ne (Ne.symm elsewhere)])
      refine ⟨t, call, stepped, DirtyPc.call_of_tries tries, here, ?_⟩
      change bitAt moved.words cn = _
      rw [bits, here, update_self]
  · intro s reached t call before clears
    obtain ⟨inv, alone⟩ := apartInv reached
    exact dirtyCount_ne_zero inv alone before clears

/-! Two threads mark slot 70; the compare-exchange of the second fails. -/

def hundredPages : DirtyConfig := ⟨100, by decide⟩

def allClean : DirtyState 2 := ⟨fun _ => 0, 0, fun _ => .idle, fun _ => false⟩

def marker : Fin 2 := ⟨0, Nat.two_pos⟩

def rival : Fin 2 := ⟨1, Nat.one_lt_two⟩

def markTwice : List (DirtyEvent 2) :=
  [.call marker ⟨70, true⟩, .call rival ⟨70, true⟩, .step marker, .step rival, .step marker,
    .step rival, .step marker, .step rival, .step rival, .step marker]

theorem dirty_accounting_markTwice :
    ∃ s, (dirtySystem hundredPages 2).Reachable s ∧ (∀ t, s.pc t = .idle) ∧ s.dirtyCount = 1 ∧
      s.setBits hundredPages = 1 := by
  obtain ⟨s, reached, holds⟩ := System.exists_reachable_of_run (dirtySystem hundredPages 2)
    (s := allClean) ⟨fun _ => rfl, rfl, fun _ => rfl, fun _ => rfl⟩ markTwice
    (fun s => decide ((∀ t, s.pc t = .idle) ∧ s.dirtyCount = 1)) (by decide +kernel)
  obtain ⟨quiet, one⟩ := of_decide_eq_true holds
  refine ⟨s, reached, quiet, one, ?_⟩
  rw [← (dirty_accounting hundredPages 2).1 s reached quiet, one]
  rfl

end

/-! ### Calls one after the other -/

section

/-- `SetDirty` without other threads: the first compare-exchange succeeds. -/
def setDirty (words : Nat → BitmapWord) (call : SetDirty) : Nat → BitmapWord :=
  if loadBit words call.cnIndex = call.dirty then words
  else update words (bitmapIndex call.cnIndex)
    (flipEntry call.dirty (words (bitmapIndex call.cnIndex)) (bitmapOffset call.cnIndex))

def wordsAfter (calls : List SetDirty) : Nat → BitmapWord := calls.foldl setDirty fun _ => 0

/-- `1 << offset`: `1` is an `int` of 32 bits, and a shift by 32 or more is undefined. -/
def intShift (offset : Nat) : Option (BitVec 32) :=
  if offset < 32 then some (1#32 <<< offset) else none

/-- `bitmap_testbit`: the `int` is converted to `uint64_t`, with its sign. -/
def bitmapTestbit (words : Nat → BitmapWord) (cnIndex : Nat) : Option Bool :=
  (intShift (bitmapOffset cnIndex)).map fun mask =>
    decide (words (bitmapIndex cnIndex) &&& mask.signExtend 64 ≠ 0)

def isDirty (words : Nat → BitmapWord) (cnIndex : Nat) : Option Bool := bitmapTestbit words cnIndex

def lastSet (calls : List SetDirty) (cnIndex : Nat) : Bool :=
  ((calls.reverse.find? fun call => call.cnIndex = cnIndex).map SetDirty.dirty).getD false

theorem bitAt_setDirty (words : Nat → BitmapWord) (call : SetDirty) :
    bitAt (setDirty words call) = update (bitAt words) call.cnIndex call.dirty := by
  rw [setDirty, loadBit_eq_bitAt]
  split
  · rename_i value
    rw [← value, update_eq_self]
  · exact bitAt_flipEntry words call.dirty call.cnIndex

theorem lastSet_append (calls : List SetDirty) (call : SetDirty) :
    lastSet (calls ++ [call]) = update (lastSet calls) call.cnIndex call.dirty := by
  funext cn
  rw [lastSet, List.reverse_append, List.reverse_singleton, List.singleton_append, List.find?_cons]
  by_cases same : call.cnIndex = cn
  · rw [← same, update_self]
    simp
  · rw [update_of_ne (Ne.symm same)]
    simp [same, lastSet]

theorem bitAt_wordsAfter (calls : List SetDirty) : bitAt (wordsAfter calls) = lastSet calls := by
  induction calls using List.reverseRecOn with
  | nil =>
    funext cn
    exact bitAt_zero (fun _ => rfl) cn
  | append_singleton calls call ih =>
    rw [wordsAfter, List.foldl_append, List.foldl_cons, List.foldl_nil, bitAt_setDirty,
      lastSet_append, ← ih]
    rfl

variable {threads : Nat} {cfg : DirtyConfig} {s : DirtyState threads} {t : Fin threads}

/-- The call of thread `t`, with no step of another thread, ends with these words. -/
def Finishes (cfg : DirtyConfig) (t : Fin threads) (s : DirtyState threads)
    (words : Nat → BitmapWord) : Prop :=
  ∃ count s', (dirtySystem cfg threads).run s (List.replicate count (.step t)) = some s' ∧
    s'.words = words ∧ s'.pc = update s.pc t .idle

theorem Finishes.step {s' : DirtyState threads} {words : Nat → BitmapWord} {pc : DirtyPc}
    (advanced : s.advance t (s.pc t) = some (s'.goto t pc)) (others : s'.pc = s.pc)
    (rest : Finishes cfg t (s'.goto t pc).observe words) : Finishes cfg t s words := by
  obtain ⟨count, last, run, wordsThen, pcsThen⟩ := rest
  have taken : (dirtySystem cfg threads).step s (.step t) = some (s'.goto t pc).observe := by
    change (s.advance t (s.pc t)).map _ = _
    rw [advanced]
    rfl
  refine ⟨count + 1, last, ?_, wordsThen, ?_⟩
  · rw [List.replicate_succ, System.run_cons, taken]
    exact run
  · rw [pcsThen, ← others]
    exact update_idem ..

theorem Finishes.idle (ended : s.pc t = .idle) : Finishes cfg t s s.words :=
  ⟨0, s, rfl, rfl, by rw [← ended, update_eq_self]⟩

variable {call : SetDirty}

theorem finishes_flipped (now : s.pc t = .flipped call) : Finishes cfg t s s.words := by
  have counted : s.advance t (s.pc t) =
      some ({ s with dirtyCount := call.count s.dirtyCount }.goto t .idle) := by
    rw [now]
    rfl
  exact Finishes.step counted rfl (.idle (update_self ..))

theorem finishes_swap (now : s.pc t = .flip call (.swap (s.words (bitmapIndex call.cnIndex)))) :
    Finishes cfg t s (update s.words (bitmapIndex call.cnIndex)
      (flipEntry call.dirty (s.words (bitmapIndex call.cnIndex)) (bitmapOffset call.cnIndex))) := by
  have swapped : s.advance t (s.pc t) = some ((s.writeWord (bitmapIndex call.cnIndex)
      (flipEntry call.dirty (s.words (bitmapIndex call.cnIndex))
        (bitmapOffset call.cnIndex))).goto t (.flipped call)) := by
    rw [now, DirtyState.advance, tryFlip_swap]
    rfl
  exact Finishes.step swapped rfl (finishes_flipped (update_self ..))

theorem finishes_flip (now : s.pc t = .flip call .load)
    (other : loadBit s.words call.cnIndex = !call.dirty) :
    Finishes cfg t s (update s.words (bitmapIndex call.cnIndex)
      (flipEntry call.dirty (s.words (bitmapIndex call.cnIndex)) (bitmapOffset call.cnIndex))) := by
  have loaded : s.advance t (s.pc t) =
      some (s.goto t (.flip call (.swap (s.words (bitmapIndex call.cnIndex))))) := by
    rw [now, DirtyState.advance, tryFlip_load other]
    simp only [writeWord_self]
  exact Finishes.step loaded rfl (finishes_swap (update_self ..))

theorem finishes_loadBit (now : s.pc t = .loadBit call) :
    Finishes cfg t s (setDirty s.words call) := by
  by_cases value : loadBit s.words call.cnIndex = call.dirty
  · have found : s.advance t (s.pc t) = some (s.goto t .idle) := by
      rw [now, DirtyState.advance, if_pos value]
    rw [setDirty, if_pos value]
    exact Finishes.step found rfl (.idle (update_self ..))
  · have tried : s.advance t (s.pc t) = some (s.goto t (.flip call .load)) := by
      rw [now, DirtyState.advance, if_neg value]
    rw [setDirty, if_neg value]
    exact Finishes.step tried rfl
      (finishes_flip (update_self ..) (Bool.eq_not_of_ne value))

/-- **`SetDirty` that runs alone** returns, and has done what `setDirty` says. -/
theorem setDirty_run (idle : s.pc t = .idle) (inside : call.cnIndex < cfg.numPages) :
    ∃ count s', (dirtySystem cfg threads).run s (.call t call :: List.replicate count (.step t)) =
      some s' ∧ s'.words = setDirty s.words call ∧ s'.pc = s.pc := by
  have called : (dirtySystem cfg threads).step s (.call t call) =
      some (s.goto t (.loadBit call)).observe := by
    change (dirtyMove cfg s (.call t call)).map _ = _
    rw [dirtyMove, if_pos ⟨idle, inside⟩]
    rfl
  have loaded : (s.goto t (.loadBit call)).observe.pc t = .loadBit call := update_self ..
  obtain ⟨count, s', run, words, pcs⟩ := finishes_loadBit loaded
  refine ⟨count, s', ?_, words, ?_⟩
  · rw [System.run_cons, called]
    exact run
  · rw [pcs]
    change update (update s.pc t _) t .idle = s.pc
    rw [update_idem, ← idle, update_eq_self]

theorem setDirty_run_marker :
    ∃ count s', (dirtySystem hundredPages 2).run allClean
        (.call marker ⟨70, true⟩ :: List.replicate count (.step marker)) = some s' ∧
      s'.words = setDirty allClean.words ⟨70, true⟩ ∧ s'.pc = allClean.pc :=
  setDirty_run rfl (by decide)

/-- The mask of `bitmap_testbit` is `BIT(offset)` up to offset 30. At offset 31 its sign sets all
higher bits as well. -/
theorem getLsbD_testMask :
    ∀ offset : Fin 32, ∀ j : Fin 64, ((1#32 <<< offset.val).signExtend 64).getLsbD j.val =
      decide (j.val = offset.val ∨ (offset.val = 31 ∧ 31 ≤ j.val)) := by
  decide +kernel

theorem isDirty_eq_some_iff (words : Nat → BitmapWord) {cn : Nat} (below : cn % 64 < 32)
    (value : Bool) :
    isDirty words cn = some value ↔ (value = true ↔ ∃ j, j < 64 ∧
      (words (cn / 64)).getLsbD j = true ∧ (j = cn % 64 ∨ (cn % 64 = 31 ∧ 31 ≤ j))) := by
  have shift : intShift (cn % 64) = some (1#32 <<< (cn % 64)) := if_pos below
  have tested : words (cn / 64) &&& (1#32 <<< (cn % 64)).signExtend 64 ≠ 0 ↔ ∃ j, j < 64 ∧
      (words (cn / 64)).getLsbD j = true ∧ (j = cn % 64 ∨ (cn % 64 = 31 ∧ 31 ≤ j)) := by
    rw [and_ne_zero_iff]
    refine exists_congr fun j => and_congr_right fun inside => and_congr_right fun _ => ?_
    rw [getLsbD_testMask ⟨cn % 64, below⟩ ⟨j, inside⟩, decide_eq_true_iff]
  rw [isDirty, bitmapTestbit, bitmapIndex_eq, bitmapOffset_eq, shift, Option.map_some,
    Option.some_inj, ← tested, Bool.eq_iff_iff, decide_eq_true_iff]
  exact Iff.comm

/-- `load_bit` reads what the last call set. `IsDirty` does at the offsets below 31; at offset 31
it also answers for the upper half of the word, and above that its shift is undefined. -/
theorem isDirty_iff_lastSet (calls : List SetDirty) (cn : Nat) :
    loadBit (wordsAfter calls) cn = lastSet calls cn ∧
    (isDirty (wordsAfter calls) cn = some (lastSet calls cn) ↔
      cn % 64 < 31 ∨ (cn % 64 = 31 ∧ (lastSet calls cn = true ∨
        ∀ j, 32 ≤ j → j < 64 → lastSet calls (64 * (cn / 64) + j) = false))) := by
  refine ⟨by rw [loadBit_eq_bitAt, bitAt_wordsAfter], ?_⟩
  have bits : ∀ j, j < 64 →
      (wordsAfter calls (cn / 64)).getLsbD j = lastSet calls (64 * (cn / 64) + j) := by
    intro j below
    have row : (64 * (cn / 64) + j) / 64 = cn / 64 := by omega
    have column : (64 * (cn / 64) + j) % 64 = j := by omega
    rw [← bitAt_wordsAfter, bitAt, row, column]
  have own : 64 * (cn / 64) + cn % 64 = cn := by omega
  by_cases defined : cn % 64 < 32
  · rw [isDirty_eq_some_iff _ defined]
    constructor
    · intro agrees
      by_cases low : cn % 64 < 31
      · exact .inl low
      · have last : cn % 64 = 31 := by omega
        refine .inr ⟨last, ?_⟩
        by_cases set : lastSet calls cn = true
        · exact .inl set
        · refine .inr fun j high below => ?_
          by_contra dirty
          refine set (agrees.mpr ⟨j, below, ?_, .inr ⟨last, by omega⟩⟩)
          rw [bits j below]
          exact Bool.not_eq_false _ ▸ dirty
    · intro condition
      constructor
      · intro set
        exact ⟨cn % 64, by omega, by rw [bits _ (by omega), own, set], .inl rfl⟩
      · rintro ⟨j, below, set, same | ⟨last, high⟩⟩
        · rwa [bits j below, same, own] at set
        · rw [bits j below] at set
          rcases condition with low | ⟨_, mine | clean⟩
          · omega
          · exact mine
          · by_cases here : j = 31
            · rwa [here, ← last, own] at set
            · rw [clean j (by omega) below] at set
              cases set
  · have undefinedShift : isDirty (wordsAfter calls) cn = none := by
      rw [isDirty, bitmapTestbit, bitmapOffset_eq, intShift, if_neg defined]
      rfl
    rw [undefinedShift]
    constructor
    · intro answered
      cases answered
    · intro condition
      omega

/-- Slot 40 is marked, and slot 31 is reported as dirty; the test of slot 40 is undefined. -/
theorem isDirty_wrong_of_offset :
    isDirty (wordsAfter [⟨40, true⟩]) 31 = some true ∧ lastSet [⟨40, true⟩] 31 = false ∧
      isDirty (wordsAfter [⟨40, true⟩]) 40 = none ∧ lastSet [⟨40, true⟩] 40 = true := by
  decide +kernel

end

end Megalon.Core.SharedBitmap
