import Mathlib.Algebra.BigOperators.Ring.Finset
import Mathlib.Algebra.Order.BigOperators.Group.Finset
import Mathlib.Data.Fintype.Card
import Megalon.Core.Bitmap
import Megalon.Foundations.Counter
import Megalon.Foundations.Transition

/-!
Contract: the slots of the shared cache, the free bitmap and `count_` of `SharedBitmap`
(`core/scr_bitmap.h`), under any number of threads that recycle only slots they own.

Owns: `ReserveCacheNode` in both forms and `RecycleCacheNode`, access by access; that slots have
one owner and none is lost while no recycle is disturbed, and a run that loses one.

Does not own: the dirty bitmap, and what is in the slots.

`num_pages_` is a multiple of 64. A start point is `count_` or, in the `RANDSLOTALLOC` build, a
value of `std::rand`.
-/

namespace Megalon.Core

open Function Foundations

structure SlotConfig where
  /-- `BITS_TO_LONGS(num_pages_)`. -/
  bitmapLen : Nat
  bounded : 64 * bitmapLen < 2 ^ 64
  randSlotAlloc : Bool

def SlotConfig.numPages (cfg : SlotConfig) : Nat := 64 * cfg.bitmapLen

inductive SlotCall where
  | reserveCacheNode
  | reserveCacheNodeAt (cnIndex : Nat)
  | recycleCacheNode (cnIndex : Nat)

inductive SlotPc where
  | idle
  /-- `ReserveCacheNode()` before it has a start point. -/
  | startPoint
  /-- `bitmap_find_setbit` before it loads row `(i + start) % bitmap_len`. -/
  | find (start i : Nat)
  /-- `try_clearbit_exclusive`; `retry` in `ReserveCacheNode()`. -/
  | clear (retry : Bool) (index offset : Nat) (place : BitPlace)
  /-- Before `count_.fetch_add`. -/
  | reserved (index offset : Nat)
  /-- `try_setbit` of `RecycleCacheNode`. -/
  | set (index offset : Nat) (place : BitPlace)
  /-- Before `count_.fetch_sub`. -/
  | recycled
  deriving DecidableEq

/-- `owns t cn`: a reserve of thread `t` has returned `cn`, and `t` has not recycled it since. -/
structure SlotState (threads : Nat) where
  words : Nat → BitmapWord
  count : BitVec 64
  owns : Fin threads → Nat → Bool
  pc : Fin threads → SlotPc

inductive SlotEvent (threads : Nat) where
  | call (t : Fin threads) (call : SlotCall)
  | step (t : Fin threads) (choice : Nat)

section

variable {threads : Nat}

def SlotState.goto (s : SlotState threads) (t : Fin threads) (pc : SlotPc) : SlotState threads :=
  { s with pc := update s.pc t pc }

def SlotState.writeWord (s : SlotState threads) (index : Nat) (word : BitmapWord) :
    SlotState threads :=
  { s with words := update s.words index word }

def SlotState.setOwner (s : SlotState threads) (t : Fin threads) (cn : Nat) (value : Bool) :
    SlotState threads :=
  { s with owns := update s.owns t (update (s.owns t) cn value) }

/-- A bit was not cleared: `ReserveCacheNode()` starts again. -/
def afterRefusal (retry : Bool) : SlotPc := if retry then .startPoint else .idle

def SlotState.advance (cfg : SlotConfig) (s : SlotState threads) (t : Fin threads) (choice : Nat) :
    SlotPc → Option (SlotState threads)
  | .idle => none
  | .startPoint =>
    some (s.goto t (.find (if cfg.randSlotAlloc then choice % cfg.bitmapLen
      else s.count.toNat % 2 ^ 32) 0))
  | .find start i =>
    if i < cfg.bitmapLen then
      match ffsll (s.words ((i + start) % cfg.bitmapLen)) with
      | some offset => some (s.goto t (.clear true ((i + start) % cfg.bitmapLen) offset .load))
      | none => some (s.goto t (.find start (i + 1)))
    else some (s.goto t .idle)
  | .clear retry index offset place =>
    match BitOp.tryClearbitExclusive.access (s.words index) offset place with
    | (word, .goes place) =>
      some ((s.writeWord index word).goto t (.clear retry index offset place))
    | (word, .returned succeed) =>
      some ((s.writeWord index word).goto t
        (if succeed then .reserved index offset else afterRefusal retry))
  | .reserved index offset =>
    some (({ s with count := s.count + 1 }.setOwner t (bitmapCnIndex index offset) true).goto t
      .idle)
  | .set index offset place =>
    match BitOp.trySetbit.access (s.words index) offset place with
    | (word, .goes place) =>
      some ((s.writeWord index word).goto t (.set index offset place))
    | (word, .returned succeed) =>
      some ((s.writeWord index word).goto t (if succeed then .recycled else .idle))
  | .recycled => some ({ s with count := s.count - 1 }.goto t .idle)

variable (cfg : SlotConfig) (threads)

def slotStep (s : SlotState threads) : SlotEvent threads → Option (SlotState threads)
  | .call t call =>
    if s.pc t = .idle then
      match call with
      | .reserveCacheNode => some (s.goto t .startPoint)
      | .reserveCacheNodeAt cn =>
        if cn < cfg.numPages then
          some (s.goto t (.clear false (bitmapIndex cn) (bitmapOffset cn) .load))
        else none
      | .recycleCacheNode cn =>
        if s.owns t cn then
          some ((s.setOwner t cn false).goto t (.set (bitmapIndex cn) (bitmapOffset cn) .load))
        else none
    else none
  | .step t choice => s.advance cfg t choice (s.pc t)

/-- `SharedBitmap`: every bit of the free bitmap is set. -/
def slotSystem : System (SlotState threads) (SlotEvent threads) where
  init := fun s => (∀ index, s.words index = BitVec.allOnes 64) ∧ s.count = 0 ∧
    (∀ t cn, s.owns t cn = false) ∧ ∀ t, s.pc t = .idle
  step := slotStep threads cfg

end

/-! ### Who has a slot -/

section

variable {threads : Nat}

/-- The slot that a running function has taken, or has still to give back. -/
def SlotPc.slot : SlotPc → Option Nat
  | .reserved index offset | .set index offset _ => some (bitmapCnIndex index offset)
  | _ => none

/-- What a thread still has to add to `count_`. A slot that is being recycled is counted until
its bit is set. -/
def SlotPc.pending : SlotPc → Int
  | .reserved _ _ => 1
  | .recycled => -1
  | _ => 0

/-- A function has valid positions, and a compare-exchange that clears a bit has seen it set. -/
def SlotPc.Valid (cfg : SlotConfig) : SlotPc → Prop
  | .clear _ index offset place => index < cfg.bitmapLen ∧ offset < 64 ∧
      ∀ curr, place = .swap curr → BitmapWord.has curr offset = true
  | .reserved index offset | .set index offset _ => index < cfg.bitmapLen ∧ offset < 64
  | _ => True

def slotWeight (free : Bool) : Int := if free then 0 else 1

/-- How often a thread has a slot: as its owner, and in the function that it runs. -/
def timesHeld (owns : Nat → Bool) (pc : SlotPc) (cn : Nat) : Int :=
  (if owns cn then 1 else 0) + if pc.slot = some cn then 1 else 0

def SlotState.times (s : SlotState threads) (t : Fin threads) (cn : Nat) : Int :=
  timesHeld (s.owns t) (s.pc t) cn

structure SlotInv (cfg : SlotConfig) (s : SlotState threads) : Prop where
  valid : ∀ t, (s.pc t).Valid cfg
  outside : ∀ cn, cfg.numPages ≤ cn → bitAt s.words cn = true
  -- a slot that is not free is had once, and a free one not at all
  holders : ∀ cn, ∑ t, s.times t cn = slotWeight (bitAt s.words cn)
  balanced : Balanced s.count (SlotPc.pending ∘ s.pc)
    (∑ cn ∈ Finset.range cfg.numPages, slotWeight (bitAt s.words cn))

end

/-! ### What the holders say about the bits -/

section

variable {threads : Nat} {cfg : SlotConfig} {s : SlotState threads} {t t' : Fin threads} {cn : Nat}

theorem times_nonneg (s : SlotState threads) (t : Fin threads) (cn : Nat) : 0 ≤ s.times t cn := by
  unfold SlotState.times timesHeld
  repeat' split
  all_goals decide

theorem times_of_owns (owned : s.owns t cn = true) : 1 ≤ s.times t cn := by
  simp only [SlotState.times, timesHeld, owned, if_true]
  split <;> decide

theorem times_of_slot (slot : (s.pc t).slot = some cn) : 1 ≤ s.times t cn := by
  simp only [SlotState.times, timesHeld, slot, if_true]
  split <;> decide

theorem slotWeight_le (free : Bool) : slotWeight free ≤ 1 := by cases free <;> decide

variable (inv : SlotInv cfg s)

include inv

theorem SlotInv.times_le (t : Fin threads) (cn : Nat) :
    s.times t cn ≤ slotWeight (bitAt s.words cn) :=
  inv.holders cn ▸ Finset.single_le_sum (fun t _ => times_nonneg s t cn) (Finset.mem_univ t)

theorem SlotInv.cleared (holds : 1 ≤ s.times t cn) : bitAt s.words cn = false := by
  have most := inv.times_le t cn
  cases bit : bitAt s.words cn with
  | false => rfl
  | true =>
    rw [bit] at most
    exact absurd (holds.trans most) (by decide)

theorem SlotInv.inside (holds : 1 ≤ s.times t cn) : cn < cfg.numPages := by
  by_contra beyond
  exact Bool.false_ne_true ((inv.cleared holds).symm.trans (inv.outside cn (by omega)))

theorem SlotInv.unique (first : 1 ≤ s.times t cn) (second : 1 ≤ s.times t' cn) : t = t' := by
  by_contra different
  have both := Finset.add_le_sum (fun t _ => times_nonneg s t cn) (Finset.mem_univ t)
    (Finset.mem_univ t') different
  rw [inv.holders cn] at both
  have most := slotWeight_le (bitAt s.words cn)
  omega

theorem SlotInv.apart (slot : (s.pc t).slot = some cn) : s.owns t cn = false := by
  have most := (inv.times_le t cn).trans (slotWeight_le _)
  cases owned : s.owns t cn with
  | false => rfl
  | true => simp [SlotState.times, timesHeld, slot, owned] at most

end

/-! ### Steps -/

section

variable {threads : Nat} {cfg : SlotConfig} {s : SlotState threads} {t : Fin threads}
  {s' : SlotState threads} {mine : Nat → Bool} {pc : SlotPc}

theorem sum_times (s : SlotState threads) (t : Fin threads) (mine : Nat → Bool) (pc : SlotPc)
    (cn : Nat) : ∑ t', timesHeld (update s.owns t mine t') (update s.pc t pc t') cn =
      ∑ t', s.times t' cn + (timesHeld mine pc cn - s.times t cn) := by
  have changed := sum_update Finset.univ (fun t' => (s.owns t', s.pc t'))
    (fun thread => timesHeld thread.1 thread.2 cn) (Finset.mem_univ t) (mine, pc)
  refine Eq.trans (Finset.sum_congr rfl fun t' _ => ?_) changed
  by_cases same : t' = t
  · rw [same, update_self, update_self, update_self]
  · rw [update_of_ne same, update_of_ne same, update_of_ne same]

theorem valid_update (inv : SlotInv cfg s) (valid : pc.Valid cfg) :
    ∀ t', (update s.pc t pc t').Valid cfg :=
  (forall_update_iff s.pc fun _ pc => pc.Valid cfg).mpr ⟨valid, fun t' _ => inv.valid t'⟩

theorem SlotInv.quiet (inv : SlotInv cfg s) {added : Int}
    (owners : s'.owns = update s.owns t mine) (pcs : s'.pc = update s.pc t pc)
    (bits : bitAt s'.words = bitAt s.words) (valid : pc.Valid cfg)
    (same : ∀ cn, timesHeld mine pc cn = s.times t cn)
    (counts : s'.count = s.count + BitVec.ofInt 64 added)
    (paid : added + (pc.pending - (s.pc t).pending) = 0) : SlotInv cfg s' where
  valid := pcs ▸ valid_update inv valid
  outside := bits ▸ inv.outside
  holders := by
    intro cn
    simp only [SlotState.times, owners, pcs]
    rw [sum_times, same, bits, Int.sub_self, Int.add_zero]
    exact inv.holders cn
  balanced := by
    rw [bits, counts, pcs, Function.comp_update]
    have moved := inv.balanced.update t paid
    rwa [Int.add_zero] at moved

theorem owns_kept (s : SlotState threads) (t : Fin threads) :
    s.owns = update s.owns t (s.owns t) :=
  (update_eq_self t s.owns).symm

theorem SlotInv.goto (inv : SlotInv cfg s) (valid : pc.Valid cfg) (slot : pc.slot = (s.pc t).slot)
    (pending : pc.pending = (s.pc t).pending) : SlotInv cfg (s.goto t pc) := by
  have counts : (s.goto t pc).count = s.count + BitVec.ofInt 64 0 := (BitVec.add_zero _).symm
  refine inv.quiet (owns_kept s t) rfl rfl valid (fun cn => ?_) counts (by rw [pending]; omega)
  rw [timesHeld, slot]
  rfl

theorem writeWord_self (s : SlotState threads) (index : Nat) :
    s.writeWord index (s.words index) = s := by
  rw [SlotState.writeWord, update_eq_self]

variable {index offset : Nat}

theorem bitmapCnIndex_lt (row : index < cfg.bitmapLen) (column : offset < 64) :
    bitmapCnIndex index offset < cfg.numPages := by
  rw [bitmapCnIndex_eq, SlotConfig.numPages]
  omega

/-- A successful compare-exchange changes what its thread has of the slot as it changes the bit. -/
theorem SlotInv.swap (inv : SlotInv cfg s) {op : BitOp} (row : index < cfg.bitmapLen)
    (column : offset < 64) (valid : pc.Valid cfg) (before : (s.pc t).pending = 0)
    (owed : pc.pending = slotWeight (decide (op = .trySetbit)) -
      slotWeight (bitAt s.words (bitmapCnIndex index offset)))
    (held : ∀ cn, timesHeld (s.owns t) pc cn - s.times t cn =
      if cn = bitmapCnIndex index offset then pc.pending else 0) :
    SlotInv cfg ((s.writeWord index (op.newEntry (s.words index) offset)).goto t pc) := by
  have below := bitmapCnIndex_lt row column
  have bits : bitAt ((s.writeWord index (op.newEntry (s.words index) offset)).goto t pc).words =
      update (bitAt s.words) (bitmapCnIndex index offset) (decide (op = .trySetbit)) :=
    bitAt_newEntry s.words op column
  refine ⟨valid_update (s := s) inv valid, fun cn beyond => ?_, fun cn => ?_, ?_⟩
  · rw [bits, update_of_ne (by omega)]
    exact inv.outside cn beyond
  · have sums := sum_times s t (s.owns t) pc cn
    rw [← owns_kept, held, inv.holders] at sums
    refine sums.trans ?_
    rw [bits]
    by_cases here : cn = bitmapCnIndex index offset
    · rw [if_pos here, here, update_self, owed]
      omega
    · rw [if_neg here, update_of_ne here, Int.add_zero]
  · rw [bits, sum_update _ (bitAt s.words) slotWeight (Finset.mem_range.mpr below)]
    change Balanced s.count (SlotPc.pending ∘ update s.pc t pc) _
    rw [Function.comp_update]
    apply inv.balanced.defer
    rw [Function.comp_apply, before, owed]
    omega

theorem SlotInv.take (inv : SlotInv cfg s) {retry : Bool}
    (now : s.pc t = .clear retry index offset (.swap (s.words index))) :
    SlotInv cfg ((s.writeWord index
      (BitOp.tryClearbitExclusive.newEntry (s.words index) offset)).goto t
        (.reserved index offset)) := by
  have valid := inv.valid t
  rw [now] at valid
  obtain ⟨row, column, seen⟩ := valid
  have available : bitAt s.words (bitmapCnIndex index offset) = true := by
    rw [bitAt_bitmapCnIndex s.words column]
    exact seen _ rfl
  refine inv.swap row column ⟨row, column⟩ (by rw [now]; rfl) (by rw [available]; rfl) fun cn => ?_
  rw [SlotState.times, now]
  by_cases here : cn = bitmapCnIndex index offset
  · simp [timesHeld, SlotPc.slot, SlotPc.pending, here]
  · simp [timesHeld, SlotPc.slot, here, Ne.symm here]

variable {place : BitPlace}

theorem SlotInv.give (inv : SlotInv cfg s) (now : s.pc t = .set index offset place) :
    SlotInv cfg ((s.writeWord index (BitOp.trySetbit.newEntry (s.words index) offset)).goto t
      .recycled) := by
  have valid := inv.valid t
  rw [now] at valid
  have cleared := inv.cleared (times_of_slot (by rw [now]; rfl))
  refine inv.swap valid.1 valid.2 trivial (by rw [now]; rfl) (by rw [cleared]; rfl) fun cn => ?_
  rw [SlotState.times, now]
  by_cases here : cn = bitmapCnIndex index offset
  · simp [timesHeld, SlotPc.slot, SlotPc.pending, here]
  · simp [timesHeld, SlotPc.slot, here, Ne.symm here]

/-- `RecycleCacheNode` sets its bit in the word it has loaded. -/
def SlotState.undisturbed (s : SlotState threads) : SlotEvent threads → Bool
  | .step t _ =>
    match s.pc t with
    | .set index _ (.swap curr) => s.words index = curr
    | _ => true
  | .call _ _ => true

variable {choice : Nat}

section

variable (inv : SlotInv cfg s)

include inv

theorem SlotInv.advance_clear {retry : Bool} (now : s.pc t = .clear retry index offset place)
    (taken : s.advance cfg t choice (.clear retry index offset place) = some s') :
    SlotInv cfg s' := by
  have valid := inv.valid t
  rw [now] at valid
  have refused : SlotInv cfg (s.goto t (afterRefusal retry)) := by
    cases retry
    all_goals exact inv.goto trivial (by rw [now]; rfl) (by rw [now]; rfl)
  simp only [SlotState.advance] at taken
  cases accessed : BitOp.tryClearbitExclusive.access (s.words index) offset place with
  | mk word progress =>
    rw [accessed] at taken
    rcases BitOp.access_cases accessed with ⟨rfl, rfl, rfl⟩ | ⟨rfl, curr, rfl, _, rfl⟩ |
      ⟨rfl, rfl, rfl⟩
    · cases present : (s.words index).has offset with
      | false =>
        simp only [BitOp.loaded, present, Bool.false_eq_true, if_false] at taken
        cases taken
        rw [writeWord_self]
        exact refused
      | true =>
        simp only [BitOp.loaded, present, if_true] at taken
        cases taken
        rw [writeWord_self]
        refine inv.goto ⟨valid.1, valid.2.1, ?_⟩ (by rw [now]; rfl) (by rw [now]; rfl)
        rintro _ ⟨⟩
        exact present
    · cases taken
      rw [writeWord_self]
      exact refused
    · cases taken
      exact inv.take now

theorem SlotInv.advance_set (now : s.pc t = .set index offset place)
    (undisturbed : ∀ curr, place = .swap curr → s.words index = curr)
    (taken : s.advance cfg t choice (.set index offset place) = some s') : SlotInv cfg s' := by
  have valid := inv.valid t
  rw [now] at valid
  have cleared : (s.words index).has offset = false := by
    rw [← bitAt_bitmapCnIndex s.words valid.2]
    exact inv.cleared (times_of_slot (by rw [now]; rfl))
  simp only [SlotState.advance] at taken
  cases accessed : BitOp.trySetbit.access (s.words index) offset place with
  | mk word progress =>
    rw [accessed] at taken
    rcases BitOp.access_cases accessed with ⟨rfl, rfl, rfl⟩ | ⟨rfl, curr, rfl, different, _⟩ |
      ⟨rfl, rfl, rfl⟩
    · simp only [BitOp.loaded, cleared, Bool.false_eq_true, if_false] at taken
      cases taken
      rw [writeWord_self]
      exact inv.goto valid (by rw [now]; rfl) (by rw [now]; rfl)
    · exact absurd (undisturbed curr rfl) different
    · cases taken
      exact inv.give now

theorem SlotInv.advance_reserved (now : s.pc t = .reserved index offset) :
    SlotInv cfg (({ s with count := s.count + 1 }.setOwner t (bitmapCnIndex index offset)
      true).goto t .idle) := by
  have counts : s.count + 1 = s.count + BitVec.ofInt 64 1 := rfl
  have unowned := inv.apart (t := t) (by rw [now]; rfl)
  refine inv.quiet rfl rfl rfl trivial (fun cn => ?_) counts (by rw [now]; rfl)
  rw [SlotState.times, now]
  by_cases here : cn = bitmapCnIndex index offset
  · simp [timesHeld, here, SlotPc.slot, unowned]
  · simp [timesHeld, update_of_ne here, SlotPc.slot, Ne.symm here]

theorem SlotInv.advance_recycled (now : s.pc t = .recycled) :
    SlotInv cfg ({ s with count := s.count - 1 }.goto t .idle) := by
  have counts : s.count - 1 = s.count + BitVec.ofInt 64 (-1) := by
    rw [BitVec.sub_eq_add_neg]
    rfl
  refine inv.quiet (owns_kept s t) rfl rfl trivial (fun cn => ?_) counts (by rw [now]; rfl)
  rw [SlotState.times, now]
  rfl

theorem SlotInv.advance (undisturbed : s.undisturbed (.step t choice) = true)
    (taken : s.advance cfg t choice (s.pc t) = some s') : SlotInv cfg s' := by
  cases now : s.pc t with
  | idle =>
    rw [now] at taken
    cases taken
  | startPoint =>
    rw [now] at taken
    cases taken
    exact inv.goto trivial (by rw [now]; rfl) (by rw [now]; rfl)
  | find start i =>
    simp only [now, SlotState.advance] at taken
    split at taken
    · rename_i more
      split at taken
      · rename_i offset found
        cases taken
        refine inv.goto ⟨Nat.mod_lt _ (by omega), ffsll_lt found, ?_⟩ (by rw [now]; rfl)
          (by rw [now]; rfl)
        intro curr swaps
        cases swaps
      · cases taken
        exact inv.goto trivial (by rw [now]; rfl) (by rw [now]; rfl)
    · cases taken
      exact inv.goto trivial (by rw [now]; rfl) (by rw [now]; rfl)
  | clear retry index offset place =>
    rw [now] at taken
    exact inv.advance_clear now taken
  | reserved index offset =>
    rw [now] at taken
    cases taken
    exact inv.advance_reserved now
  | set index offset place =>
    rw [now] at taken
    refine inv.advance_set now ?_ taken
    rintro curr rfl
    simpa [SlotState.undisturbed, now] using undisturbed
  | recycled =>
    rw [now] at taken
    cases taken
    exact inv.advance_recycled now

theorem SlotInv.call {call : SlotCall}
    (taken : slotStep threads cfg s (.call t call) = some s') : SlotInv cfg s' := by
  simp only [slotStep] at taken
  split at taken
  · rename_i idle
    cases call with
    | reserveCacheNode =>
      cases taken
      exact inv.goto trivial (by rw [idle]; rfl) (by rw [idle]; rfl)
    | reserveCacheNodeAt cn =>
      simp only at taken
      split at taken <;> cases taken
      rename_i below
      refine inv.goto ⟨?_, bitmapOffset_lt cn, ?_⟩ (by rw [idle]; rfl) (by rw [idle]; rfl)
      · rw [SlotConfig.numPages] at below
        rw [bitmapIndex_eq]
        omega
      · intro curr swaps
        cases swaps
    | recycleCacheNode cn =>
      simp only at taken
      split at taken <;> cases taken
      rename_i owned
      have below := inv.inside (times_of_owns owned)
      have counts : s.count = s.count + BitVec.ofInt 64 0 := (BitVec.add_zero _).symm
      refine inv.quiet rfl rfl rfl ⟨?_, bitmapOffset_lt cn⟩ (fun cn' => ?_) counts
        (by rw [idle]; rfl)
      · rw [SlotConfig.numPages] at below
        rw [bitmapIndex_eq]
        omega
      · rw [timesHeld, SlotPc.slot, bitmapCnIndex_self, SlotState.times, idle]
        by_cases here : cn' = cn
        · simp [timesHeld, here, owned, SlotPc.slot]
        · simp [timesHeld, update_of_ne here, SlotPc.slot, Ne.symm here]
  · cases taken

theorem slotInv_step {e : SlotEvent threads}
    (undisturbed : s.undisturbed e = true) (taken : slotStep threads cfg s e = some s') :
    SlotInv cfg s' := by
  cases e with
  | call t call => exact inv.call taken
  | step t choice => exact inv.advance undisturbed taken

end

theorem SlotInv.initial (start : (slotSystem threads cfg).init s) : SlotInv cfg s := by
  obtain ⟨ones, zero, unowned, idle⟩ := start
  have set : ∀ cn, bitAt s.words cn = true := by
    intro cn
    rw [bitAt, ones, BitVec.getLsbD_allOnes, decide_eq_true_eq]
    exact Nat.mod_lt _ (by decide)
  refine ⟨fun t => by rw [idle]; trivial, fun cn _ => set cn, fun cn => ?_, ?_⟩
  · rw [set]
    exact Finset.sum_eq_zero fun t _ => by
      simp [SlotState.times, timesHeld, unowned, idle, SlotPc.slot]
  · rw [zero, Finset.sum_eq_zero fun cn _ => by rw [set]; rfl]
    exact Balanced.initial fun t => by simp [idle, SlotPc.pending]

end

/-! ### No slot is lost or handed out twice -/

section

variable {threads : Nat} {cfg : SlotConfig}

def SlotState.Quiescent (s : SlotState threads) : Prop := ∀ t, s.pc t = .idle

def SlotState.clearedBits (cfg : SlotConfig) (s : SlotState threads) : Nat :=
  ((Finset.range cfg.numPages).filter fun cn => bitAt s.words cn = false).card

structure SlotState.Accounted (cfg : SlotConfig) (s : SlotState threads) : Prop where
  /-- A returned index is an index of a page. -/
  below : ∀ t cn, s.owns t cn = true → cn < cfg.numPages
  exclusive : ∀ t t' cn, s.owns t cn = true → s.owns t' cn = true → t = t'
  /-- An owned slot is not free. -/
  owned : ∀ t cn, s.owns t cn = true → bitAt s.words cn = false
  /-- A slot that nobody owns, and that no running function has, is free: a recycled slot is
  available again. -/
  available : ∀ cn, cn < cfg.numPages → (∀ t, s.owns t cn = false) →
    (∀ t, (s.pc t).slot ≠ some cn) → bitAt s.words cn = true
  counted : s.Quiescent → s.count.toNat = s.clearedBits cfg

theorem SlotState.sum_slotWeight (s : SlotState threads) :
    ∑ cn ∈ Finset.range cfg.numPages, slotWeight (bitAt s.words cn) = s.clearedBits cfg := by
  rw [SlotState.clearedBits, Finset.card_filter, Nat.cast_sum]
  apply Finset.sum_congr rfl
  intro cn _
  cases free : bitAt s.words cn <;> simp [slotWeight]

theorem SlotState.clearedBits_le (s : SlotState threads) : s.clearedBits cfg ≤ cfg.numPages := by
  have all := Finset.card_filter_le (Finset.range cfg.numPages) fun cn => bitAt s.words cn = false
  rwa [Finset.card_range] at all

theorem slots_accounted {s : SlotState threads}
    (reached : (slotSystem threads cfg).ReachableWhere (fun s e => s.undisturbed e = true) s) :
    s.Accounted cfg := by
  have inv : SlotInv cfg s := reached.invariant (P := SlotInv cfg) (fun _ => SlotInv.initial)
    fun _ _ _ before undisturbed taken => slotInv_step before undisturbed taken
  refine ⟨fun t cn owned => inv.inside (times_of_owns owned),
    fun t t' cn first second => inv.unique (times_of_owns first) (times_of_owns second),
    fun t cn owned => inv.cleared (times_of_owns owned), ?_, ?_⟩
  · intro cn _ unowned elsewhere
    have nobody : ∑ t, s.times t cn = 0 := Finset.sum_eq_zero fun t _ => by
      simp [SlotState.times, timesHeld, unowned, elsewhere]
    rw [inv.holders] at nobody
    cases bit : bitAt s.words cn with
    | true => rfl
    | false =>
      rw [bit] at nobody
      cases nobody
  · intro quiet
    have settled : ∀ t, (SlotPc.pending ∘ s.pc) t = 0 := by
      intro t
      rw [Function.comp_apply, quiet t]
      rfl
    exact inv.balanced.settled settled s.sum_slotWeight
      (Nat.lt_of_le_of_lt s.clearedBits_le cfg.bounded)

end

/-! ### Runs -/

def oneWord : SlotConfig := ⟨1, by decide, false⟩

def emptyBitmap (threads : Nat) : SlotState threads :=
  ⟨fun _ => BitVec.allOnes 64, 0, fun _ _ => false, fun _ => .idle⟩

theorem emptyBitmap_init (threads : Nat) :
    (slotSystem threads oneWord).init (emptyBitmap threads) :=
  ⟨fun _ => rfl, rfl, fun _ _ => rfl, fun _ => rfl⟩

def recycler : Fin 2 := ⟨0, Nat.zero_lt_two⟩

def reserver : Fin 2 := Fin.last 1

/-- `n` accesses of a thread. -/
def slotSteps (n : Nat) (t : Fin 2) : List (SlotEvent 2) := List.replicate n (.step t 0)

def reserveFirst : List (SlotEvent 2) := .call recycler .reserveCacheNode :: slotSteps 5 recycler

/-- While it recycles the slot, the other thread reserves the next one, between the load and the
compare-exchange of `try_setbit`. -/
def reserveDuringRecycle : List (SlotEvent 2) :=
  List.flatten
    [reserveFirst, [.call recycler (.recycleCacheNode 0)], slotSteps 1 recycler,
      [.call reserver .reserveCacheNode], slotSteps 5 reserver, slotSteps 1 recycler]

/-- The compare-exchange fails, the function returns, and slot 0 is lost: nobody owns it, no
function has it, and it is not free. -/
theorem slot_lost_reserveDuringRecycle :
    ∃ s, (slotSystem 2 oneWord).Reachable s ∧ s.Quiescent ∧ (∀ t, s.owns t 0 = false) ∧
      bitAt s.words 0 = false := by
  obtain ⟨s, reached, shown⟩ := System.exists_reachable_of_run (slotSystem 2 oneWord)
    (emptyBitmap_init 2) reserveDuringRecycle
    (fun s => decide ((∀ t, s.pc t = .idle) ∧ (∀ t, s.owns t 0 = false) ∧
      bitAt s.words 0 = false)) (by decide +kernel)
  rw [decide_eq_true_eq] at shown
  exact ⟨s, reached, shown⟩

/-- The recycle runs alone, then the other thread reserves a slot. -/
def recycleThenReserve : List (SlotEvent 2) :=
  List.flatten
    [reserveFirst, [.call recycler (.recycleCacheNode 0)], slotSteps 3 recycler,
      [.call reserver .reserveCacheNode], slotSteps 5 reserver]

theorem slots_accounted_recycleThenReserve :
    ∃ s, (slotSystem 2 oneWord).ReachableWhere (fun s e => s.undisturbed e = true) s ∧
      s.owns reserver 0 = true ∧ s.Accounted oneWord := by
  obtain ⟨s, reached, shown⟩ := System.exists_reachableWhere_of_run
    (System.Tests.of_sound (slotSystem 2 oneWord) (fun s e => s.undisturbed e)
      fun _ _ passes => passes)
    (emptyBitmap_init 2) recycleThenReserve (fun s => s.owns reserver 0) (by decide +kernel)
  exact ⟨s, reached, shown, slots_accounted reached⟩

end Megalon.Core
