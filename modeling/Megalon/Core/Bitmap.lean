import Mathlib.Logic.Function.Basic
import Megalon.Foundations.Words

/-!
Contract: the bitmaps of `core/bitmap.h`, arrays of 64-bit words.

Owns: the bit an index stands for, `try_setbit` and `try_clearbit_exclusive` access by access,
`ffsll`, and the bits after one of them was written.

Does not own: what a bit means, and who calls the functions.
-/

namespace Megalon.Core

open Function Foundations

abbrev BitmapWord := BitVec 64

/-- `page_index >> BITMAP_SHIFT`. -/
def bitmapIndex (pageIndex : Nat) : Nat := pageIndex >>> 6

/-- `page_index & BITMAP_MASK`. -/
def bitmapOffset (pageIndex : Nat) : Nat := pageIndex &&& 63

/-- `(index << BITMAP_SHIFT) + offset`. -/
def bitmapCnIndex (index offset : Nat) : Nat := (index <<< 6) + offset

/-- `BIT(nr)`. -/
def bit (nr : Nat) : BitmapWord := 1#64 <<< nr

/-- `bitmap_entry & BIT(offset)`. -/
def BitmapWord.has (word : BitmapWord) (offset : Nat) : Bool := decide (word &&& bit offset ≠ 0)

/-- `ffsll(bitmap_entry) - 1`, the lowest bit that is set. -/
def ffsll (word : BitmapWord) : Option Nat := (List.range 64).find? fun i => word.getLsbD i

/-- The two functions that change a bit. -/
inductive BitOp where
  | trySetbit
  | tryClearbitExclusive
  deriving DecidableEq, Repr

/-- Inside one of them: before its load, or before its compare-exchange. -/
inductive BitPlace where
  | load
  | swap (curr : BitmapWord)
  deriving DecidableEq, Repr

inductive BitProgress where
  | goes (place : BitPlace)
  | returned (succeed : Bool)
  deriving DecidableEq, Repr

namespace BitOp

/-- `try_setbit` is content with a bit that is set; `try_clearbit_exclusive` is not with one that
is cleared. -/
def loaded (word : BitmapWord) (offset : Nat) : BitOp → BitProgress
  | .trySetbit => if word.has offset then .returned true else .goes (.swap word)
  | .tryClearbitExclusive => if word.has offset then .goes (.swap word) else .returned false

/-- `new_entry`. -/
def newEntry (curr : BitmapWord) (offset : Nat) : BitOp → BitmapWord
  | .trySetbit => curr ||| bit offset
  | .tryClearbitExclusive => curr &&& ~~~bit offset

def access (op : BitOp) (word : BitmapWord) (offset : Nat) : BitPlace → BitmapWord × BitProgress
  | .load => (word, op.loaded word offset)
  | .swap curr =>
    if word = curr then (op.newEntry curr offset, .returned true) else (word, .returned false)

theorem access_cases {op : BitOp} {word word' : BitmapWord} {offset : Nat} {place : BitPlace}
    {progress : BitProgress} (accessed : op.access word offset place = (word', progress)) :
    (word' = word ∧ place = .load ∧ progress = op.loaded word offset) ∨
    (word' = word ∧ ∃ curr, place = .swap curr ∧ word ≠ curr ∧ progress = .returned false) ∨
    (word' = op.newEntry word offset ∧ place = .swap word ∧ progress = .returned true) := by
  cases place with
  | load =>
    cases accessed
    exact .inl ⟨rfl, rfl, rfl⟩
  | swap curr =>
    simp only [access] at accessed
    split at accessed
    · rename_i same
      cases accessed
      subst same
      exact .inr (.inr ⟨rfl, rfl, rfl⟩)
    · rename_i different
      cases accessed
      exact .inr (.inl ⟨rfl, curr, rfl, different, rfl⟩)

end BitOp

/-! ### Bits of a bitmap -/

section

theorem bitmapIndex_eq (pageIndex : Nat) : bitmapIndex pageIndex = pageIndex / 64 :=
  Nat.shiftRight_eq_div_pow pageIndex 6

theorem bitmapOffset_eq (pageIndex : Nat) : bitmapOffset pageIndex = pageIndex % 64 :=
  Nat.and_two_pow_sub_one_eq_mod pageIndex 6

theorem bitmapCnIndex_eq (index offset : Nat) :
    bitmapCnIndex index offset = index * 64 + offset := by
  rw [bitmapCnIndex, Nat.shiftLeft_eq]

variable {offset : Nat}

theorem bitmapCnIndex_parts (index : Nat) (inside : offset < 64) :
    bitmapCnIndex index offset / 64 = index ∧ bitmapCnIndex index offset % 64 = offset := by
  rw [bitmapCnIndex_eq]
  omega

theorem bitmapCnIndex_self (pageIndex : Nat) :
    bitmapCnIndex (bitmapIndex pageIndex) (bitmapOffset pageIndex) = pageIndex := by
  rw [bitmapCnIndex_eq, bitmapIndex_eq, bitmapOffset_eq]
  omega

theorem bitmapOffset_lt (pageIndex : Nat) : bitmapOffset pageIndex < 64 := by
  rw [bitmapOffset_eq]
  omega

def bitAt (words : Nat → BitmapWord) (pageIndex : Nat) : Bool :=
  (words (pageIndex / 64)).getLsbD (pageIndex % 64)

theorem BitmapWord.has_eq (word : BitmapWord) (inside : offset < 64) :
    BitmapWord.has word offset = word.getLsbD offset :=
  and_shift_ne_zero word inside

variable {index : Nat}

theorem bitAt_write {words : Nat → BitmapWord} {word : BitmapWord} (inside : offset < 64)
    (value : Bool)
    (written : ∀ j, j < 64 →
      word.getLsbD j = if j = offset then value else (words index).getLsbD j) :
    bitAt (update words index word) =
      update (bitAt words) (bitmapCnIndex index offset) value := by
  funext page
  have parts : page = bitmapCnIndex index offset ↔ page / 64 = index ∧ page % 64 = offset := by
    rw [bitmapCnIndex_eq]
    omega
  by_cases row : page / 64 = index
  · rw [bitAt, row, update_self, written _ (Nat.mod_lt _ (by decide))]
    by_cases column : page % 64 = offset
    · rw [if_pos column, parts.mpr ⟨row, column⟩, update_self]
    · rw [if_neg column, update_of_ne fun same => column (parts.mp same).2, bitAt, row]
  · rw [bitAt, update_of_ne row, update_of_ne fun same => row (parts.mp same).1,
      bitAt]

theorem bitAt_newEntry (words : Nat → BitmapWord) (op : BitOp) (inside : offset < 64) :
    bitAt (update words index (op.newEntry (words index) offset)) =
      update (bitAt words) (bitmapCnIndex index offset) (decide (op = .trySetbit)) := by
  apply bitAt_write inside
  intro j below
  cases op with
  | trySetbit => exact getLsbD_or_shift _ offset below
  | tryClearbitExclusive => exact getLsbD_and_not_shift _ offset below

theorem bitAt_bitmapCnIndex (words : Nat → BitmapWord) (inside : offset < 64) :
    bitAt words (bitmapCnIndex index offset) = (words index).has offset := by
  obtain ⟨row, column⟩ := bitmapCnIndex_parts index inside
  rw [bitAt, row, column, BitmapWord.has_eq _ inside]

theorem ffsll_lt {word : BitmapWord} (found : ffsll word = some offset) : offset < 64 :=
  List.mem_range.mp (List.mem_of_find?_eq_some found)

end

end Megalon.Core
