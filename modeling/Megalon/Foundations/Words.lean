import Mathlib.Data.Nat.Bitwise

/-!
Contract: single bits of machine words.

Owns: masks of one bit, and testing, setting and clearing a bit with them.

Does not own: what the bits mean.
-/

namespace Megalon.Foundations

variable {width : Nat} {j : Nat}

theorem getLsbD_one_shiftLeft (i : Nat) (inside : j < width) :
    (BitVec.ofNat width 1 <<< i).getLsbD j = decide (j = i) := by
  rw [← BitVec.twoPow_eq, BitVec.getLsbD_twoPow, ← Bool.decide_and, decide_eq_decide]
  omega

theorem and_ne_zero_iff (word mask : BitVec width) :
    word &&& mask ≠ 0 ↔ ∃ j, j < width ∧ word.getLsbD j = true ∧ mask.getLsbD j = true := by
  constructor
  · intro nonzero
    by_contra none
    refine nonzero (BitVec.eq_of_getLsbD_eq ?_)
    intro j below
    rw [BitVec.getLsbD_and, BitVec.ofNat_eq_ofNat, BitVec.getLsbD_zero, Bool.and_eq_false_iff]
    by_contra both
    rw [not_or, Bool.not_eq_false, Bool.not_eq_false] at both
    exact none ⟨j, below, both⟩
  · rintro ⟨j, _, inWord, inMask⟩ zero
    have bit := congrArg (fun word => word.getLsbD j) zero
    simp [inWord, inMask] at bit

theorem and_shift_ne_zero (word : BitVec width) {i : Nat} (inside : i < width) :
    decide (word &&& (BitVec.ofNat width 1 <<< i) ≠ 0) = word.getLsbD i := by
  rw [Bool.eq_iff_iff, decide_eq_true_iff, and_ne_zero_iff]
  constructor
  · rintro ⟨j, below, set, masked⟩
    rw [getLsbD_one_shiftLeft i below, decide_eq_true_iff] at masked
    rwa [← masked]
  · intro set
    exact ⟨i, inside, set, by rw [getLsbD_one_shiftLeft i inside, decide_eq_true_iff]⟩

theorem getLsbD_or_shift (word : BitVec width) (i : Nat) (inside : j < width) :
    (word ||| (BitVec.ofNat width 1 <<< i)).getLsbD j = if j = i then true else word.getLsbD j := by
  rw [BitVec.getLsbD_or, getLsbD_one_shiftLeft i inside]
  split <;> simp_all

theorem getLsbD_and_not_shift (word : BitVec width) (i : Nat) (inside : j < width) :
    (word &&& ~~~(BitVec.ofNat width 1 <<< i)).getLsbD j =
      if j = i then false else word.getLsbD j := by
  rw [BitVec.getLsbD_and, BitVec.getLsbD_not, getLsbD_one_shiftLeft i inside]
  split <;> simp_all

end Megalon.Foundations
