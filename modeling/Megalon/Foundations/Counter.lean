import Mathlib.Algebra.BigOperators.Group.Finset.Piecewise
import Mathlib.Algebra.Ring.Int.Defs

/-!
Contract: a machine counter of items that threads update some time after they have taken or
returned an item.

Owns: sums that change at one place, the balance of a counter with the updates that are still
to come, and that the counter is exact once none is.

Does not own: what the items are.
-/

namespace Megalon.Foundations

section

variable {Index Value : Type} [DecidableEq Index]

theorem sum_update (indices : Finset Index) (values : Index → Value) (weight : Value → Int)
    {i : Index} (inside : i ∈ indices) (value : Value) :
    ∑ j ∈ indices, weight (Function.update values i value j) =
      ∑ j ∈ indices, weight (values j) + (weight value - weight (values i)) := by
  have elsewhere : ∀ j ∈ indices.erase i,
      weight (Function.update values i value j) = weight (values j) := by
    intro j other
    rw [Function.update_of_ne (Finset.ne_of_mem_erase other)]
  rw [← Finset.add_sum_erase indices _ inside,
    ← Finset.add_sum_erase indices (fun j => weight (values j)) inside,
    Finset.sum_congr rfl elsewhere, Function.update_self]
  omega

end

section

variable {Thread : Type} [Fintype Thread]

/-- `counter` with the updates the threads still have to make is the number of items `used`;
the counter itself wraps around. -/
def Balanced (counter : BitVec 64) (pending : Thread → Int) (used : Int) : Prop :=
  ∃ total : Int, counter = BitVec.ofInt 64 total ∧ total + ∑ t, pending t = used

namespace Balanced

variable {counter : BitVec 64} {pending : Thread → Int} {used : Int}

theorem initial (settled : ∀ t, pending t = 0) : Balanced 0 pending 0 :=
  ⟨0, rfl, by simp [settled]⟩

variable (balanced : Balanced counter pending used)

include balanced

theorem settled (quiet : ∀ t, pending t = 0)
    {items : Nat} (counted : used = items) (fits : items < 2 ^ 64) : counter.toNat = items := by
  obtain ⟨total, counts, sum⟩ := balanced
  have exact : total = items := by
    simp only [quiet, Finset.sum_const_zero] at sum
    omega
  rw [counts, exact, BitVec.ofInt_natCast, BitVec.toNat_ofNat, Nat.mod_eq_of_lt fits]

variable [DecidableEq Thread]

theorem update (t : Thread) {added left taken : Int}
    (paid : added + (left - pending t) = taken) :
    Balanced (counter + BitVec.ofInt 64 added) (Function.update pending t left) (used + taken) := by
  obtain ⟨total, counts, sum⟩ := balanced
  refine ⟨total + added, by rw [counts, BitVec.ofInt_add], ?_⟩
  have changed := sum_update Finset.univ pending id (Finset.mem_univ t) left
  simp only [id_eq] at changed
  rw [changed]
  omega

theorem defer (t : Thread) {left taken : Int}
    (owed : left - pending t = taken) :
    Balanced counter (Function.update pending t left) (used + taken) := by
  have paid : 0 + (left - pending t) = taken := by omega
  simpa using balanced.update t paid

end Balanced

end

end Megalon.Foundations
