import Mathlib.Algebra.Order.Ring.Nat

/-!
Contract: scans of the positions below a length that start anywhere and wrap around.

Owns: the positions a scan has passed, the first position with a property in cyclic order, and
that a whole scan passes every position.

Does not own: what is scanned.
-/

namespace Megalon.Foundations

section

variable {len start : Nat} {p : Nat → Prop}

/-- No position among the first `i` of the scan has the property. -/
def CyclicMiss (len start : Nat) (p : Nat → Prop) (i : Nat) : Prop :=
  ∀ j, j < i → ¬p ((j + start) % len)

/-- The first position in cyclic order from `start` that has the property. -/
def CyclicFirst (len start : Nat) (p : Nat → Prop) (k : Nat) : Prop :=
  ∃ i, i < len ∧ (i + start) % len = k ∧ p k ∧ CyclicMiss len start p i

theorem CyclicMiss.zero : CyclicMiss len start p 0 := by
  intro j below
  omega

theorem CyclicMiss.succ {i : Nat} (miss : CyclicMiss len start p i)
    (next : ¬p ((i + start) % len)) : CyclicMiss len start p (i + 1) := by
  intro j below
  by_cases last : j = i
  · rw [last]
    exact next
  · exact miss j (by omega)

theorem CyclicMiss.first {i : Nat} (miss : CyclicMiss len start p i) (below : i < len)
    (hit : p ((i + start) % len)) : CyclicFirst len start p ((i + start) % len) :=
  ⟨i, below, rfl, hit, miss⟩

theorem exists_add_mod_eq (start : Nat) {k : Nat} (below : k < len) :
    ∃ i, i < len ∧ (i + start) % len = k := by
  have inside : start % len < len := Nat.mod_lt _ (by omega)
  refine ⟨(k + (len - start % len)) % len, Nat.mod_lt _ (by omega), ?_⟩
  calc ((k + (len - start % len)) % len + start) % len
      = (k + (len - start % len) + start % len) % len := by simp [Nat.add_mod]
    _ = (k + len) % len := by rw [show k + (len - start % len) + start % len = k + len by omega]
    _ = k := by rw [Nat.add_mod_right, Nat.mod_eq_of_lt below]

theorem CyclicMiss.whole (miss : CyclicMiss len start p len) {k : Nat} (below : k < len) :
    ¬p k := by
  obtain ⟨i, inside, here⟩ := exists_add_mod_eq start below
  rw [← here]
  exact miss i inside

end

end Megalon.Foundations
