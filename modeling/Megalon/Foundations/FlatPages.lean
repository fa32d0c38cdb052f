import Mathlib.Logic.Function.Basic

/-!
Contract: an array of pages as one flat array.

Owns: ranges that are read from or written to an array, in one piece or piece by piece, and the
flat array that the pages of one size make up.

Does not own: where the pages are kept.

Pages are addressed by the position of their first element, which is a multiple of the size.
-/

namespace Megalon.Foundations

open Function

variable {Byte : Type}

/-- `count` elements from `start` on. -/
def readRange (array : Nat → Byte) (start count : Nat) : List Byte :=
  (List.range count).map fun i => array (start + i)

/-- The array with `bytes` written from `start` on. -/
def writeRange (array : Nat → Byte) (start : Nat) (bytes : List Byte) : Nat → Byte :=
  fun i => if start ≤ i then bytes[i - start]?.getD (array i) else array i

/-- The flat array of pages of `size` elements. -/
def flatten (size : Nat) (pages : Nat → Nat → Byte) : Nat → Byte :=
  fun i => pages (i - i % size) (i % size)

@[simp]
theorem length_readRange (array : Nat → Byte) (start count : Nat) :
    (readRange array start count).length = count := by
  simp [readRange]

theorem readRange_append (array : Nat → Byte) (start m n : Nat) :
    readRange array start (m + n) = readRange array start m ++ readRange array (start + m) n := by
  simp [readRange, List.range_add, Function.comp_def, Nat.add_assoc]

variable {array : Nat → Byte} {start : Nat}

theorem readRange_congr {array' : Nat → Byte} {start' count : Nat}
    (agree : ∀ i, i < count → array (start + i) = array' (start' + i)) :
    readRange array start count = readRange array' start' count := by
  apply List.map_congr_left
  intro i inside
  exact agree i (List.mem_range.mp inside)

@[simp]
theorem writeRange_nil (array : Nat → Byte) (start : Nat) : writeRange array start [] = array := by
  funext i
  simp [writeRange]

theorem writeRange_of_lt {i : Nat} (bytes : List Byte) (before : i < start) :
    writeRange array start bytes i = array i :=
  if_neg (by omega)

theorem writeRange_of_ge {i : Nat} {bytes : List Byte} (after : start + bytes.length ≤ i) :
    writeRange array start bytes i = array i := by
  rw [writeRange, if_pos (by omega), List.getElem?_eq_none (by omega)]
  rfl

theorem writeRange_append (array : Nat → Byte) (start : Nat) (first second : List Byte) :
    writeRange array start (first ++ second) =
      writeRange (writeRange array start first) (start + first.length) second := by
  funext i
  by_cases before : i < start
  · rw [writeRange_of_lt _ before, writeRange_of_lt _ (by omega), writeRange_of_lt _ before]
  · by_cases inFirst : i < start + first.length
    · rw [writeRange_of_lt second inFirst, writeRange, writeRange, if_pos (by omega),
        if_pos (by omega), List.getElem?_append_left (by omega)]
    · rw [writeRange, if_pos (by omega), List.getElem?_append_right (by omega), writeRange,
        if_pos (by omega), writeRange_of_ge (by omega), Nat.sub_add_eq]

/-! ### Pages -/

section

variable {size : Nat} {pages : Nat → Nat → Byte} {page offset : Nat}

theorem flatten_at (aligned : size ∣ page) (inside : offset < size) :
    flatten size pages (page + offset) = pages page offset := by
  obtain ⟨k, rfl⟩ := aligned
  have position : (size * k + offset) % size = offset := by
    rw [Nat.mul_add_mod, Nat.mod_eq_of_lt inside]
  rw [flatten, position, Nat.add_sub_cancel]

theorem readRange_page {count : Nat} (aligned : size ∣ page) (inside : offset + count ≤ size) :
    readRange (pages page) offset count = readRange (flatten size pages) (page + offset) count := by
  apply readRange_congr
  intro i below
  rw [Nat.add_assoc, flatten_at aligned (by omega)]

theorem flatten_writePage {bytes : List Byte} (aligned : size ∣ page) (positive : 0 < size)
    (inside : offset + bytes.length ≤ size) :
    flatten size (update pages page (writeRange (pages page) offset bytes)) =
      writeRange (flatten size pages) (page + offset) bytes := by
  funext i
  have below := Nat.mod_lt i positive
  have split : i - i % size + i % size = i := Nat.sub_add_cancel (Nat.mod_le i size)
  by_cases same : i - i % size = page
  · rw [flatten, same, update_self, writeRange, writeRange]
    have index : i - (page + offset) = i % size - offset := by omega
    by_cases before : i % size < offset
    · rw [if_neg (by omega), if_neg (by omega), flatten, same]
    · rw [if_pos (by omega), if_pos (by omega), index, flatten, same]
  · rw [flatten, update_of_ne same]
    -- Another page starts before this one or after its end.
    have apart : i < page ∨ page + size ≤ i := by
      have other : size ∣ i - i % size := Nat.dvd_sub_mod i
      obtain ⟨k, rfl⟩ := aligned
      obtain ⟨m, equal⟩ := other
      rw [equal] at same split
      rcases Nat.lt_or_gt_of_ne (fun eq : m = k => same (by rw [eq])) with less | more
      · have bound : size * (m + 1) ≤ size * k := Nat.mul_le_mul_left size less
        rw [Nat.mul_succ] at bound
        exact .inl (by omega)
      · have bound : size * (k + 1) ≤ size * m := Nat.mul_le_mul_left size more
        rw [Nat.mul_succ] at bound
        exact .inr (by omega)
    rcases apart with before | after
    · rw [writeRange_of_lt _ (by omega), flatten]
    · rw [writeRange_of_ge (by omega), flatten]

end

end Megalon.Foundations
