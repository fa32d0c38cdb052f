import Mathlib.Algebra.Ring.Nat
import Mathlib.Data.List.Range
import Mathlib.Data.List.Nodup

/-!
Contract: the flushes of memory regions: `cache_flush` of `common/helper.cc` and
`flush_mem_region` of `node-replication/src/nr/replica.rs`, with the slot addresses of
`core/page_data.h` and of the replay.

Owns: the loops over addresses, which lines they flush, and that the two languages flush the
same lines of a slot.

Does not own: the fences, and what a flush does to a cache.

Addresses and sizes are 64-bit words. A loop that would go round forever has no result for any
number of rounds.
-/

namespace Megalon.Common

abbrev Address := BitVec 64

/-- `CACHE_LINE_SIZE`. -/
def cacheLineSize : Nat := 64

def lineOf (addr : Address) : Nat := addr.toNat / cacheLineSize

/-- The addresses flushed by `for (line = start; line < end; line += CACHE_LINE_SIZE)`, for a
number of tests of its condition. -/
def flushLoop : Nat → Address → Address → Option (List Address)
  | 0, _, _ => none
  | fuel + 1, line, stop =>
    if line < stop then
      (flushLoop fuel (line + BitVec.ofNat 64 cacheLineSize) stop).map (line :: ·)
    else some []

/-- `cache_flush` starts at the line of the first byte. -/
def cacheFlush (fuel : Nat) (addr size : Address) : Option (List Address) :=
  let lineMask := BitVec.ofNat 64 (cacheLineSize - 1)
  flushLoop fuel (addr &&& ~~~lineMask) (addr + size)

/-- `flush_mem_region` starts at the first byte. -/
def flushMemRegion (fuel : Nat) (ptr size : Address) : Option (List Address) :=
  flushLoop fuel ptr (ptr + size)

def Flushes (program : Nat → Option (List Address)) (lines : List Nat) : Prop :=
  ∃ enough, ∀ fuel, enough ≤ fuel → (program fuel).map (List.map lineOf) = some lines

/-- The line has a byte of `[addr, addr + size)`. -/
def Intersects (addr size line : Nat) : Prop :=
  ∃ byte, addr ≤ byte ∧ byte < addr + size ∧ byte / cacheLineSize = line

/-! ### The loop -/

variable {stop : Address}

theorem toNat_add_line {line : Address} (more : line < stop) (inside : stop.toNat + 63 < 2 ^ 64) :
    (line + BitVec.ofNat 64 cacheLineSize).toNat = line.toNat + 64 := by
  have below : line.toNat < stop.toNat := more
  rw [BitVec.toNat_add, cacheLineSize, BitVec.toNat_ofNat]
  omega

theorem flushLoop_lines {fuel : Nat} {line : Address} (inside : stop.toNat + 63 < 2 ^ 64)
    (enough : stop.toNat ≤ line.toNat + 64 * fuel) :
    (flushLoop (fuel + 1) line stop).map (List.map lineOf) =
      some (List.range' (line.toNat / 64) ((stop.toNat - line.toNat + 63) / 64)) := by
  induction fuel generalizing line with
  | zero =>
    have done : ¬line < stop := by
      rw [BitVec.lt_def]
      omega
    have none : (stop.toNat - line.toNat + 63) / 64 = 0 := by omega
    rw [flushLoop, if_neg done, none]
    rfl
  | succ fuel ih =>
    rw [flushLoop]
    by_cases more : line < stop
    · have below : line.toNat < stop.toNat := more
      have next := toNat_add_line more inside
      have rest := @ih (line + BitVec.ofNat 64 cacheLineSize)
        (by rw [next]; omega)
      have count : (stop.toNat - line.toNat + 63) / 64 =
          (stop.toNat - (line.toNat + 64) + 63) / 64 + 1 := by omega
      have index : (line.toNat + 64) / 64 = line.toNat / 64 + 1 := by omega
      rw [next, index] at rest
      rw [if_pos more, Option.map_map, count, List.range'_succ]
      cases result : flushLoop (fuel + 1) (line + BitVec.ofNat 64 cacheLineSize) stop with
      | none => rw [result] at rest; cases rest
      | some addresses =>
        rw [result, Option.map_some, Option.some.injEq] at rest
        rw [Option.map_some, Function.comp_apply, List.map_cons, rest]
        rfl
    · have above : stop.toNat ≤ line.toNat := by
        rw [BitVec.lt_def] at more
        omega
      have none : (stop.toNat - line.toNat + 63) / 64 = 0 := by omega
      rw [if_neg more, none]
      rfl

theorem flushes_flushLoop (line : Address) (inside : stop.toNat + 63 < 2 ^ 64) :
    Flushes (fun fuel => flushLoop fuel line stop)
      (List.range' (line.toNat / 64) ((stop.toNat - line.toNat + 63) / 64)) := by
  refine ⟨stop.toNat + 1, fun fuel enough => ?_⟩
  obtain ⟨rounds, rfl⟩ : ∃ rounds, fuel = rounds + 1 := ⟨fuel - 1, by omega⟩
  exact flushLoop_lines inside (by omega)

theorem toNat_line_start (addr : Address) :
    (addr &&& ~~~BitVec.ofNat 64 (cacheLineSize - 1)).toNat = addr.toNat / 64 * 64 := by
  have shifted : addr &&& ~~~BitVec.ofNat 64 (cacheLineSize - 1) = (addr >>> 6) <<< 6 := by
    apply BitVec.eq_of_getLsbD_eq
    intro i inside
    have mask : (cacheLineSize - 1).testBit i = decide (i < 6) :=
      Nat.testBit_two_pow_sub_one 6 i
    rw [BitVec.getLsbD_and, BitVec.getLsbD_not, BitVec.getLsbD_ofNat, mask,
      BitVec.getLsbD_shiftLeft, BitVec.getLsbD_ushiftRight]
    by_cases low : i < 6
    · simp [inside, low]
    · have back : 6 + (i - 6) = i := by omega
      simp [inside, low, back]
  rw [shifted, BitVec.toNat_shiftLeft, BitVec.toNat_ushiftRight, Nat.shiftRight_eq_div_pow,
    Nat.shiftLeft_eq]
  have := addr.isLt
  omega

/-! ### `cache_flush` -/

theorem toNat_stop {addr size : Address} (inside : addr.toNat + size.toNat + 63 < 2 ^ 64) :
    (addr + size).toNat = addr.toNat + size.toNat := by
  rw [BitVec.toNat_add]
  omega

theorem flushes_cacheFlush {addr size : Address} (inside : addr.toNat + size.toNat + 63 < 2 ^ 64) :
    Flushes (fun fuel => cacheFlush fuel addr size)
      (List.range' (addr.toNat / 64)
        ((addr.toNat + size.toNat - addr.toNat / 64 * 64 + 63) / 64)) := by
  have stop := toNat_stop inside
  have start : addr.toNat / 64 * 64 / 64 = addr.toNat / 64 := by omega
  have bounded : (addr + size).toNat + 63 < 2 ^ 64 := by
    rw [stop]
    exact inside
  have loop := flushes_flushLoop (addr &&& ~~~BitVec.ofNat 64 (cacheLineSize - 1)) bounded
  rw [toNat_line_start, stop, start] at loop
  exact loop

theorem mem_range'_iff_intersects {addr size : Nat} (some : 0 < size) (line : Nat) :
    line ∈ List.range' (addr / 64) ((addr + size - addr / 64 * 64 + 63) / 64) ↔
      Intersects addr size line := by
  rw [List.mem_range'_1]
  constructor
  · rintro ⟨first, last⟩
    refine ⟨max addr (line * 64), by omega, by omega, ?_⟩
    show max addr (line * 64) / 64 = line
    omega
  · rintro ⟨byte, first, last, here⟩
    change byte / 64 = line at here
    omega

/-! ### Slots -/

/-- The pages of `PageData`: the base address is page aligned, a slot is made of whole lines,
and the last slot ends inside the address space. -/
structure PageRegion where
  base : Address
  slotSize : Address
  numPages : Nat
  pageAligned : base.toNat % 4096 = 0
  wholeLines : slotSize.toNat % 64 = 0
  inside : base.toNat + slotSize.toNat * numPages + 63 < 2 ^ 64

namespace PageRegion

variable (region : PageRegion)

/-- `GetDataSlot`. -/
def getDataSlot (cnIdx : Nat) : Address :=
  region.base + region.slotSize * BitVec.ofNat 64 cnIdx

/-- `base_addr.add(idx * slot_size)` of the replay. -/
def regionPtr (idx : Nat) : Address :=
  region.base + BitVec.ofNat 64 idx * region.slotSize

variable {idx : Nat}

theorem slot_inside (below : idx < region.numPages) :
    region.base.toNat + region.slotSize.toNat * idx + region.slotSize.toNat + 63 < 2 ^ 64 := by
  have whole := region.inside
  have part : region.slotSize.toNat * (idx + 1) ≤ region.slotSize.toNat * region.numPages :=
    Nat.mul_le_mul_left _ below
  rw [Nat.mul_succ] at part
  omega

theorem toNat_getDataSlot (below : idx < region.numPages) :
    (region.getDataSlot idx).toNat = region.base.toNat + region.slotSize.toNat * idx := by
  have fits := region.slot_inside below
  by_cases empty : region.slotSize.toNat = 0
  · have zero : region.slotSize = 0 := BitVec.eq_of_toNat_eq empty
    simp [getDataSlot, zero]
  · have small : idx < 2 ^ 64 := by
      have := Nat.le_mul_of_pos_left idx (Nat.pos_of_ne_zero empty)
      omega
    rw [getDataSlot, BitVec.toNat_add, BitVec.toNat_mul, BitVec.toNat_ofNat,
      Nat.mod_eq_of_lt small, Nat.mod_eq_of_lt (by omega), Nat.mod_eq_of_lt (by omega)]

theorem regionPtr_eq (idx : Nat) : region.regionPtr idx = region.getDataSlot idx := by
  rw [regionPtr, getDataSlot, BitVec.mul_comm]

def slotLines (idx : Nat) : List Nat :=
  List.range' ((region.base.toNat + region.slotSize.toNat * idx) / 64)
    (region.slotSize.toNat / 64)

theorem slot_aligned (idx : Nat) : (region.base.toNat + region.slotSize.toNat * idx) % 64 = 0 := by
  have page := region.pageAligned
  have slot : region.slotSize.toNat * idx % 64 = 0 := by
    rw [Nat.mul_mod, region.wholeLines, Nat.zero_mul, Nat.zero_mod]
  omega

theorem flushes_slot (below : idx < region.numPages) :
    Flushes (fun fuel => cacheFlush fuel (region.getDataSlot idx) region.slotSize)
        (region.slotLines idx) ∧
      Flushes (fun fuel => flushMemRegion fuel (region.regionPtr idx) region.slotSize)
        (region.slotLines idx) := by
  have start := region.toNat_getDataSlot below
  have aligned := region.slot_aligned idx
  have whole := region.wholeLines
  have fits := region.slot_inside below
  have inside : (region.getDataSlot idx).toNat + region.slotSize.toNat + 63 < 2 ^ 64 := by
    rw [start]
    exact fits
  have stop := toNat_stop inside
  constructor
  · have flushed := flushes_cacheFlush inside
    have count : ((region.getDataSlot idx).toNat + region.slotSize.toNat -
        (region.getDataSlot idx).toNat / 64 * 64 + 63) / 64 = region.slotSize.toNat / 64 := by
      rw [start]
      omega
    rw [count, start] at flushed
    exact flushed
  · have bounded : (region.getDataSlot idx + region.slotSize).toNat + 63 < 2 ^ 64 := by
      rw [stop]
      exact inside
    have flushed := flushes_flushLoop (region.getDataSlot idx) bounded
    have count : ((region.getDataSlot idx).toNat + region.slotSize.toNat -
        (region.getDataSlot idx).toNat + 63) / 64 = region.slotSize.toNat / 64 := by
      omega
    rw [stop, count, start, ← regionPtr_eq] at flushed
    exact flushed

theorem slotLines_disjoint {idx' : Nat} (different : idx ≠ idx') :
    (region.slotLines idx).Disjoint (region.slotLines idx') := by
  intro line first second
  rw [slotLines, List.mem_range'_1] at first second
  have aligned := region.slot_aligned idx
  have aligned' := region.slot_aligned idx'
  have whole := region.wholeLines
  rcases Nat.lt_or_gt_of_ne different with before | before
  · have apart : region.slotSize.toNat * (idx + 1) ≤ region.slotSize.toNat * idx' :=
      Nat.mul_le_mul_left _ before
    rw [Nat.mul_succ] at apart
    omega
  · have apart : region.slotSize.toNat * (idx' + 1) ≤ region.slotSize.toNat * idx :=
      Nat.mul_le_mul_left _ before
    rw [Nat.mul_succ] at apart
    omega

end PageRegion

/-- **Flushes cover exactly the touched lines**, each once; the two languages flush the same
lines of a slot, and no line belongs to two slots. -/
theorem flushes_exactly :
    (∀ addr size : Address, 0 < size.toNat → addr.toNat + size.toNat + 63 < 2 ^ 64 →
      ∃ lines, Flushes (fun fuel => cacheFlush fuel addr size) lines ∧ lines.Nodup ∧
        ∀ line, line ∈ lines ↔ Intersects addr.toNat size.toNat line) ∧
    ∀ region : PageRegion, ∃ slotLines : Nat → List Nat,
      (∀ idx, idx < region.numPages →
        Flushes (fun fuel => cacheFlush fuel (region.getDataSlot idx) region.slotSize)
            (slotLines idx) ∧
          Flushes (fun fuel => flushMemRegion fuel (region.regionPtr idx) region.slotSize)
            (slotLines idx)) ∧
      ∀ idx idx', idx ≠ idx' → (slotLines idx).Disjoint (slotLines idx') := by
  constructor
  · intro addr size some inside
    exact ⟨_, flushes_cacheFlush inside, List.nodup_range' _, mem_range'_iff_intersects some⟩
  · intro region
    exact ⟨region.slotLines, fun _ below => region.flushes_slot below,
      fun _ _ different => region.slotLines_disjoint different⟩

/-- A region that starts and ends inside a line. -/
theorem flushes_exactly_unaligned :
    ∃ lines, Flushes (fun fuel => cacheFlush fuel 100#64 200#64) lines ∧ lines.Nodup ∧
      ∀ line, line ∈ lines ↔ Intersects (100#64).toNat (200#64).toNat line :=
  flushes_exactly.1 100#64 200#64 (by decide) (by decide)

end Megalon.Common
