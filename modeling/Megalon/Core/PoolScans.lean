import Mathlib.Algebra.Ring.Nat
import Megalon.Core.Bitmap
import Megalon.Core.RecordPool
import Megalon.Foundations.CyclicScan

/-!
Contract: the scans of the record pool and of the slot bitmap (`write_meta.cc`, `bitmap.h`), run
to their end by one thread.

Owns: `ReserveWmeta`, `SampleVictim` and `bitmap_find_setbit` as functions of the whole pool, and
that they miss nothing.

Does not own: the same functions under interference, access by access.

A function that would spin forever on a word that nobody changes has the result `none`. `rng` is
a `minstd_rand`, whose values are below `2 ^ 31 - 1`.
-/

namespace Megalon.Core

open Function Foundations

/-! ### A function on a word that nobody else accesses -/

/-- The accesses of a function one after the other, without a spurious failure. -/
def SeqOp.alone (op : SeqOp) (word : SeqWord) : Option (SeqWord × Reply) :=
  match op.access false word .load with
  | (loaded, .returned reply) => some (loaded, reply)
  | (_, .goes .load) => none
  | (loaded, .goes (.install curr)) =>
    match op.access false loaded (.install curr) with
    | (after, .returned reply) => some (after, reply)
    | (_, .goes _) => none

theorem SeqOp.alone_tryAllocateSeqlock (withLock : Bool) (word : SeqWord) :
    (SeqOp.tryAllocateSeqlock withLock).alone word =
      if word.isFree = true ∧ word.isLocked = false then
        some ((SeqOp.tryAllocateSeqlock withLock).installs word, .flag true)
      else some (word, .flag false) := by
  by_cases available : word.isFree = true ∧ word.isLocked = false
  · simp [SeqOp.alone, SeqOp.access, SeqOp.loaded, available, SeqOp.installed]
  · have refused : word.isFree = false ∨ word.isLocked = true := by
      cases free : word.isFree <;> cases locked : word.isLocked <;> simp_all
    simp [SeqOp.alone, SeqOp.access, SeqOp.loaded, refused, if_neg available]

theorem SeqOp.alone_writeSeqlockOnly {word : SeqWord} (allocated : word.isFree = false)
    (unlocked : word.isLocked = false) :
    SeqOp.writeSeqlockOnly.alone word = some (Core.writeSeqlockOnly word, .flag true) := by
  simp [SeqOp.alone, SeqOp.access, SeqOp.loaded, allocated, unlocked, SeqOp.installs,
    SeqOp.installed]

/-! ### The pool -/

structure WriteMetadata (Key : Type) where
  seqlock : SeqWord
  blockId : Key
  deriving DecidableEq

/-- The records are 64 bytes long and lie in one address space. -/
structure RecordRegion extends PoolLen where
  mapped : 64 * len ≤ 2 ^ 64

/-- A value of `rng`. -/
structure MinstdRand where
  value : Nat
  bounded : value < 2147483647

structure MetaPool (Key : Type) (len : Nat) where
  wmeta : Fin len → WriteMetadata Key
  allocatedSlotNum : BitVec 64
  allocateCount : BitVec 64

section

variable {Key : Type}

def WriteMetadata.tryAllocateLock (record : WriteMetadata Key) (blockId : Key) (withLock : Bool) :
    Option (WriteMetadata Key × Bool) := do
  let (word, reply) ← (SeqOp.tryAllocateSeqlock withLock).alone record.seqlock
  if reply = .flag true then
    return (⟨word, blockId⟩, true)
  return ({ record with seqlock := word }, false)

def WriteMetadata.wLockOnly (record : WriteMetadata Key) : Option (WriteMetadata Key × Bool) := do
  let (word, reply) ← SeqOp.writeSeqlockOnly.alone record.seqlock
  return ({ record with seqlock := word }, reply = .flag true)

def MetaPool.set {len : Nat} (s : MetaPool Key len) (w : Fin len) (record : WriteMetadata Key) :
    MetaPool Key len :=
  { s with wmeta := update s.wmeta w record }

variable (region : RecordRegion)

/-- The loop of `ReserveWmeta` from its round `i` on, with `left` rounds to go. The sum is a
`size_t`. -/
def reserveLoop (s : MetaPool Key region.len) (blockId : Key) (withLock : Bool)
    (startLine : Nat) : Nat → Nat → Option (MetaPool Key region.len × Option (Fin region.len))
  | 0, _ => some (s, none)
  | left + 1, i => do
      let wmIndex := region.index ((i + startLine) % 2 ^ 64)
      let (record, allocated) ← (s.wmeta wmIndex).tryAllocateLock blockId withLock
      let s := s.set wmIndex record
      if allocated then
        some ({ s with allocatedSlotNum := s.allocatedSlotNum + 1#64,
                       allocateCount := s.allocateCount + 1#64 }, some wmIndex)
      else reserveLoop s blockId withLock startLine left (i + 1)

/-- The caller's hint, or a value of `rng`. The assertion on the hint names no member of the
class: it is never compiled, and every hint is taken. -/
def startLine (hint : Option (BitVec 64)) (rng : MinstdRand) : Nat :=
  match hint with
  | some line => line.toNat
  | none => rng.value

def reserveWmeta (s : MetaPool Key region.len) (blockId : Key) (withLock : Bool)
    (hint : Option (BitVec 64)) (rng : MinstdRand) :
    Option (MetaPool Key region.len × Option (Fin region.len)) :=
  reserveLoop region s blockId withLock (startLine hint rng) region.len 0

structure Candidate (len : Nat) where
  index : Fin len
  seq : Nat
  deriving DecidableEq

/-- What is known of `std::sort`: candidates with the same sequence may come in any order. -/
structure SortBySeq (len : Nat) where
  sort : List (Candidate len) → List (Candidate len)
  perm : ∀ candidates, (sort candidates).Perm candidates
  sorted : ∀ candidates, (sort candidates).Pairwise fun a b => a.seq ≤ b.seq

/-- The candidates among the sampled records, one sample for each value of `rng`. -/
def sampleCandidates (s : MetaPool Key region.len) (draws : List MinstdRand) :
    List (Candidate region.len) :=
  draws.filterMap fun rng =>
    let candidateIdx := region.index rng.value
    let rawSeq := (s.wmeta candidateIdx).seqlock
    if rawSeq.isFree then none else some ⟨candidateIdx, rawSeq.seq⟩

def lockFirst {len : Nat} (s : MetaPool Key len) (withLock : Bool) :
    List (Candidate len) → Option (MetaPool Key len × Option (Fin len))
  | [] => some (s, none)
  | candidate :: rest =>
    if withLock = false then some (s, some candidate.index)
    else do
      let (record, locked) ← (s.wmeta candidate.index).wLockOnly
      let s := s.set candidate.index record
      if locked then some (s, some candidate.index) else lockFirst s withLock rest

def sampleVictim (order : SortBySeq region.len) (s : MetaPool Key region.len)
    (draws : List MinstdRand) (withLock : Bool) :
    Option (MetaPool Key region.len × Option (Fin region.len)) :=
  let candidates := sampleCandidates region s draws
  if candidates.isEmpty then some (s, none)
  else lockFirst s withLock (order.sort candidates)

end

/-- `bitmap_find_setbit` from its round `i` on, with `left` rounds to go: the row and the offset
of the bit. -/
def findSetbitLoop (words : Nat → BitmapWord) (bitmapLen startLine : Nat) :
    Nat → Nat → Option (Nat × Nat)
  | 0, _ => none
  | left + 1, i =>
    let row := (i + startLine) % 2 ^ 64 % bitmapLen
    if words row ≠ 0 then (ffsll (words row)).map fun offset => (row, offset)
    else findSetbitLoop words bitmapLen startLine left (i + 1)

def bitmapFindSetbit (words : Nat → BitmapWord) (bitmapLen startLine : Nat) : Option (Nat × Nat) :=
  findSetbitLoop words bitmapLen startLine bitmapLen 0

/-! ### `ReserveWmeta` -/

section

variable {Key : Type} {region : RecordRegion}

def WriteMetadata.Available (record : WriteMetadata Key) : Prop :=
  record.seqlock.isFree = true ∧ record.seqlock.isLocked = false

instance (record : WriteMetadata Key) : Decidable record.Available :=
  inferInstanceAs (Decidable (_ ∧ _))

def WriteMetadata.allocated (record : WriteMetadata Key) (blockId : Key) (withLock : Bool) :
    WriteMetadata Key :=
  ⟨(SeqOp.tryAllocateSeqlock withLock).installs record.seqlock, blockId⟩

theorem tryAllocateLock_eq (record : WriteMetadata Key) (blockId : Key) (withLock : Bool) :
    record.tryAllocateLock blockId withLock =
      if record.Available then some (record.allocated blockId withLock, true)
      else some (record, false) := by
  by_cases flags : record.seqlock.isFree = true ∧ record.seqlock.isLocked = false
  · have available : record.Available := flags
    rw [if_pos available, WriteMetadata.tryAllocateLock, SeqOp.alone_tryAllocateSeqlock,
      if_pos flags]
    rfl
  · have refused : ¬record.Available := flags
    rw [if_neg refused, WriteMetadata.tryAllocateLock, SeqOp.alone_tryAllocateSeqlock,
      if_neg flags]
    rfl

theorem MetaPool.set_self {len : Nat} (s : MetaPool Key len) (w : Fin len) :
    s.set w (s.wmeta w) = s := by
  rw [MetaPool.set, update_eq_self]

/-- What a scan of the records leaves: the first available record is reserved, or there is none
and nothing has changed. -/
structure Reserves (s : MetaPool Key region.len) (blockId : Key) (withLock : Bool) (start : Nat)
    (after : MetaPool Key region.len) (result : Option (Fin region.len)) : Prop where
  complete : result.isSome = true ↔ ∃ w, (s.wmeta w).Available
  first : ∀ w, result = some w →
    CyclicFirst region.len start (fun k => (s.wmeta (region.index k)).Available) w.val
  changed : after = match result with
    | some w => { s.set w ((s.wmeta w).allocated blockId withLock) with
        allocatedSlotNum := s.allocatedSlotNum + 1#64, allocateCount := s.allocateCount + 1#64 }
    | none => s

theorem index_val (region : RecordRegion) (w : Fin region.len) : region.index w.val = w :=
  Fin.ext (Nat.mod_eq_of_lt w.isLt)

theorem reserveLoop_reserves (s : MetaPool Key region.len) (blockId : Key) (withLock : Bool)
    {start : Nat} (fits : start + region.len ≤ 2 ^ 64) (left i : Nat)
    (rounds : i + left = region.len)
    (missed : CyclicMiss region.len start (fun k => (s.wmeta (region.index k)).Available) i) :
    ∃ after result, reserveLoop region s blockId withLock start left i = some (after, result) ∧
      Reserves s blockId withLock start after result := by
  induction left generalizing i with
  | zero =>
    have last : i = region.len := rounds
    rw [last] at missed
    refine ⟨s, none, rfl, ⟨?_, fun _ found => (nomatch found), rfl⟩⟩
    constructor
    · intro found
      cases found
    · rintro ⟨w, available⟩
      rw [← index_val region w] at available
      exact absurd available (missed.whole w.isLt)
  | succ left ih =>
    have exact : (i + start) % 2 ^ 64 = i + start := Nat.mod_eq_of_lt (by omega)
    have indexed : region.index ((i + start) % region.len) = region.index (i + start) :=
      Fin.ext (Nat.mod_mod _ _)
    rw [reserveLoop, exact, tryAllocateLock_eq]
    by_cases available : (s.wmeta (region.index (i + start))).Available
    · rw [if_pos available]
      refine ⟨_, _, rfl, ⟨?_, ?_, rfl⟩⟩
      · exact iff_of_true rfl ⟨_, available⟩
      · intro w here
        cases here
        exact missed.first (by omega) (by rw [indexed]; exact available)
    · rw [if_neg available]
      simp only [Option.bind_eq_bind, Option.bind_some, Bool.false_eq_true, if_false,
        MetaPool.set_self]
      have passed := missed.succ (by rw [indexed]; exact available)
      exact ih (i + 1) (by omega) passed

/-- A value of `rng` is far from the end of `size_t`. -/
theorem startLine_rng_fits (region : RecordRegion) (rng : MinstdRand) :
    startLine none rng + region.len ≤ 2 ^ 64 := by
  have mapped := region.mapped
  have drawn := rng.bounded
  simp only [startLine]
  omega

theorem reserveWmeta_reserves (s : MetaPool Key region.len) (blockId : Key) (withLock : Bool)
    (hint : Option (BitVec 64)) (rng : MinstdRand)
    (fits : ∀ line, hint = some line → line.toNat + region.len ≤ 2 ^ 64) :
    ∃ after result, reserveWmeta region s blockId withLock hint rng = some (after, result) ∧
      Reserves s blockId withLock (startLine hint rng) after result := by
  have inside : startLine hint rng + region.len ≤ 2 ^ 64 := by
    cases hint with
    | some line => exact fits line rfl
    | none => exact startLine_rng_fits region rng
  exact reserveLoop_reserves s blockId withLock inside region.len 0 (Nat.zero_add _)
    CyclicMiss.zero

end

/-! ### `bitmap_find_setbit` -/

section

variable {words : Nat → BitmapWord} {bitmapLen startLine : Nat}

theorem ffsll_isSome {word : BitmapWord} (nonempty : word ≠ 0) :
    ∃ offset, ffsll word = some offset := by
  by_contra missing
  apply nonempty
  have none : ffsll word = none := by
    rw [Option.eq_none_iff_forall_ne_some]
    exact fun offset found => missing ⟨offset, found⟩
  rw [ffsll, List.find?_eq_none] at none
  apply BitVec.eq_of_getLsbD_eq
  intro i below
  simpa using none i (List.mem_range.mpr below)

theorem getLsbD_of_ffsll {word : BitmapWord} {offset : Nat} (found : ffsll word = some offset) :
    word.getLsbD offset = true :=
  List.find?_some found

/-- What a scan of the rows returns: a bit of the first row that is not empty, or nothing if all
rows are. -/
structure FindsSetbit (words : Nat → BitmapWord) (bitmapLen startLine : Nat)
    (result : Option (Nat × Nat)) : Prop where
  complete : result.isSome = true ↔
    ∃ row, row < bitmapLen ∧ ∃ offset, (words row).getLsbD offset = true
  found : ∀ row offset, result = some (row, offset) →
    CyclicFirst bitmapLen startLine (fun k => words k ≠ 0) row ∧ offset < 64 ∧
      (words row).getLsbD offset = true

theorem findSetbitLoop_finds (fits : startLine + bitmapLen ≤ 2 ^ 64) (left i : Nat)
    (rounds : i + left = bitmapLen)
    (missed : CyclicMiss bitmapLen startLine (fun k => words k ≠ 0) i) :
    FindsSetbit words bitmapLen startLine
      (findSetbitLoop words bitmapLen startLine left i) := by
  induction left generalizing i with
  | zero =>
    have last : i = bitmapLen := rounds
    rw [last] at missed
    refine ⟨?_, fun _ _ found => (nomatch found)⟩
    constructor
    · intro found
      cases found
    · rintro ⟨row, below, offset, set⟩
      have empty : words row = 0 := not_not.mp (missed.whole below)
      rw [empty] at set
      simp at set
  | succ left ih =>
    have exact : (i + startLine) % 2 ^ 64 = i + startLine := Nat.mod_eq_of_lt (by omega)
    rw [findSetbitLoop, exact]
    by_cases nonempty : words ((i + startLine) % bitmapLen) ≠ 0
    · obtain ⟨offset, first⟩ := ffsll_isSome nonempty
      have set := getLsbD_of_ffsll first
      simp only [if_pos nonempty, first, Option.map_some]
      refine ⟨iff_of_true rfl ⟨_, Nat.mod_lt _ (by omega), offset, set⟩, ?_⟩
      rintro _ _ ⟨⟩
      exact ⟨missed.first (by omega) nonempty, ffsll_lt first, set⟩
    · simp only [if_neg nonempty]
      exact ih (i + 1) (by omega) (missed.succ nonempty)

end

/-! ### `SampleVictim` -/

section

variable {Key : Type} {region : RecordRegion} {s : MetaPool Key region.len}
  {draws : List MinstdRand}

def Sampled (region : RecordRegion) (s : MetaPool Key region.len) (draws : List MinstdRand)
    (w : Fin region.len) : Prop :=
  (∃ rng, rng ∈ draws ∧ region.index rng.value = w) ∧ (s.wmeta w).seqlock.isFree = false

theorem mem_sampleCandidates (candidate : Candidate region.len) :
    candidate ∈ sampleCandidates region s draws ↔
      Sampled region s draws candidate.index ∧
        candidate.seq = (s.wmeta candidate.index).seqlock.seq := by
  rw [sampleCandidates, List.mem_filterMap]
  constructor
  · rintro ⟨rng, drawn, kept⟩
    cases free : (s.wmeta (region.index rng.value)).seqlock.isFree with
    | true =>
      simp only [free, if_true] at kept
      cases kept
    | false =>
      simp only [free, Bool.false_eq_true, if_false, Option.some.injEq] at kept
      subst kept
      exact ⟨⟨⟨rng, drawn, rfl⟩, free⟩, rfl⟩
  · rintro ⟨⟨⟨rng, drawn, here⟩, allocated⟩, sequence⟩
    refine ⟨rng, drawn, ?_⟩
    obtain ⟨index, seq⟩ := candidate
    simp only at sequence here allocated
    simp [here, allocated, sequence]

/-- What `SampleVictim` leaves: the sampled record with the smallest sequence locked, or nothing
if all samples are FREE. -/
structure LocksVictim (region : RecordRegion) (s : MetaPool Key region.len)
    (draws : List MinstdRand) (after : MetaPool Key region.len)
    (result : Option (Fin region.len)) : Prop where
  nothing : result = none ↔ ∀ rng, rng ∈ draws →
    (s.wmeta (region.index rng.value)).seqlock.isFree = true
  smallest : ∀ w, result = some w → Sampled region s draws w ∧
    ∀ other, Sampled region s draws other →
      (s.wmeta w).seqlock.seq ≤ (s.wmeta other).seqlock.seq
  locked : ∀ w, result = some w → (after.wmeta w).seqlock.isLocked = true ∧
    (after.wmeta w).seqlock.isFree = false ∧
    (after.wmeta w).seqlock.seq = (s.wmeta w).seqlock.seq
  changed : after = match result with
    | some w => s.set w { s.wmeta w with seqlock := writeSeqlockOnly (s.wmeta w).seqlock }
    | none => s

theorem sampleCandidates_eq_nil :
    sampleCandidates region s draws = [] ↔
      ∀ rng, rng ∈ draws → (s.wmeta (region.index rng.value)).seqlock.isFree = true := by
  rw [List.eq_nil_iff_forall_not_mem]
  constructor
  · intro none rng drawn
    by_contra allocated
    exact none ⟨region.index rng.value, (s.wmeta (region.index rng.value)).seqlock.seq⟩
      ((mem_sampleCandidates _).mpr
        ⟨⟨⟨rng, drawn, rfl⟩, eq_false_of_ne_true allocated⟩, rfl⟩)
  · intro free candidate sampled
    obtain ⟨⟨⟨rng, drawn, here⟩, allocated⟩, -⟩ := (mem_sampleCandidates candidate).mp sampled
    have both := free rng drawn
    rw [here, allocated] at both
    cases both

theorem sampleVictim_locks (order : SortBySeq region.len)
    (unlocked : ∀ rng, rng ∈ draws →
      (s.wmeta (region.index rng.value)).seqlock.isLocked = false) :
    ∃ after result, sampleVictim region order s draws true = some (after, result) ∧
      LocksVictim region s draws after result := by
  rw [sampleVictim]
  by_cases empty : sampleCandidates region s draws = []
  · rw [empty]
    exact ⟨s, none, rfl, ⟨iff_of_true rfl (sampleCandidates_eq_nil.mp empty),
      fun _ found => (nomatch found), fun _ found => (nomatch found), rfl⟩⟩
  · rw [if_neg (by rwa [List.isEmpty_iff])]
    have perm := order.perm (sampleCandidates region s draws)
    have sorted := order.sorted (sampleCandidates region s draws)
    cases arranged : order.sort (sampleCandidates region s draws) with
    | nil =>
      rw [arranged] at perm
      exact absurd perm.symm.eq_nil empty
    | cons victim rest =>
      rw [arranged] at perm sorted
      have member := (mem_sampleCandidates victim).mp
        (perm.mem_iff.mp (List.mem_cons_self ..))
      obtain ⟨sampled, sequence⟩ := member
      obtain ⟨⟨rng, drawn, here⟩, allocated⟩ := sampled
      have open_ := unlocked rng drawn
      rw [here] at open_
      have locks := SeqOp.alone_writeSeqlockOnly allocated open_
      refine ⟨s.set victim.index { s.wmeta victim.index with
        seqlock := writeSeqlockOnly (s.wmeta victim.index).seqlock }, some victim.index, ?_, ?_⟩
      · simp [lockFirst, WriteMetadata.wLockOnly, locks]
      · refine ⟨iff_of_false (nomatch ·) fun all => ?_, ?_, ?_, rfl⟩
        · exact empty (sampleCandidates_eq_nil.mpr all)
        · rintro _ ⟨⟩
          refine ⟨⟨⟨rng, drawn, here⟩, allocated⟩, fun other otherSampled => ?_⟩
          have listed : (⟨other, (s.wmeta other).seqlock.seq⟩ : Candidate region.len) ∈
              victim :: rest :=
            perm.mem_iff.mpr ((mem_sampleCandidates _).mpr ⟨otherSampled, rfl⟩)
          rw [← sequence]
          rcases List.mem_cons.mp listed with same | later
          · rw [← same]
          · exact (List.pairwise_cons.mp sorted).1 _ later
        · rintro _ ⟨⟩
          simp [MetaPool.set, allocated]

end

/-- **The scans miss nothing.** For every pool, and every start line from which the sums of a
scan stay below `2 ^ 64`. -/
theorem pool_scans_complete {Key : Type} (region : RecordRegion) (s : MetaPool Key region.len) :
    (∀ blockId withLock hint rng,
      (∀ line, hint = some line → line.toNat + region.len ≤ 2 ^ 64) →
      ∃ after result, reserveWmeta region s blockId withLock hint rng = some (after, result) ∧
        Reserves s blockId withLock (startLine hint rng) after result) ∧
    (∀ words bitmapLen start, 0 < bitmapLen → start + bitmapLen ≤ 2 ^ 64 →
      FindsSetbit words bitmapLen start (bitmapFindSetbit words bitmapLen start)) ∧
    ∀ order draws, (∀ rng, rng ∈ draws →
        (s.wmeta (region.index rng.value)).seqlock.isLocked = false) →
      ∃ after result, sampleVictim region order s draws true = some (after, result) ∧
        LocksVictim region s draws after result :=
  ⟨reserveWmeta_reserves s,
    fun _ bitmapLen _ _ fits => findSetbitLoop_finds fits bitmapLen 0 (Nat.zero_add _)
      CyclicMiss.zero,
    fun order _ unlocked => sampleVictim_locks order unlocked⟩

/-! ### Three records -/

def threeRecords : RecordRegion := ⟨⟨3, by decide, by decide⟩, by decide⟩

def oneInUse : MetaPool Unit threeRecords.len where
  wmeta w := ⟨if w.val = 0 then 4#32 else freeBit, ()⟩
  allocatedSlotNum := 1#64
  allocateCount := 1#64

def stableSort (len : Nat) : SortBySeq len where
  sort candidates := candidates.mergeSort fun a b => a.seq ≤ b.seq
  perm candidates := List.mergeSort_perm candidates _
  sorted candidates := by
    have ordered := @List.pairwise_mergeSort (Candidate len) (fun a b => decide (a.seq ≤ b.seq))
      (fun a b c first second => by simp only [decide_eq_true_iff] at *; omega)
      (fun a b => by simp only [Bool.or_eq_true, decide_eq_true_iff]; omega) candidates
    simpa using ordered

/-- The reservation starts at line 5, which is record 2, and the samples are records 1 and 0;
or at the hint 7, which is no index, and is record 1. -/
theorem pool_scans_complete_oneInUse :
    (∃ after result, reserveWmeta threeRecords oneInUse () true none ⟨5, by decide⟩ =
        some (after, result) ∧ Reserves oneInUse () true 5 after result) ∧
      (∃ after result, reserveWmeta threeRecords oneInUse () true (some 7#64) ⟨5, by decide⟩ =
        some (after, result) ∧ Reserves oneInUse () true 7 after result) ∧
      FindsSetbit (fun row => if row = 1 then 6#64 else 0#64) 3 5
        (bitmapFindSetbit (fun row => if row = 1 then 6#64 else 0#64) 3 5) ∧
      ∃ after result, sampleVictim threeRecords (stableSort 3) oneInUse
          [⟨7, by decide⟩, ⟨9, by decide⟩] true = some (after, result) ∧
        LocksVictim threeRecords oneInUse [⟨7, by decide⟩, ⟨9, by decide⟩] after result := by
  obtain ⟨reserved, found, sampled⟩ := pool_scans_complete threeRecords oneInUse
  exact ⟨reserved () true none ⟨5, by decide⟩ (fun _ => nofun),
    reserved () true (some 7#64) ⟨5, by decide⟩ (by rintro _ ⟨⟩; decide),
    found _ 3 5 (by decide) (by decide),
    sampled (stableSort 3) _ (by decide)⟩

/-- Only record 2 is available. -/
def onlyLast : MetaPool Unit threeRecords.len where
  wmeta w := ⟨if w.val = 2 then freeBit else 4#32, ()⟩
  allocatedSlotNum := 2#64
  allocateCount := 2#64

/-- From line `2 ^ 64 - 1` the sums wrap after the first round: both scans look at position 0
twice, then at position 1, and miss position 2. -/
theorem scans_wrapped_onlyLast :
    ((reserveWmeta threeRecords onlyLast () true (some (BitVec.allOnes 64)) ⟨5, by decide⟩).map
        Prod.snd = some none ∧ ∃ w, (onlyLast.wmeta w).Available) ∧
      bitmapFindSetbit (fun row => if row = 2 then 6#64 else 0#64) 3 (2 ^ 64 - 1) = none ∧
      ¬FindsSetbit (fun row => if row = 2 then 6#64 else 0#64) 3 (2 ^ 64 - 1)
        (bitmapFindSetbit (fun row => if row = 2 then 6#64 else 0#64) 3 (2 ^ 64 - 1)) := by
  have missed : bitmapFindSetbit (fun row => if row = 2 then 6#64 else 0#64) 3 (2 ^ 64 - 1) =
      none := by decide
  refine ⟨⟨by decide, threeRecords.index 2, by decide⟩, missed, fun finds => ?_⟩
  have found := finds.complete.mpr ⟨2, by decide, 1, by decide⟩
  rw [missed] at found
  cases found

end Megalon.Core
