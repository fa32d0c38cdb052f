import Mathlib.Algebra.Ring.Nat
import Megalon.Index.Directory

/-!
Contract: the copies between the caller's buffer and a page that `Read`, `Get`, `Write` and `Put`
make (`lib/shm_obj_handle.cc`).

Owns: how many bytes each of the six copies touches and where, which copy a call makes for an entry,
and when a copy stays inside the buffer and the page.

Does not own: when the entry and the length are read. A page may be moved at any time, so a copy may
find any length in a local node, whatever its entry was.

Sizes are of type `size_t`: in the check of the calls, in the rest of a page behind an offset, and
in the address of a byte they wrap around. A sum that wraps is accepted, and a large offset is
enough for it.
-/

namespace Megalon.Protocol.Copies

open Index

/-- A `memcpy` of `bytes` bytes from the start of the buffer and from `pageOffset` of the page. -/
structure Copy where
  pageOffset : BitVec 64
  bytes : BitVec 64
  deriving DecidableEq, Repr

/-- `std::min`. -/
def stdMin (a b : BitVec 64) : BitVec 64 := if b < a then b else a

def copyToUserBufferCXL (slotSize count offsetIntoPage : BitVec 64) : Copy :=
  ⟨offsetIntoPage, stdMin count slotSize⟩

def copyToUserBufferLocal (length count offsetIntoPage : BitVec 64) : Copy :=
  ⟨offsetIntoPage, stdMin count length⟩

def readFromLocalExclusive (slotSize length count offsetIntoPage : BitVec 64) : Copy :=
  ⟨offsetIntoPage, if stdMin count length = 0#64 then slotSize else stdMin count length⟩

def copyFromUserBufferCXL (slotSize count offsetIntoPage : BitVec 64) : Copy :=
  ⟨offsetIntoPage, stdMin count (slotSize - offsetIntoPage)⟩

def writeToLocal (slotSize count offsetIntoPage : BitVec 64) : Copy :=
  ⟨offsetIntoPage, stdMin count (slotSize - offsetIntoPage)⟩

/-- The copy of `CreateEntry` ignores the offset. -/
def createEntry (count : BitVec 64) : Copy := ⟨0#64, count⟩

inductive CopyKind where
  | copyToUserBufferCXL
  | copyToUserBufferLocal
  | readFromLocalExclusive
  | copyFromUserBufferCXL
  | writeToLocal
  | createEntry
  deriving DecidableEq, Repr

/-- The copy of each function; `length` is what it finds in the local node. -/
def CopyKind.copy (slotSize length count offsetIntoPage : BitVec 64) : CopyKind → Copy
  | .copyToUserBufferCXL => Copies.copyToUserBufferCXL slotSize count offsetIntoPage
  | .copyToUserBufferLocal => Copies.copyToUserBufferLocal length count offsetIntoPage
  | .readFromLocalExclusive => Copies.readFromLocalExclusive slotSize length count offsetIntoPage
  | .copyFromUserBufferCXL => Copies.copyFromUserBufferCXL slotSize count offsetIntoPage
  | .writeToLocal => Copies.writeToLocal slotSize count offsetIntoPage
  | .createEntry => Copies.createEntry count

inductive Call where
  | read
  | get
  | write
  | put
  deriving DecidableEq, Repr

/-- The check at the start of the calls. -/
def accepts (slotSize count offsetIntoPage : BitVec 64) : Bool :=
  offsetIntoPage + count ≤ slotSize

/-- The copy a call makes for an entry. `none`: it admits the page, changes its mode or ends. -/
def copyFor {nodes : Nat} (entry : GCDEntry nodes) (nid : Fin nodes) : Call → Option CopyKind
  | .read | .get =>
    match selectCacheNode entry nid with
    | .cxlShared _ => some .copyToUserBufferCXL
    | .localNode _ => some .copyToUserBufferLocal
    | .localNodeExclusive _ => some .readFromLocalExclusive
    | .remoteNode | .noEntry => none
  | .write =>
    match checkCacheNode entry nid with
    | .onCxl _ => some .copyFromUserBufferCXL
    | .onNode _ => some .writeToLocal
    | .pageRO _ | .pageNotFound => none
  | .put =>
    match checkCacheNode entry nid with
    | .onCxl _ => some .copyFromUserBufferCXL
    | .onNode _ => some .writeToLocal
    | .pageNotFound => some .createEntry
    | .pageRO _ => none

/-- The copy touches at most `count` bytes of the buffer and only bytes of the page. -/
structure Copy.InBounds (copy : Copy) (slotSize count : BitVec 64) : Prop where
  buffer : copy.bytes ≤ count
  page : copy.bytes ≠ 0#64 → copy.pageOffset.toNat + copy.bytes.toNat ≤ slotSize.toNat

/-- The offset plus the count is less than `2 ^ 64`. -/
def Adds (count offsetIntoPage : BitVec 64) : Prop :=
  offsetIntoPage.toNat + count.toNat < 2 ^ 64

/-- What keeps each copy of an accepted call inside. -/
def CopyKind.Safe (slotSize length count offsetIntoPage : BitVec 64) : CopyKind → Prop
  | .copyToUserBufferCXL => Adds count offsetIntoPage
  | .copyToUserBufferLocal => Adds count offsetIntoPage ∨ length = 0#64 ∨
      offsetIntoPage.toNat + length.toNat ≤ slotSize.toNat
  | .readFromLocalExclusive =>
    (Adds count offsetIntoPage ∧ (count ≠ 0#64 ∧ length ≠ 0#64 ∨ count = slotSize)) ∨
      length ≠ 0#64 ∧ count ≠ 0#64 ∧ offsetIntoPage.toNat + length.toNat ≤ slotSize.toNat
  | .copyFromUserBufferCXL | .writeToLocal => offsetIntoPage ≤ slotSize
  | .createEntry => count ≤ slotSize

section

variable {slotSize length count offsetIntoPage : BitVec 64}

theorem toNat_stdMin (a b : BitVec 64) : (stdMin a b).toNat = min a.toNat b.toNat := by
  unfold stdMin
  split
  · rename_i less
    rw [BitVec.lt_def] at less
    omega
  · rename_i least
    rw [BitVec.lt_def] at least
    omega

theorem eq_zero_iff (a : BitVec 64) : a = 0#64 ↔ a.toNat = 0 := by
  rw [BitVec.toNat_eq]
  rfl

theorem inBounds_iff {bytes : BitVec 64} :
    Copy.InBounds ⟨offsetIntoPage, bytes⟩ slotSize count ↔ bytes.toNat ≤ count.toNat ∧
      (bytes.toNat ≠ 0 → offsetIntoPage.toNat + bytes.toNat ≤ slotSize.toNat) := by
  constructor
  · rintro ⟨buffer, page⟩
    exact ⟨BitVec.le_def.mp buffer, fun some => page (mt (eq_zero_iff _).mp some)⟩
  · rintro ⟨buffer, page⟩
    exact ⟨BitVec.le_def.mpr buffer, fun some => page (mt (eq_zero_iff _).mpr some)⟩

theorem le_of_accepts (accepted : accepts slotSize count offsetIntoPage = true) :
    (offsetIntoPage.toNat + count.toNat) % 2 ^ 64 ≤ slotSize.toNat := by
  rw [← BitVec.toNat_add]
  exact BitVec.le_def.mp (of_decide_eq_true accepted)

/-- A read from CXL copies up to a whole slot, whatever the offset is. -/
theorem copyToUserBufferCXL_inBounds (nonempty : slotSize ≠ 0#64)
    (accepted : accepts slotSize count offsetIntoPage = true) :
    (copyToUserBufferCXL slotSize count offsetIntoPage).InBounds slotSize count ↔
      Adds count offsetIntoPage := by
  have fits := le_of_accepts accepted
  have large := mt (eq_zero_iff slotSize).mpr nonempty
  rw [copyToUserBufferCXL, inBounds_iff, toNat_stdMin, Adds]
  omega

theorem copyToUserBufferLocal_inBounds (accepted : accepts slotSize count offsetIntoPage = true) :
    (copyToUserBufferLocal length count offsetIntoPage).InBounds slotSize count ↔
      Adds count offsetIntoPage ∨ length = 0#64 ∨
        offsetIntoPage.toNat + length.toNat ≤ slotSize.toNat := by
  have fits := le_of_accepts accepted
  rw [copyToUserBufferLocal, inBounds_iff, toNat_stdMin, Adds, eq_zero_iff]
  omega

/-- Without a count or a length the whole slot is copied. -/
theorem readFromLocalExclusive_inBounds (nonempty : slotSize ≠ 0#64)
    (accepted : accepts slotSize count offsetIntoPage = true) :
    (readFromLocalExclusive slotSize length count offsetIntoPage).InBounds slotSize count ↔
      CopyKind.Safe slotSize length count offsetIntoPage .readFromLocalExclusive := by
  have fits := le_of_accepts accepted
  have large := mt (eq_zero_iff slotSize).mpr nonempty
  have minimum := toNat_stdMin count length
  rw [CopyKind.Safe, readFromLocalExclusive, inBounds_iff]
  simp only [ne_eq, Adds, BitVec.toNat_eq, BitVec.toNat_ofNat, Nat.zero_mod]
  split <;> omega

/-- The rest of the page behind an offset that is not in it is almost `2 ^ 64`. -/
theorem copyFromUserBufferCXL_inBounds (accepted : accepts slotSize count offsetIntoPage = true) :
    (copyFromUserBufferCXL slotSize count offsetIntoPage).InBounds slotSize count ↔
      offsetIntoPage ≤ slotSize := by
  have fits := le_of_accepts accepted
  rw [copyFromUserBufferCXL, inBounds_iff, toNat_stdMin, BitVec.toNat_sub, BitVec.le_def]
  omega

/-- **Copies stay in bounds** exactly under the condition of each copy; where the sum of offset and
count does not wrap, only the read of an exclusive local page has one. -/
theorem copies_inBounds (kind : CopyKind) (nonempty : slotSize ≠ 0#64)
    (accepted : accepts slotSize count offsetIntoPage = true) :
    (kind.copy slotSize length count offsetIntoPage).InBounds slotSize count ↔
      kind.Safe slotSize length count offsetIntoPage := by
  cases kind with
  | copyToUserBufferCXL => exact copyToUserBufferCXL_inBounds nonempty accepted
  | copyToUserBufferLocal => exact copyToUserBufferLocal_inBounds accepted
  | readFromLocalExclusive => exact readFromLocalExclusive_inBounds nonempty accepted
  | copyFromUserBufferCXL | writeToLocal => exact copyFromUserBufferCXL_inBounds accepted
  | createEntry =>
    rw [CopyKind.copy, createEntry, inBounds_iff, CopyKind.Safe, BitVec.le_def, BitVec.toNat_ofNat]
    omega

end

def exclusiveEntry : GCDEntry 1 where
  wmetaIdx := none
  cnArray := fun i => if i.val = 0 then nullCNStatus else ⟨some 7, false⟩

/-- A read of no bytes, a read of 100 bytes from a node whose length is not set yet, and a read of
the 100 bytes before the page. -/
theorem copy_outside_exclusive :
    copyFor exclusiveEntry 0 .get = some .readFromLocalExclusive ∧
    (accepts 1024#64 0#64 0#64 = true ∧
      ¬ (CopyKind.copy 1024#64 1024#64 0#64 0#64 .readFromLocalExclusive).InBounds 1024#64 0#64) ∧
    (accepts 1024#64 100#64 100#64 = true ∧
      ¬ (CopyKind.copy 1024#64 0#64 100#64 100#64 .readFromLocalExclusive).InBounds
        1024#64 100#64) ∧
    accepts 1024#64 100#64 (-100#64) = true ∧
      ¬ (CopyKind.copy 1024#64 512#64 100#64 (-100#64) .readFromLocalExclusive).InBounds
        1024#64 100#64 := by
  refine ⟨by decide, ⟨by decide, ?_⟩, ⟨by decide, ?_⟩, by decide, ?_⟩
  · rintro ⟨buffer, _⟩
    exact absurd buffer (by decide)
  · rintro ⟨buffer, _⟩
    exact absurd buffer (by decide)
  · rintro ⟨_, page⟩
    exact absurd (page (by decide)) (by decide)

theorem copies_inBounds_exclusive :
    copyFor exclusiveEntry 0 .get = some .readFromLocalExclusive ∧
    (CopyKind.copy 1024#64 512#64 100#64 100#64 .readFromLocalExclusive).InBounds 1024#64 100#64 :=
  ⟨by decide, (copies_inBounds .readFromLocalExclusive (by decide) (by decide)).mpr
    (.inl ⟨by unfold Adds; decide, .inl ⟨by decide, by decide⟩⟩)⟩

end Megalon.Protocol.Copies
