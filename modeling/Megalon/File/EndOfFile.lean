import Mathlib.Data.List.Defs
import Megalon.File.PagedIo
import Megalon.Protocol.PageCopies

/-!
Contract: `Pread` over pages that were read from a backing file, up to its end.

Owns: `Admit` of a page of a file (`ReserveCacheNode`, `pread`, `SetLength`), a page read from CXL
or from a local copy and then moved to the reader's node, and when `Pread` stops at the end of
the file.

Does not own: which pages are moved.

The stored length of a page is the number of bytes of the file in it; the rest of the slot keeps
what was in it. Only the local copies look at the length, and they compare it with the number of
bytes asked for, not with the end of the range.
-/

namespace Megalon.File

open Function Foundations Protocol.Copies

variable {Byte : Type}

/-- Where `selectCacheNode` of the reader finds a page; `remoteNode` if only other nodes have it. -/
inductive PagePlace where
  | cxl
  | localNode
  | localNodeExclusive
  | remoteNode
  deriving DecidableEq, Repr

structure CachedPage (Byte : Type) where
  place : PagePlace
  bytes : Nat → Byte
  length : Nat

/-- A page that only another node has is `LOG(FATAL)`. -/
def PagePlace.copyKind : PagePlace → Option CopyKind
  | .cxl => some .copyToUserBufferCXL
  | .localNode => some .copyToUserBufferLocal
  | .localNodeExclusive => some .readFromLocalExclusive
  | .remoteNode => none

def CachedPage.read (size : BlockSize) (page : CachedPage Byte) (count offsetIntoPage : Nat) :
    Option (List Byte) :=
  page.place.copyKind.map fun kind =>
    let copy := kind.copy (.ofNat 64 size.bytes) (.ofNat 64 page.length) (.ofNat 64 count)
      (.ofNat 64 offsetIntoPage)
    readRange page.bytes copy.pageOffset.toNat copy.bytes.toNat

structure BackingFile (Byte : Type) where
  length : Nat
  bytes : Nat → Byte

/-- `pread(fd, slot, SLOT_SIZE, offset)` returns the number of bytes that there are. -/
def BackingFile.preadLength (size : BlockSize) (file : BackingFile Byte) (offset : Nat) : Nat :=
  min size.bytes (file.length - offset)

/-- The pages of one file by their offset, and how many slots of the bitmap are free. -/
structure PageCache (Byte : Type) where
  pages : Nat → Option (CachedPage Byte)
  free : Nat

/-- What a read does not decide: what the slot that it reserves held, and whether it moves the page
from CXL to the reader's node, with what the local slot held. -/
structure Surroundings (Byte : Type) where
  slots : Nat → Nat → Byte
  moves : Nat → Option (Nat → Byte)

/-- `Admit` to a slot that held `slot`. A page with no byte of the file is `LOG(FATAL)`. -/
def admitPage (size : BlockSize) (file : BackingFile Byte) (slot : Nat → Byte) (offset : Nat) :
    Option (CachedPage Byte) :=
  let result := file.preadLength size offset
  if 0 < result then
    some ⟨.cxl, fun i => if i < result then file.bytes (offset + i) else slot i, result⟩
  else none

/-- `MoveToLocalReadOnly` to a local slot that held `slot`. -/
def CachedPage.moveToLocal (page : CachedPage Byte) (slot : Nat → Byte) : CachedPage Byte :=
  ⟨.localNodeExclusive, fun i => if i < page.length then page.bytes i else slot i, page.length⟩

/-- The cache after the page at `offset` was read. A page that moves gives its slot back. -/
def PageCache.afterRead (around : Surroundings Byte) (cache : PageCache Byte) (offset : Nat)
    (page : CachedPage Byte) : PageCache Byte :=
  match page.place, around.moves offset with
  | .cxl, some slot =>
    ⟨update cache.pages offset (some (page.moveToLocal slot)), cache.free + 1⟩
  | _, _ => ⟨update cache.pages offset (some page), cache.free⟩

/-- `page_cache.Read`: a page that is not cached is admitted, and then read. If no slot is free
`Admit` fails, and `Read` tries again for ever. -/
def cacheRead (size : BlockSize) (file : BackingFile Byte) (around : Surroundings Byte) :
    PageRead (PageCache Byte) Byte :=
  fun cache blockId count offsetIntoPage =>
    match cache.pages blockId.offset with
    | some page => (page.read size count offsetIntoPage).map fun bytes =>
      (bytes, cache.afterRead around blockId.offset page)
    | none =>
      if cache.free = 0 then none
      else
        (admitPage size file (around.slots blockId.offset) blockId.offset).bind fun page =>
          (page.read size count offsetIntoPage).map fun bytes =>
            (bytes, PageCache.afterRead around ⟨cache.pages, cache.free - 1⟩ blockId.offset page)

/-- The page holds the bytes of the file at `offset`, and knows how many there are. -/
structure CachedPage.Holds (size : BlockSize) (file : BackingFile Byte) (offset : Nat)
    (page : CachedPage Byte) : Prop where
  inside : offset < file.length
  aligned : size.bytes ∣ offset
  length_eq : page.length = file.preadLength size offset
  bytes_eq : ∀ i, i < page.length → page.bytes i = file.bytes (offset + i)

def FromFile (size : BlockSize) (file : BackingFile Byte) (cache : PageCache Byte) : Prop :=
  ∀ offset page, cache.pages offset = some page → page.Holds size file offset

def BackingFile.lastPage (size : BlockSize) (file : BackingFile Byte) : Nat :=
  roundDownToBlockSize size file.length

/-! ### Slots -/

/-- How many slots are free after a read of a page, if it returns. -/
def slotsAfter (moves : Option (Nat → Byte)) (free : Nat) : Option (CachedPage Byte) → Option Nat
  | some page =>
    match page.place with
    | .cxl => some (if moves.isSome then free + 1 else free)
    | .localNode | .localNodeExclusive => some free
    | .remoteNode => none
  | none => if free = 0 then none else some (if moves.isSome then free else free - 1)

/-- The pages of a range. -/
def pagesOf (size : BlockSize) (position count : Nat) : List Nat :=
  List.iterate (· + size.bytes) (roundDownToBlockSize size position)
    (if count = 0 then 0 else (position % size.bytes + count - 1) / size.bytes + 1)

/-- No page of the range is on another node only, and each one that is not cached finds a free
slot. -/
def Serves (size : BlockSize) (around : Surroundings Byte) (cache : PageCache Byte)
    (position count : Nat) : Prop :=
  ((pagesOf size position count).foldlM (fun free page =>
    slotsAfter (around.moves page) free (cache.pages page)) cache.free).isSome = true

section

variable {size : BlockSize} {around : Surroundings Byte} {cache : PageCache Byte} {position : Nat}

@[simp]
theorem serves_zero : Serves size around cache position 0 := rfl

theorem pagesOf_cons {page offsetIntoPage count : Nat} (aligned : size.bytes ∣ page)
    (inPage : offsetIntoPage < size.bytes) (some : 0 < count) :
    pagesOf size (page + offsetIntoPage) count =
      page :: pagesOf size (page + size.bytes) (count - (size.bytes - offsetIntoPage)) := by
  have first : (page + offsetIntoPage) % size.bytes = offsetIntoPage := by
    rw [Nat.add_mod, Nat.dvd_iff_mod_eq_zero.mp aligned, Nat.zero_add, Nat.mod_mod,
      Nat.mod_eq_of_lt inPage]
  have next : (page + size.bytes) % size.bytes = 0 := by
    rw [Nat.add_mod_right, Nat.dvd_iff_mod_eq_zero.mp aligned]
  simp only [pagesOf, roundDownToBlockSize, first, next, if_neg some.ne', List.iterate,
    Nat.add_sub_cancel, Nat.sub_zero, Nat.zero_add]
  congr 2
  split
  · exact Nat.div_eq_of_lt (by omega)
  · have rest : offsetIntoPage + count - 1 =
        size.bytes + (count - (size.bytes - offsetIntoPage) - 1) := by omega
    rw [rest, Nat.add_div_left _ size.positive]

/-- The first page of a range is served, and then the rest of the range. -/
theorem serves_cons {page offsetIntoPage count : Nat} (aligned : size.bytes ∣ page)
    (inPage : offsetIntoPage < size.bytes) (more : 0 < count) :
    Serves size around cache (page + offsetIntoPage) count ↔
      ∃ free, slotsAfter (around.moves page) cache.free (cache.pages page) = some free ∧
        Serves size around ⟨cache.pages, free⟩ (page + size.bytes)
          (count - (size.bytes - offsetIntoPage)) := by
  rw [Serves, pagesOf_cons aligned inPage more, List.foldlM_cons]
  cases slotsAfter (around.moves page) cache.free (cache.pages page) with
  | none => simp
  | some free => simp [Serves]

theorem foldlM_iterate_congr {step : Nat} {pages pages' : Nat → Option (CachedPage Byte)}
    (count : Nat) {first : Nat} (free : Nat)
    (same : ∀ page, first ≤ page → pages page = pages' page) :
    (List.iterate (· + step) first count).foldlM (fun free page =>
      slotsAfter (around.moves page) free (pages page)) free =
    (List.iterate (· + step) first count).foldlM (fun free page =>
      slotsAfter (around.moves page) free (pages' page)) free := by
  induction count generalizing first free with
  | zero => rfl
  | succ count ih =>
    simp only [List.iterate, List.foldlM_cons, same first le_rfl]
    congr 1
    funext free
    exact ih free fun page later => same page (by omega)

theorem serves_congr {cache' : PageCache Byte} {page : Nat} (aligned : size.bytes ∣ page)
    (count : Nat) (free : cache'.free = cache.free)
    (same : ∀ other, page ≤ other → cache'.pages other = cache.pages other) :
    Serves size around cache' page count ↔ Serves size around cache page count := by
  have first : roundDownToBlockSize size page = page := by
    rw [roundDownToBlockSize, Nat.dvd_iff_mod_eq_zero.mp aligned, Nat.sub_zero]
  rw [Serves, Serves, pagesOf, first, free, foldlM_iterate_congr _ _ same]

end

/-! ### One page -/

section

variable {size : BlockSize} {file : BackingFile Byte} {around : Surroundings Byte}
  {cache : PageCache Byte} {offset : Nat} {page : CachedPage Byte}

/-- What a read of the page compares `count` with. -/
def CachedPage.limit (size : BlockSize) (page : CachedPage Byte) : Nat :=
  if page.place = .cxl then size.bytes else page.length

theorem CachedPage.Holds.length_bounds (holds : page.Holds size file offset) :
    0 < page.length ∧ page.length ≤ size.bytes := by
  have positive := size.positive
  have inside := holds.inside
  rw [holds.length_eq, BackingFile.preadLength]
  omega

theorem CachedPage.Holds.read_eq (fits : size.bytes < 2 ^ 64) {count offsetIntoPage : Nat}
    (holds : page.Holds size file offset) (here : page.place ≠ .remoteNode) (positive : 0 < count)
    (inPage : offsetIntoPage + count ≤ size.bytes) :
    page.read size count offsetIntoPage =
      some (readRange page.bytes offsetIntoPage (min count (page.limit size))) := by
  obtain ⟨filled, short⟩ := holds.length_bounds
  have sizeNat : (BitVec.ofNat 64 size.bytes).toNat = size.bytes := Nat.mod_eq_of_lt fits
  have lengthNat : (BitVec.ofNat 64 page.length).toNat = page.length :=
    Nat.mod_eq_of_lt (by omega)
  have countNat : (BitVec.ofNat 64 count).toNat = count := Nat.mod_eq_of_lt (by omega)
  have offsetNat : (BitVec.ofNat 64 offsetIntoPage).toNat = offsetIntoPage :=
    Nat.mod_eq_of_lt (by omega)
  cases place : page.place with
  | cxl =>
    simp only [CachedPage.read, CachedPage.limit, place, PagePlace.copyKind, Option.map_some,
      CopyKind.copy, copyToUserBufferCXL, toNat_stdMin, sizeNat, countNat, offsetNat, if_true]
  | localNode =>
    simp [CachedPage.read, CachedPage.limit, place, PagePlace.copyKind, CopyKind.copy,
      copyToUserBufferLocal, toNat_stdMin, lengthNat, countNat, offsetNat]
  | localNodeExclusive =>
    have nonzero : stdMin (.ofNat 64 count) (.ofNat 64 page.length) ≠ 0#64 := by
      rw [ne_eq, eq_zero_iff, toNat_stdMin, countNat, lengthNat]
      omega
    simp [CachedPage.read, CachedPage.limit, place, PagePlace.copyKind, CopyKind.copy,
      readFromLocalExclusive, toNat_stdMin, lengthNat, countNat, offsetNat, nonzero]
  | remoteNode => exact absurd place here

theorem admit_holds {slot : Nat → Byte} (aligned : size.bytes ∣ offset)
    (admitted : admitPage size file slot offset = some page) :
    page.Holds size file offset ∧ page.place = .cxl := by
  simp only [admitPage] at admitted
  split at admitted
  · rename_i some
    cases admitted
    refine ⟨⟨?_, aligned, rfl, fun i below => if_pos below⟩, rfl⟩
    unfold BackingFile.preadLength at some
    omega
  · cases admitted

theorem exists_admitPage (size : BlockSize) (slot : Nat → Byte) (inside : offset < file.length) :
    ∃ page, admitPage size file slot offset = some page := by
  have any : 0 < file.preadLength size offset := by
    have positive := size.positive
    unfold BackingFile.preadLength
    omega
  exact ⟨_, if_pos any⟩

/-- `cache'` is `cache` after a read of `page` at `offset`, with `free` slots left. -/
structure ReadAt (size : BlockSize) (file : BackingFile Byte) (cache : PageCache Byte)
    (offset : Nat) (free : Nat) (page : CachedPage Byte) (cache' : PageCache Byte) : Prop where
  holds : page.Holds size file offset
  here : page.place ≠ .remoteNode
  found : cache.pages offset = some page ∨ (cache.pages offset = none ∧ page.place = .cxl)
  fromFile : FromFile size file cache'
  free_eq : cache'.free = free
  others : ∀ other, other ≠ offset → cache'.pages other = cache.pages other

theorem fromFile_update {pages : Nat → Option (CachedPage Byte)} {free free' : Nat}
    (cached : FromFile size file ⟨pages, free⟩) (holds : page.Holds size file offset) :
    FromFile size file ⟨update pages offset (some page), free'⟩ := by
  intro other found present
  by_cases same : other = offset
  · subst same
    simp only [update_self, Option.some_inj] at present
    exact present ▸ holds
  · simp only [update_of_ne same] at present
    exact cached other found present

theorem CachedPage.Holds.moveToLocal (holds : page.Holds size file offset) (slot : Nat → Byte) :
    (page.moveToLocal slot).Holds size file offset := by
  refine ⟨holds.inside, holds.aligned, holds.length_eq, fun i below => ?_⟩
  exact (if_pos below).trans (holds.bytes_eq i below)

theorem afterRead_spec (around : Surroundings Byte) (cached : FromFile size file cache)
    (holds : page.Holds size file offset) :
    FromFile size file (cache.afterRead around offset page) ∧
      ((cache.afterRead around offset page).free =
        if page.place = .cxl ∧ (around.moves offset).isSome = true then cache.free + 1
        else cache.free) ∧
      ∀ other, other ≠ offset →
        (cache.afterRead around offset page).pages other = cache.pages other := by
  unfold PageCache.afterRead
  split
  · rename_i slot onCxl moves
    refine ⟨fromFile_update cached (holds.moveToLocal slot), by simp [onCxl, moves], ?_⟩
    exact fun other different => update_of_ne different ..
  · rename_i stays
    refine ⟨fromFile_update cached holds, ?_, fun other different =>
      update_of_ne different ..⟩
    rw [if_neg]
    rintro ⟨onCxl, moves⟩
    obtain ⟨slot, moves⟩ := Option.isSome_iff_exists.mp moves
    exact stays slot onCxl moves

theorem cacheRead_served (fits : size.bytes < 2 ^ 64) {blockId : BlockId}
    {count offsetIntoPage free : Nat} (cached : FromFile size file cache)
    (inside : blockId.offset < file.length) (aligned : size.bytes ∣ blockId.offset)
    (positive : 0 < count) (inPage : offsetIntoPage + count ≤ size.bytes)
    (serves : slotsAfter (around.moves blockId.offset) cache.free (cache.pages blockId.offset) =
      some free) :
    ∃ page cache', cacheRead size file around cache blockId count offsetIntoPage =
        some (readRange page.bytes offsetIntoPage (min count (page.limit size)), cache') ∧
      ReadAt size file cache blockId.offset free page cache' := by
  cases found : cache.pages blockId.offset with
  | some page =>
    have holds := cached _ page found
    obtain ⟨fromFile, freed, others⟩ := afterRead_spec around cached holds
    have here : page.place ≠ .remoteNode := by
      rintro place
      simp [slotsAfter, found, place] at serves
    refine ⟨page, cache.afterRead around blockId.offset page, ?_, holds, here, .inl found, fromFile,
      freed.trans ?_, others⟩
    · simp only [cacheRead, found, holds.read_eq fits here positive inPage, Option.map_some]
    rw [found] at serves
    cases place : page.place <;> simp [slotsAfter, place] at serves ⊢ <;> exact serves
  | none =>
    rw [found] at serves
    have some : cache.free ≠ 0 := by
      intro full
      simp [slotsAfter, full] at serves
    obtain ⟨page, admitted⟩ := exists_admitPage size (around.slots blockId.offset) inside
    obtain ⟨holds, place⟩ := admit_holds aligned admitted
    have less : FromFile size file ⟨cache.pages, cache.free - 1⟩ := cached
    obtain ⟨fromFile, freed, others⟩ := afterRead_spec around less holds
    have here : page.place ≠ .remoteNode := by simp [place]
    refine ⟨page, PageCache.afterRead around ⟨cache.pages, cache.free - 1⟩ blockId.offset page, ?_,
      holds, here, .inr ⟨found, place⟩, fromFile, freed.trans ?_, others⟩
    · simp only [cacheRead, found, if_neg some, admitted, Option.bind_some, Option.map_some,
        holds.read_eq fits here positive inPage]
    simp only [slotsAfter, if_neg some, Option.some_inj] at serves
    rw [← serves]
    simp only [place, true_and]
    split <;> omega

theorem cacheRead_unserved {blockId : BlockId} (count offsetIntoPage : Nat)
    (starves : slotsAfter (around.moves blockId.offset) cache.free (cache.pages blockId.offset) =
      none) : cacheRead size file around cache blockId count offsetIntoPage = none := by
  cases found : cache.pages blockId.offset with
  | some page =>
    rw [found] at starves
    cases place : page.place <;> simp [slotsAfter, place] at starves
    simp [cacheRead, found, CachedPage.read, place, PagePlace.copyKind]
  | none =>
    have full : cache.free = 0 := by
      by_contra some
      simp [slotsAfter, found, some] at starves
    simp [cacheRead, found, full]

theorem cacheRead_beyond {blockId : BlockId} (count offsetIntoPage : Nat)
    (cached : FromFile size file cache) (beyond : file.length ≤ blockId.offset) :
    cacheRead size file around cache blockId count offsetIntoPage = none := by
  have missing : cache.pages blockId.offset = none := by
    cases found : cache.pages blockId.offset with
    | none => rfl
    | some page =>
      have := (cached _ page found).inside
      omega
  have nothing : ¬ 0 < file.preadLength size blockId.offset := by
    unfold BackingFile.preadLength
    omega
  simp [cacheRead, missing, admitPage, nothing]

end

/-! ### The loop -/

section

variable {size : BlockSize} {file : BackingFile Byte} {around : Surroundings Byte}
  {cache : PageCache Byte} {handle : FileHandle}

section

variable {State : Type} {count : Nat} {request : PageRequest State} {fuel : Nat} {s s' : State}
  {blockId : BlockId} {offsetIntoPage bytesCopied total : Nat} {requests : List Request}

theorem add_le_total {bytesRead : Nat} {s₁ : State} (more : bytesCopied < count)
    (answered : request s blockId bytesCopied
      (min (count - bytesCopied) (size.bytes - offsetIntoPage)) offsetIntoPage =
        some (bytesRead, s₁))
    (looped : transferLoop size count request (fuel + 1) s blockId offsetIntoPage bytesCopied =
      .ok (total, s', requests)) : bytesCopied + bytesRead ≤ total := by
  by_cases fewer : bytesRead < min (count - bytesCopied) (size.bytes - offsetIntoPage)
  · rw [transferLoop_short more answered fewer] at looped
    cases looped
    exact le_rfl
  · obtain ⟨rest, looped⟩ := transferLoop_rest more answered fewer looped
    exact (transferLoop_keeps (P := fun _ _ copied => bytesCopied + bytesRead ≤ copied)
      (fun _ _ _ _ _ _ _ least _ => least.trans (Nat.le_add_right ..)) le_rfl looped).choose_spec

end

/-- What `Pread` has read of the file so far. -/
def FileSoFar (size : BlockSize) (file : BackingFile Byte) (offset : Nat)
    (now : PageCache Byte × List Byte) (copied : Nat) : Prop :=
  FromFile size file now.1 ∧ now.2 = readRange file.bytes offset copied

/-- The last page of the file is partly filled and is read from a local copy, from its start. -/
def StopsAtEnd (size : BlockSize) (file : BackingFile Byte) (cache : PageCache Byte)
    (position : Nat) : Prop :=
  file.length % size.bytes ≠ 0 ∧ position ≤ file.lastPage size ∧
    ∃ page, cache.pages (file.lastPage size) = some page ∧ page.place ≠ .cxl

theorem lastPage_cases (size : BlockSize) (file : BackingFile Byte) {page : Nat}
    (aligned : size.bytes ∣ page) (inside : page ≤ file.length) :
    page = file.lastPage size ∨ page + size.bytes ≤ file.lastPage size := by
  have last : size.bytes ∣ file.lastPage size := Nat.dvd_sub_mod file.length
  have below := Nat.mod_lt file.length size.positive
  have split : file.lastPage size + file.length % size.bytes = file.length :=
    Nat.sub_add_cancel (Nat.mod_le ..)
  obtain ⟨k, rfl⟩ := aligned
  obtain ⟨m, equal⟩ := last
  rw [equal] at split ⊢
  rcases Nat.lt_trichotomy k m with less | same | more
  · have bound : size.bytes * (k + 1) ≤ size.bytes * m := Nat.mul_le_mul_left _ less
    rw [Nat.mul_succ] at bound
    exact .inr bound
  · exact .inl (by rw [same])
  · have bound : size.bytes * (m + 1) ≤ size.bytes * k := Nat.mul_le_mul_left _ more
    rw [Nat.mul_succ] at bound
    omega

variable {now now' : PageCache Byte × List Byte} {blockId : BlockId}
  {count offset copied offsetIntoPage fuel : Nat}

/-- Where the loop is: at a byte of the file or, after its last page, at its end. -/
structure LoopAt (size : BlockSize) (file : BackingFile Byte) (count offset : Nat)
    (now : PageCache Byte × List Byte) (blockId : BlockId) (offsetIntoPage copied : Nat) :
    Prop where
  soFar : FileSoFar size file offset now copied
  within : copied ≤ count
  inPage : offsetIntoPage < size.bytes
  aligned : size.bytes ∣ blockId.offset
  position : copied < count → blockId.offset + offsetIntoPage = offset + copied
  inFile : offset + copied < file.length ∨ (offset + copied = file.length ∧ offsetIntoPage = 0) ∨
    copied = count ∧ offset + copied ≤ file.length

/-- How the loop goes on from there: it ends as it should if `stops`, and otherwise, if it ends at
all, with more bytes than there are. -/
def EndsIff (size : BlockSize) (file : BackingFile Byte) (around : Surroundings Byte)
    (count offset fuel : Nat) (now : PageCache Byte × List Byte) (blockId : BlockId)
    (offsetIntoPage copied : Nat) (stops : Prop) : Prop :=
  (stops → ∃ cache' requests,
    transferLoop size count (readRequest (cacheRead size file around)) fuel now blockId
      offsetIntoPage copied = .ok (min count (file.length - offset),
        (cache', readRange file.bytes offset (min count (file.length - offset))), requests)) ∧
  (¬stops → ∀ total now' requests,
    transferLoop size count (readRequest (cacheRead size file around)) fuel now blockId
      offsetIntoPage copied = .ok (total, now', requests) →
    min count (file.length - offset) < total)

theorem readRequest_answered {cache' : PageCache Byte} {bytes : List Byte} {available : Nat}
    (answered : cacheRead size file around now.1 blockId available offsetIntoPage =
      some (bytes, cache')) :
    readRequest (cacheRead size file around) now blockId copied available offsetIntoPage =
      some (bytes.length, cache', now.2 ++ bytes) := by
  rw [readRequest, answered]
  rfl

theorem endsIff_done (loop : LoopAt size file count offset now blockId offsetIntoPage copied)
    (done : copied = count) (stops : Prop) (fuel : Nat) (always : stops) :
    EndsIff size file around count offset fuel now blockId offsetIntoPage copied stops := by
  subst done
  have all : min copied (file.length - offset) = copied := by
    have := loop.inFile
    omega
  obtain ⟨cache, buf⟩ := now
  refine ⟨fun _ => ⟨cache, [], ?_⟩, fun never => absurd always never⟩
  rw [transferLoop_done, all, ← loop.soFar.2]

theorem endsIff_fatal {stops : Prop} (more : copied < count) (never : ¬stops)
    (fatal : cacheRead size file around now.1 blockId
      (min (count - copied) (size.bytes - offsetIntoPage)) offsetIntoPage = none) :
    EndsIff size file around count offset (fuel + 1) now blockId offsetIntoPage copied stops := by
  refine ⟨fun stops => absurd stops never, fun _ total now' requests looped => ?_⟩
  rw [transferLoop_fatal more (by rw [readRequest, fatal]; rfl)] at looped
  cases looped

/-- The loop goes on to the next page. -/
theorem endsIff_next {stops stops' : Prop} {cache' : PageCache Byte} {bytes : List Byte}
    (more : copied < count)
    (answered : cacheRead size file around now.1 blockId
      (min (count - copied) (size.bytes - offsetIntoPage)) offsetIntoPage = some (bytes, cache'))
    (all : bytes.length = min (count - copied) (size.bytes - offsetIntoPage))
    (same : stops' ↔ stops)
    (rest : EndsIff size file around count offset fuel (cache', now.2 ++ bytes)
      (blockId.incrementPage size) 0 (copied + bytes.length) stops') :
    EndsIff size file around count offset (fuel + 1) now blockId offsetIntoPage copied stops := by
  have full : ¬ bytes.length < min (count - copied) (size.bytes - offsetIntoPage) := by omega
  rw [EndsIff, ← same]
  refine ⟨fun stops => ?_, fun never total now' requests looped => ?_⟩
  · obtain ⟨cache', requests, looped⟩ := rest.1 stops
    rw [transferLoop_next fuel more (readRequest_answered answered) full, looped]
    exact ⟨cache', _, rfl⟩
  · obtain ⟨_, after⟩ := transferLoop_rest more (readRequest_answered answered) full looped
    exact rest.2 never _ _ _ after

/-- A page that the file ends in, with more bytes asked for: a local copy stops at the end of the
file if it is read from its start, and otherwise more bytes are read than there are. -/
theorem endsIff_last {free : Nat} {page : CachedPage Byte} {cache' : PageCache Byte}
    (loop : LoopAt size file count offset now blockId offsetIntoPage copied) (more : copied < count)
    (inside : offset + copied < file.length)
    (beyond : file.length <
      offset + copied + min (count - copied) (size.bytes - offsetIntoPage))
    (answered : cacheRead size file around now.1 blockId
      (min (count - copied) (size.bytes - offsetIntoPage)) offsetIntoPage =
        some (readRange page.bytes offsetIntoPage
          (min (min (count - copied) (size.bytes - offsetIntoPage)) (page.limit size)), cache'))
    (read : ReadAt size file now.1 blockId.offset free page cache') :
    EndsIff size file around count offset (fuel + 1) now blockId offsetIntoPage copied
      (StopsAtEnd size file now.1 (blockId.offset + offsetIntoPage)) := by
  have inPage := loop.inPage
  have position := loop.position more
  have below := Nat.mod_lt file.length size.positive
  have split : file.lastPage size + file.length % size.bytes = file.length :=
    Nat.sub_add_cancel (Nat.mod_le ..)
  have length : page.length = file.length - blockId.offset := by
    rw [read.holds.length_eq, BackingFile.preadLength]
    omega
  have last : blockId.offset = file.lastPage size := by
    rcases lastPage_cases size file loop.aligned (by omega) with last | before
    · exact last
    · omega
  have request : readRequest _ now blockId copied _ _ = _ := readRequest_answered answered
  rw [length_readRange] at request
  by_cases stops : page.place ≠ .cxl ∧ offsetIntoPage = 0
  · obtain ⟨place, rfl⟩ := stops
    have limit : page.limit size = file.length - blockId.offset := by
      rw [CachedPage.limit, if_neg place, length]
    have least : min (min (count - copied) (size.bytes - 0)) (page.limit size) =
        file.length - blockId.offset := by omega
    have found := read.found.resolve_right fun missing => place missing.2
    rw [least] at request
    refine ⟨fun _ => ?_, fun never => absurd ⟨by omega, by omega, page, by rwa [← last], place⟩
      never⟩
    have want : min count (file.length - offset) =
        copied + (file.length - blockId.offset) := by omega
    have bytes : readRange page.bytes 0 (file.length - blockId.offset) =
        readRange file.bytes (offset + copied) (file.length - blockId.offset) := by
      apply readRange_congr
      intro i inside
      rw [Nat.zero_add, read.holds.bytes_eq i (by omega), ← position, Nat.add_zero]
    rw [transferLoop_short more request (by omega), want, readRange_append, ← loop.soFar.2, bytes]
    exact ⟨cache', _, rfl⟩
  · refine ⟨?_, fun _ total now' requests looped => ?_⟩
    · rintro ⟨_, atStart, found, present, place⟩
      rw [← last] at present
      rcases read.found with here | ⟨missing, _⟩
      · rw [here, Option.some_inj] at present
        exact absurd ⟨present ▸ place, by omega⟩ stops
      · rw [missing] at present
        cases present
    · have least := add_le_total more request looped
      by_cases place : page.place = .cxl
      · rw [CachedPage.limit, if_pos place] at least
        omega
      · have start : offsetIntoPage ≠ 0 := fun start => stops ⟨place, start⟩
        rw [CachedPage.limit, if_neg place, length] at least
        omega

section

variable {free : Nat} {page : CachedPage Byte} {cache' : PageCache Byte}
  (loop : LoopAt size file count offset now blockId offsetIntoPage copied) (more : copied < count)
  (inside : offset + copied + min (count - copied) (size.bytes - offsetIntoPage) ≤ file.length)
  (read : ReadAt size file now.1 blockId.offset free page cache')

include loop more inside read

theorem readRange_inside :
    readRange page.bytes offsetIntoPage
        (min (min (count - copied) (size.bytes - offsetIntoPage)) (page.limit size)) =
      readRange file.bytes (offset + copied)
        (min (count - copied) (size.bytes - offsetIntoPage)) := by
  have inPage := loop.inPage
  have position := loop.position more
  have length := read.holds.length_eq
  unfold BackingFile.preadLength at length
  have all : min (min (count - copied) (size.bytes - offsetIntoPage)) (page.limit size) =
      min (count - copied) (size.bytes - offsetIntoPage) := by
    unfold CachedPage.limit
    split <;> omega
  rw [all]
  apply readRange_congr
  intro i below
  rw [read.holds.bytes_eq _ (by omega), ← position, Nat.add_assoc]

theorem LoopAt.next : LoopAt size file count offset
    (cache', now.2 ++ readRange file.bytes (offset + copied)
      (min (count - copied) (size.bytes - offsetIntoPage)))
    (blockId.incrementPage size) 0
    (copied + min (count - copied) (size.bytes - offsetIntoPage)) where
  soFar := ⟨read.fromFile, by rw [readRange_append, ← loop.soFar.2]⟩
  within := by omega
  inPage := size.positive
  aligned := Nat.dvd_add_self_right.mpr loop.aligned
  position := fun rest => by
    have position := loop.position more
    have inPage := loop.inPage
    simp only [BlockId.incrementPage]
    omega
  inFile := by omega

theorem stops_next : (Serves size around cache' ((blockId.incrementPage size).offset + 0)
        (min count (file.length - offset) -
          (copied + min (count - copied) (size.bytes - offsetIntoPage))) ∧
      (offset + count ≤ file.length ∨
        StopsAtEnd size file cache' ((blockId.incrementPage size).offset + 0))) ↔
    Serves size around ⟨now.1.pages, free⟩ (blockId.offset + size.bytes)
        (min count (file.length - offset) - copied - (size.bytes - offsetIntoPage)) ∧
      (offset + count ≤ file.length ∨
        StopsAtEnd size file now.1 (blockId.offset + offsetIntoPage)) := by
  have inPage := loop.inPage
  have position := loop.position more
  have rest : min count (file.length - offset) -
      (copied + min (count - copied) (size.bytes - offsetIntoPage)) =
        min count (file.length - offset) - copied - (size.bytes - offsetIntoPage) := by omega
  have next : (blockId.incrementPage size).offset + 0 = blockId.offset + size.bytes := rfl
  rw [rest, next, serves_congr (Nat.dvd_add_self_right.mpr loop.aligned) _
    (show cache'.free = (⟨now.1.pages, free⟩ : PageCache Byte).free from read.free_eq)
    fun other later => read.others other (by have := size.positive; omega)]
  refine and_congr_right fun _ => ?_
  by_cases within : offset + count ≤ file.length
  · simp [within]
  · have split : file.lastPage size + file.length % size.bytes = file.length :=
      Nat.sub_add_cancel (Nat.mod_le ..)
    have below := Nat.mod_lt file.length size.positive
    rcases lastPage_cases size file loop.aligned (by omega) with last | before
    · omega
    · simp only [within, false_or, StopsAtEnd]
      rw [read.others _ (by have := size.positive; omega)]
      refine and_congr_right fun _ => and_congr_left fun _ => ?_
      omega

end

/-- From a position in the file the loop ends at the end of the range or of the file exactly if its
pages are served and the last one lets it. The induction goes from page to page. -/
theorem loop_iff (fits : size.bytes < 2 ^ 64) (fuel : Nat) (enough : count ≤ copied + fuel)
    (loop : LoopAt size file count offset now blockId offsetIntoPage copied) :
    EndsIff size file around count offset fuel now blockId offsetIntoPage copied
      (Serves size around now.1 (blockId.offset + offsetIntoPage)
          (min count (file.length - offset) - copied) ∧
        (offset + count ≤ file.length ∨
          StopsAtEnd size file now.1 (blockId.offset + offsetIntoPage))) := by
  induction fuel generalizing now blockId offsetIntoPage copied with
  | zero =>
    have within := loop.within
    have done : copied = count := by omega
    have inFile := loop.inFile
    refine endsIff_done loop done _ 0 ⟨?_, .inl (by omega)⟩
    rw [show min count (file.length - offset) - copied = 0 by omega]
    exact serves_zero
  | succ fuel ih =>
    by_cases more : copied < count
    · have position := loop.position more
      have inFile := loop.inFile
      by_cases inside : offset + copied < file.length
      · -- the page has a byte of the range
        have inPage := loop.inPage
        rw [serves_cons loop.aligned inPage (by omega)]
        cases serves : slotsAfter (around.moves blockId.offset) now.1.free
            (now.1.pages blockId.offset) with
        | none => exact endsIff_fatal more (by simp) (cacheRead_unserved _ _ serves)
        | some free =>
          have some : 0 < min (count - copied) (size.bytes - offsetIntoPage) := by omega
          have fit : offsetIntoPage + min (count - copied) (size.bytes - offsetIntoPage) ≤
              size.bytes := by omega
          obtain ⟨page, cache', answered, read⟩ := cacheRead_served fits loop.soFar.1 (by omega)
            loop.aligned some fit serves
          simp only [Option.some.injEq, exists_eq_left']
          by_cases beyond : file.length <
              offset + copied + min (count - copied) (size.bytes - offsetIntoPage)
          · have rest : min count (file.length - offset) - copied -
                (size.bytes - offsetIntoPage) = 0 := by omega
            rw [rest, and_iff_right serves_zero, or_iff_right (by omega)]
            exact endsIff_last loop more inside beyond answered read
          · have full := Nat.not_lt.mp beyond
            rw [readRange_inside loop more full read] at answered
            refine endsIff_next more answered (length_readRange ..)
              (stops_next loop more full read) ?_
            rw [length_readRange]
            exact ih (by omega) (loop.next more full read)
      · -- the file ends with a page, and the loop asks for the next one
        obtain ⟨atEnd, rfl⟩ : offset + copied = file.length ∧ offsetIntoPage = 0 := by omega
        refine endsIff_fatal more ?_ (cacheRead_beyond _ _ loop.soFar.1 (by omega))
        rintro ⟨_, within | ⟨part, before, _⟩⟩
        · omega
        · have split : file.lastPage size + file.length % size.bytes = file.length :=
            Nat.sub_add_cancel (Nat.mod_le ..)
          omega
    · have within := loop.within
      have done : copied = count := by omega
      have inFile := loop.inFile
      refine endsIff_done loop done _ _ ⟨?_, .inl (by omega)⟩
      rw [show min count (file.length - offset) - copied = 0 by omega]
      exact serves_zero

/-! ### Pages in the cache -/

/-- The caches that reads of the file, evictions and moves of pages leave. A move copies the bytes
of the file and their number; the rest of the new page may hold anything. Slots are also reserved
and freed for other files. -/
inductive CachedByReads (size : BlockSize) (file : BackingFile Byte) (handle : FileHandle) :
    PageCache Byte → Prop
  | empty {free : Nat} : CachedByReads size file handle ⟨fun _ => none, free⟩
  | read {around : Surroundings Byte} {cache cache' : PageCache Byte} {count offset total : Nat}
      {buf : List Byte} {requests : List Request} (before : CachedByReads size file handle cache)
      (returned : handle.pread size (cacheRead size file around) cache count offset =
        .ok (total, (cache', buf), requests)) : CachedByReads size file handle cache'
  | move {cache : PageCache Byte} {offset : Nat} {page : CachedPage Byte} {place : PagePlace}
      {bytes : Nat → Byte} (before : CachedByReads size file handle cache)
      (present : cache.pages offset = some page)
      (copied : ∀ i, i < page.length → bytes i = page.bytes i) :
      CachedByReads size file handle
        ⟨update cache.pages offset (some ⟨place, bytes, page.length⟩), cache.free⟩
  | evict {cache : PageCache Byte} {offset : Nat} (before : CachedByReads size file handle cache) :
      CachedByReads size file handle ⟨update cache.pages offset none, cache.free⟩
  | slots {cache : PageCache Byte} {free : Nat} (before : CachedByReads size file handle cache) :
      CachedByReads size file handle ⟨cache.pages, free⟩

theorem cacheRead_fromFile {cache' : PageCache Byte} {bytes : List Byte}
    (cached : FromFile size file cache) (aligned : size.bytes ∣ blockId.offset)
    (answered : cacheRead size file around cache blockId count offsetIntoPage =
      some (bytes, cache')) : FromFile size file cache' := by
  simp only [cacheRead] at answered
  split at answered
  · rename_i page found
    obtain ⟨_, _, equal⟩ := Option.map_eq_some_iff.mp answered
    cases equal
    exact (afterRead_spec around cached (cached _ page found)).1
  · split at answered
    · cases answered
    · obtain ⟨page, admitted, answered⟩ := Option.bind_eq_some_iff.mp answered
      obtain ⟨_, _, equal⟩ := Option.map_eq_some_iff.mp answered
      cases equal
      have less : FromFile size file ⟨cache.pages, cache.free - 1⟩ := cached
      exact (afterRead_spec around less (admit_holds aligned admitted).1).1

theorem CachedByReads.fromFile (reached : CachedByReads size file handle cache) :
    FromFile size file cache := by
  induction reached with
  | empty =>
    intro offset page present
    cases present
  | @read around cache cache' count offset total buf requests _ returned ih =>
    refine (transferLoop_keeps (P := fun now blockId _ =>
      FromFile size file now.1 ∧ size.bytes ∣ blockId.offset) ?_
      ⟨ih, (blockId_position size handle offset).1⟩ returned).choose_spec.1
    rintro now blockId _ _ _ _ _ ⟨cached, aligned⟩ answered
    obtain ⟨_, found, equal⟩ := Option.map_eq_some_iff.mp answered
    cases equal
    exact ⟨cacheRead_fromFile cached aligned found, Nat.dvd_add_self_right.mpr aligned⟩
  | @move cache offset page place bytes _ present copied ih =>
    obtain ⟨inside, aligned, length, contents⟩ := ih offset page present
    exact fromFile_update ih
      ⟨inside, aligned, length, fun i below => (copied i below).trans (contents i below)⟩
  | @evict cache offset _ ih =>
    intro other found there
    by_cases same : other = offset
    · simp [same] at there
    · simp only [update_of_ne same] at there
      exact ih other found there
  | slots _ ih => exact ih

/-- `Pread` returns the bytes up to the end of the file and no more exactly if its pages are served,
and it is not asked for more or the file ends inside a page that is read locally and from its
start. -/
theorem pread_stops_iff (fits : size.bytes < 2 ^ 64) (cached : CachedByReads size file handle cache)
    (around : Surroundings Byte) {offset : Nat} (inside : offset < file.length) (count : Nat) :
    (∃ cache' requests, handle.pread size (cacheRead size file around) cache count offset =
      .ok (min count (file.length - offset),
        (cache', readRange file.bytes offset (min count (file.length - offset))), requests)) ↔
    Serves size around cache offset (min count (file.length - offset)) ∧
      (offset + count ≤ file.length ∨
        (file.length % size.bytes ≠ 0 ∧ offset ≤ file.lastPage size ∧
          ∃ page, cache.pages (file.lastPage size) = some page ∧ page.place ≠ .cxl)) := by
  obtain ⟨aligned, inPage, position⟩ := blockId_position size handle offset
  have start : LoopAt size file count offset (cache, []) (handle.blockId size offset)
      (offset - (handle.blockId size offset).offset) 0 :=
    ⟨⟨cached.fromFile, rfl⟩, Nat.zero_le _, inPage, aligned, fun _ => position, .inl inside⟩
  obtain ⟨stops, fails⟩ : EndsIff size file around count offset count _ _ _ 0 _ :=
    loop_iff fits count (by omega) start
  rw [position, Nat.sub_zero] at stops fails
  constructor
  · rintro ⟨cache', requests, returned⟩
    by_contra condition
    exact Nat.lt_irrefl _ (fails condition _ _ _ returned)
  · exact stops

/-! ### Runs -/

def sixBytes : BackingFile Nat := ⟨6, fun i => 10 + i⟩

def fourBytePages : BlockSize := ⟨4, by decide⟩

def staleSlots : Surroundings Nat := ⟨fun _ _ => 99, fun _ => none⟩

/-- Eight bytes of a file of six are returned from CXL; after a file of four the process ends. -/
theorem pread_beyond_end :
    (FileHandle.pread fourBytePages (cacheRead fourBytePages sixBytes staleSlots) ⟨3, 1⟩
      ⟨fun _ => none, 2⟩ 8 0).map (fun result => (result.1, result.2.1.2)) =
        .ok (8, [10, 11, 12, 13, 14, 15, 99, 99]) ∧
    min 8 (sixBytes.length - 0) = 6 ∧
    (FileHandle.pread fourBytePages (cacheRead fourBytePages ⟨4, sixBytes.bytes⟩ staleSlots) ⟨3, 1⟩
      ⟨fun _ => none, 2⟩ 8 0).map (fun result => (result.1, result.2.1.2)) = .error .fatal := by
  decide

/-- With one slot the first page moves to the reader's node, and the last one gets its slot; then it
is moved, too, and the file is read again up to its end. -/
theorem pread_stops_sixBytes :
    ∃ cache, CachedByReads fourBytePages sixBytes ⟨3, 1⟩ cache ∧ cache.free = 0 ∧
      ∃ cache' requests, FileHandle.pread fourBytePages
        (cacheRead fourBytePages sixBytes staleSlots) ⟨3, 1⟩ cache 8 0 =
          .ok (6, (cache', [10, 11, 12, 13, 14, 15]), requests) := by
  have first := @CachedByReads.read Nat fourBytePages sixBytes ⟨3, 1⟩
    ⟨fun _ _ => 99, fun offset => if offset = 0 then some fun _ => 98 else none⟩ _ _ 6 0 _ _ _
    (@CachedByReads.empty _ _ _ _ 1) rfl
  have moved := @CachedByReads.move Nat fourBytePages sixBytes ⟨3, 1⟩ _ 4 _ .localNode _
    first rfl fun _ _ => rfl
  exact ⟨_, moved, rfl, (pread_stops_iff (by decide) moved staleSlots (by decide) 8).mpr
    ⟨rfl, .inr ⟨by decide, by decide, _, rfl, by decide⟩⟩⟩

end

end Megalon.File
