import Mathlib.Algebra.Ring.Nat
import Mathlib.Data.List.Chain
import Megalon.Foundations.FlatPages

/-!
Contract: `RackOBJFileHandle::Pread` and `Pwrite` of `lib/file.cc`, which split a range of a file
into requests on pages.

Owns: the loop both share, the requests it makes, and that over a page store that transfers a
prefix of each request the file is one flat array.

Does not own: the page store (`page_cache`), and the offset and the lock of the handle.

Offsets are natural numbers: a range that ends beyond `off_t` is not modelled.
-/

namespace Megalon.File

open Function Foundations

/-- `kBlockSize`. -/
structure BlockSize where
  bytes : Nat
  positive : 0 < bytes

/-- `BlockId` of the file interface. `operator==` and the hash ignore the server. -/
structure BlockId where
  serverId : Nat
  inode : Nat
  offset : Nat
  deriving DecidableEq, Repr

def BlockId.incrementPage (size : BlockSize) (blockId : BlockId) : BlockId :=
  { blockId with offset := blockId.offset + size.bytes }

/-- `round_down_to_block_size`. -/
def roundDownToBlockSize (size : BlockSize) (val : Nat) : Nat := val - val % size.bytes

/-- A call of `page_cache.Read` or `page_cache.Write`, with the number of bytes it returned. -/
structure Request where
  blockId : BlockId
  offsetIntoPage : Nat
  available : Nat
  bytesRead : Nat
  deriving DecidableEq, Repr

/-- How a loop can end without a result: a request ended the process or never returned, or the loop
was not followed to its end. -/
inductive LoopEnd where
  | fatal
  | fuel
  deriving DecidableEq, Repr

/-- `page_cache.Read` or `page_cache.Write` at `buf + bytes_copied`; `none` is `LOG(FATAL)`, or a
request that never returns. -/
abbrev PageRequest (State : Type) :=
  State → BlockId → (bytesCopied available offsetIntoPage : Nat) → Option (Nat × State)

/-- The loop of `Pread` and `Pwrite`: `bytes_copied`, the state of the store and the requests. -/
def transferLoop {State : Type} (size : BlockSize) (count : Nat) (request : PageRequest State) :
    (fuel : Nat) → State → BlockId → (offsetIntoPage bytesCopied : Nat) →
      Except LoopEnd (Nat × State × List Request)
  | 0, s, _, _, bytesCopied =>
    if bytesCopied < count then .error .fuel else .ok (bytesCopied, s, [])
  | fuel + 1, s, blockId, offsetIntoPage, bytesCopied =>
    if bytesCopied < count then
      let available := min (count - bytesCopied) (size.bytes - offsetIntoPage)
      match request s blockId bytesCopied available offsetIntoPage with
      | none => .error .fatal
      | some (bytesRead, s) =>
        let made : Request := ⟨blockId, offsetIntoPage, available, bytesRead⟩
        if bytesRead < available then .ok (bytesCopied + bytesRead, s, [made])
        else
          (transferLoop size count request fuel s (blockId.incrementPage size) 0
            (bytesCopied + bytesRead)).map fun (total, s, rest) => (total, s, made :: rest)
    else .ok (bytesCopied, s, [])

/-- `RackOBJFileHandle`. -/
structure FileHandle where
  fd : Nat
  inode : Nat

def FileHandle.blockId (size : BlockSize) (handle : FileHandle) (offset : Nat) : BlockId :=
  ⟨handle.fd, handle.inode, roundDownToBlockSize size offset⟩

/-- `page_cache.Read`: the bytes it puts into the buffer. -/
abbrev PageRead (State Byte : Type) :=
  State → BlockId → (count offsetIntoPage : Nat) → Option (List Byte × State)

/-- `page_cache.Write`: how many bytes of the buffer it has written. -/
abbrev PageWrite (State Byte : Type) :=
  State → BlockId → (bytes : List Byte) → (offsetIntoPage : Nat) → Option (Nat × State)

section

variable {State Byte : Type} (size : BlockSize) (read : PageRead State Byte)
  (write : PageWrite State Byte) (handle : FileHandle)

/-- The loop of `Pread` passes the rest of the buffer, which holds what was read so far. -/
def readRequest : PageRequest (State × List Byte) :=
  fun (s, buf) blockId _ available offsetIntoPage =>
    (read s blockId available offsetIntoPage).map fun (bytes, s) => (bytes.length, s, buf ++ bytes)

def writeRequest (buf : List Byte) : PageRequest State :=
  fun s blockId bytesCopied available offsetIntoPage =>
    write s blockId ((buf.drop bytesCopied).take available) offsetIntoPage

/-- `Pread`: the number of bytes, the buffer, the state and the requests. -/
def FileHandle.pread (s : State) (count offset : Nat) :
    Except LoopEnd (Nat × (State × List Byte) × List Request) :=
  transferLoop size count (readRequest read) count (s, []) (handle.blockId size offset)
    (offset - (handle.blockId size offset).offset) 0

/-- `Pwrite` of a buffer of `count` bytes. -/
def FileHandle.pwrite (s : State) (buf : List Byte) (offset : Nat) :
    Except LoopEnd (Nat × State × List Request) :=
  transferLoop size buf.length (writeRequest write buf) buf.length s (handle.blockId size offset)
    (offset - (handle.blockId size offset).offset) 0

end

/-! ### The requests of the loop -/

section

variable {State : Type} {size : BlockSize} {count : Nat}

/-- The requests of a loop that is at `blockId`, with `bytesCopied` bytes behind it: each is as
large as the range and the page allow, only the last one may be short, and the next one is at the
start of the next page. -/
inductive Requests (size : BlockSize) (count : Nat) :
    BlockId → (offsetIntoPage bytesCopied : Nat) → List Request → (total : Nat) → Prop
  | done {blockId offsetIntoPage} :
      Requests size count blockId offsetIntoPage count [] count
  | short {blockId offsetIntoPage bytesCopied available bytesRead}
      (more : bytesCopied < count)
      (all : available = min (count - bytesCopied) (size.bytes - offsetIntoPage))
      (fewer : bytesRead < available) :
      Requests size count blockId offsetIntoPage bytesCopied
        [⟨blockId, offsetIntoPage, available, bytesRead⟩] (bytesCopied + bytesRead)
  | next {blockId offsetIntoPage bytesCopied available total rest} (more : bytesCopied < count)
      (all : available = min (count - bytesCopied) (size.bytes - offsetIntoPage))
      (after : Requests size count (blockId.incrementPage size) 0 (bytesCopied + available) rest
        total) :
      Requests size count blockId offsetIntoPage bytesCopied
        (⟨blockId, offsetIntoPage, available, available⟩ :: rest) total

namespace Requests

variable {blockId : BlockId} {offsetIntoPage bytesCopied total : Nat} {requests : List Request}

variable (made : Requests size count blockId offsetIntoPage bytesCopied requests total)

include made

theorem inside
    (start : offsetIntoPage < size.bytes) (request : Request) (member : request ∈ requests) :
    0 < request.available ∧ request.offsetIntoPage + request.available ≤ size.bytes := by
  induction made with
  | done => cases member
  | short more all fewer =>
    rw [List.mem_singleton] at member
    subst member
    exact ⟨by simp only; omega, by simp only; omega⟩
  | next more all after ih =>
    rcases List.mem_cons.mp member with rfl | later
    · exact ⟨by simp only; omega, by simp only; omega⟩
    · exact ih size.positive later

theorem consecutive :
    List.IsChain (fun request next => next.blockId = request.blockId.incrementPage size ∧
      next.offsetIntoPage = 0) requests := by
  induction made with
  | done => exact .nil
  | short _ _ _ => exact .singleton _
  | next _ _ after ih =>
    cases after with
    | done => exact .singleton _
    | short _ _ _ => exact .cons_cons ⟨rfl, rfl⟩ ih
    | next _ _ _ => exact .cons_cons ⟨rfl, rfl⟩ ih

theorem total_eq : total = bytesCopied + (requests.map Request.bytesRead).sum := by
  induction made with
  | done => rfl
  | short _ _ _ => rfl
  | next _ _ _ ih =>
    rw [ih, List.map_cons, List.sum_cons, Nat.add_assoc]

theorem complete_dropLast (request : Request) (member : request ∈ requests.dropLast) :
    request.bytesRead = request.available := by
  induction made with
  | done => cases member
  | short _ _ _ => cases member
  | @next _ _ _ available _ rest _ _ after ih =>
    cases rest with
    | nil => cases member
    | cons head tail =>
      rw [List.dropLast_cons_cons] at member
      rcases List.mem_cons.mp member with rfl | later
      · rfl
      · exact ih later

theorem total_cases (within : bytesCopied ≤ count) (start : offsetIntoPage < size.bytes) :
    total ≤ count ∧ (total = count ↔ ∀ request ∈ requests,
      request.bytesRead = request.available) := by
  induction made with
  | done => exact ⟨le_rfl, fun _ request member => (by cases member), fun _ => rfl⟩
  | @short _ _ _ available bytesRead more all fewer =>
    refine ⟨by omega, fun equal => by omega, fun complete => ?_⟩
    have same := complete _ (List.mem_singleton.mpr rfl)
    simp only at same
    omega
  | next more all _ ih =>
    obtain ⟨bound, rest⟩ := ih (by omega) size.positive
    refine ⟨bound, rest.trans ?_⟩
    simp

end Requests

section

variable {request : PageRequest State} {fuel bytesCopied bytesRead offsetIntoPage : Nat}
  {s s' : State} {blockId : BlockId}

theorem transferLoop_short (more : bytesCopied < count)
    (answered : request s blockId bytesCopied
      (min (count - bytesCopied) (size.bytes - offsetIntoPage)) offsetIntoPage =
        some (bytesRead, s'))
    (fewer : bytesRead < min (count - bytesCopied) (size.bytes - offsetIntoPage)) :
    transferLoop size count request (fuel + 1) s blockId offsetIntoPage bytesCopied =
      .ok (bytesCopied + bytesRead, s', [⟨blockId, offsetIntoPage,
        min (count - bytesCopied) (size.bytes - offsetIntoPage), bytesRead⟩]) := by
  simp only [transferLoop, if_pos more, answered, if_pos fewer]

theorem transferLoop_next (fuel : Nat) (more : bytesCopied < count)
    (answered : request s blockId bytesCopied
      (min (count - bytesCopied) (size.bytes - offsetIntoPage)) offsetIntoPage =
        some (bytesRead, s'))
    (full : ¬ bytesRead < min (count - bytesCopied) (size.bytes - offsetIntoPage)) :
    transferLoop size count request (fuel + 1) s blockId offsetIntoPage bytesCopied =
      (transferLoop size count request fuel s' (blockId.incrementPage size) 0
        (bytesCopied + bytesRead)).map fun result =>
          (result.1, result.2.1, ⟨blockId, offsetIntoPage,
            min (count - bytesCopied) (size.bytes - offsetIntoPage), bytesRead⟩ ::
              result.2.2) := by
  simp only [transferLoop, if_pos more, answered, if_neg full]

theorem transferLoop_fatal (more : bytesCopied < count)
    (fatal : request s blockId bytesCopied
      (min (count - bytesCopied) (size.bytes - offsetIntoPage)) offsetIntoPage = none) :
    transferLoop size count request (fuel + 1) s blockId offsetIntoPage bytesCopied =
      .error .fatal := by
  simp only [transferLoop, if_pos more, fatal]

theorem transferLoop_done (s : State) (blockId : BlockId) (offsetIntoPage fuel : Nat) :
    transferLoop size count request fuel s blockId offsetIntoPage count = .ok (count, s, []) := by
  cases fuel with
  | zero => rw [transferLoop, if_neg (Nat.lt_irrefl count)]
  | succ fuel => rw [transferLoop, if_neg (Nat.lt_irrefl count)]

variable {total : Nat} {after : State} {requests : List Request}

theorem transferLoop_rest (more : bytesCopied < count)
    (answered : request s blockId bytesCopied
      (min (count - bytesCopied) (size.bytes - offsetIntoPage)) offsetIntoPage =
        some (bytesRead, s'))
    (full : ¬ bytesRead < min (count - bytesCopied) (size.bytes - offsetIntoPage))
    (looped : transferLoop size count request (fuel + 1) s blockId offsetIntoPage bytesCopied =
      .ok (total, after, requests)) :
    ∃ rest, transferLoop size count request fuel s' (blockId.incrementPage size) 0
      (bytesCopied + bytesRead) = .ok (total, after, rest) := by
  rw [transferLoop_next fuel more answered full] at looped
  cases rest : transferLoop size count request fuel s' (blockId.incrementPage size) 0
    (bytesCopied + bytesRead) <;> rw [rest] at looped <;> cases looped
  exact ⟨_, rfl⟩

/-- **Loop rule** for a loop that ends: what each answered request keeps holds then. -/
theorem transferLoop_keeps {P : State → BlockId → Nat → Prop}
    (keeps : ∀ s blockId bytesCopied available offsetIntoPage bytesRead s',
      P s blockId bytesCopied →
      request s blockId bytesCopied available offsetIntoPage = some (bytesRead, s') →
      P s' (blockId.incrementPage size) (bytesCopied + bytesRead))
    (inv : P s blockId bytesCopied)
    (looped : transferLoop size count request fuel s blockId offsetIntoPage bytesCopied =
      .ok (total, after, requests)) : ∃ last, P after last total := by
  induction fuel generalizing s blockId offsetIntoPage bytesCopied requests with
  | zero =>
    simp only [transferLoop] at looped
    split at looped <;> cases looped
    exact ⟨_, inv⟩
  | succ fuel ih =>
    by_cases more : bytesCopied < count
    · cases answered : request s blockId bytesCopied
        (min (count - bytesCopied) (size.bytes - offsetIntoPage)) offsetIntoPage with
      | none =>
        rw [transferLoop_fatal more answered] at looped
        cases looped
      | some result =>
        have inv₁ := keeps _ _ _ _ _ _ _ inv answered
        by_cases fewer : result.1 < min (count - bytesCopied) (size.bytes - offsetIntoPage)
        · rw [transferLoop_short more answered fewer] at looped
          cases looped
          exact ⟨_, inv₁⟩
        · obtain ⟨rest, looped⟩ := transferLoop_rest more answered fewer looped
          exact ih inv₁ looped
    · rw [transferLoop, if_neg more] at looped
      cases looped
      exact ⟨_, inv⟩

end

/-- Each request that lies in the range and in one page of the file gets an answer that `answers`
allows, and keeps a relation between the state and the number of bytes copied. The position of a
request is the start of the range and the bytes copied. -/
def Keeps (size : BlockSize) (count : Nat) (request : PageRequest State) (inode start : Nat)
    (answers : (asked got : Nat) → Prop) (Inv : State → Nat → Prop) : Prop :=
  ∀ s blockId bytesCopied offsetIntoPage available, Inv s bytesCopied → 0 < available →
    bytesCopied + available ≤ count → offsetIntoPage + available ≤ size.bytes →
    blockId.inode = inode → size.bytes ∣ blockId.offset →
    blockId.offset + offsetIntoPage = start + bytesCopied →
    ∃ bytesRead s', request s blockId bytesCopied available offsetIntoPage =
        some (bytesRead, s') ∧
      answers available bytesRead ∧ Inv s' (bytesCopied + bytesRead)

variable {request : PageRequest State} {inode start : Nat} {Inv : State → Nat → Prop}
  {answers : (asked got : Nat) → Prop}

/-- **Loop rule.** The loop ends, with well-formed requests, and what each request keeps holds
then. -/
theorem transferLoop_ok (keeps : Keeps size count request inode start answers Inv)
    (atMost : ∀ asked got, answers asked got → got ≤ asked)
    (fuel : Nat) {s : State} {blockId : BlockId} {offsetIntoPage bytesCopied : Nat}
    (enough : count ≤ bytesCopied + fuel) (inv : Inv s bytesCopied) (within : bytesCopied ≤ count)
    (inside : offsetIntoPage < size.bytes) (file : blockId.inode = inode)
    (aligned : size.bytes ∣ blockId.offset)
    (position : bytesCopied < count → blockId.offset + offsetIntoPage = start + bytesCopied) :
    ∃ total s' requests,
      transferLoop size count request fuel s blockId offsetIntoPage bytesCopied =
        .ok (total, s', requests) ∧
      Inv s' total ∧ Requests size count blockId offsetIntoPage bytesCopied requests total ∧
      ∀ made ∈ requests, answers made.available made.bytesRead := by
  induction fuel generalizing s blockId offsetIntoPage bytesCopied with
  | zero =>
    have full : bytesCopied = count := by omega
    subst full
    refine ⟨bytesCopied, s, [], transferLoop_done .., inv, .done, ?_⟩
    intro made none
    cases none
  | succ fuel ih =>
    by_cases more : bytesCopied < count
    · obtain ⟨bytesRead, s₁, answered, got, inv₁⟩ :=
        keeps s blockId bytesCopied offsetIntoPage
          (min (count - bytesCopied) (size.bytes - offsetIntoPage)) inv (by omega) (by omega)
          (by omega) file aligned (position more)
      have bounded := atMost _ _ got
      by_cases fewer : bytesRead < min (count - bytesCopied) (size.bytes - offsetIntoPage)
      · refine ⟨_, s₁, _, transferLoop_short more answered fewer, inv₁,
          .short more rfl fewer, ?_⟩
        intro made member
        rw [List.mem_singleton] at member
        exact member ▸ got
      · have full : bytesRead = min (count - bytesCopied) (size.bytes - offsetIntoPage) := by
          omega
        have file₁ : (blockId.incrementPage size).inode = inode := file
        have aligned₁ : size.bytes ∣ (blockId.incrementPage size).offset :=
          Nat.dvd_add_self_right.mpr aligned
        have position₁ : bytesCopied + bytesRead < count →
            (blockId.incrementPage size).offset + 0 = start + (bytesCopied + bytesRead) := by
          intro rest
          have before := position more
          simp only [BlockId.incrementPage]
          omega
        obtain ⟨total, s', requests, looped, inv', made, gotRest⟩ :=
          ih (by omega) inv₁ (by omega) size.positive file₁ aligned₁ position₁
        have round := transferLoop_next fuel more answered fewer
        rw [looped] at round
        refine ⟨total, s', _, round, inv', ?_, ?_⟩
        · rw [full] at made ⊢
          exact .next more rfl made
        · intro earlier member
          rcases List.mem_cons.mp member with rfl | later
          · exact got
          · exact gotRest earlier later
    · have full : bytesCopied = count := by omega
      subst full
      refine ⟨bytesCopied, s, [], transferLoop_done .., inv, .done, ?_⟩
      intro made none
      cases none

theorem blockId_position (size : BlockSize) (handle : FileHandle) (offset : Nat) :
    size.bytes ∣ (handle.blockId size offset).offset ∧
    offset - (handle.blockId size offset).offset < size.bytes ∧
    (handle.blockId size offset).offset + (offset - (handle.blockId size offset).offset) =
      offset := by
  have below := Nat.mod_lt offset size.positive
  have least := Nat.mod_le offset size.bytes
  refine ⟨Nat.dvd_sub_mod offset, ?_, ?_⟩
  · simp only [FileHandle.blockId, roundDownToBlockSize]
    omega
  · simp only [FileHandle.blockId, roundDownToBlockSize]
    omega

theorem transferLoop_start {handle : FileHandle} {offset : Nat} {s : State}
    (keeps : Keeps size count request handle.inode offset answers Inv)
    (atMost : ∀ asked got, answers asked got → got ≤ asked) (inv : Inv s 0) :
    ∃ total s' requests,
      transferLoop size count request count s (handle.blockId size offset)
        (offset - (handle.blockId size offset).offset) 0 = .ok (total, s', requests) ∧
      Inv s' total ∧
      Requests size count (handle.blockId size offset)
        (offset - (handle.blockId size offset).offset) 0 requests total ∧
      ∀ made ∈ requests, answers made.available made.bytesRead := by
  obtain ⟨aligned, inside, position⟩ := blockId_position size handle offset
  exact transferLoop_ok keeps atMost count (by omega) inv (Nat.zero_le count) inside rfl aligned
    fun _ => position

end

/-! ### A file as a flat array -/

/-- A page store; `pages` are its contents, by inode and offset of the page. -/
structure PageStore (State Byte : Type) where
  pages : State → (inode offset : Nat) → Nat → Byte
  read : PageRead State Byte
  write : PageWrite State Byte

section

variable {State Byte : Type} {size : BlockSize} {store : PageStore State Byte}
  {handle : FileHandle} {s : State}

/-- Every request is answered and transfers a prefix of what it asks for, of a length that
`answers` allows. -/
structure PageStore.Transfers (store : PageStore State Byte) (size : BlockSize)
    (answers : (asked got : Nat) → Prop) : Prop where
  read : ∀ s blockId count offsetIntoPage, offsetIntoPage + count ≤ size.bytes →
    ∃ n s', answers count n ∧
      store.read s blockId count offsetIntoPage = some
        (readRange (store.pages s blockId.inode blockId.offset) offsetIntoPage n, s') ∧
      store.pages s' = store.pages s
  write : ∀ s blockId bytes offsetIntoPage, offsetIntoPage + bytes.length ≤ size.bytes →
    ∃ n s', answers bytes.length n ∧
      store.write s blockId bytes offsetIntoPage = some (n, s') ∧
      store.pages s' = update (store.pages s) blockId.inode
        (update (store.pages s blockId.inode) blockId.offset
          (writeRange (store.pages s blockId.inode blockId.offset) offsetIntoPage (bytes.take n)))

def FileHandle.contents (size : BlockSize) (store : PageStore State Byte) (handle : FileHandle)
    (s : State) : Nat → Byte :=
  flatten size.bytes (store.pages s handle.inode)

variable {answers : (asked got : Nat) → Prop}

/-- What `Pread` has put into the buffer so far. -/
def ReadSoFar (size : BlockSize) (store : PageStore State Byte) (handle : FileHandle) (s : State)
    (offset : Nat) (now : State × List Byte) (copied : Nat) : Prop :=
  store.pages now.1 = store.pages s ∧
    now.2 = readRange (handle.contents size store s) offset copied

theorem readRequest_keeps (laws : store.Transfers size answers)
    (atMost : ∀ asked got, answers asked got → got ≤ asked) (s : State) (count offset : Nat) :
    Keeps size count (readRequest store.read) handle.inode offset answers
      (ReadSoFar size store handle s offset) := by
  rintro ⟨s₁, buf⟩ blockId bytesCopied offsetIntoPage available ⟨pages, read⟩ _ _ within file
    aligned position
  simp only at pages read
  obtain ⟨n, s₂, got, answered, kept⟩ := laws.read s₁ blockId available offsetIntoPage within
  have bounded := atMost _ _ got
  refine ⟨n, (s₂, buf ++ readRange (store.pages s₁ blockId.inode blockId.offset) offsetIntoPage n),
    ?_, got, kept.trans pages, ?_⟩
  · simp only [readRequest, answered, Option.map_some, length_readRange]
  · rw [readRange_append, ← read, pages, file, ← position, readRange_page aligned (by omega)]
    rfl

theorem pread_spec (handle : FileHandle) (laws : store.Transfers size answers)
    (atMost : ∀ asked got, answers asked got → got ≤ asked) (s : State) (count offset : Nat) :
    ∃ total s' requests, handle.pread size store.read s count offset =
        .ok (total, (s', readRange (handle.contents size store s) offset total), requests) ∧
      store.pages s' = store.pages s ∧
      Requests size count (handle.blockId size offset)
        (offset - (handle.blockId size offset).offset) 0 requests total ∧
      ∀ made ∈ requests, answers made.available made.bytesRead := by
  have start : ReadSoFar size store handle s offset (s, []) 0 := ⟨rfl, rfl⟩
  obtain ⟨total, ⟨s', buf⟩, requests, looped, ⟨pages, read⟩, made, got⟩ :=
    transferLoop_start (readRequest_keeps laws atMost s count offset) atMost start
  simp only at pages read
  exact ⟨total, s', requests, by rw [FileHandle.pread, looped, read], pages, made, got⟩

/-- What `Pwrite` has written so far. -/
def WrittenSoFar (size : BlockSize) (store : PageStore State Byte) (handle : FileHandle) (s : State)
    (buf : List Byte) (offset : Nat) (now : State) (copied : Nat) : Prop :=
  handle.contents size store now =
    writeRange (handle.contents size store s) offset (buf.take copied) ∧
  ∀ inode, inode ≠ handle.inode → store.pages now inode = store.pages s inode

theorem writeRequest_keeps (laws : store.Transfers size answers)
    (atMost : ∀ asked got, answers asked got → got ≤ asked) (s : State) (buf : List Byte)
    (offset : Nat) :
    Keeps size buf.length (writeRequest store.write buf) handle.inode offset answers
      (WrittenSoFar size store handle s buf offset) := by
  rintro s₁ blockId bytesCopied offsetIntoPage available ⟨written, others⟩ _ more within file
    aligned position
  have asked : ((buf.drop bytesCopied).take available).length = available := by
    rw [List.length_take, List.length_drop]
    omega
  obtain ⟨n, s₂, got, answered, pages⟩ := laws.write s₁ blockId
    ((buf.drop bytesCopied).take available) offsetIntoPage (by omega)
  rw [asked] at got
  have bounded := atMost _ _ got
  have piece : ((buf.drop bytesCopied).take available).take n = (buf.drop bytesCopied).take n := by
    rw [List.take_take, Nat.min_eq_left bounded]
  have length : ((buf.drop bytesCopied).take n).length = n := by
    rw [List.length_take, List.length_drop]
    omega
  have before : (buf.take bytesCopied).length = bytesCopied := by
    rw [List.length_take]
    omega
  refine ⟨n, s₂, answered, got, ?_, ?_⟩
  · rw [FileHandle.contents, pages, file, update_self, piece,
      flatten_writePage aligned size.positive (by omega), List.take_add, writeRange_append, before,
      position]
    exact congrArg (fun f => writeRange f _ _) written
  · intro inode other
    rw [pages, file, update_of_ne other]
    exact others inode other

/-- `Pwrite` writes the first bytes of its buffer to the file from `offset` on, as many as the
requests transferred, and nothing else. -/
theorem pwrite_spec (handle : FileHandle) (laws : store.Transfers size answers)
    (atMost : ∀ asked got, answers asked got → got ≤ asked) (s : State) (buf : List Byte)
    (offset : Nat) :
    ∃ total s' requests, handle.pwrite size store.write s buf offset = .ok (total, s', requests) ∧
      handle.contents size store s' =
        writeRange (handle.contents size store s) offset (buf.take total) ∧
      (∀ inode, inode ≠ handle.inode → store.pages s' inode = store.pages s inode) ∧
      Requests size buf.length (handle.blockId size offset)
        (offset - (handle.blockId size offset).offset) 0 requests total ∧
      ∀ made ∈ requests, answers made.available made.bytesRead := by
  have start : WrittenSoFar size store handle s buf offset s 0 := by
    refine ⟨?_, fun _ _ => rfl⟩
    rw [List.take_zero, writeRange_nil]
  obtain ⟨total, s', requests, looped, ⟨written, others⟩, made, got⟩ :=
    transferLoop_start (writeRequest_keeps laws atMost s buf offset) atMost start
  exact ⟨total, s', requests, looped, written, others, made, got⟩

end

/-! ### Sequences of calls -/

section

variable {State Byte : Type} {size : BlockSize} {store : PageStore State Byte} {handle : FileHandle}

inductive FileOp (Byte : Type) where
  | pread (count offset : Nat)
  | pwrite (buf : List Byte) (offset : Nat)
  deriving DecidableEq, Repr

/-- The value a call returns, with what it left in the buffer. -/
inductive FileAnswer (Byte : Type) where
  | read (bytesCopied : Nat) (buf : List Byte)
  | wrote (bytesCopied : Nat)
  deriving DecidableEq, Repr

def FileHandle.call (size : BlockSize) (store : PageStore State Byte) (handle : FileHandle)
    (s : State) : FileOp Byte → Except LoopEnd (FileAnswer Byte × State × List Request)
  | .pread count offset =>
    (handle.pread size store.read s count offset).map fun (n, (s, buf), requests) =>
      (.read n buf, s, requests)
  | .pwrite buf offset =>
    (handle.pwrite size store.write s buf offset).map fun (n, s, requests) =>
      (.wrote n, s, requests)

def FileHandle.calls (size : BlockSize) (store : PageStore State Byte) (handle : FileHandle) :
    State → List (FileOp Byte) →
      Except LoopEnd (List (FileAnswer Byte) × State × List (List Request))
  | s, [] => .ok ([], s, [])
  | s, op :: rest =>
    match handle.call size store s op with
    | .error stop => .error stop
    | .ok (answer, s, requests) =>
      (calls size store handle s rest).map fun (answers, s, more) =>
        (answer :: answers, s, requests :: more)

def flatCall (array : Nat → Byte) : FileOp Byte → FileAnswer Byte × (Nat → Byte)
  | .pread count offset => (.read count (readRange array offset count), array)
  | .pwrite buf offset => (.wrote buf.length, writeRange array offset buf)

def flatCalls : (Nat → Byte) → List (FileOp Byte) → List (FileAnswer Byte) × (Nat → Byte)
  | array, [] => ([], array)
  | array, op :: rest =>
    ((flatCall array op).1 :: (flatCalls (flatCall array op).2 rest).1,
      (flatCalls (flatCall array op).2 rest).2)

/-- The requests of one call that returned `total`. -/
structure WellFormed (size : BlockSize) (total : Nat) (requests : List Request) : Prop where
  inside : ∀ request ∈ requests, 0 < request.available ∧
    request.offsetIntoPage + request.available ≤ size.bytes
  consecutive : List.IsChain (fun request next =>
    next.blockId = request.blockId.incrementPage size ∧ next.offsetIntoPage = 0) requests
  complete : ∀ request ∈ requests.dropLast, request.bytesRead = request.available
  total_eq : total = (requests.map Request.bytesRead).sum

theorem Requests.wellFormed {count offset total : Nat} {requests : List Request}
    (made : Requests size count (handle.blockId size offset)
      (offset - (handle.blockId size offset).offset) 0 requests total) :
    WellFormed size total requests where
  inside := made.inside (blockId_position size handle offset).2.1
  consecutive := made.consecutive
  complete := made.complete_dropLast
  total_eq := by rw [made.total_eq, Nat.zero_add]

theorem Requests.total_eq_count {count offset total : Nat} {requests : List Request}
    (made : Requests size count (handle.blockId size offset)
      (offset - (handle.blockId size offset).offset) 0 requests total)
    (got : ∀ request ∈ requests, request.bytesRead = request.available) : total = count :=
  (made.total_cases (Nat.zero_le count) (blockId_position size handle offset).2.1).2.mpr got

theorem call_exact (handle : FileHandle)
    (laws : store.Transfers size fun asked got => got = asked) (s : State) (op : FileOp Byte) :
    ∃ s' requests total, handle.call size store s op =
        .ok ((flatCall (handle.contents size store s) op).1, s', requests) ∧
      handle.contents size store s' = (flatCall (handle.contents size store s) op).2 ∧
      WellFormed size total requests := by
  have atMost : ∀ asked got : Nat, got = asked → got ≤ asked := fun _ _ => le_of_eq
  cases op with
  | pread count offset =>
    obtain ⟨total, s', requests, returned, pages, made, got⟩ :=
      pread_spec handle laws atMost s count offset
    have full := made.total_eq_count got
    subst full
    refine ⟨s', requests, total, by simp only [FileHandle.call, returned]; rfl, ?_,
      made.wellFormed⟩
    rw [FileHandle.contents, pages]
    rfl
  | pwrite buf offset =>
    obtain ⟨total, s', requests, returned, written, _, made, got⟩ :=
      pwrite_spec handle laws atMost s buf offset
    have full := made.total_eq_count got
    subst full
    refine ⟨s', requests, buf.length, by simp only [FileHandle.call, returned]; rfl, ?_,
      made.wellFormed⟩
    rw [written, List.take_length]
    rfl

theorem calls_exact (laws : store.Transfers size fun asked got => got = asked) (s : State)
    (ops : List (FileOp Byte)) :
    ∃ s' requests, handle.calls size store s ops =
        .ok ((flatCalls (handle.contents size store s) ops).1, s', requests) ∧
      handle.contents size store s' = (flatCalls (handle.contents size store s) ops).2 ∧
      ∀ made ∈ requests, ∃ total, WellFormed size total made := by
  induction ops generalizing s with
  | nil =>
    refine ⟨s, [], rfl, rfl, ?_⟩
    intro made none
    cases none
  | cons op rest ih =>
    obtain ⟨s₁, requests, total, returned, contents, made⟩ :=
      call_exact handle laws s op
    obtain ⟨s', more, others, last, wellFormed⟩ := ih s₁
    refine ⟨s', requests :: more, ?_, ?_, ?_⟩
    · simp only [FileHandle.calls, returned, others, contents]
      rfl
    · rw [last, contents]
      rfl
    · intro asked member
      rcases List.mem_cons.mp member with rfl | later
      · exact ⟨total, made⟩
      · exact wellFormed asked later

/-- Over a page store that transfers all it is asked for, calls behave as on a flat array. Over
one that may transfer less, a call transfers a prefix of its range, as long as its requests say;
it is the whole range unless a request was short. -/
theorem paged_io_flat (size : BlockSize) (store : PageStore State Byte) (handle : FileHandle) :
    (store.Transfers size (fun asked got => got = asked) → ∀ s ops, ∃ s' requests,
      handle.calls size store s ops =
        .ok ((flatCalls (handle.contents size store s) ops).1, s', requests) ∧
      handle.contents size store s' = (flatCalls (handle.contents size store s) ops).2 ∧
      ∀ made ∈ requests, ∃ total, WellFormed size total made) ∧
    (store.Transfers size (fun asked got => got ≤ asked) →
      (∀ s count offset, ∃ total s' requests, handle.pread size store.read s count offset =
          .ok (total, (s', readRange (handle.contents size store s) offset total), requests) ∧
        store.pages s' = store.pages s ∧ WellFormed size total requests ∧ total ≤ count ∧
        (total = count ↔ ∀ made ∈ requests, made.bytesRead = made.available)) ∧
      ∀ s buf offset, ∃ total s' requests, handle.pwrite size store.write s buf offset =
          .ok (total, s', requests) ∧
        handle.contents size store s' =
          writeRange (handle.contents size store s) offset (buf.take total) ∧
        (∀ inode, inode ≠ handle.inode → store.pages s' inode = store.pages s inode) ∧
        WellFormed size total requests ∧ total ≤ buf.length ∧
        (total = buf.length ↔ ∀ made ∈ requests, made.bytesRead = made.available)) := by
  refine ⟨fun laws s ops => calls_exact laws s ops, fun laws => ⟨?_, ?_⟩⟩
  · intro s count offset
    obtain ⟨total, s', requests, returned, pages, made, _⟩ :=
      pread_spec handle laws (fun _ _ bound => bound) s count offset
    obtain ⟨bound, full⟩ :=
      made.total_cases (Nat.zero_le count) (blockId_position size handle offset).2.1
    exact ⟨total, s', requests, returned, pages, made.wellFormed, bound, full⟩
  · intro s buf offset
    obtain ⟨total, s', requests, returned, written, others, made, _⟩ :=
      pwrite_spec handle laws (fun _ _ bound => bound) s buf offset
    obtain ⟨bound, full⟩ :=
      made.total_cases (Nat.zero_le _) (blockId_position size handle offset).2.1
    exact ⟨total, s', requests, returned, written, others, made.wellFormed, bound, full⟩

def memoryStore : PageStore (Nat → Nat → Nat → Nat) Nat where
  pages := id
  read := fun s blockId count offsetIntoPage =>
    some (readRange (s blockId.inode blockId.offset) offsetIntoPage count, s)
  write := fun s blockId bytes offsetIntoPage =>
    some (bytes.length, update s blockId.inode
      (update (s blockId.inode) blockId.offset
        (writeRange (s blockId.inode blockId.offset) offsetIntoPage bytes)))

theorem memoryStore_exact (size : BlockSize) :
    memoryStore.Transfers size fun asked got => got = asked where
  read := fun s _ count _ _ => ⟨count, s, rfl, rfl, rfl⟩
  write := fun s blockId bytes offsetIntoPage _ =>
    ⟨bytes.length, _, rfl, rfl, by rw [List.take_length]; rfl⟩

/-- Seven bytes over three pages of four bytes, written and read back. -/
theorem paged_io_flat_threePages :
    ∃ s' requests, FileHandle.calls ⟨4, by decide⟩ memoryStore ⟨5, 9⟩ (fun _ _ _ => 0)
        [.pwrite [1, 2, 3, 4, 5, 6, 7] 2, .pread 9 1] =
      .ok ([.wrote 7, .read 9 [0, 1, 2, 3, 4, 5, 6, 7, 0]], s', requests) := by
  obtain ⟨s', requests, returned, _, _⟩ :=
    (paged_io_flat ⟨4, by decide⟩ memoryStore ⟨5, 9⟩).1 (memoryStore_exact _) (fun _ _ _ => 0)
      [.pwrite [1, 2, 3, 4, 5, 6, 7] 2, .pread 9 1]
  exact ⟨s', requests, returned⟩

end

end Megalon.File
