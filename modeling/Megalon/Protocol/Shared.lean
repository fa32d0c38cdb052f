import Megalon.Core.Seqlock
import Megalon.Index.CxlEntry
import Megalon.Protocol.PageMemory

/-!
Contract: the state that threads of all hosts share, and the atomic accesses they
make to it (build `NR`, `SCR`, `DYN_WMETA`).

Owns: the operation log with the position of each replica, the notification of each
thread (`change_notif`), the record pool, the per-host sequence counts, the bitmap
of free slots and the page data; one action per atomic access.

Does not own: which thread makes which access when.

The log of `Nr` is taken as one sequence that every replica replays a prefix of.
Dirty bits, lengths, eviction counters and statistics are left out: no function of
the protocol reads them.
-/

namespace Megalon.Protocol

open Function Core Index

/-- The directory operations of the default build, with `shared_cache_node_` 0. -/
inductive Request (Key : Type) where
  | checkAndInsert (key : Key) (slot : Nat) (wmeta : Option Nat)
  | switchToReadOnly (key : Key)
  | invalidateSwitchToRWShared (key : Key) (wmeta : Nat)
  | seqCountWrapAround (key : Key)
  deriving DecidableEq

def Request.toModify {Key : Type} (nodes : Nat) : Request Key → Modify Key nodes
  | .checkAndInsert key slot wmeta => .checkPutArrayWmeta key (some slot) sharedCacheNode wmeta
  | .switchToReadOnly key => .checkSwitchWmetaArray key none
  | .invalidateSwitchToRWShared key wmeta =>
    .invalidateExceptArrayUpdateWmeta key sharedCacheNode (some wmeta)
  | .seqCountWrapAround key => .dummyLog key

/-- A log entry with the thread whose operation it is. -/
structure LogEntry (Key : Type) where
  request : Request Key
  thread : Nat
  deriving DecidableEq

/-- The parameters of a deployment. `pread` gives the bytes the backing file has for
a page, and nothing if the call fails. -/
structure Config (Key Mem : Type) [BlockKey Key] where
  nodes : Nat
  replica : Nat → Fin nodes
  poolLen : Nat
  poolLen_pos : 0 < poolLen
  numPages : Nat
  slotSize : Nat
  lineSize : Nat
  lineSize_pos : 0 < lineSize
  fileBacked : Nat → Bool
  pread : Key → Option (List UInt8)
  pread_length : ∀ key bytes, pread key = some bytes → bytes.length ≤ slotSize
  memory : PageMemory (Fin nodes) Mem

section

variable {Key : Type} [BlockKey Key]

/-- The directory of a replica that has replayed the first `n` entries. -/
def stateAt (nodes : Nat) (log : List (LogEntry Key)) (n : Nat) : Directory Key nodes :=
  (log.take n).foldl (fun storage entry => applyOp storage (entry.request.toModify nodes))
    fun _ => none

def latest (nodes : Nat) (log : List (LogEntry Key)) : Directory Key nodes :=
  stateAt nodes log log.length

/-- The slot that the replay of entry `i` reports. -/
def replaySlot (nodes : Nat) (log : List (LogEntry Key)) (i : Nat) : Option Nat :=
  log[i]?.bind fun entry =>
    responseCnIdx (respond (stateAt nodes log i) (entry.request.toModify nodes))

end

/-- `applied r` counts the entries in the data of replica `r`, `ltail r` those its
threads may rely on; `localSeq h w` is the sequence count host `h` keeps for record
`w`. A negative `allocatedSlotNum` is one that has wrapped around. -/
structure Shared (Key Mem : Type) (nodes : Nat) where
  log : List (LogEntry Key)
  ctail : Nat
  ltail : Fin nodes → Nat
  applied : Fin nodes → Nat
  changeNotif : Nat → Option Nat
  word : Nat → SeqWord
  blockId : Nat → Key
  allocatedSlotNum : Int
  localSeq : Fin nodes → Nat → Option Nat
  freeBit : Nat → Bool
  pages : Mem

abbrev Config.Shared {Key Mem : Type} [BlockKey Key] (cfg : Config Key Mem) :=
  Protocol.Shared Key Mem cfg.nodes

inductive Act (Key : Type) where
  | skip
  | loadCtail
  | lookup (key : Key) (ctail : Nat)
  | storeAnchor (cn : Option Nat)
  | checkNotificationReset
  | submit (request : Request Key)
  | await (index : Nat)
  | getWmetaCount
  | tryAllocateLock (w : Nat)
  | setBlockId (w : Nat) (key : Key)
  | getBlockId (w : Nat)
  | loadSeqlock (w : Nat)
  | wLockOnly (w : Nat)
  | wUnlockOnly (w : Nat)
  | wSeqBegin (w : Nat)
  | wSeqEnd (w : Nat)
  | rSeqBegin (w : Nat)
  | recycleWmeta (w : Nat) (swapped : Bool)
  | getLocalSeqcount (w : Nat)
  | updateLocalSeqcount (w : Nat) (seq : Option Nat)
  | reserveCacheNode (choice : Nat)
  | recycleCacheNode (slot : Nat) (set : Bool)
  | loadByte (slot i : Nat)
  | storeByte (slot i : Nat) (value : UInt8)
  | flushLine (slot line : Nat)

@[reducible]
def Act.Reply {Key : Type} (nodes : Nat) : Act Key → Type
  | .loadCtail => Nat
  | .lookup _ _ => Option (GCDEntry nodes)
  | .checkNotificationReset => Bool
  | .submit _ => Nat × Option (GCDResponse Key nodes)
  | .getWmetaCount => Int
  | .tryAllocateLock _ => Bool
  | .getBlockId _ => Key
  | .loadSeqlock _ => SeqWord
  | .wLockOnly _ => Bool
  | .wSeqBegin _ => Bool
  | .wSeqEnd _ => Nat
  | .rSeqBegin _ => Nat
  | .getLocalSeqcount _ => Option Nat
  | .reserveCacheNode _ => Option Nat
  | .loadByte _ _ => UInt8
  | _ => Unit

section

variable {Key Mem : Type} [BlockKey Key] (cfg : Config Key Mem)

namespace Shared

variable {nodes : Nat} (s : Shared Key Mem nodes)

omit [BlockKey Key] in
def setWord (w : Nat) (value : SeqWord) : Shared Key Mem nodes :=
  { s with word := update s.word w value }

/-- `fetch_sub` on `allocated_slot_num_`. -/
def countRecycled : Shared Key Mem nodes :=
  { s with allocatedSlotNum := s.allocatedSlotNum - 1 }

end Shared

/-- `RecycleWmeta(w)`: frees a locked record if its one compare-exchange succeeds. On a free
record it only counts. -/
def recycle (s : cfg.Shared) (w : Nat) (swapped : Bool) : cfg.Shared :=
  if (s.word w).isFree then s.countRecycled
  else if (s.word w).isLocked && swapped then
    (s.setWord w (freeSeqlockWithLock (s.word w))).countRecycled
  else s

/-- A locking function returns `false` on a free record and spins while the lock is
held. -/
def acquire (s : cfg.Shared) (w : Nat) (install : SeqWord → SeqWord) : Option (cfg.Shared × Bool) :=
  if (s.word w).isFree then some (s, false)
  else if (s.word w).isLocked then none
  else some (s.setWord w (install (s.word w)), true)

/-- One atomic access by thread `t`; `none` if the access has to wait. -/
def perform (t : Nat) (s : cfg.Shared) : (act : Act Key) → Option (cfg.Shared × act.Reply cfg.nodes)
  | .skip => some (s, ())
  | .loadCtail => some (s, s.ctail)
  | .lookup key ctail =>
    -- the replica is synced for reads, and its combiner does not hold the data
    if ctail ≤ s.ltail (cfg.replica t) ∧ s.applied (cfg.replica t) = s.ltail (cfg.replica t) then
      some (s, stateAt cfg.nodes s.log (s.applied (cfg.replica t)) key)
    else none
  | .storeAnchor cn => some ({ s with changeNotif := update s.changeNotif t cn }, ())
  | .checkNotificationReset =>
    some ({ s with changeNotif := update s.changeNotif t none },
      (s.changeNotif t).isSome)
  | .submit request =>
    match dispatchMut (latest cfg.nodes s.log) (request.toModify cfg.nodes) with
    | .ok (_, response) =>
      some ({ s with log := s.log ++ [⟨request, t⟩] }, (s.log.length, response))
    | .error _ => none
  | .await index => if index < s.ltail (cfg.replica t) then some (s, ()) else none
  | .getWmetaCount => some (s, s.allocatedSlotNum)
  | .tryAllocateLock w =>
    if (s.word w).isFree && !(s.word w).isLocked then some (s.setWord w tryAllocateSeqlock, true)
    else some (s, false)
  | .setBlockId w key =>
    some ({ s with
      blockId := update s.blockId w key
      allocatedSlotNum := s.allocatedSlotNum + 1 }, ())
  | .getBlockId w => some (s, s.blockId w)
  | .loadSeqlock w => some (s, s.word w)
  | .wLockOnly w => acquire cfg s w writeSeqlockOnly
  | .wUnlockOnly w => some (s.setWord w (writeSequnlockOnly (s.word w)), ())
  | .wSeqBegin w => acquire cfg s w writeSeqlockBegin
  | .wSeqEnd w =>
    some (s.setWord w (writeSeqlockEnd (s.word w)), (writeSeqlockEnd (s.word w)).seq)
  | .rSeqBegin w => if readSeqlockReady (s.word w) then some (s, (s.word w).seq) else none
  | .recycleWmeta w swapped =>
    -- the load if the word is no longer the same at the compare-exchange, or else both
    some (recycle cfg s w swapped, ())
  | .getLocalSeqcount w => some (s, s.localSeq (cfg.replica t) w)
  | .updateLocalSeqcount w seq =>
    some ({ s with
      localSeq := update s.localSeq (cfg.replica t)
        (update (s.localSeq (cfg.replica t)) w seq) }, ())
  | .reserveCacheNode choice =>
    -- the scan of the bitmap is not atomic: it can also miss every free slot
    if cfg.numPages ≤ choice then some (s, none)
    else if s.freeBit choice then
      some ({ s with freeBit := update s.freeBit choice false }, some choice)
    else none
  | .recycleCacheNode slot set =>
    -- one attempt to set the bit, whose failure is ignored
    some (if set then { s with freeBit := update s.freeBit slot true } else s, ())
  | .loadByte slot i =>
    let (value, pages) := cfg.memory.load s.pages (cfg.replica t) slot i
    some ({ s with pages := pages }, value)
  | .storeByte slot i value =>
    some ({ s with pages := cfg.memory.store s.pages (cfg.replica t) slot i value }, ())
  | .flushLine slot line =>
    some ({ s with pages := cfg.memory.flushLine s.pages (cfg.replica t) slot line }, ())

/-! ### What an access leaves alone -/

omit [BlockKey Key] in
def Act.onNotif : Act Key → Bool
  | .storeAnchor _ | .checkNotificationReset => true
  | _ => false

omit [BlockKey Key] in
def Act.onBitmap : Act Key → Bool
  | .reserveCacheNode _ | .recycleCacheNode _ _ => true
  | _ => false

omit [BlockKey Key] in
def Act.onPages : Act Key → Bool
  | .loadByte _ _ | .storeByte _ _ _ | .flushLine _ _ => true
  | _ => false

omit [BlockKey Key] in
def Act.onLocalSeq : Act Key → Bool
  | .updateLocalSeqcount _ _ => true
  | _ => false

structure Frame (t : Nat) (act : Act Key) (s s' : cfg.Shared) : Prop where
  ctail : s'.ctail = s.ctail
  ltail : s'.ltail = s.ltail
  applied : s'.applied = s.applied
  changeNotif : ∀ t', t' ≠ t ∨ act.onNotif = false → s'.changeNotif t' = s.changeNotif t'
  localSeq : act.onLocalSeq = false → s'.localSeq = s.localSeq
  freeBit : act.onBitmap = false → s'.freeBit = s.freeBit
  pages : act.onPages = false → s'.pages = s.pages

variable {cfg} {t : Nat} {s s' : cfg.Shared}

theorem Frame.of_eq {act : Act Key} (ctail : s'.ctail = s.ctail) (ltail : s'.ltail = s.ltail)
    (applied : s'.applied = s.applied) (changeNotif : s'.changeNotif = s.changeNotif)
    (localSeq : s'.localSeq = s.localSeq) (freeBit : s'.freeBit = s.freeBit)
    (pages : s'.pages = s.pages) : Frame cfg t act s s' where
  ctail := ctail
  ltail := ltail
  applied := applied
  changeNotif := fun t' _ => by rw [changeNotif]
  localSeq := fun _ => localSeq
  freeBit := fun _ => freeBit
  pages := fun _ => pages

theorem perform_refused {choice : Nat}
    (acted : perform cfg t s (.reserveCacheNode choice) = some (s', none)) : s' = s := by
  simp only [perform] at acted
  repeat' split at acted
  all_goals cases acted
  rfl

theorem perform_reserved {choice slot : Nat}
    (acted : perform cfg t s (.reserveCacheNode choice) = some (s', some slot)) :
    slot = choice ∧ choice < cfg.numPages ∧ s.freeBit choice = true ∧
      s' = { s with freeBit := update s.freeBit choice false } := by
  simp only [perform] at acted
  repeat' split at acted
  all_goals cases acted
  exact ⟨rfl, Nat.lt_of_not_le ‹_›, ‹_›, rfl⟩

/-- **Frame rule.** -/
theorem perform_frame {act : Act Key} {reply : act.Reply cfg.nodes}
    (acted : perform cfg t s act = some (s', reply)) : Frame cfg t act s s' := by
  cases act with
  | storeAnchor | checkNotificationReset =>
    cases acted
    refine ⟨rfl, rfl, rfl, ?_, fun _ => rfl, fun _ => rfl, fun _ => rfl⟩
    rintro t' (different | other)
    · exact update_of_ne different _ _
    · cases other
  | updateLocalSeqcount =>
    cases acted
    exact ⟨rfl, rfl, rfl, fun _ _ => rfl, (nomatch ·), fun _ => rfl, fun _ => rfl⟩
  | reserveCacheNode =>
    simp only [perform] at acted
    repeat' split at acted
    all_goals cases acted
    all_goals exact ⟨rfl, rfl, rfl, fun _ _ => rfl, fun _ => rfl, (nomatch ·), fun _ => rfl⟩
  | recycleCacheNode slot set =>
    cases acted
    cases set <;>
      exact ⟨rfl, rfl, rfl, fun _ _ => rfl, fun _ => rfl, (nomatch ·), fun _ => rfl⟩
  | loadByte | storeByte | flushLine =>
    cases acted
    exact ⟨rfl, rfl, rfl, fun _ _ => rfl, fun _ => rfl, fun _ => rfl, (nomatch ·)⟩
  | recycleWmeta w swapped =>
    simp only [perform, Option.some.injEq, Prod.mk.injEq] at acted
    obtain ⟨rfl, _⟩ := acted
    unfold recycle
    repeat' split
    all_goals exact .of_eq rfl rfl rfl rfl rfl rfl rfl
  | wLockOnly | wSeqBegin =>
    simp only [perform, acquire] at acted
    repeat' split at acted
    all_goals cases acted
    all_goals exact .of_eq rfl rfl rfl rfl rfl rfl rfl
  | submit | lookup | await | rSeqBegin | tryAllocateLock =>
    simp only [perform] at acted
    split at acted <;> cases acted <;> exact .of_eq rfl rfl rfl rfl rfl rfl rfl
  | _ =>
    cases acted
    exact .of_eq rfl rfl rfl rfl rfl rfl rfl

end

end Megalon.Protocol
