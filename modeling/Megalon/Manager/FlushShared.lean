import Megalon.Protocol.FailedAdmission

/-!
Contract: `DoFlushShared` of `flush_manager.cc` next to the calls and reclaim loops of the
other threads.

Owns: one program counter for each access of the flusher, the block ids and dirty bits it
reads, what its last `pwrite` has written, and the slots stored into since it began to copy.

Does not own: the count of dirty pages and the threshold of `NrToFlush`, which decide when a
call does anything.
-/

namespace Megalon.Manager

open Core Foundations Index Protocol

/-- The slot in turn: `cn_index` in round `round`, and the block id of its node. -/
structure FlushTarget (Key : Type) where
  round : Nat
  slot : Nat
  key : Key

/-- `flush_seq_start` has passed on record `wmeta`. -/
structure FlushGuard (Key : Type) extends FlushTarget Key where
  wmeta : Nat
  seqcount : Nat

inductive FlushPc (Key : Type) where
  | waiting
  | crashed
  | node (round : Nat)
  | isDirty (target : FlushTarget Key)
  -- `Get`
  | getCtail (target : FlushTarget Key)
  | getLookup (target : FlushTarget Key) (ctail : Nat)
  -- `flush_seq_start`
  | seqBegin (target : FlushTarget Key) (w : Nat)
  | localSeq (guard : FlushGuard Key)
  | copy (guard : FlushGuard Key) (bytes : List UInt8)
  -- `flush_seq_end`
  | seqEnd (guard : FlushGuard Key) (bytes : List UInt8)
  | pwrite (guard : FlushGuard Key) (bytes : List UInt8)
  | lock (guard : FlushGuard Key)
  | seqEndLocked (guard : FlushGuard Key)
  | setDirty (guard : FlushGuard Key)
  | unlock (guard : FlushGuard Key)

/-- `written` is how many bytes the system call writes if the flusher is at its `pwrite`, 0 if
it fails. -/
inductive FlushEvent (Key : Type) where
  | others (e : Event Key)
  | flush (written : Nat)

/-- The event is one of thread `t`. -/
def ofThread {Key : Type} (t : Nat) : Event Key → Bool
  | .start t' _ => t' == t
  | .thread t' _ => t' == t
  | _ => false

section

variable {Key Mem : Type} [BlockKey Key] (cfg : Config Key Mem)

/-- The thread of the flusher, and its `target_node_`. -/
structure Flusher where
  thread : Nat
  targetNode : Fin cfg.nodes

structure FlushState where
  base : cfg.State
  blockId : Nat → Option Key
  dirty : Nat → Bool
  pc : FlushPc Key
  currFlushIdx : Nat
  pwritten : Option (Key × List UInt8)
  written : Nat → Bool

def storesInto (s : cfg.State) : Event Key → Nat → Bool
  | .thread t _ => fun slot =>
    match (s.threads t).pc with
    | .writeCopy slot' _ i => slot' == slot && decide (i < (s.threads t).call.bytesWrite cfg)
    | .createFill slot' _ i =>
      slot' == slot && decide (i < ((s.threads t).call.content cfg t).1.length)
    | _ => false
  | _ => fun _ => false

variable {cfg}

def FlushState.goto (s : FlushState cfg) (pc : FlushPc Key) : FlushState cfg := { s with pc := pc }

/-- An access of the flusher to the state that all threads share. -/
def FlushState.access (flusher : Flusher cfg) (s : FlushState cfg) (act : Act Key)
    (resume : act.Reply cfg.nodes → FlushPc Key) : Option (FlushState cfg) :=
  (perform cfg flusher.thread s.base.shared act).map fun (shared, reply) =>
    { s with base := ⟨shared, s.base.threads⟩, pc := resume reply }

/-- The checks of `flush_seq_start` on the entry; a missing one is fatal. -/
def afterGet (target : FlushTarget Key) : Option (GCDEntry cfg.nodes) → FlushPc Key
  | none => .crashed
  | some entry =>
    match (entry.cnArray sharedCacheNode).cnIdx, entry.wmetaIdx with
    | some _, some w => .seqBegin target w
    | _, _ => .node (target.round + 1)

/-- One access of `DoFlushShared`. -/
def flushStep (flusher : Flusher cfg) (s : FlushState cfg) (written : Nat) :
    Option (FlushState cfg) :=
  match s.pc with
  | .crashed => none
  | .waiting => some (s.goto (.node 0))
  | .node round =>
    if round < cfg.numPages then
      -- a node without a block id was never published, and its slot is not dirty
      match s.blockId ((s.currFlushIdx + round) % cfg.numPages) with
      | some key =>
        some (s.goto (.isDirty ⟨round, (s.currFlushIdx + round) % cfg.numPages, key⟩))
      | none => some (s.goto (.node (round + 1)))
    else some (s.goto .waiting)
  | .isDirty target =>
    if s.dirty target.slot then some (s.goto (.getCtail target))
    else some (s.goto (.node (target.round + 1)))
  | .getCtail target => s.access flusher .loadCtail (.getLookup target)
  | .getLookup target ctail => s.access flusher (.lookup target.key ctail) (afterGet target)
  | .seqBegin target w =>
    s.access flusher (.rSeqBegin w) fun seq => .localSeq ⟨target, w, seq⟩
  | .localSeq guard =>
    if s.base.shared.localSeq flusher.targetNode guard.wmeta ≠ none ∧
        s.base.shared.localSeq flusher.targetNode guard.wmeta ≠ some guard.seqcount then
      some (s.goto (.node (guard.round + 1)))
    else some { s with pc := .copy guard [], written := fun _ => false }
  | .copy guard bytes =>
    if bytes.length < cfg.slotSize then
      s.access flusher (.loadByte guard.slot bytes.length) fun value =>
        .copy guard (bytes ++ [value])
    else some (s.goto (.seqEnd guard bytes))
  | .seqEnd guard bytes =>
    s.access flusher (.loadSeqlock guard.wmeta) fun word =>
      if readSeqlockRetry word guard.seqcount then .node (guard.round + 1)
      else .pwrite guard bytes
  | .pwrite guard bytes =>
    -- the result is discarded
    some { s with pc := .lock guard, pwritten := some (guard.key, bytes.take written) }
  | .lock guard =>
    s.access flusher (.wLockOnly guard.wmeta) fun locked =>
      if locked then .seqEndLocked guard else .node (guard.round + 1)
  | .seqEndLocked guard =>
    s.access flusher (.loadSeqlock guard.wmeta) fun word =>
      if readSeqlockRetry word guard.seqcount then .unlock guard else .setDirty guard
  | .setDirty guard =>
    some { s with
      pc := .unlock guard
      dirty := Function.update s.dirty guard.slot false
      currFlushIdx := (guard.slot + 1) % cfg.numPages }
  | .unlock guard =>
    s.access flusher (.wUnlockOnly guard.wmeta) fun _ => .node (guard.round + 1)

def othersStep (flusher : Flusher cfg) (s : FlushState cfg) (e : Event Key) :
    Option (FlushState cfg) :=
  if ofThread flusher.thread e then none
  else
    (step cfg s.base e).map fun base =>
      { s with
        base := base
        blockId := reinitializeNode base s.blockId e
        dirty := setDirty s.base base s.dirty e
        written := fun slot => s.written slot || storesInto cfg s.base e slot }

structure FlushInitial (s : FlushState cfg) : Prop where
  base : Initial cfg s.base
  blockId : ∀ slot, s.blockId slot = none
  dirty : ∀ slot, s.dirty slot = false
  pc : s.pc = .waiting
  currFlushIdx : s.currFlushIdx = 0
  pwritten : s.pwritten = none

def flushSystem (flusher : Flusher cfg) : System (FlushState cfg) (FlushEvent Key) where
  init := FlushInitial
  step := fun s e =>
    match e with
    | .others e => othersStep flusher s e
    | .flush written => flushStep flusher s written

end

end Megalon.Manager
