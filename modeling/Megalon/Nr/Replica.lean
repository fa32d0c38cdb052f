import Megalon.Nr.Log
import Megalon.Nr.ReplayPaths

/-!
Contract: flat combining over the shared log (`node-replication/src/nr/replica.rs`, `mod.rs`,
`rwlock.rs` and `context.rs`, feature `scr`).

Owns: the replicas with their thread contexts, combiner lock and reader-writer lock, and the
programs of their threads: `execute_mut`, `execute`, `execute_anchor`, `sync` and
`check_notification_reset`, with the retries after `NoLogSpace` and `GcFailed`. A thread takes
one shared access per step; a store that publishes a private one (`tail` after the operation,
`comb` after the response) is taken together with it.

Does not own: the log itself, and `execute_loose`, which promises nothing. A panic stops the
thread where it is.
-/

namespace Megalon.Nr

open Function Foundations

/-- `MAX_THREADS_PER_REPLICA`. -/
def maxThreadsPerReplica : Nat := 32

/-- `MAX_PENDING_OPS`. -/
def maxPendingOps : Nat := 32

/-- A thread: its replica, and its `ReplicaToken`. The first token is 1. -/
structure Thread where
  replica : Nat
  tid : Nat
  deriving DecidableEq, Repr

/-- An operation with the call it was made in: the token of the thread, and the number of the
call among those of the thread. -/
structure Tagged (WriteOp : Type) where
  op : WriteOp
  tid : Nat
  call : Nat

/-! ### Contexts -/

structure PendingOperation (WriteOp Resp : Type) where
  op : Option (Tagged WriteOp)
  resp : Option Resp

/-- `Context`: the batch of pending operations, and the logical indices into it. -/
structure Context (WriteOp Resp : Type) where
  batch : Fin maxPendingOps → PendingOperation WriteOp Resp
  tail : Nat
  head : Nat
  comb : Nat

/-- `index`: where a logical index falls in the batch. -/
def Context.index (logical : Nat) : Fin maxPendingOps :=
  ⟨logical &&& (maxPendingOps - 1), Nat.lt_of_le_of_lt Nat.and_le_right (by decide)⟩

section

variable {WriteOp Resp : Type}

def Context.default : Context WriteOp Resp := ⟨fun _ => ⟨none, none⟩, 0, 0, 0⟩

def Context.cell (c : Context WriteOp Resp) (logical : Nat) : PendingOperation WriteOp Resp :=
  c.batch (index logical)

def Context.setCell (c : Context WriteOp Resp) (logical : Nat)
    (cell : PendingOperation WriteOp Resp) : Context WriteOp Resp :=
  { c with batch := update c.batch (index logical) cell }

/-- `enqueue`: `none` if the batch is full. -/
def Context.enqueue (c : Context WriteOp Resp) (tid : Nat) (op : WriteOp) :
    Option (Context WriteOp Resp) :=
  if c.tail - c.head = maxPendingOps then none
  else
    some { c.setCell c.tail { c.cell c.tail with op := some ⟨op, tid, c.tail⟩ } with
      tail := c.tail + 1 }

/-- `enqueue_resp`. -/
def Context.enqueueResp (c : Context WriteOp Resp) (resp : Resp) : Context WriteOp Resp :=
  { c.setCell c.comb { c.cell c.comb with resp := some resp } with comb := c.comb + 1 }

/-- `enqueue_resps`. -/
def Context.enqueueResps (c : Context WriteOp Resp) (resps : List Resp) : Context WriteOp Resp :=
  resps.foldl Context.enqueueResp c

/-- `res`, when there is a response at `head`: the context it leaves. -/
def Context.takeResp (c : Context WriteOp Resp) : Context WriteOp Resp :=
  { c.setCell c.head { c.cell c.head with resp := none } with head := c.head + 1 }

/-- The operations `iter` yields, those from `comb` to `tail`: `none` for its panics. -/
def Context.iter (c : Context WriteOp Resp) : Option (List (Tagged WriteOp)) :=
  if c.tail < c.comb then none
  else (List.range' c.comb (c.tail - c.comb)).mapM fun i => (c.cell i).op

end

/-! ### Replicas -/

/-- The state of a replica. `combiner` names the thread that holds the lock, where the code
stores 1. -/
structure ReplicaState (D WriteOp Resp : Type) where
  combiner : Option Thread
  next : Nat
  changeNotif : Nat → Option Nat
  contexts : Nat → Context WriteOp Resp
  buffer : List (Tagged WriteOp)
  inflight : Nat → Nat
  result : List Resp
  wlock : Bool
  rlock : Nat → Nat
  data : D
  flushed : List (Nat × Nat)

/-- `with_data_base_addr`. -/
def ReplicaState.initial {D WriteOp Resp : Type} (data : D) : ReplicaState D WriteOp Resp where
  combiner := none
  next := 1
  changeNotif := fun _ => none
  contexts := fun _ => .default
  buffer := []
  inflight := fun _ => 0
  result := []
  wlock := false
  rlock := fun _ => 0
  data := data
  flushed := []

/-! ### Programs -/

/-- The closure a range of the log is replayed with. After `append` the combiner carries the
replica `GcFailed` names. -/
inductive Closure where
  | append
  | combineExec (waitingFor : Option Nat)
  | replicaExec
  deriving DecidableEq, Repr

/-- How `combine` ends. With `noLogSpace` the caller keeps the lock. -/
inductive Outcome where
  | ok
  | gcFailed (stuck : Nat)
  | noLogSpace (stuck : Nat)
  deriving DecidableEq, Repr

/-- Where the holder of a combiner lock stands in `combine` or in `Replica::exec`: its next
access, with the locals that are live there. -/
inductive Round (Resp : Type) where
  | loadNext (combines : Bool)
  | collectNext (n : Nat)
  | collect (n m i : Nat)
  | writeLock (n : Nat) (f : Closure)
  | writeScan (n : Nat) (f : Closure) (j : Nat)
  | call (n : Nat) (f : Closure)
  | replay (n : Nat) (f : Closure)
  | clearLoad (n : Nat) (f : Closure) (resp : Resp) (mine : Bool) (j : Nat)
  | clearStore (n : Nat) (f : Closure) (resp : Resp) (mine : Bool) (j : Nat)
  | closureEnd (n : Nat) (f : Closure) (resp : Resp) (mine : Bool)
  | writeUnlock (n : Nat) (f : Closure)
  | deliver (n i s : Nat) (waitingFor : Option Nat)
  | unlock (outcome : Outcome)

/-- Why a thread stops: the panics of the modelled functions, and undefined behaviour. -/
inductive ReplicaPanic where
  /-- `Ups -- we just lost a result?` -/
  | lostResult
  /-- `Combiner Head of thread-local batch has advanced beyond tail!`, or an empty cell. -/
  | contextIter
  /-- `results[s..f]` out of range. -/
  | resultSlice
  /-- `Head of thread-local batch has advanced beyond combiner of.store!` -/
  | contextRes
  /-- `assert_ne!(stuck_ridx, tkn.rid)`. -/
  | stuckSelf
  /-- `GcFailed has to produced a response`. -/
  | noResponse
  /-- `assert!(slog.is_replica_synced_for_reads(..))`. -/
  | notSynced
  /-- No panic: `dispatch_mut` ran on the data while `dispatch` was reading it, and there is no
  state that `dispatch` has read. -/
  | dataRace
  deriving DecidableEq, Repr

/-- A lookup: its operation, and whether it is anchored. `since` and `returned` are history:
the completed tail, and the number of returned `execute_mut` calls of each thread, when it
was called. -/
structure Lookup (ReadOp : Type) where
  op : ReadOp
  anchor : Bool
  since : Nat
  returned : Thread → Nat

/-- Where `combine` is called from. -/
inductive Caller (ReadOp : Type) where
  /-- `execute_mut` and `execute_mut_locked`. -/
  | executeMut
  /-- `get_response`; `final` after `GcFailed`, where it must not fail again. -/
  | getResponse (final : Bool)
  /-- The loop of `execute`, or `execute_locked`. -/
  | lookup (l : Lookup ReadOp) (ctail : Nat) (locked : Bool)

/-- Where `try_sync` is called from. -/
inductive SyncCaller (ReadOp : Type) where
  /-- After `NoLogSpace`, with the own lock held. -/
  | noLogSpace (caller : Caller ReadOp)
  /-- The loop of `sync`; `resume` inside `execute_mut`. -/
  | loop (ctail : Nat) (resume : Bool)
  /-- A lookup after `GcFailed`. -/
  | gcFailed (l : Lookup ReadOp)

/-- The next access of a thread. In the stages of a lookup `locked` says that it holds the
combiner lock. `reading` is the whole of `dispatch`; `seen` is the number of operations the
replica had executed when it began. `watched` in `checkStore` is history. -/
inductive ThreadPc (ReadOp WriteOp Resp : Type) where
  | idle
  | panicked (reason : ReplicaPanic)
  | enqueue (op : WriteOp)
  | tryCombine (caller : Caller ReadOp)
  | combine (caller : Caller ReadOp) (round : Round Resp)
  | trySync (caller : SyncCaller ReadOp) (q : Nat)
  | sync (caller : SyncCaller ReadOp) (q : Nat) (round : Round Resp)
  | syncCtail (q : Nat) (resume : Bool)
  | syncCheck (q ctail : Nat) (resume : Bool)
  | getResponse (final : Bool)
  | lookupCtail (l : Lookup ReadOp) (locked : Bool)
  | lookupCheck (l : Lookup ReadOp) (ctail : Nat) (locked : Bool)
  | assertSynced (l : Lookup ReadOp) (ctail : Nat) (locked : Bool)
  | readLock (l : Lookup ReadOp) (locked : Bool)
  | readCheck (l : Lookup ReadOp) (locked : Bool)
  | reading (l : Lookup ReadOp) (locked : Bool) (seen : Nat)
  | readUnlock (l : Lookup ReadOp) (locked : Bool) (resp : Resp)
  | storeAnchor (l : Lookup ReadOp) (locked : Bool) (resp : Resp)
  | lookupUnlock
  | checkLoad
  | checkStore (current : Option Nat) (watched : Option (Nat × Bool))

/-- The machine: the log, the replicas and the threads. The other fields are history:
`issued` and `received` list the operations a thread called `execute_mut` with and the
responses these calls returned; `watch` is the slot the last anchored lookup of a thread
read, until its check, and whether the replica has executed an operation that reports it
since. -/
structure State (D ReadOp WriteOp Resp : Type) where
  log : Log.State (Tagged WriteOp)
  replicas : Nat → ReplicaState D WriteOp Resp
  pc : Thread → ThreadPc ReadOp WriteOp Resp
  issued : Thread → List WriteOp
  received : Thread → List Resp
  watch : Thread → Option (Nat × Bool)

/-- The dimensions of a machine. -/
structure Config (D ReadOp WriteOp Resp : Type) where
  geometry : Log.Geometry
  ds : Dispatch D ReadOp WriteOp Resp
  slots : Slots
  data : D

section

variable {D ReadOp WriteOp Resp : Type} (cfg : Config D ReadOp WriteOp Resp)

/-- Changes the state of replica `q`. -/
def State.setReplica (s : State D ReadOp WriteOp Resp) (q : Nat)
    (r : ReplicaState D WriteOp Resp) : State D ReadOp WriteOp Resp :=
  { s with replicas := update s.replicas q r }

def State.goto (s : State D ReadOp WriteOp Resp) (t : Thread)
    (pc : ThreadPc ReadOp WriteOp Resp) : State D ReadOp WriteOp Resp :=
  { s with pc := update s.pc t pc }

def ReplicaState.setContext (r : ReplicaState D WriteOp Resp) (j : Nat)
    (c : Context WriteOp Resp) : ReplicaState D WriteOp Resp :=
  { r with contexts := update r.contexts j c }

def newCall (before after : Log.State (Tagged WriteOp)) (q : Nat) :
    Option (Tagged WriteOp × Bool) :=
  (after.executed q)[(before.executed q).length]?

/-- The history of the anchored lookups after replica `q` executed an operation. -/
def noteExecuted (q : Nat) (idx : Option Nat) (watch : Thread → Option (Nat × Bool)) :
    Thread → Option (Nat × Bool) :=
  fun t =>
    match watch t with
    | some (c, known) => some (c, known || (decide (t.replica = q) && decide (idx = some c)))
    | none => none

/-- What a step of a round leads to. -/
inductive RoundNext (Resp : Type) where
  | goOn (round : Round Resp)
  | done (outcome : Outcome)
  | panic (reason : ReplicaPanic)

/-- Replica `q` executes an operation: `dispatch_mut` in each of the closures. -/
def State.executes (s : State D ReadOp WriteOp Resp) (q : Nat)
    (log : Log.State (Tagged WriteOp)) (op : Tagged WriteOp) : State D ReadOp WriteOp Resp :=
  { s with
    log := log
    replicas := update s.replicas q
      { s.replicas q with data := (cfg.ds.dispatchMut (s.replicas q).data op.op).1 }
    watch := noteExecuted q (cfg.ds.cnIdx (cfg.ds.dispatchMut (s.replicas q).data op.op).2)
      s.watch }

/-- The rest of the closure after `dispatch_mut`. -/
def afterDispatch (n : Nat) (f : Closure) (resp : Resp) (mine : Bool) : RoundNext Resp :=
  match f with
  | .replicaExec => if mine then .panic .lostResult else .goOn (.replay n f)
  | .append | .combineExec _ => .goOn (.clearLoad n f resp mine 0)

/-- One access of the log inside `append` or `exec`. -/
def replayStep (s : State D ReadOp WriteOp Resp) (q n : Nat) (f : Closure) :
    Option (State D ReadOp WriteOp Resp × RoundNext Resp) :=
  if (s.log.pc q).free then some (s, .goOn (.writeUnlock n f))
  else
    (Log.step cfg.geometry s.log (.access q)).map fun log =>
      match newCall s.log log q with
      | none => ({ s with log := log }, .goOn (.replay n f))
      | some (op, mine) =>
        (s.executes cfg q log op,
          afterDispatch n f (cfg.ds.dispatchMut (s.replicas q).data op.op).2 mine)

def afterWriteUnlock (pc : Log.Pc (Tagged WriteOp)) (n : Nat) : Closure → Option (RoundNext Resp)
  | .append =>
    match pc with
    | .returned (.ok waitingFor) => some (.goOn (.writeLock n (.combineExec waitingFor)))
    | .returned (.err stuck) => some (.done (.noLogSpace stuck))
    | _ => none
  | .combineExec waitingFor => some (.goOn (.deliver n 1 0 waitingFor))
  | .replicaExec => some (.goOn (.unlock .ok))

/-- The responses of thread `i`, or the next thread, or the end of `combine`. -/
def deliverStep (s : State D ReadOp WriteOp Resp) (q n i first : Nat)
    (waitingFor : Option Nat) : State D ReadOp WriteOp Resp × RoundNext Resp :=
  let r := s.replicas q
  if i < n then
    if r.inflight (i - 1) = 0 then (s, .goOn (.deliver n (i + 1) first waitingFor))
    else if first + r.inflight (i - 1) ≤ r.result.length then
      (s.setReplica q
        { r.setContext (i - 1) ((r.contexts (i - 1)).enqueueResps
            ((r.result.drop first).take (r.inflight (i - 1)))) with
          inflight := update r.inflight (i - 1) 0 },
        .goOn (.deliver n (i + 1) (first + r.inflight (i - 1)) waitingFor))
    else (s, .panic .resultSlice)
  else
    (s, .goOn (.unlock
      (match waitingFor with
      | some stuck => .gcFailed stuck
      | none => .ok)))

/-- One access of the holder of the combiner lock of replica `q`. -/
def stepRound (s : State D ReadOp WriteOp Resp) (q : Nat) :
    Round Resp → Option (State D ReadOp WriteOp Resp × RoundNext Resp)
  | .loadNext true =>
    let r := s.replicas q
    some (s.setReplica q { r with result := [], buffer := [] }, .goOn (.collectNext r.next))
  | .loadNext false => some (s, .goOn (.writeLock (s.replicas q).next .replicaExec))
  | .collectNext n => some (s, .goOn (.collect n (s.replicas q).next 1))
  | .collect n m i =>
    let r := s.replicas q
    if i < m then
      match (r.contexts (i - 1)).iter with
      | some ops =>
        some (s.setReplica q { r with
            buffer := r.buffer ++ ops
            inflight := update r.inflight (i - 1) ops.length },
          .goOn (.collect n m (i + 1)))
      | none => some (s, .panic .contextIter)
    else some (s, .goOn (.writeLock n .append))
  | .writeLock n f =>
    let r := s.replicas q
    if r.wlock then some (s, .goOn (.writeLock n f))
    else some (s.setReplica q { r with wlock := true }, .goOn (.writeScan n f 0))
  | .writeScan n f j =>
    if j < n then
      if (s.replicas q).rlock j = 0 then some (s, .goOn (.writeScan n f (j + 1)))
      else some (s, .goOn (.writeScan n f 0))
    else some (s, .goOn (.call n f))
  | .call n .append =>
    (Log.step cfg.geometry s.log (.append q (s.replicas q).buffer)).map fun log =>
      ({ s with log := log }, .goOn (.replay n .append))
  | .call n f =>
    (Log.step cfg.geometry s.log (.exec q)).map fun log =>
      ({ s with log := log }, .goOn (.replay n f))
  | .replay n f => replayStep cfg s q n f
  | .clearLoad n f resp mine j =>
    if j < n then
      if (s.replicas q).changeNotif j = cfg.ds.cnIdx resp ∧ cfg.ds.cnIdx resp ≠ none then
        some (s, .goOn (.clearStore n f resp mine j))
      else some (s, .goOn (.clearLoad n f resp mine (j + 1)))
    else some (s, .goOn (.closureEnd n f resp mine))
  | .clearStore n f resp mine j =>
    let r := s.replicas q
    some (s.setReplica q { r with changeNotif := update r.changeNotif j none },
      .goOn (.clearLoad n f resp mine (j + 1)))
  | .closureEnd n f resp mine =>
    let r := s.replicas q
    some (s.setReplica q
      (if mine then { r with result := r.result ++ [resp] }
      else
        match cfg.ds.cnIdx resp with
        | some c => { r with flushed := r.flushed ++ [cfg.slots.region c] }
        | none => r),
      .goOn (.replay n f))
  | .writeUnlock n f =>
    let r := s.replicas q
    (afterWriteUnlock (s.log.pc q) n f).map fun next =>
      (s.setReplica q { r with wlock := false }, next)
  | .deliver n i first waitingFor => some (deliverStep s q n i first waitingFor)
  | .unlock outcome =>
    let r := s.replicas q
    some (s.setReplica q { r with combiner := none }, .done outcome)

/-! ### Continuations -/

/-- What a thread does when its round, or its attempt to become the combiner, is over. -/
def afterCombine (t : Thread) (outcome : Outcome) :
    Caller ReadOp → ThreadPc ReadOp WriteOp Resp
  | .executeMut =>
    match outcome with
    | .ok => .getResponse false
    | .gcFailed stuck =>
      if stuck = t.replica then .panicked .stuckSelf else .syncCtail stuck true
    | .noLogSpace stuck => .trySync (.noLogSpace .executeMut) stuck
  | .getResponse final =>
    match outcome with
    | .ok => .getResponse final
    | .gcFailed stuck =>
      if final then .panicked .noResponse
      else if stuck = t.replica then .panicked .stuckSelf else .syncCtail stuck true
    | .noLogSpace stuck =>
      if final then .panicked .noResponse else .trySync (.noLogSpace .executeMut) stuck
  | .lookup l ctail locked =>
    match outcome with
    | .ok => if locked then .assertSynced l ctail false else .lookupCheck l ctail false
    | .gcFailed stuck =>
      if stuck = t.replica then .panicked .stuckSelf else .trySync (.gcFailed l) stuck
    | .noLogSpace stuck =>
      if stuck = t.replica then .panicked .stuckSelf
      else .trySync (.noLogSpace (.lookup l ctail locked)) stuck

/-- What a thread does after `try_sync`. -/
def afterSync (q : Nat) : SyncCaller ReadOp → ThreadPc ReadOp WriteOp Resp
  | .noLogSpace (.lookup l _ _) => .lookupCtail l true
  | .noLogSpace caller => .combine caller (.loadNext true)
  | .loop ctail resume => .syncCheck q ctail resume
  | .gcFailed l => .lookupCtail l false

def afterLookup (locked : Bool) : ThreadPc ReadOp WriteOp Resp :=
  if locked then .lookupUnlock else .idle

def RoundNext.pc (round : Round Resp → ThreadPc ReadOp WriteOp Resp)
    (done : Outcome → ThreadPc ReadOp WriteOp Resp) :
    RoundNext Resp → ThreadPc ReadOp WriteOp Resp
  | .goOn next => round next
  | .done outcome => done outcome
  | .panic reason => .panicked reason

/-! ### Threads -/

/-- `res` in `get_response`. With `retry` a thread without a response tries to combine. -/
def getResponseStep (s : State D ReadOp WriteOp Resp) (t : Thread) (final retry : Bool) :
    State D ReadOp WriteOp Resp :=
  let r := s.replicas t.replica
  let c := r.contexts (t.tid - 1)
  if c.head = c.comb then
    if retry then s.goto t (.tryCombine (.getResponse final)) else s
  else if c.comb < c.head then s.goto t (.panicked .contextRes)
  else
    let taken := s.setReplica t.replica
      (r.setContext (t.tid - 1) c.takeResp)
    match (c.cell c.head).resp with
    | some resp =>
      { taken with received := update s.received t (s.received t ++ [resp]) }.goto t
        .idle
    | none => taken

/-- One access of a thread. `flag` decides what the code leaves open: whether the weak
compare-exchange on a free combiner lock succeeds, and whether `get_response` has waited long
enough to combine. -/
def stepThread (s : State D ReadOp WriteOp Resp) (t : Thread) (flag : Bool) :
    Option (State D ReadOp WriteOp Resp) :=
  let r := s.replicas t.replica
  match s.pc t with
  | .idle | .panicked _ => none
  | .enqueue op =>
    match (r.contexts (t.tid - 1)).enqueue t.tid op with
    | some c =>
      some ((s.setReplica t.replica (r.setContext (t.tid - 1) c)).goto t
        (.tryCombine .executeMut))
    | none => some s
  | .tryCombine caller =>
    if r.combiner = none ∧ flag = true then
      some ((s.setReplica t.replica { r with combiner := some t }).goto t
        (.combine caller (.loadNext true)))
    else some (s.goto t (afterCombine t .ok caller))
  | .combine caller round =>
    (stepRound cfg s t.replica round).map fun out =>
      out.1.goto t (out.2.pc (.combine caller) fun outcome =>
        afterCombine t outcome caller)
  | .trySync caller q =>
    if (s.replicas q).combiner = none ∧ flag = true then
      some ((s.setReplica q { s.replicas q with combiner := some t }).goto t
        (.sync caller q (.loadNext false)))
    else some (s.goto t (afterSync q caller))
  | .sync caller q round =>
    (stepRound cfg s q round).map fun out =>
      out.1.goto t (out.2.pc (.sync caller q) fun _ => afterSync q caller)
  | .syncCtail q resume => some (s.goto t (.syncCheck q s.log.ctail resume))
  | .syncCheck q ctail resume =>
    if ctail ≤ s.log.ltails q then
      some (s.goto t (if resume then .getResponse true else .idle))
    else some (s.goto t (.trySync (.loop ctail resume) q))
  | .getResponse final => some (getResponseStep s t final flag)
  | .lookupCtail l locked => some (s.goto t (.lookupCheck l s.log.ctail locked))
  | .lookupCheck l ctail locked =>
    if ctail ≤ s.log.ltails t.replica then
      some (s.goto t (if locked then .assertSynced l ctail true else .readLock l false))
    else if locked then
      some (s.goto t (.combine (.lookup l ctail true) (.loadNext true)))
    else some (s.goto t (.tryCombine (.lookup l ctail false)))
  | .assertSynced l ctail locked =>
    if ctail ≤ s.log.ltails t.replica then some (s.goto t (.readLock l locked))
    else some (s.goto t (.panicked .notSynced))
  | .readLock l locked =>
    some ((s.setReplica t.replica
      { r with rlock := update r.rlock (t.tid - 1) (r.rlock (t.tid - 1) + 1) }).goto t
        (.readCheck l locked))
  | .readCheck l locked =>
    if r.wlock then
      some ((s.setReplica t.replica
        { r with rlock := update r.rlock (t.tid - 1) (r.rlock (t.tid - 1) - 1) }).goto t
          (.readLock l locked))
    else some (s.goto t (.reading l locked (s.log.executed t.replica).length))
  | .reading l locked seen =>
    if (s.log.executed t.replica).length = seen then
      let resp := cfg.ds.dispatch r.data l.op
      some ({ s with
        watch :=
          if l.anchor then
            update s.watch t ((cfg.ds.cnIdx resp).map fun c => (c, false))
          else s.watch }.goto t (.readUnlock l locked resp))
    else some (s.goto t (.panicked .dataRace))
  | .readUnlock l locked resp =>
    some ((s.setReplica t.replica
      { r with rlock := update r.rlock (t.tid - 1) (r.rlock (t.tid - 1) - 1) }).goto t
        (if l.anchor then .storeAnchor l locked resp else afterLookup locked))
  | .storeAnchor _ locked resp =>
    some ((s.setReplica t.replica
      { r with changeNotif :=
          update r.changeNotif (t.tid - 1) (cfg.ds.cnIdx resp) }).goto t
        (afterLookup locked))
  | .lookupUnlock =>
    some ((s.setReplica t.replica { r with combiner := none }).goto t .idle)
  | .checkLoad =>
    some ({ s with watch := update s.watch t none }.goto t
      (.checkStore (r.changeNotif (t.tid - 1)) (s.watch t)))
  | .checkStore _ _ =>
    some ((s.setReplica t.replica
      { r with changeNotif := update r.changeNotif (t.tid - 1) none }).goto t .idle)

/-- A call of `NodeReplicated`. -/
inductive Call (ReadOp WriteOp : Type) where
  | executeMut (op : WriteOp)
  | execute (op : ReadOp) (anchor : Bool)
  | sync
  | checkNotificationReset

/-- What can happen next. -/
inductive ReplicaEvent (ReadOp WriteOp : Type) where
  | register (q : Nat)
  | start (t : Thread) (call : Call ReadOp WriteOp)
  | step (t : Thread) (flag : Bool)
  | prefetch (host line : Nat)
  | evict (host line : Nat)

def startCall (s : State D ReadOp WriteOp Resp) (t : Thread) :
    Call ReadOp WriteOp → State D ReadOp WriteOp Resp
  | .executeMut op =>
    { s with issued := update s.issued t (s.issued t ++ [op]) }.goto t (.enqueue op)
  | .execute op anchor =>
    s.goto t (.lookupCtail ⟨op, anchor, s.log.ctail, fun t' => (s.received t').length⟩ false)
  | .sync => s.goto t (.syncCtail t.replica false)
  | .checkNotificationReset => s.goto t .checkLoad

def ThreadPc.isIdle : ThreadPc ReadOp WriteOp Resp → Bool
  | .idle => true
  | _ => false

def step (s : State D ReadOp WriteOp Resp) :
    ReplicaEvent ReadOp WriteOp → Option (State D ReadOp WriteOp Resp)
  | .register q =>
    let r := s.replicas q
    if q < cfg.geometry.replicas ∧ r.next ≤ maxThreadsPerReplica then
      some (s.setReplica q { r with next := r.next + 1 })
    else none
  | .start t call =>
    if t.replica < cfg.geometry.replicas ∧ 1 ≤ t.tid ∧ t.tid < (s.replicas t.replica).next ∧
        (s.pc t).isIdle = true then
      some (startCall s t call)
    else none
  | .step t flag => stepThread cfg s t flag
  | .prefetch h a =>
    (Log.step cfg.geometry s.log (.prefetch h a)).map fun log => { s with log := log }
  | .evict h a => (Log.step cfg.geometry s.log (.evict h a)).map fun log => { s with log := log }

/-- `NodeReplicated::new`, with no thread registered. -/
def initialState : State D ReadOp WriteOp Resp where
  log := Log.initial
  replicas := fun _ => .initial cfg.data
  pc := fun _ => .idle
  issued := fun _ => []
  received := fun _ => []
  watch := fun _ => none

def replicaSystem : System (State D ReadOp WriteOp Resp) (ReplicaEvent ReadOp WriteOp) where
  init := fun s => s = initialState cfg
  step := step cfg

/-! ### Updates -/

section

variable {cfg} (s : State D ReadOp WriteOp Resp) (q : Nat) (r : ReplicaState D WriteOp Resp)
  (t : Thread) (pc : ThreadPc ReadOp WriteOp Resp)

@[simp]
theorem setReplica_log : (s.setReplica q r).log = s.log := rfl

@[simp]
theorem setReplica_pc : (s.setReplica q r).pc = s.pc := rfl

@[simp]
theorem setReplica_issued : (s.setReplica q r).issued = s.issued := rfl

@[simp]
theorem setReplica_received : (s.setReplica q r).received = s.received := rfl

@[simp]
theorem setReplica_watch : (s.setReplica q r).watch = s.watch := rfl

@[simp]
theorem setReplica_same : (s.setReplica q r).replicas q = r :=
  update_self ..

theorem setReplica_of_ne {q q' : Nat} (r : ReplicaState D WriteOp Resp) (other : q' ≠ q) :
    (s.setReplica q r).replicas q' = s.replicas q' :=
  update_of_ne other ..

theorem replica_executes (log : Log.State (Tagged WriteOp)) (op : Tagged WriteOp) :
    (s.executes cfg q log op).replicas q =
      { s.replicas q with data := (cfg.ds.dispatchMut (s.replicas q).data op.op).1 } :=
  update_self ..

theorem replica_executes_of_ne {q q' : Nat} (log : Log.State (Tagged WriteOp))
    (op : Tagged WriteOp) (other : q' ≠ q) :
    (s.executes cfg q log op).replicas q' = s.replicas q' :=
  update_of_ne other ..

@[simp]
theorem goto_log : (s.goto t pc).log = s.log := rfl

@[simp]
theorem goto_replicas : (s.goto t pc).replicas = s.replicas := rfl

@[simp]
theorem goto_issued : (s.goto t pc).issued = s.issued := rfl

@[simp]
theorem goto_received : (s.goto t pc).received = s.received := rfl

@[simp]
theorem goto_watch : (s.goto t pc).watch = s.watch := rfl

@[simp]
theorem goto_pc_self : (s.goto t pc).pc t = pc :=
  update_self ..

theorem goto_pc_other {t t' : Thread} (pc : ThreadPc ReadOp WriteOp Resp) (other : t' ≠ t) :
    (s.goto t pc).pc t' = s.pc t' :=
  update_of_ne other ..

end

end

end Megalon.Nr
