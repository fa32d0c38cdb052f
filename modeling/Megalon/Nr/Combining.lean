import Mathlib.Data.List.Infix
import Megalon.Nr.LogOwn
import Megalon.Nr.ThreadMoves

/-!
Contract: what a round of flat combining carries from the contexts to the log and back.

Owns: the invariant of a machine that relates each thread's context to its calls, each
replica's data to the log, and each stage of a round to the batch it collected, the own
operations in the log and the responses at hand.

Does not own: the theorems that are read off the invariant.

The invariant is stated for two kinds of runs at once: with `steady` the combiner loads the
same number of threads twice in every round, and then every own operation in the log is an
answered one or of the batch at hand.
-/

namespace Megalon.Nr

open Function Foundations
open Log (mineOps ownOps)

section

variable {D ReadOp WriteOp Resp : Type} (cfg : Config D ReadOp WriteOp Resp) (steady : Prop)

/-! ### Responses of the log -/

def replayData (data : D) (calls : List (Tagged WriteOp × Bool)) : D :=
  calls.foldl (fun data call => (cfg.ds.dispatchMut data call.1.op).1) data

def ownResponses (data : D) : List (Tagged WriteOp × Bool) → List (Tagged WriteOp × Resp)
  | [] => []
  | call :: rest =>
    let after := cfg.ds.dispatchMut data call.1.op
    if call.2 then (call.1, after.2) :: ownResponses after.1 rest
    else ownResponses after.1 rest

variable (s : State D ReadOp WriteOp Resp)

/-- The own operations replica `q` has executed, with their responses. -/
def State.responses (q : Nat) : List (Tagged WriteOp × Resp) :=
  ownResponses cfg cfg.data (s.log.executed q)

/-- Replica `q` has executed an own operation below the completed tail. -/
def State.Completed (q : Nat) (op : Tagged WriteOp) (resp : Resp) : Prop :=
  (op, resp) ∈ ownResponses cfg cfg.data ((s.log.executed q).take s.log.ctail)

/-- The operations replica `q` has in the log. -/
def State.own (q : Nat) : List (Tagged WriteOp) :=
  ownOps q s.log.appended

/-- The operation that a thread waits for, in its cell of the batch. -/
def Context.op (c : Context WriteOp Resp) : Option (Tagged WriteOp) :=
  (c.cell c.head).op

def Context.resp (c : Context WriteOp Resp) : Option Resp :=
  (c.cell c.head).resp

/-! ### Places of a thread -/

def Caller.mut : Caller ReadOp → Bool
  | .executeMut | .getResponse _ => true
  | .lookup _ _ _ => false

def SyncCaller.mut : SyncCaller ReadOp → Bool
  | .noLogSpace caller => caller.mut
  | .loop _ resume => resume
  | .gcFailed _ => false

/-- The number of operations of the thread that are enqueued and not returned. A thread that
has panicked may have left one behind. -/
def ThreadPc.pending : ThreadPc ReadOp WriteOp Resp → Option Nat
  | .panicked _ => none
  | .tryCombine caller | .combine caller _ => some caller.mut.toNat
  | .trySync caller _ | .sync caller _ _ => some caller.mut.toNat
  | .syncCtail _ resume | .syncCheck _ _ resume => some resume.toNat
  | .getResponse _ => some 1
  | _ => some 0

def SyncCaller.locked : SyncCaller ReadOp → Bool
  | .noLogSpace _ => true
  | _ => false

def ThreadPc.ownLock : ThreadPc ReadOp WriteOp Resp → Bool
  | .combine _ _ | .lookupUnlock => true
  | .trySync caller _ | .sync caller _ _ => caller.locked
  | .lookupCtail _ locked | .lookupCheck _ _ locked | .assertSynced _ _ locked => locked
  | .readLock _ locked | .readCheck _ locked | .reading _ locked _ => locked
  | .readUnlock _ locked _ | .storeAnchor _ locked _ => locked
  | _ => false

/-- The thread holds the combiner lock of replica `q`. -/
def Holds (t : Thread) (pc : ThreadPc ReadOp WriteOp Resp) (q : Nat) : Prop :=
  pc.ownLock = true ∧ q = t.replica ∨ ∃ caller round, pc = .sync caller q round

/-- What the holder of a combiner lock does with it. -/
inductive Standing (Resp : Type) where
  | parked
  | round (round : Round Resp)

def standing (t : Thread) (q : Nat) : ThreadPc ReadOp WriteOp Resp → Standing Resp
  | .combine _ round => if q = t.replica then .round round else .parked
  | .sync _ q' round => if q = q' then .round round else .parked
  | _ => .parked

def State.standing (q : Nat) : Standing Resp :=
  match (s.replicas q).combiner with
  | some t => Megalon.Nr.standing t q (s.pc t)
  | none => .parked

def ReplicaPanic.loses : ReplicaPanic → Bool
  | .lostResult | .contextIter | .resultSlice | .contextRes => true
  | _ => false

/-! ### The invariant of a call -/

/-- What the context of a thread says about its calls. Of the cells of its batch at most one is
in use. -/
structure CallInv (t : Thread) : Prop where
  head_le_comb : (s.context t).head ≤ (s.context t).comb
  comb_le_tail : (s.context t).comb ≤ (s.context t).tail
  tail_le : (s.context t).tail ≤ (s.context t).head + 1
  pending : ∀ n, (s.pc t).pending = some n → (s.context t).tail = (s.context t).head + n
  cell : (s.context t).tail = (s.context t).head + 1 → ∃ op, (s.context t).op = some op ∧
    op.tid = t.tid ∧ op.call = (s.context t).head ∧
      (s.issued t)[(s.context t).head]? = some op.op
  issued : (s.pc t).pending ≠ none → (∀ op, s.pc t ≠ .enqueue op) →
    (s.issued t).length = (s.context t).tail
  enqueues : ∀ op, s.pc t = .enqueue op →
    (s.issued t)[(s.context t).head]? = some op ∧
      (s.issued t).length = (s.context t).head + 1
  resp : (s.context t).head < (s.context t).comb →
    ∃ op resp, (s.context t).op = some op ∧ (s.context t).resp = some resp ∧
      s.Completed cfg t.replica op resp
  received : (s.received t).length = (s.context t).head
  answers : ∀ k resp, (s.received t)[k]? = some resp →
    ∃ op, (s.issued t)[k]? = some op ∧ s.Completed cfg t.replica ⟨op, t.tid, k⟩ resp

/-! ### The invariant of a round -/

def State.Answered (q : Nat) (op : Tagged WriteOp) : Prop :=
  op.call < ((s.replicas q).contexts (op.tid - 1)).comb

/-- The contexts from `lo` to `hi` hold the operations the round has collected from them. -/
def State.Batch (q lo hi : Nat) : Prop :=
  ∀ j, lo ≤ j → j < hi → (s.replicas q).inflight j = 0 ∨
    (s.replicas q).inflight j = 1 ∧
      ((s.replicas q).contexts j).tail = ((s.replicas q).contexts j).comb + 1 ∧
      ∃ op, ((s.replicas q).contexts j).op = some op ∧ op.tid = j + 1 ∧
        op.call = ((s.replicas q).contexts j).comb

def State.batchOps (q lo hi : Nat) : List (Tagged WriteOp) :=
  (List.range' lo (hi - lo)).flatMap fun j =>
    if (s.replicas q).inflight j = 1 then ((s.replicas q).contexts j).op.toList else []

/-- The operations are those of calls, and of different calls if that is asked for. -/
structure Logged (issued : Thread → List WriteOp) (q : Nat) (ops : List (Tagged WriteOp)) :
    Prop where
  issued : ∀ op ∈ ops, 1 ≤ op.tid ∧ (issued ⟨q, op.tid⟩)[op.call]? = some op.op
  once : steady → (ops.map fun op => (op.tid, op.call)).Nodup

def State.Quiet (q : Nat) : Prop :=
  mineOps (s.log.executed q) = s.own q ∧ (steady → ∀ op ∈ s.own q, s.Answered q op)

/-- The batch of a round that delivers to the threads below `n`. -/
def State.Collected (q n : Nat) : Prop :=
  ∃ m, n ≤ m ∧ (steady → n = m) ∧ s.Batch q 0 (m - 1) ∧
    (s.replicas q).buffer = s.batchOps q 0 (m - 1)

/-- The responses of a round: those of the own operations executed since it began, the last
ones in `extra`. -/
structure State.Executing (q : Nat) (extra : List Resp)
    (past new : List (Tagged WriteOp × Resp)) : Prop where
  responses : s.responses cfg q = past ++ new
  result : (s.replicas q).result ++ extra = new.map Prod.snd
  answered : steady → ∀ pair ∈ past, s.Answered q pair.1

/-- A round inside `append`: its batch is unreserved, or in the log, or given up. -/
def State.Appending (q n : Nat) (extra : List Resp) : Prop :=
  s.Collected steady q n ∧ ∃ past new, s.Executing cfg steady q extra past new ∧
    (s.own q = past.map Prod.fst ∧ (s.log.pc q).unreserved = some (s.replicas q).buffer ∨
      s.own q = past.map Prod.fst ++ (s.replicas q).buffer ∧
        (s.log.pc q).unreserved = none ∧ (∀ stuck, s.log.pc q ≠ .returned (.err stuck)) ∨
      s.own q = past.map Prod.fst ∧ ∃ stuck, s.log.pc q = .returned (.err stuck))

/-- A round behind its `append`. -/
def State.Appended (q n : Nat) (extra : List Resp) : Prop :=
  s.Collected steady q n ∧ ∃ past new, s.Executing cfg steady q extra past new ∧
    s.own q = past.map Prod.fst ++ (s.replicas q).buffer

/-- A round inside the `exec` behind its `append`. -/
def State.Replaying (q n : Nat) (extra : List Resp) : Prop :=
  s.Appended cfg steady q n extra ∧ ((s.log.pc q).replays = true ∨ s.log.pc q = .idle)

/-- A round that has the responses of its batch and delivers those from thread `i` on, the
first of them at `first`. -/
structure State.Delivering (q n i first : Nat) : Prop where
  idle : s.log.pc q = .idle
  started : 1 ≤ i
  batch : ∃ m, n ≤ m ∧ (steady → n = m) ∧ s.Batch q (i - 1) (m - 1) ∧
    (s.replicas q).buffer.drop first = s.batchOps q (i - 1) (m - 1) ∧
    (steady → ∀ op ∈ s.own q, s.Answered q op ∨ op ∈ s.batchOps q (i - 1) (m - 1))
  responses : ∃ past new, s.responses cfg q = past ++ new ∧
    new.map Prod.snd = (s.replicas q).result ∧ new.map Prod.fst = (s.replicas q).buffer

/-- `Replica::exec`: no own operation is on its way. -/
def State.Syncing (q : Nat) : Prop :=
  s.Quiet steady q ∧ ((s.log.pc q).replays = true ∨ s.log.pc q = .idle)

def State.BeforeCall (q n : Nat) : Closure → Prop
  | .append => s.Quiet steady q ∧ (s.replicas q).result = [] ∧ s.Collected steady q n
  | .combineExec _ => s.Appended cfg steady q n []
  | .replicaExec => s.Quiet steady q

/-- A round that replays entries; the closure has yet to push the responses in `extra`. -/
def State.InCall (q n : Nat) (extra : List Resp) : Closure → Prop
  | .append => s.Appending cfg steady q n extra
  | .combineExec _ => s.Replaying cfg steady q n extra
  | .replicaExec => s.Syncing steady q

def State.AfterCall (q n : Nat) : Closure → Prop
  | .append => s.Appending cfg steady q n []
  | .combineExec _ => s.Delivering cfg steady q n 1 0
  | .replicaExec => s.Quiet steady q

/-- What holds of a replica at each stage of the round its combiner is in. -/
def State.RoundInv (q : Nat) : Round Resp → Prop
  | .loadNext _ => s.Quiet steady q
  | .collectNext n =>
    s.Quiet steady q ∧ (s.replicas q).result = [] ∧ (s.replicas q).buffer = [] ∧
      n ≤ (s.replicas q).next
  | .collect n m i =>
    s.Quiet steady q ∧ (s.replicas q).result = [] ∧ 1 ≤ i ∧ i ≤ m ∧ n ≤ m ∧
      (steady → n = m) ∧ s.Batch q 0 (i - 1) ∧
      (s.replicas q).buffer = s.batchOps q 0 (i - 1)
  | .writeLock n f | .writeScan n f _ | .call n f => s.BeforeCall cfg steady q n f
  | .replay n f => s.InCall cfg steady q n [] f
  | .clearLoad n f resp mine _ | .clearStore n f resp mine _ | .closureEnd n f resp mine =>
    s.InCall cfg steady q n (if mine then [resp] else []) f ∧ f ≠ .replicaExec
  | .writeUnlock n f => s.AfterCall cfg steady q n f
  | .deliver n i first _ => s.Delivering cfg steady q n i first
  | .unlock outcome => s.Quiet steady q ∧ ∀ stuck, outcome ≠ .noLogSpace stuck

def State.StandingInv (q : Nat) : Standing Resp → Prop
  | .parked => s.Quiet steady q
  | .round round => s.RoundInv cfg steady q round

/-! ### The invariant -/

/-- A thread that is in a call has a token, and helps another replica than its own if it
holds the own lock. -/
structure ValidPc (t : Thread) (pc : ThreadPc ReadOp WriteOp Resp) : Prop where
  registered : pc.isIdle = false → t.replica < cfg.geometry.replicas ∧ 1 ≤ t.tid
  helps : ∀ caller q round, pc = .sync (.noLogSpace caller) q round → q ≠ t.replica
  safe : ∀ reason, pc = .panicked reason → reason.loses = false

/-- The part of the invariant that no lock is needed for. -/
structure BaseInv : Prop where
  reached : (Log.system cfg.geometry (Tagged WriteOp)).Reachable s.log
  data : ∀ q, (s.replicas q).data = replayData cfg cfg.data (s.log.executed q)
  next : ∀ q, 1 ≤ (s.replicas q).next
  calls : ∀ t, 1 ≤ t.tid → CallInv cfg s t
  logged : ∀ q, Logged steady s.issued q (s.own q)

structure CombiningInv : Prop where
  base : BaseInv cfg steady s
  valid : ∀ t, ValidPc cfg t (s.pc t)
  locks : ∀ t q, Holds t (s.pc t) q → (s.replicas q).combiner = some t
  rounds : ∀ q, s.StandingInv cfg steady q (s.standing q)

end

section

variable {D ReadOp WriteOp Resp : Type} {cfg : Config D ReadOp WriteOp Resp} {steady : Prop}
  {s s' : State D ReadOp WriteOp Resp}

/-! ### Cells of a batch -/

section

omit cfg steady s s'

variable {c : Context WriteOp Resp}

@[simp]
theorem cell_setCell_same (c : Context WriteOp Resp) (i : Nat)
    (cell : PendingOperation WriteOp Resp) : (c.setCell i cell).cell i = cell :=
  update_self ..

theorem op_enqueueResp (c : Context WriteOp Resp) (resp : Resp) :
    (c.enqueueResp resp).op = c.op := by
  simp only [Context.op, Context.cell, Context.enqueueResp, Context.setCell]
  by_cases same : Context.index c.head = Context.index c.comb
  · rw [same, update_self]
  · rw [update_of_ne same]

theorem resp_enqueueResp (resp : Resp) (next : c.comb = c.head) :
    (c.enqueueResp resp).resp = some resp := by
  rw [Context.resp, Context.enqueueResp, next]
  exact congrArg PendingOperation.resp (cell_setCell_same c c.head _)

theorem iter_of_empty (level : c.tail = c.comb) : c.iter = some [] := by
  rw [Context.iter, if_neg (by omega), level, Nat.sub_self]
  rfl

theorem iter_of_pending {op : Tagged WriteOp} (next : c.comb = c.head)
    (full : c.tail = c.comb + 1) (cell : c.op = some op) : c.iter = some [op] := by
  rw [Context.op, ← next] at cell
  rw [Context.iter, if_neg (by omega), full, Nat.add_sub_cancel_left]
  simp [cell]

end

/-! ### Responses -/

theorem replayData_snoc (data : D) (calls : List (Tagged WriteOp × Bool))
    (call : Tagged WriteOp × Bool) :
    replayData cfg data (calls ++ [call]) =
      (cfg.ds.dispatchMut (replayData cfg data calls) call.1.op).1 := by
  simp [replayData]

theorem ownResponses_append (xs ys : List (Tagged WriteOp × Bool)) :
    ∀ data, ownResponses cfg data (xs ++ ys) =
      ownResponses cfg data xs ++ ownResponses cfg (replayData cfg data xs) ys := by
  induction xs with
  | nil => exact fun _ => rfl
  | cons call xs ih =>
    intro data
    simp only [List.cons_append, ownResponses, replayData, List.foldl_cons]
    split
    · rw [List.cons_append, ih, replayData]
    · rw [ih, replayData]

theorem map_fst_ownResponses (calls : List (Tagged WriteOp × Bool)) :
    ∀ data, (ownResponses cfg data calls).map Prod.fst = mineOps calls := by
  induction calls with
  | nil => exact fun _ => rfl
  | cons call calls ih =>
    intro data
    obtain ⟨op, mine⟩ := call
    cases mine with
    | true => exact congrArg (op :: ·) (ih _)
    | false => exact ih _

theorem map_fst_responses (cfg : Config D ReadOp WriteOp Resp)
    (s : State D ReadOp WriteOp Resp) (q : Nat) :
    (s.responses cfg q).map Prod.fst = mineOps (s.log.executed q) :=
  map_fst_ownResponses _ _

theorem mem_ownResponses_mono {data : D} {xs ys : List (Tagged WriteOp × Bool)}
    (extends_ : xs <+: ys) {pair : Tagged WriteOp × Resp}
    (known : pair ∈ ownResponses cfg data xs) : pair ∈ ownResponses cfg data ys := by
  obtain ⟨more, rfl⟩ := extends_
  rw [ownResponses_append]
  exact List.mem_append_left _ known

theorem State.Completed.mono {q : Nat} {op : Tagged WriteOp} {resp : Resp}
    (completed : s.Completed cfg q op resp)
    (executed : s.log.executed q <+: s'.log.executed q) (ctail : s.log.ctail ≤ s'.log.ctail) :
    s'.Completed cfg q op resp := by
  refine mem_ownResponses_mono ?_ completed
  exact (List.take_prefix_take_left ctail).trans (List.IsPrefix.take executed s'.log.ctail)

/-! ### What a round does not notice -/

/-- A step that a round on replica `q` does not notice: an operation may enter a context
whose operations are all answered. -/
structure Kept (s s' : State D ReadOp WriteOp Resp) (q : Nat) : Prop where
  executed : s'.log.executed q = s.log.executed q
  own : s'.own q = s.own q
  pc : s'.log.pc q = s.log.pc q
  buffer : (s'.replicas q).buffer = (s.replicas q).buffer
  inflight : (s'.replicas q).inflight = (s.replicas q).inflight
  result : (s'.replicas q).result = (s.replicas q).result
  next : (s.replicas q).next ≤ (s'.replicas q).next
  comb : ∀ j, ((s'.replicas q).contexts j).comb = ((s.replicas q).contexts j).comb
  cell : ∀ j, ((s.replicas q).contexts j).tail = ((s.replicas q).contexts j).comb + 1 →
    ((s'.replicas q).contexts j).tail = ((s.replicas q).contexts j).tail ∧
      ((s'.replicas q).contexts j).op = ((s.replicas q).contexts j).op

section

variable {q : Nat} (kept : Kept s s' q)

include kept

theorem Kept.answered (op : Tagged WriteOp) : s'.Answered q op ↔ s.Answered q op := by
  rw [State.Answered, State.Answered, kept.comb]

theorem Kept.batch {lo hi : Nat} (batch : s.Batch q lo hi) : s'.Batch q lo hi := by
  intro j above below
  rw [kept.inflight, kept.comb]
  refine (batch j above below).imp_right fun collected => ?_
  obtain ⟨one, full, found⟩ := collected
  rw [(kept.cell j full).1, (kept.cell j full).2]
  exact ⟨one, full, found⟩

theorem Kept.batchOps {lo hi : Nat} (batch : s.Batch q lo hi) :
    s'.batchOps q lo hi = s.batchOps q lo hi := by
  unfold State.batchOps
  rw [List.flatMap_def, List.flatMap_def]
  refine congrArg List.flatten (List.map_congr_left fun j listed => ?_)
  rw [List.mem_range'_1] at listed
  rw [kept.inflight]
  rcases batch j listed.1 (by omega) with none | ⟨one, full, _⟩
  · rw [none]
    rfl
  · rw [one, if_pos rfl, if_pos rfl, (kept.cell j full).2]

theorem Kept.quiet (quiet : s.Quiet steady q) : s'.Quiet steady q := by
  refine ⟨by rw [kept.executed, kept.own]; exact quiet.1, fun holds op mine => ?_⟩
  rw [kept.answered]
  exact quiet.2 holds op (kept.own ▸ mine)

variable {n : Nat}

theorem Kept.collected (collected : s.Collected steady q n) : s'.Collected steady q n := by
  obtain ⟨m, cover, same, batch, buffer⟩ := collected
  exact ⟨m, cover, same, kept.batch batch, by rw [kept.buffer, kept.batchOps batch, buffer]⟩

variable {extra : List Resp}

theorem Kept.executing {past new : List (Tagged WriteOp × Resp)}
    (executing : s.Executing cfg steady q extra past new) :
    s'.Executing cfg steady q extra past new where
  responses := by
    rw [State.responses, kept.executed]
    exact executing.responses
  result := by
    rw [kept.result]
    exact executing.result
  answered := fun holds pair old => (kept.answered _).mpr (executing.answered holds pair old)

theorem Kept.appending (appending : s.Appending cfg steady q n extra) :
    s'.Appending cfg steady q n extra := by
  obtain ⟨collected, past, new, executing, stage⟩ := appending
  refine ⟨kept.collected collected, past, new, kept.executing executing, ?_⟩
  rw [kept.pc, kept.own, kept.buffer]
  exact stage

theorem Kept.appended (appended : s.Appended cfg steady q n extra) :
    s'.Appended cfg steady q n extra := by
  obtain ⟨collected, past, new, executing, own⟩ := appended
  refine ⟨kept.collected collected, past, new, kept.executing executing, ?_⟩
  rw [kept.own, kept.buffer]
  exact own

theorem Kept.replaying (replaying : s.Replaying cfg steady q n extra) :
    s'.Replaying cfg steady q n extra := by
  refine ⟨kept.appended replaying.1, ?_⟩
  rw [kept.pc]
  exact replaying.2

theorem Kept.delivering {i first : Nat} (delivering : s.Delivering cfg steady q n i first) :
    s'.Delivering cfg steady q n i first where
  idle := by
    rw [kept.pc]
    exact delivering.idle
  started := delivering.started
  batch := by
    obtain ⟨m, cover, same, batch, rest, answered⟩ := delivering.batch
    refine ⟨m, cover, same, kept.batch batch, ?_, fun holds op mine => ?_⟩
    · rw [kept.buffer, kept.batchOps batch, rest]
    · rw [kept.answered, kept.batchOps batch]
      exact answered holds op (kept.own ▸ mine)
  responses := by
    obtain ⟨past, new, responses, result, buffer⟩ := delivering.responses
    refine ⟨past, new, ?_, by rw [kept.result, result], by rw [kept.buffer, buffer]⟩
    rw [State.responses, kept.executed]
    exact responses

variable {f : Closure}

theorem Kept.beforeCall (holds : s.BeforeCall cfg steady q n f) :
    s'.BeforeCall cfg steady q n f := by
  cases f with
  | append =>
    exact ⟨kept.quiet holds.1, kept.result.trans holds.2.1, kept.collected holds.2.2⟩
  | combineExec waitingFor => exact kept.appended holds
  | replicaExec => exact kept.quiet holds

theorem Kept.inCall (holds : s.InCall cfg steady q n extra f) :
    s'.InCall cfg steady q n extra f := by
  cases f with
  | append => exact kept.appending holds
  | combineExec waitingFor => exact kept.replaying holds
  | replicaExec => exact ⟨kept.quiet holds.1, by rw [kept.pc]; exact holds.2⟩

theorem Kept.afterCall (holds : s.AfterCall cfg steady q n f) : s'.AfterCall cfg steady q n f := by
  cases f with
  | append => exact kept.appending holds
  | combineExec waitingFor => exact kept.delivering holds
  | replicaExec => exact kept.quiet holds

theorem Kept.roundInv {round : Round Resp} (holds : s.RoundInv cfg steady q round) :
    s'.RoundInv cfg steady q round := by
  cases round with
  | loadNext combines => exact kept.quiet holds
  | collectNext n =>
    obtain ⟨quiet, result, buffer, bound⟩ := holds
    exact ⟨kept.quiet quiet, kept.result.trans result, kept.buffer.trans buffer,
      bound.trans kept.next⟩
  | collect n m i =>
    obtain ⟨quiet, result, started, inside, cover, same, batch, buffer⟩ := holds
    exact ⟨kept.quiet quiet, kept.result.trans result, started, inside, cover, same,
      kept.batch batch, by rw [kept.buffer, kept.batchOps batch, buffer]⟩
  | writeLock n f => exact kept.beforeCall holds
  | writeScan n f j => exact kept.beforeCall holds
  | call n f => exact kept.beforeCall holds
  | replay n f => exact kept.inCall holds
  | clearLoad n f resp mine j => exact ⟨kept.inCall holds.1, holds.2⟩
  | clearStore n f resp mine j => exact ⟨kept.inCall holds.1, holds.2⟩
  | closureEnd n f resp mine => exact ⟨kept.inCall holds.1, holds.2⟩
  | writeUnlock n f => exact kept.afterCall holds
  | deliver n i first waitingFor => exact kept.delivering holds
  | unlock outcome => exact ⟨kept.quiet holds.1, holds.2⟩

theorem Kept.standingInv {standing : Standing Resp} (holds : s.StandingInv cfg steady q standing) :
    s'.StandingInv cfg steady q standing := by
  cases standing with
  | parked => exact kept.quiet holds
  | round round => exact kept.roundInv holds

end

/-! ### What a call does not notice -/

theorem CallInv.mono {t : Thread} (inv : CallInv cfg s t) (context : s'.context t = s.context t)
    (pc : s'.pc t = s.pc t) (issued : s'.issued t = s.issued t)
    (received : s'.received t = s.received t)
    (executed : s.log.executed t.replica <+: s'.log.executed t.replica)
    (ctail : s.log.ctail ≤ s'.log.ctail) : CallInv cfg s' t where
  head_le_comb := context ▸ inv.head_le_comb
  comb_le_tail := context ▸ inv.comb_le_tail
  tail_le := context ▸ inv.tail_le
  pending := by
    rw [context, pc]
    exact inv.pending
  cell := by
    rw [context, issued]
    exact inv.cell
  issued := by
    rw [context, pc, issued]
    exact inv.issued
  enqueues := by
    rw [context, pc, issued]
    exact inv.enqueues
  resp := by
    rw [context]
    intro waiting
    obtain ⟨op, resp, cell, given, completed⟩ := inv.resp waiting
    exact ⟨op, resp, cell, given, completed.mono executed ctail⟩
  received := by
    rw [context, received]
    exact inv.received
  answers := by
    rw [received, issued]
    intro k resp known
    obtain ⟨op, called, completed⟩ := inv.answers k resp known
    exact ⟨op, called, completed.mono executed ctail⟩

end

end Megalon.Nr
