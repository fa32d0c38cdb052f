import Mathlib.Data.Nat.ModEq
import Megalon.Foundations.PrivateCache
import Megalon.Foundations.Transition

/-!
Contract: the shared operation log of node replication with feature `scr`
(`node-replication/src/log.rs`, `node-replication/src/nr/log.rs`).

Owns: the ring of entries seen through the hosts' caches, the coherent tails, and
`append`, `publish`, `exec`, `advance_head` and `find_min_tail` as programs that
take one shared access per step. A replica runs one of them at a time: the
combiner lock of `replica.rs` serialises them.

Does not own: the closure an entry is executed with (it only records what it was
called with), and the flat-combining contexts the operations come from.

Tails are natural numbers: a run that appends `2 ^ 64` operations is not modelled.
-/

namespace Megalon.Nr.Log

open Function Foundations

/-- `GC_FROM_HEAD`: entries kept free when garbage collecting. -/
def gcFromHead : Nat := 1024

/-- `WARN_THRESHOLD`: loop rounds before a caller is told about a stuck replica. -/
def warnThreshold : Nat := 128

/-- The dimensions of one log: `slog.len()`, the registered replicas with the host
each runs on. `entries_to_log_entries` yields a power of two of at least
`2 * GC_FROM_HEAD`. -/
structure Geometry where
  slogLen : Nat
  replicas : Nat
  host : Nat → Nat
  powerOfTwo : ∃ bits, slogLen = 2 ^ bits
  room : 2 * gcFromHead ≤ slogLen
  registered : 0 < replicas

/-- `Log::index`: the physical index of a logical one. -/
def Geometry.index (g : Geometry) (logical : Nat) : Nat :=
  logical &&& (g.slogLen - 1)

/-- `Entry`: `alivef` and `metadata` are not used with `scr`. -/
structure Entry (Op : Type) where
  operation : Option Op
  replica : Nat
  deriving DecidableEq, Repr

/-- What `append` returns: `Ok(None)`, `Ok(Some(r))` or `Err(r)`. -/
inductive AppendResult where
  | ok (waitingFor : Option Nat)
  | err (stuck : Nat)
  deriving DecidableEq, Repr

/-- The locals of `append` that live across its loop. -/
structure AppendFrame (Op : Type) where
  ops : List Op
  iteration : Nat
  waitgc : Nat
  deriving DecidableEq, Repr

/-- Where `append` calls `advance_head` from: inside its wait for garbage
collection, or after its entries are published. -/
inductive AdvanceCaller (Op : Type) where
  | gcWait (frame : AppendFrame Op)
  | afterAppend (frame : AppendFrame Op)
  deriving DecidableEq, Repr

/-- The locals of `advance_head` that live across its loop. -/
structure AdvanceFrame (Op : Type) where
  caller : AdvanceCaller Op
  iteration : Nat
  deriving DecidableEq, Repr

/-- Where `exec` is called from. -/
inductive ExecCaller (Op : Type) where
  | replica
  | gcWait (frame : AppendFrame Op)
  | advanceHead (frame : AdvanceFrame Op)
  deriving DecidableEq, Repr

/-- Where `find_min_tail` is called from. -/
inductive MinTailCaller (Op : Type) where
  | appendStuck (frame : AppendFrame Op)
  | advanceHead (frame : AdvanceFrame Op) (globalHead f : Nat)
  deriving DecidableEq, Repr

/-- The panics of `exec`. -/
inductive Panic where
  /-- `Local tail not within the shared log!` -/
  | localTailOutsideLog
  /-- `unwrap` of an entry that holds no operation. -/
  | emptyEntry
  deriving DecidableEq, Repr

/-- The next shared access of a replica, with the locals that are live there. -/
inductive Pc (Op : Type) where
  | idle
  | returned (result : AppendResult)
  | panicked (reason : Panic)
  | appendTail (frame : AppendFrame Op)
  | appendHead (frame : AppendFrame Op) (tail : Nat)
  | appendReserve (frame : AppendFrame Op) (tail : Nat) (advance : Bool)
  | appendStore (frame : AppendFrame Op) (tail : Nat) (advance : Bool) (i : Nat)
  | appendFlush (frame : AppendFrame Op) (tail : Nat) (advance : Bool) (i : Nat)
  | publishWait (frame : AppendFrame Op) (start : Nat) (advance : Bool)
  | publishStore (frame : AppendFrame Op) (start : Nat) (advance : Bool)
  | execLtail (caller : ExecCaller Op)
  | execGtail (caller : ExecCaller Op) (ltail : Nat)
  | execHead (caller : ExecCaller Op) (ltail gtail : Nat)
  | execFlush (caller : ExecCaller Op) (ltail gtail i : Nat)
  | execEntry (caller : ExecCaller Op) (gtail i : Nat)
  | execCtail (caller : ExecCaller Op) (gtail : Nat)
  | execDone (caller : ExecCaller Op) (gtail : Nat)
  | advanceGlobalHead (frame : AdvanceFrame Op)
  | advanceF (frame : AdvanceFrame Op) (globalHead : Nat)
  | minTailFirst (caller : MinTailCaller Op)
  | minTailNext (caller : MinTailCaller Op) (idx minReplicaIdx minLocalTail : Nat)
  | advanceStore (frame : AdvanceFrame Op) (f minLocalTail : Nat)
  deriving DecidableEq, Repr

/-- The log and the programs of its replicas. `appended` and `executed` are
history: the operations with the replica that reserved them, in reservation
order, and the calls of the closure on each replica. -/
structure State (Op : Type) where
  slog : Memory Nat Nat (Entry Op)
  head : Nat
  tail : Nat
  ctail : Nat
  commitTail : Nat
  ltails : Nat → Nat
  pc : Nat → Pc Op
  appended : List (Op × Nat)
  executed : Nat → List (Op × Bool)

variable {Op : Type}

/-- Moves replica `r` to its next access. -/
def State.goto (s : State Op) (r : Nat) (pc : Pc Op) : State Op :=
  { s with pc := update s.pc r pc }

/-- The first access of the entry loop of `append`, or `publish` when no entry is
left. An empty batch has nothing to publish. -/
def afterEntry (frame : AppendFrame Op) (tail : Nat) (advance : Bool) (i : Nat) : Pc Op :=
  if i < frame.ops.length then .appendStore frame tail advance i
  else .publishWait frame tail advance

/-- The end of `append`: advance the head if the reservation asked for it. -/
def afterPublish (frame : AppendFrame Op) (advance : Bool) : Pc Op :=
  if advance then .advanceGlobalHead ⟨.afterAppend frame, 1⟩ else .returned (.ok none)

/-- Where `exec` returns to. In the wait for garbage collection `append` goes on
with `advance_head`; `advance_head` goes on with its own loop. -/
def afterExec : ExecCaller Op → Pc Op
  | .replica => .idle
  | .gcWait frame => .advanceGlobalHead ⟨.gcWait frame, 1⟩
  | .advanceHead frame => .advanceGlobalHead frame

/-- Where `advance_head` returns to with `Ok(())`. -/
def afterAdvance : AdvanceCaller Op → Pc Op
  | .gcWait frame => .appendTail frame
  | .afterAppend _ => .returned (.ok none)

/-- Where `advance_head` returns to with `Err(r)`: `?` in the wait for garbage
collection, `Ok(Some(r))` after the append. -/
def afterAdvanceStuck (stuck : Nat) : AdvanceCaller Op → Pc Op
  | .gcWait _ => .returned (.err stuck)
  | .afterAppend _ => .returned (.ok (some stuck))

/-- What is done with the result of `find_min_tail`. -/
def afterMinTail (minReplicaIdx minLocalTail : Nat) : MinTailCaller Op → Pc Op
  | .appendStuck _ => .returned (.err minReplicaIdx)
  | .advanceHead frame globalHead f =>
    if minLocalTail = globalHead then
      if frame.iteration % warnThreshold = 0 then
        afterAdvanceStuck minReplicaIdx frame.caller
      else .execLtail (.advanceHead { frame with iteration := frame.iteration + 1 })
    else .advanceStore frame f minLocalTail

/-- The decision of `append` once `tail` and `head` are loaded. -/
def afterHead (g : Geometry) (frame : AppendFrame Op) (tail head : Nat) : Pc Op :=
  if head + g.slogLen - gcFromHead < tail then
    if frame.waitgc % warnThreshold = 0 then .minTailFirst (.appendStuck frame)
    else .execLtail (.gcWait { frame with waitgc := frame.waitgc + 1 })
  else
    .appendReserve frame tail (decide (head + g.slogLen - gcFromHead < tail + frame.ops.length))

/-- The entry `append` writes for operation `i` of its batch. -/
def AppendFrame.entry (frame : AppendFrame Op) (r i : Nat) : Entry Op :=
  ⟨frame.ops[i]?, r⟩

/-- One shared access of replica `r`. Replica `r` holds token `r + 1`. -/
def stepReplica (g : Geometry) (s : State Op) (r : Nat) : Option (State Op) :=
  match s.pc r with
  | .idle | .returned _ | .panicked _ => none
  | .appendTail frame =>
    if frame.iteration % warnThreshold = 0 then
      some (s.goto r (.minTailFirst (.appendStuck frame)))
    else
      some (s.goto r (.appendHead { frame with iteration := frame.iteration + 1 } s.tail))
  | .appendHead frame tail => some (s.goto r (afterHead g frame tail s.head))
  | .appendReserve frame tail advance =>
    -- compare_exchange_weak on tail: success only if no one moved it since the load
    if s.tail = tail then
      some ({ s with
        tail := tail + frame.ops.length
        appended := s.appended ++ frame.ops.map fun op => (op, r) }.goto r
          (afterEntry frame tail advance 0))
    else some (s.goto r (.appendTail frame))
  | .appendStore frame tail advance i =>
    some ({ s with
      slog := s.slog.store (g.host r) (g.index (tail + i)) (frame.entry r i) }.goto r
        (.appendFlush frame tail advance i))
  | .appendFlush frame tail advance i =>
    some ({ s with slog := s.slog.flush (g.host r) (g.index (tail + i)) }.goto r
      (afterEntry frame tail advance (i + 1)))
  | .publishWait frame start advance =>
    if frame.ops.length = 0 then some (s.goto r (afterPublish frame advance))
    else if s.commitTail = start then some (s.goto r (.publishStore frame start advance))
    else some s
  | .publishStore frame start advance =>
    some ({ s with commitTail := start + frame.ops.length }.goto r
      (afterPublish frame advance))
  | .execLtail caller => some (s.goto r (.execGtail caller (s.ltails r)))
  | .execGtail caller ltail =>
    if ltail = s.commitTail then some (s.goto r (afterExec caller))
    else some (s.goto r (.execHead caller ltail s.commitTail))
  | .execHead caller ltail gtail =>
    if gtail < ltail ∨ ltail < s.head then some (s.goto r (.panicked .localTailOutsideLog))
    else some (s.goto r (.execFlush caller ltail gtail ltail))
  | .execFlush caller ltail gtail i =>
    if i < gtail then
      some ({ s with slog := s.slog.flush (g.host r) (g.index i) }.goto r
        (.execFlush caller ltail gtail (i + 1)))
    else some (s.goto r (.execEntry caller gtail ltail))
  | .execEntry caller gtail i =>
    if i < gtail then
      let loaded := s.slog.fill (g.host r) (g.index i)
      let entry := loaded.view (g.host r) (g.index i)
      match entry.operation with
      | some op =>
        some ({ s with
          slog := loaded
          executed := update s.executed r
            (s.executed r ++ [(op, decide (entry.replica = r))]) }.goto r
              (.execEntry caller gtail (i + 1)))
      | none => some ({ s with slog := loaded }.goto r (.panicked .emptyEntry))
    else some (s.goto r (.execCtail caller gtail))
  | .execCtail caller gtail =>
    some ({ s with ctail := max s.ctail gtail }.goto r (.execDone caller gtail))
  | .execDone caller gtail =>
    some ({ s with ltails := update s.ltails r gtail }.goto r (afterExec caller))
  | .advanceGlobalHead frame => some (s.goto r (.advanceF frame s.head))
  | .advanceF frame globalHead =>
    some (s.goto r (.minTailFirst (.advanceHead frame globalHead s.tail)))
  | .minTailFirst caller => some (s.goto r (.minTailNext caller 0 0 (s.ltails 0)))
  | .minTailNext caller idx minReplicaIdx minLocalTail =>
    if idx < g.replicas then
      if s.ltails idx < minLocalTail then
        some (s.goto r (.minTailNext caller (idx + 1) idx (s.ltails idx)))
      else some (s.goto r (.minTailNext caller (idx + 1) minReplicaIdx minLocalTail))
    else some (s.goto r (afterMinTail minReplicaIdx minLocalTail caller))
  | .advanceStore frame f minLocalTail =>
    if f < minLocalTail + g.slogLen - gcFromHead then
      some ({ s with head := minLocalTail }.goto r (afterAdvance frame.caller))
    else
      some ({ s with head := minLocalTail }.goto r (.execLtail (.advanceHead frame)))

/-- What can happen next. A call starts only when the replica's combiner is free.
Caches may also load or evict a line at any time. -/
inductive Event (Op : Type) where
  | append (r : Nat) (ops : List Op)
  | exec (r : Nat)
  | access (r : Nat)
  | prefetch (host line : Nat)
  | evict (host line : Nat)
  deriving DecidableEq, Repr

def Pc.free : Pc Op → Bool
  | .idle | .returned _ => true
  | _ => false

/-- One event. Only registered replicas call the log, and the combiner hands
`append` at most `GC_FROM_HEAD` operations. -/
def step (g : Geometry) (s : State Op) : Event Op → Option (State Op)
  | .append r ops =>
    if r < g.replicas ∧ (s.pc r).free = true ∧ ops.length ≤ gcFromHead then
      some (s.goto r (.appendTail ⟨ops, 1, 1⟩))
    else none
  | .exec r =>
    if r < g.replicas ∧ (s.pc r).free = true then some (s.goto r (.execLtail .replica))
    else none
  | .access r => if r < g.replicas then stepReplica g s r else none
  | .prefetch h a => some { s with slog := s.slog.fill h a }
  | .evict h a => some { s with slog := s.slog.flush h a }

def initial : State Op where
  slog := { memory := fun _ => ⟨none, 0⟩, cache := fun _ _ => none }
  head := 0
  tail := 0
  ctail := 0
  commitTail := 0
  ltails := fun _ => 0
  pc := fun _ => .idle
  appended := []
  executed := fun _ => []

def system (g : Geometry) (Op : Type) : System (State Op) (Event Op) where
  init := fun s => s = initial
  step := step g

/-- The forms a step can take. -/
inductive StepForm (g : Geometry) (s : State Op) : Event Op → State Op → Prop
  | append {r ops} (registered : r < g.replicas) (free : (s.pc r).free = true)
      (fits : ops.length ≤ gcFromHead) :
      StepForm g s (.append r ops) (s.goto r (.appendTail ⟨ops, 1, 1⟩))
  | exec {r} (registered : r < g.replicas) (free : (s.pc r).free = true) :
      StepForm g s (.exec r) (s.goto r (.execLtail .replica))
  | access {r s'} (registered : r < g.replicas) (taken : stepReplica g s r = some s') :
      StepForm g s (.access r) s'
  | prefetch {h a} : StepForm g s (.prefetch h a) { s with slog := s.slog.fill h a }
  | evict {h a} : StepForm g s (.evict h a) { s with slog := s.slog.flush h a }

theorem stepForm_of_step {g : Geometry} {s s' : State Op} {e : Event Op}
    (taken : step g s e = some s') : StepForm g s e s' := by
  cases e with
  | append r ops =>
    obtain ⟨admitted, ⟨⟩⟩ := Option.ite_none_right_eq_some.mp taken
    exact .append admitted.1 admitted.2.1 admitted.2.2
  | exec r =>
    obtain ⟨admitted, ⟨⟩⟩ := Option.ite_none_right_eq_some.mp taken
    exact .exec admitted.1 admitted.2
  | access r =>
    obtain ⟨registered, taken⟩ := Option.ite_none_right_eq_some.mp taken
    exact .access registered taken
  | prefetch h a =>
    cases taken
    exact .prefetch
  | evict h a =>
    cases taken
    exact .evict

/-! ### Physical indices -/

theorem Geometry.index_eq_mod (g : Geometry) (logical : Nat) :
    g.index logical = logical % g.slogLen := by
  obtain ⟨bits, equal⟩ := g.powerOfTwo
  rw [index, equal, Nat.and_two_pow_sub_one_eq_mod]

theorem Geometry.eq_of_index_eq (g : Geometry) {i j : Nat} (ordered : i ≤ j)
    (close : j < i + g.slogLen) (same : g.index i = g.index j) : i = j := by
  rw [g.index_eq_mod, g.index_eq_mod] at same
  have divides : g.slogLen ∣ j - i :=
    (Nat.modEq_iff_dvd' ordered).mp same
  have zero : j - i = 0 := Nat.eq_zero_of_dvd_of_lt divides (by omega)
  omega

/-! ### Program counters -/

@[simp]
theorem goto_pc_same (s : State Op) (r : Nat) (pc : Pc Op) : (s.goto r pc).pc r = pc := by
  simp [State.goto]

theorem goto_pc_of_ne (s : State Op) {r q : Nat} (pc : Pc Op) (different : q ≠ r) :
    (s.goto r pc).pc q = s.pc q := by
  simp [State.goto, different]

theorem forall_goto {P : Nat → Pc Op → Prop} {s : State Op} {r : Nat} {pc : Pc Op}
    (moved : P r pc) (others : ∀ q, q ≠ r → P q (s.pc q)) : ∀ q, P q ((s.goto r pc).pc q) := by
  intro q
  by_cases same : q = r
  · subst same
    rwa [goto_pc_same]
  · rw [goto_pc_of_ne s pc same]
    exact others q same

end Megalon.Nr.Log
