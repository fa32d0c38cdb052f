import Megalon.Nr.CombiningSteps

/-!
Contract: what flat combining promises the callers of `execute_mut`.

Owns: the entry of the log that answers a call; that every call has one entry, that callers
get the responses of their entries, and that no response is lost.

Does not own: what lookups read.

The number of threads is loaded twice in a round. A thread that registers and calls in
between is collected and gets no answer in that round, so the next round collects its
operation again.
-/

namespace Megalon.Nr

open Foundations
open Log (mineOps ownOps callsOn)

section

variable {D ReadOp WriteOp Resp : Type} (cfg : Config D ReadOp WriteOp Resp)
  (s : State D ReadOp WriteOp Resp)

/-- Entry `j` of the log is the operation `op` of replica `q`, which has executed it, and
`dispatch_mut` responded with `resp` there. -/
structure Produces (q j : Nat) (op : Tagged WriteOp) (resp : Resp) : Prop where
  entry : s.log.appended[j]? = some (op, q)
  executed : j < (s.log.executed q).length
  response : resp =
    (cfg.ds.dispatchMut (replayData cfg cfg.data ((s.log.executed q).take j)) op.op).2

/-- The response is where the thread looks for it, or has been returned. -/
def Delivered (t : Thread) (call : Nat) (resp : Resp) : Prop :=
  (s.received t)[call]? = some resp ∨
    (s.context t).head = call ∧ call < (s.context t).comb ∧ (s.context t).resp = some resp

/-- Every call of `execute_mut` is appended once, and answered with its own response. -/
structure ExactlyOnce : Prop where
  issued : ∀ (j : Nat) (op : Tagged WriteOp) q, s.log.appended[j]? = some (op, q) →
    (s.issued ⟨q, op.tid⟩)[op.call]? = some op.op
  once : ∀ (i j : Nat) (op op' : Tagged WriteOp) q, s.log.appended[i]? = some (op, q) →
    s.log.appended[j]? = some (op', q) → op.tid = op'.tid → op.call = op'.call → i = j
  received : ∀ t k resp, 1 ≤ t.tid → (s.received t)[k]? = some resp →
    ∃ j op, (s.issued t)[k]? = some op ∧ Produces cfg s t.replica j ⟨op, t.tid, k⟩ resp
  delivered : ∀ (j : Nat) (op : Tagged WriteOp) q, (s.replicas q).combiner = none →
    s.log.appended[j]? = some (op, q) →
    ∃ resp, Produces cfg s q j op resp ∧ Delivered s ⟨q, op.tid⟩ op.call resp
  kept : ∀ t reason, s.pc t = .panicked reason → reason.loses = false

end

section

variable {D ReadOp WriteOp Resp : Type} {cfg : Config D ReadOp WriteOp Resp} {steady : Prop}
  {s : State D ReadOp WriteOp Resp}

/-! ### Entries and responses -/

variable {op : Tagged WriteOp} {resp : Resp}

theorem mem_ownResponses {calls : List (Tagged WriteOp × Bool)} :
    ∀ {data : D}, (op, resp) ∈ ownResponses cfg data calls →
      ∃ j, calls[j]? = some (op, true) ∧
        resp = (cfg.ds.dispatchMut (replayData cfg data (calls.take j)) op.op).2 := by
  induction calls with
  | nil => exact fun member => by cases member
  | cons call calls ih =>
    intro data member
    obtain ⟨first, mine⟩ := call
    have later : (op, resp) ∈ ownResponses cfg (cfg.ds.dispatchMut data first.op).1 calls →
        ∃ j, ((first, mine) :: calls)[j]? = some (op, true) ∧ resp = (cfg.ds.dispatchMut
          (replayData cfg data (((first, mine) :: calls).take j)) op.op).2 := by
      intro member
      obtain ⟨j, found, response⟩ := ih member
      exact ⟨j + 1, found, response⟩
    cases mine with
    | false => exact later member
    | true =>
      rcases List.mem_cons.mp member with same | member
      · cases same
        exact ⟨0, rfl, rfl⟩
      · exact later member

variable {q j : Nat}

theorem entry_of_executed (base : BaseInv cfg steady s)
    (called : (s.log.executed q)[j]? = some (op, true)) : s.log.appended[j]? = some (op, q) := by
  rw [(Log.replayInv_of_reachable base.reached).executed q, callsOn, List.getElem?_map,
    Option.map_eq_some_iff] at called
  obtain ⟨⟨op', r⟩, found, same⟩ := called
  rw [List.getElem?_take] at found
  split at found
  · obtain ⟨rfl, own⟩ := Prod.mk.inj same
    obtain rfl : r = q := of_decide_eq_true own
    exact found
  · cases found

theorem produces_of_completed (base : BaseInv cfg steady s)
    (completed : s.Completed cfg q op resp) :
    ∃ j, j < s.log.ctail ∧ Produces cfg s q j op resp := by
  obtain ⟨j, found, response⟩ := mem_ownResponses completed
  rw [List.getElem?_take] at found
  split at found
  · rename_i below
    refine ⟨j, below, entry_of_executed base found, (List.getElem?_eq_some_iff.mp found).1, ?_⟩
    rw [List.take_take, Nat.min_eq_left (Nat.le_of_lt below)] at response
    exact response
  · cases found

theorem executed_of_quiet (base : BaseInv cfg steady s) (quiet : s.Quiet steady q)
    (entry : s.log.appended[j]? = some (op, q)) : j < (s.log.executed q).length := by
  have executed := (Log.replayInv_of_reachable base.reached).executed q
  have all := quiet.1
  generalize (s.log.pc q).position (s.log.ltails q) = n at executed
  rw [executed, Log.mineOps_callsOn, State.own] at all
  have split := List.take_append_drop n s.log.appended
  have none : ownOps q (s.log.appended.drop n) = [] := by
    have lengths := congrArg List.length all
    nth_rewrite 2 [← split] at lengths
    rw [Log.ownOps_append, List.length_append] at lengths
    exact List.length_eq_zero_iff.mp (by omega)
  rw [executed, callsOn, List.length_map, List.length_take]
  have length := (List.getElem?_eq_some_iff.mp entry).1
  refine Nat.lt_min.mpr ⟨?_, length⟩
  by_contra later
  have found : (s.log.appended.drop n)[j - n]? = some (op, q) := by
    rw [List.getElem?_drop, Nat.add_sub_cancel' (Nat.le_of_not_lt later)]
    exact entry
  have listed : op ∈ ownOps q (s.log.appended.drop n) := by
    refine List.mem_map.mpr ⟨(op, q), List.mem_filter.mpr ⟨List.mem_of_getElem? found, ?_⟩, rfl⟩
    exact decide_eq_true rfl
  rw [none] at listed
  cases listed

theorem mem_own (entry : s.log.appended[j]? = some (op, q)) : op ∈ s.own q :=
  List.mem_map.mpr ⟨(op, q), List.mem_filter.mpr
    ⟨List.mem_of_getElem? entry, decide_eq_true rfl⟩, rfl⟩

theorem entry_unique (base : BaseInv cfg True s) {i : Nat} {op' : Tagged WriteOp}
    (entry : s.log.appended[i]? = some (op, q)) (entry' : s.log.appended[j]? = some (op', q))
    (tid : op.tid = op'.tid) (call : op.call = op'.call) : i = j := by
  have distinct := (base.logged q).once trivial
  rw [State.own, ownOps, List.map_map, List.Nodup, List.pairwise_map, List.pairwise_filter,
    List.pairwise_iff_getElem] at distinct
  obtain ⟨bound, found⟩ := List.getElem?_eq_some_iff.mp entry
  obtain ⟨bound', found'⟩ := List.getElem?_eq_some_iff.mp entry'
  have apart : ∀ a b (ha : a < s.log.appended.length) (hb : b < s.log.appended.length) x y,
      s.log.appended[a] = (x, q) → s.log.appended[b] = (y, q) → x.tid = y.tid →
        x.call = y.call → ¬ a < b := by
    intro a b ha hb x y left right sameTid sameCall before
    have different := distinct a b ha hb before
    rw [left, right] at different
    exact different (decide_eq_true rfl) (decide_eq_true rfl) (Prod.ext sameTid sameCall)
  have le := apart i j bound bound' op op' found found' tid call
  have ge := apart j i bound' bound op' op found' found tid.symm call.symm
  omega

theorem response_unique (base : BaseInv cfg True s) {i : Nat} {op' : Tagged WriteOp} {resp' : Resp}
    (first : Produces cfg s q i op resp) (second : Produces cfg s q j op' resp')
    (tid : op.tid = op'.tid) (call : op.call = op'.call) : resp = resp' := by
  obtain rfl := entry_unique base first.entry second.entry tid call
  have same := first.entry.symm.trans second.entry
  cases same
  rw [first.response, second.response]

theorem delivered_of_answered (base : BaseInv cfg True s) (produced : Produces cfg s q j op resp)
    (answered : s.Answered q op) : Delivered s ⟨q, op.tid⟩ op.call resp := by
  have token := ((base.logged q).issued op (mem_own produced.entry)).1
  have call := base.calls ⟨q, op.tid⟩ token
  have below : op.call < (s.context ⟨q, op.tid⟩).comb := answered
  by_cases returned : op.call < (s.context ⟨q, op.tid⟩).head
  · left
    have found := List.getElem?_eq_getElem (call.received.symm ▸ returned)
    obtain ⟨op', _, completed⟩ := call.answers op.call _ found
    obtain ⟨j', _, produced'⟩ := produces_of_completed base completed
    rw [found, response_unique base produced produced' rfl rfl]
  · right
    have comb_le := call.comb_le_tail
    have tail_le := call.tail_le
    have head : (s.context ⟨q, op.tid⟩).head = op.call := by omega
    obtain ⟨op', resp', cell, given, completed⟩ := call.resp (by omega)
    obtain ⟨op'', cell', tid, number, _⟩ := call.cell (by omega)
    rw [cell] at cell'
    cases cell'
    obtain ⟨j', _, produced'⟩ := produces_of_completed base completed
    refine ⟨head, below, ?_⟩
    rw [given, response_unique base produced produced' tid.symm (head.symm.trans number.symm)]

/-! ### Exactly once -/

/-- **Exactly-once combining.** In every run in which the second load of the number of
threads of each round finds what the first one found, each operation is appended once, its
caller receives the response of its entry, and no response is lost. -/
theorem combining_exactly_once (reached : (replicaSystem cfg).ReachableWhere SteadyStep s) :
    ExactlyOnce cfg s := by
  have inv : CombiningInv cfg True s :=
    combiningInv_of_reachable (reached.mono fun _ _ steady _ => steady)
  have base := inv.base
  refine ⟨?_, ?_, ?_, ?_, fun t => (inv.valid t).safe⟩
  · intro j op q entry
    exact ((base.logged q).issued op (mem_own entry)).2
  · intro i j op op' q entry entry' tid call
    exact entry_unique base entry entry' tid call
  · intro t k resp token received
    obtain ⟨op, called, completed⟩ := (base.calls t token).answers k resp received
    obtain ⟨j, _, produced⟩ := produces_of_completed base completed
    exact ⟨j, op, called, produced⟩
  · intro j op q free entry
    have quiet := inv.rounds q
    unfold State.standing at quiet
    rw [free] at quiet
    have executed := executed_of_quiet base quiet entry
    have produced : Produces cfg s q j op _ := ⟨entry, executed, rfl⟩
    exact ⟨_, produced, delivered_of_answered base produced (quiet.2 trivial op (mem_own entry))⟩

def steadyTest (s : State D ReadOp WriteOp Resp) : ReplicaEvent ReadOp WriteOp → Bool
  | .step t _ =>
    match s.pc t with
    | .combine _ (.collectNext n) => (s.replicas t.replica).next = n
    | .sync _ q (.collectNext n) => (s.replicas q).next = n
    | _ => true
  | _ => true

theorem steadyStep_of_test {e : ReplicaEvent ReadOp WriteOp} (passes : steadyTest s e = true) :
    SteadyStep s e := by
  cases e with
  | step t flag =>
    intro q n stands
    simp only [steadyTest] at passes
    rcases standing_cases stands with ⟨caller, here, rfl⟩ | ⟨caller, here⟩
    · rw [here] at passes
      exact of_decide_eq_true passes
    · rw [here] at passes
      exact of_decide_eq_true passes
  | _ => trivial

end

def counting : Dispatch Nat Unit Unit Nat where
  dispatch := fun count _ => count
  dispatchMut := fun count _ => (count + 1, count)
  cnIdx := fun _ => none

def countingReplicas : Config Nat Unit Unit Nat := ⟨Log.twoReplicas, counting, pageSlots, 0⟩

/-- The first thread of replica 0 calls and is about to load the number of threads again. -/
def firstLoads : List (ReplicaEvent Unit Unit) :=
  [.register 0, .start ⟨0, 1⟩ (.executeMut ())] ++ List.replicate 3 (.step ⟨0, 1⟩ true)

def secondCalls : List (ReplicaEvent Unit Unit) :=
  [.register 0, .start ⟨0, 2⟩ (.executeMut ()), .step ⟨0, 2⟩ true]

def appendedCalls (s : State Nat Unit Unit Nat) : List (Nat × Nat × Nat) :=
  s.log.appended.map fun entry => (entry.2, entry.1.tid, entry.1.call)

theorem combining_exactly_once_counting :
    ∃ s, (replicaSystem countingReplicas).ReachableWhere SteadyStep s ∧
      (s.received ⟨0, 1⟩ = [0] ∧ appendedCalls s = [(0, 1, 0)]) ∧
      ExactlyOnce countingReplicas s := by
  obtain ⟨s, reached, evaluated⟩ := System.exists_reachableWhere_of_run
    (.of_sound (replicaSystem countingReplicas) steadyTest fun _ _ => steadyStep_of_test) rfl
    (firstLoads ++ List.replicate 41 (.step ⟨0, 1⟩ true))
    (fun s => decide (s.received ⟨0, 1⟩ = [0] ∧ appendedCalls s = [(0, 1, 0)]))
    (by decide +kernel)
  exact ⟨s, reached, of_decide_eq_true evaluated, combining_exactly_once reached⟩

/-- The second thread registers and calls between the two loads: the first round collects its
operation and answers only the first thread, and the round of the second thread collects it
again. -/
theorem appended_twice_registering :
    ∃ s, (replicaSystem countingReplicas).Reachable s ∧
      (s.issued ⟨0, 2⟩ = [()] ∧ appendedCalls s = [(0, 1, 0), (0, 2, 0), (0, 2, 0)] ∧
        (s.replicas 0).data = 3) ∧ ¬ ExactlyOnce countingReplicas s := by
  obtain ⟨s, reached, evaluated⟩ := System.exists_reachable_of_run
    (replicaSystem countingReplicas) rfl
    (firstLoads ++ secondCalls ++ List.replicate 50 (.step ⟨0, 1⟩ true) ++
      List.replicate 48 (.step ⟨0, 2⟩ true))
    (fun s => decide (s.issued ⟨0, 2⟩ = [()] ∧
      appendedCalls s = [(0, 1, 0), (0, 2, 0), (0, 2, 0)] ∧ (s.replicas 0).data = 3))
    (by decide +kernel)
  have holds := of_decide_eq_true evaluated
  refine ⟨s, reached, holds, fun unique => ?_⟩
  have entry : ∀ (j : Nat) (key : Nat × Nat × Nat), (appendedCalls s)[j]? = some key → ∃ op,
      s.log.appended[j]? = some (op, key.1) ∧ op.tid = key.2.1 ∧ op.call = key.2.2 := by
    intro j key found
    rw [appendedCalls, List.getElem?_map, Option.map_eq_some_iff] at found
    obtain ⟨⟨op, q⟩, found, rfl⟩ := found
    exact ⟨op, found, rfl, rfl⟩
  obtain ⟨first, firstEntry, firstTid, firstCall⟩ := entry 1 (0, 2, 0) (by rw [holds.2.1]; rfl)
  obtain ⟨second, secondEntry, secondTid, secondCall⟩ :=
    entry 2 (0, 2, 0) (by rw [holds.2.1]; rfl)
  have same := unique.once 1 2 first second 0 firstEntry secondEntry
    (firstTid.trans secondTid.symm) (firstCall.trans secondCall.symm)
  cases same

end Megalon.Nr
