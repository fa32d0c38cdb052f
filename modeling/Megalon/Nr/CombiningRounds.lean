import Megalon.Nr.Combining

/-!
Contract: every access of a combiner keeps the invariant of flat combining.

Owns: one lemma per stage of a round, and the lemma about an access of a round they make up.

Does not own: the accesses of threads outside rounds.
-/

namespace Megalon.Nr

open Function Foundations
open Log (mineOps ownOps)

variable {D ReadOp WriteOp Resp : Type} {cfg : Config D ReadOp WriteOp Resp} {steady : Prop}
  {s s' : State D ReadOp WriteOp Resp} {q : Nat}

/-! ### Frames -/

/-- A round does not touch the other replicas. -/
theorem kept_setReplica_of_ne {q' : Nat} (r : ReplicaState D WriteOp Resp) (other : q' ≠ q) :
    Kept s (s.setReplica q r) q' := by
  have same := setReplica_of_ne s r other
  exact ⟨rfl, rfl, rfl, by rw [same], by rw [same], by rw [same], by rw [same],
    fun j => by rw [same], fun j _ => by rw [same]; exact ⟨rfl, rfl⟩⟩

variable {r : ReplicaState D WriteOp Resp}

theorem forall_setReplica {P : Nat → ReplicaState D WriteOp Resp → Prop} (here : P q r)
    (others : ∀ q', P q' (s.replicas q')) (q' : Nat) : P q' ((s.setReplica q r).replicas q') := by
  by_cases same : q' = q
  · subst same
    rwa [setReplica_same]
  · rw [setReplica_of_ne s r same]
    exact others q'

theorem kept_setReplica (buffer : r.buffer = (s.replicas q).buffer)
    (inflight : r.inflight = (s.replicas q).inflight) (result : r.result = (s.replicas q).result)
    (next : (s.replicas q).next ≤ r.next) (contexts : r.contexts = (s.replicas q).contexts) :
    Kept s (s.setReplica q r) q := by
  refine ⟨rfl, rfl, rfl, ?_, ?_, ?_, ?_, ?_, ?_⟩
  · rw [setReplica_same, buffer]
  · rw [setReplica_same, inflight]
  · rw [setReplica_same, result]
  · rw [setReplica_same]
    exact next
  · intro j
    rw [setReplica_same, contexts]
  · intro j _
    rw [setReplica_same, contexts]
    exact ⟨rfl, rfl⟩

theorem context_setReplica (contexts : r.contexts = (s.replicas q).contexts) (t : Thread) :
    (s.setReplica q r).context t = s.context t := by
  unfold State.context
  by_cases same : t.replica = q
  · rw [same, setReplica_same, contexts]
  · rw [setReplica_of_ne s r same]

theorem BaseInv.setReplica (base : BaseInv cfg steady s) (data : r.data = (s.replicas q).data)
    (contexts : r.contexts = (s.replicas q).contexts) (next : (s.replicas q).next ≤ r.next) :
    BaseInv cfg steady (s.setReplica q r) where
  reached := base.reached
  data := forall_setReplica (P := fun _ r => r.data = replayData cfg cfg.data _)
    (data.trans (base.data q)) base.data
  next := forall_setReplica (P := fun _ r => 1 ≤ r.next) ((base.next q).trans next) base.next
  calls := fun t token => (base.calls t token).mono (context_setReplica contexts t) rfl rfl rfl
    (List.prefix_refl _) le_rfl
  logged := base.logged

theorem setReplica_field {α : Type} (field : ReplicaState D WriteOp Resp → α)
    (same : field r = field (s.replicas q)) :
    ∀ q', field ((s.setReplica q r).replicas q') = field (s.replicas q') :=
  forall_setReplica (P := fun q' r => field r = field (s.replicas q')) same fun _ => rfl

/-! ### Steps of the log -/

section

variable {log : Log.State (Tagged WriteOp)} {e : Log.Event (Tagged WriteOp)}
  (taken : Log.step cfg.geometry s.log e = some log)

include taken

theorem kept_log (other : e.replica ≠ some q) : Kept s { s with log := log } q :=
  ⟨Log.executed_of_step taken other, Log.ownOps_of_step taken other, Log.pc_of_step taken other,
    rfl, rfl, rfl, le_rfl, fun _ => rfl, fun _ _ => ⟨rfl, rfl⟩⟩

theorem BaseInv.withLog (base : BaseInv cfg steady s) (executed : log.executed = s.log.executed)
    (logged : ∀ q, Logged steady s.issued q (ownOps q log.appended)) :
    BaseInv cfg steady { s with log := log } where
  reached := base.reached.step taken
  data := by
    intro q
    simp only
    rw [executed]
    exact base.data q
  next := base.next
  calls := by
    intro t token
    refine (base.calls t token).mono rfl rfl rfl rfl ?_ (Log.ctail_le_of_step taken)
    simp only
    rw [executed]
  logged := logged

end

/-! ### Steps of a round -/

/-- Where the thread stands on the replica after an access of its round. -/
def RoundNext.standing : RoundNext Resp → Standing Resp
  | .goOn round => .round round
  | .done _ | .panic _ => .parked

/-- The round ends with the combiner lock given up; a full log ends it with the lock held. -/
def RoundNext.releases : RoundNext Resp → Bool
  | .done (.noLogSpace _) => false
  | .done _ => true
  | _ => false

/-- What an access of a round on replica `q` may do. -/
structure RoundStep (cfg : Config D ReadOp WriteOp Resp) (steady : Prop)
    (s s' : State D ReadOp WriteOp Resp) (q : Nat) (next : RoundNext Resp) : Prop where
  pc : s'.pc = s.pc
  issued : s'.issued = s.issued
  received : s'.received = s.received
  base : BaseInv cfg steady s'
  here : s'.StandingInv cfg steady q next.standing
  elsewhere : ∀ q', q' ≠ q → Kept s s' q'
  combiner : ∀ q', (s'.replicas q').combiner =
    if q' = q ∧ next.releases = true then none else (s.replicas q').combiner
  safe : ∀ reason, next ≠ .panic reason

theorem RoundStep.stay (base : BaseInv cfg steady s) {round : Round Resp}
    (here : s.RoundInv cfg steady q round) : RoundStep cfg steady s s q (.goOn round) where
  pc := rfl
  issued := rfl
  received := rfl
  base := base
  here := here
  elsewhere := fun _ _ => ⟨rfl, rfl, rfl, rfl, rfl, rfl, le_rfl, fun _ => rfl,
    fun _ _ => ⟨rfl, rfl⟩⟩
  combiner := fun _ => by simp [RoundNext.releases]
  safe := by simp

theorem RoundStep.set (base : BaseInv cfg steady s) {next : RoundNext Resp}
    (data : r.data = (s.replicas q).data) (contexts : r.contexts = (s.replicas q).contexts)
    (threads : (s.replicas q).next ≤ r.next)
    (combiner : r.combiner = if next.releases = true then none else (s.replicas q).combiner)
    (here : (s.setReplica q r).StandingInv cfg steady q next.standing)
    (safe : ∀ reason, next ≠ .panic reason) : RoundStep cfg steady s (s.setReplica q r) q next where
  pc := rfl
  issued := rfl
  received := rfl
  base := base.setReplica data contexts threads
  here := here
  elsewhere := fun _ other => kept_setReplica_of_ne r other
  combiner := by
    intro q'
    by_cases same : q' = q
    · subst same
      rw [setReplica_same, combiner]
      simp
    · rw [setReplica_of_ne s r same, if_neg fun both => same both.1]
  safe := safe

/-- What the invariant of a round speaks about. -/
def ReplicaState.combining (r : ReplicaState D WriteOp Resp) :=
  (r.data, r.contexts, r.buffer, r.inflight, r.result, r.next)

theorem RoundStep.keep (base : BaseInv cfg steady s) {next : RoundNext Resp}
    (same : r.combining = (s.replicas q).combining)
    (combiner : r.combiner = if next.releases = true then none else (s.replicas q).combiner)
    (here : Kept s (s.setReplica q r) q →
      (s.setReplica q r).StandingInv cfg steady q next.standing)
    (safe : ∀ reason, next ≠ .panic reason) : RoundStep cfg steady s (s.setReplica q r) q next := by
  simp only [ReplicaState.combining, Prod.mk.injEq] at same
  obtain ⟨data, contexts, buffer, inflight, result, threads⟩ := same
  exact .set base data contexts threads.ge combiner
    (here (kept_setReplica buffer inflight result threads.ge contexts)) safe

/-- A step of the log on behalf of the replica. -/
theorem RoundStep.withLog {log : Log.State (Tagged WriteOp)} {e : Log.Event (Tagged WriteOp)}
    {round : Round Resp} (base : BaseInv cfg steady { s with log := log })
    (taken : Log.step cfg.geometry s.log e = some log) (own : e.replica = some q)
    (here : ({ s with log := log } : State D ReadOp WriteOp Resp).RoundInv cfg steady q round) :
    RoundStep cfg steady s { s with log := log } q (.goOn round) where
  pc := rfl
  issued := rfl
  received := rfl
  base := base
  here := here
  elsewhere := by
    intro q' other
    refine kept_log taken ?_
    rw [own]
    exact fun same => other (Option.some.inj same).symm
  combiner := fun _ => by simp [RoundNext.releases]
  safe := by simp

/-! ### Collecting -/

theorem answered_setReplica (contexts : r.contexts = (s.replicas q).contexts)
    (op : Tagged WriteOp) : (s.setReplica q r).Answered q op ↔ s.Answered q op := by
  rw [State.Answered, State.Answered, setReplica_same, contexts]

theorem quiet_setReplica (contexts : r.contexts = (s.replicas q).contexts)
    (quiet : s.Quiet steady q) : (s.setReplica q r).Quiet steady q :=
  ⟨quiet.1, fun holds op mine => (answered_setReplica contexts op).mpr (quiet.2 holds op mine)⟩

theorem batchOps_self (s : State D ReadOp WriteOp Resp) (q lo : Nat) : s.batchOps q lo lo = [] := by
  simp [State.batchOps]

variable {lo hi : Nat}

theorem batchOps_snoc (s : State D ReadOp WriteOp Resp) (q : Nat) (le : lo ≤ hi) :
    s.batchOps q lo (hi + 1) = s.batchOps q lo hi ++
      if (s.replicas q).inflight hi = 1 then ((s.replicas q).contexts hi).op.toList else [] := by
  have length : hi + 1 - lo = hi - lo + 1 := by omega
  rw [State.batchOps, length, List.range'_1_concat, List.flatMap_append, List.flatMap_singleton,
    Nat.add_sub_cancel' le]
  rfl

theorem batchOps_cons (s : State D ReadOp WriteOp Resp) (q : Nat) (lt : lo < hi) :
    s.batchOps q lo hi =
      (if (s.replicas q).inflight lo = 1 then ((s.replicas q).contexts lo).op.toList else []) ++
        s.batchOps q (lo + 1) hi := by
  have length : hi - lo = hi - (lo + 1) + 1 := by omega
  rw [State.batchOps, length, List.range'_succ, List.flatMap_cons]
  rfl

/-- The operations collected from the contexts below `hi` do not change with the number
collected from context `hi` on. -/
theorem batchOps_congr {s' : State D ReadOp WriteOp Resp}
    (inflight : ∀ j, lo ≤ j → j < hi → (s'.replicas q).inflight j = (s.replicas q).inflight j)
    (contexts : ∀ j, lo ≤ j → j < hi →
      ((s'.replicas q).contexts j).op = ((s.replicas q).contexts j).op) :
    s'.batchOps q lo hi = s.batchOps q lo hi := by
  unfold State.batchOps
  rw [List.flatMap_def, List.flatMap_def]
  refine congrArg List.flatten (List.map_congr_left fun j listed => ?_)
  rw [List.mem_range'_1] at listed
  rw [inflight j listed.1 (by omega), contexts j listed.1 (by omega)]

theorem State.Collected.congr {n : Nat} (collected : s.Collected steady q n)
    (buffer : (s'.replicas q).buffer = (s.replicas q).buffer)
    (inflight : (s'.replicas q).inflight = (s.replicas q).inflight)
    (contexts : (s'.replicas q).contexts = (s.replicas q).contexts) :
    s'.Collected steady q n := by
  obtain ⟨m, cover, same, batch, filled⟩ := collected
  refine ⟨m, cover, same, fun j above below => ?_, ?_⟩
  · rw [inflight, contexts]
    exact batch j above below
  · rw [batchOps_congr (s := s) (fun _ _ _ => by rw [inflight]) (fun _ _ _ => by rw [contexts]),
      buffer]
    exact filled

/-- An operation of the batch is the pending one of its thread. -/
theorem mem_batchOps (batch : s.Batch q lo hi) {op : Tagged WriteOp}
    (collected : op ∈ s.batchOps q lo hi) : ∃ j, lo ≤ j ∧ j < hi ∧ op.tid = j + 1 ∧
      op.call = ((s.replicas q).contexts j).comb := by
  rw [State.batchOps, List.mem_flatMap] at collected
  obtain ⟨j, listed, taken⟩ := collected
  rw [List.mem_range'_1] at listed
  refine ⟨j, listed.1, by omega, ?_⟩
  rcases batch j listed.1 (by omega) with none | ⟨one, _, op', cell, tid, call⟩
  · rw [none] at taken
    cases taken
  · rw [one, if_pos rfl, cell, Option.mem_toList] at taken
    cases taken
    exact ⟨tid, call⟩

/-- No operation is in a batch twice. -/
theorem nodup_batchOps (batch : s.Batch q 0 hi) :
    ((s.batchOps q 0 hi).map fun op => (op.tid, op.call)).Nodup := by
  induction hi with
  | zero =>
    rw [batchOps_self]
    exact List.nodup_nil
  | succ hi ih =>
    have below : s.Batch q 0 hi := fun j above lt => batch j above (Nat.lt_succ_of_lt lt)
    rw [batchOps_snoc s q (Nat.zero_le hi), List.map_append, List.nodup_append]
    refine ⟨ih below, ?_, ?_⟩
    · split
      · cases ((s.replicas q).contexts hi).op <;> simp
      · exact List.nodup_nil
    · intro key old key' last same
      subst same
      obtain ⟨op, collected, rfl⟩ := List.mem_map.mp old
      obtain ⟨j, _, lt, tid, _⟩ := mem_batchOps below collected
      obtain ⟨op', latest, same⟩ := List.mem_map.mp last
      rcases batch hi (Nat.zero_le hi) (Nat.lt_succ_self hi) with
        none | ⟨one, _, found, cell, at_, _⟩
      · rw [none] at latest
        cases latest
      · rw [one, if_pos rfl, cell, Option.mem_toList] at latest
        cases latest
        have := (Prod.mk.inj same).1
        omega

/-- `iter` yields the pending operation of a thread, if it has one. -/
theorem CallInv.iter {t : Thread} (inv : CallInv cfg s t) :
    ((s.context t).tail = (s.context t).comb ∧ (s.context t).iter = some []) ∨
      (s.context t).tail = (s.context t).comb + 1 ∧ ∃ op, (s.context t).op = some op ∧
        op.tid = t.tid ∧ op.call = (s.context t).comb ∧ (s.context t).iter = some [op] := by
  have ordered := inv.comb_le_tail
  have lower := inv.head_le_comb
  have upper := inv.tail_le
  rcases Nat.lt_or_ge (s.context t).comb (s.context t).tail with waiting | level
  · have one : (s.context t).tail = (s.context t).comb + 1 := by omega
    obtain ⟨op, cell, tid, call, _⟩ := inv.cell (by omega)
    refine .inr ⟨one, op, cell, tid, by omega, ?_⟩
    exact iter_of_pending (by omega) one cell
  · have same : (s.context t).tail = (s.context t).comb := by omega
    exact .inl ⟨same, iter_of_empty same⟩

section

variable (base : BaseInv cfg steady s)

include base

/-- A round starts with an empty buffer and no results. -/
theorem roundStep_loadNext (quiet : s.Quiet steady q) :
    RoundStep cfg steady s (s.setReplica q { s.replicas q with result := [], buffer := [] }) q
      (.goOn (.collectNext (s.replicas q).next)) := by
  refine .set base rfl rfl le_rfl rfl ?_ (by simp)
  refine ⟨quiet_setReplica rfl quiet, ?_, ?_, ?_⟩
  · rw [setReplica_same]
  · rw [setReplica_same]
  · rw [setReplica_same]

variable {n : Nat}

theorem roundStep_collectNext (holds : s.RoundInv cfg steady q (.collectNext n))
    (cover : steady → (s.replicas q).next = n) :
    RoundStep cfg steady s s q (.goOn (.collect n (s.replicas q).next 1)) := by
  obtain ⟨quiet, result, buffer, bound⟩ := holds
  refine .stay base ⟨quiet, result, le_rfl, base.next q, bound, fun holds => (cover holds).symm,
    ?_, ?_⟩
  · intro j _ below
    exact absurd below (Nat.not_lt_zero j)
  · rw [batchOps_self, buffer]

variable {i : Nat}

/-- The operations of one more context join the batch. -/
theorem roundStep_collect {m : Nat} (holds : s.RoundInv cfg steady q (.collect n m i))
    (inside : i < m) {ops : List (Tagged WriteOp)}
    (iterated : ((s.replicas q).contexts (i - 1)).iter = some ops) :
    RoundStep cfg steady s (s.setReplica q { s.replicas q with
        buffer := (s.replicas q).buffer ++ ops
        inflight := update (s.replicas q).inflight (i - 1) ops.length }) q
      (.goOn (.collect n m (i + 1))) := by
  obtain ⟨quiet, result, started, _, bound, cover, batch, buffer⟩ := holds
  have earlier : ∀ j, j < i - 1 →
      update (s.replicas q).inflight (i - 1) ops.length j = (s.replicas q).inflight j :=
    fun j below => update_of_ne (Nat.ne_of_lt below) ..
  have width : i + 1 - 1 = i - 1 + 1 := by omega
  have gathered := (base.calls ⟨q, i⟩ started).iter
  simp only [State.context, iterated] at gathered
  refine .set base rfl rfl le_rfl rfl ?_ (by simp)
  refine ⟨quiet_setReplica rfl quiet, ?_, by omega, by omega, bound, cover, ?_, ?_⟩
  · rw [setReplica_same]
    exact result
  · intro j _ below
    rw [setReplica_same]
    simp only
    rcases Nat.lt_or_ge j (i - 1) with old | new
    · rw [earlier j old]
      exact batch j (Nat.zero_le j) old
    · obtain rfl : j = i - 1 := by omega
      rw [update_self]
      rcases gathered with ⟨_, ⟨⟩⟩ | ⟨one, op, cell, tid, number, ⟨⟩⟩
      · exact .inl rfl
      · exact .inr ⟨rfl, one, op, cell, by omega, number⟩
  · rw [width, batchOps_snoc _ _ (Nat.zero_le _), setReplica_same]
    have same : (s.setReplica q { s.replicas q with
        buffer := (s.replicas q).buffer ++ ops
        inflight := update (s.replicas q).inflight (i - 1) ops.length }).batchOps q 0
          (i - 1) = s.batchOps q 0 (i - 1) := by
      refine batchOps_congr (fun j _ below => ?_) (fun j _ _ => ?_)
      · rw [setReplica_same]
        exact earlier j below
      · rw [setReplica_same]
    rw [same, buffer]
    refine congrArg (_ ++ ·) ?_
    simp only [update_self]
    rcases gathered with ⟨_, ⟨⟩⟩ | ⟨_, op, cell, _, _, ⟨⟩⟩
    · rfl
    · rw [cell]
      rfl

/-! ### Replaying -/

variable {log : Log.State (Tagged WriteOp)}

theorem roundStep_callAppend (holds : s.BeforeCall cfg steady q n .append)
    (taken : Log.step cfg.geometry s.log (.append q (s.replicas q).buffer) = some log) :
    RoundStep cfg steady s { s with log := log } q (.goOn (.replay n .append)) := by
  obtain ⟨quiet, result, collected⟩ := holds
  obtain ⟨executed, appended, pc⟩ := Log.append_spec taken
  have own : (s.responses cfg q).map Prod.fst = s.own q :=
    (map_fst_responses cfg s q).trans quiet.1
  refine .withLog (base.withLog taken executed ?_) taken rfl ?_
  · rw [appended]
    exact base.logged
  · refine ⟨collected, s.responses cfg q, [], ⟨?_, ?_, ?_⟩, .inl ⟨?_, ?_⟩⟩
    · rw [State.responses, executed, List.append_nil]
      rfl
    · rw [result]
      rfl
    · intro holds pair old
      refine quiet.2 holds pair.1 ?_
      rw [← own]
      exact List.mem_map_of_mem old
    · rw [State.own, appended]
      exact own.symm
    · simp only [pc]
      rfl

variable {waitingFor : Option Nat}

theorem roundStep_callExec (holds : s.BeforeCall cfg steady q n (.combineExec waitingFor))
    (taken : Log.step cfg.geometry s.log (.exec q) = some log) :
    RoundStep cfg steady s { s with log := log } q
      (.goOn (.replay n (.combineExec waitingFor))) := by
  obtain ⟨collected, past, new, executing, own⟩ := holds
  obtain ⟨executed, appended, pc⟩ := Log.exec_spec taken
  refine .withLog (base.withLog taken executed ?_) taken rfl ?_
  · rw [appended]
    exact base.logged
  · refine ⟨⟨collected, past, new, ⟨?_, executing.result, executing.answered⟩, ?_⟩, .inl ?_⟩
    · rw [State.responses, executed]
      exact executing.responses
    · rw [State.own, appended]
      exact own
    · simp only [pc]
      rfl

theorem roundStep_callSync (quiet : s.Quiet steady q)
    (taken : Log.step cfg.geometry s.log (.exec q) = some log) :
    RoundStep cfg steady s { s with log := log } q (.goOn (.replay n .replicaExec)) := by
  obtain ⟨executed, appended, pc⟩ := Log.exec_spec taken
  refine .withLog (base.withLog taken executed ?_) taken rfl ⟨⟨?_, ?_⟩, .inl ?_⟩
  · rw [appended]
    exact base.logged
  · rw [State.own, executed, appended]
    exact quiet.1
  · rw [State.own, appended]
    exact quiet.2
  · simp only [pc]
    rfl

/-- The operations of a batch have been issued by threads of the replica. -/
theorem issued_of_mem_batchOps {hi : Nat} (batch : s.Batch q 0 hi) {op : Tagged WriteOp}
    (collected : op ∈ s.batchOps q 0 hi) :
    1 ≤ op.tid ∧ (s.issued ⟨q, op.tid⟩)[op.call]? = some op.op := by
  rw [State.batchOps, List.mem_flatMap] at collected
  obtain ⟨j, listed, taken⟩ := collected
  rw [List.mem_range'_1] at listed
  rcases batch j listed.1 (by omega) with none | ⟨one, full, op', cell, tid, number⟩
  · rw [none] at taken
    cases taken
  · rw [one, if_pos rfl, cell, Option.mem_toList] at taken
    cases taken
    have call := base.calls ⟨q, j + 1⟩ (Nat.le_add_left 1 j)
    have context : s.context ⟨q, j + 1⟩ = (s.replicas q).contexts j := rfl
    have head_le := call.head_le_comb
    have tail_le := call.tail_le
    rw [context] at head_le tail_le
    obtain ⟨op', cell', _, number', issued⟩ := call.cell (by rw [context]; omega)
    rw [context, cell] at cell'
    cases cell'
    rw [← number'] at issued
    rw [tid]
    exact ⟨Nat.le_add_left 1 j, issued⟩

/-- A batch can be appended: none of its operations is in the log yet. -/
theorem logged_append_batch {past : List (Tagged WriteOp)} (logged : Logged steady s.issued q past)
    (answered : steady → ∀ op ∈ past, s.Answered q op) (collected : s.Collected steady q n) :
    Logged steady s.issued q (past ++ (s.replicas q).buffer) := by
  obtain ⟨m, _, _, batch, buffer⟩ := collected
  rw [buffer]
  refine ⟨fun op listed => ?_, fun always => ?_⟩
  · rcases List.mem_append.mp listed with old | new
    · exact logged.issued op old
    · exact issued_of_mem_batchOps base batch new
  rw [List.map_append, List.nodup_append]
  refine ⟨logged.once always, nodup_batchOps batch, ?_⟩
  intro key old key' new same
  subst same
  obtain ⟨op, earlier, rfl⟩ := List.mem_map.mp old
  obtain ⟨op', later, same⟩ := List.mem_map.mp new
  obtain ⟨j, _, _, tid, call⟩ := mem_batchOps batch later
  have before := answered always op earlier
  obtain ⟨sameTid, sameCall⟩ := Prod.mk.inj same
  rw [State.Answered, ← sameTid, tid, Nat.add_sub_cancel, ← call] at before
  omega

omit base in
theorem State.Executing.withLog {extra : List Resp} {past new : List (Tagged WriteOp × Resp)}
    (executing : s.Executing cfg steady q extra past new)
    (executed : log.executed = s.log.executed) :
    ({ s with log := log } : State D ReadOp WriteOp Resp).Executing cfg steady q extra past new :=
  ⟨by rw [State.responses, executed]; exact executing.responses, executing.result,
    executing.answered⟩

theorem appending_access {extra : List Resp} (holds : s.Appending cfg steady q n extra)
    (accessed : Log.stepReplica cfg.geometry s.log q = some log)
    (sound : ∀ why, log.pc q ≠ .panicked why) (executed : log.executed = s.log.executed) :
    ({ s with log := log } : State D ReadOp WriteOp Resp).Appending cfg steady q n extra ∧
      Logged steady s.issued q (ownOps q log.appended) := by
  have batch := (Log.access_of_stepReplica accessed).batch sound
  have busy := Log.free_of_stepReplica accessed
  obtain ⟨collected, past, new, executing, stage⟩ := holds
  have still := executing.withLog executed
  have logged := base.logged q
  simp only [State.own] at stage logged
  rcases stage with ⟨own, waits⟩ | ⟨own, reserved, _⟩ | ⟨_, stuck, failed⟩
  · rcases batch with ⟨same, unreserved, _⟩ | ⟨same, failed, _⟩ |
      ⟨ops, unreserved, more, rest, goesOn⟩
    · rw [same]
      exact ⟨⟨collected, past, new, still, .inl ⟨same.trans own, unreserved.trans waits⟩⟩, logged⟩
    · rw [same]
      exact ⟨⟨collected, past, new, still, .inr (.inr ⟨same.trans own, failed⟩)⟩, logged⟩
    · obtain rfl : ops = (s.replicas q).buffer := Option.some.inj (unreserved.symm.trans waits)
      rw [own] at more
      refine ⟨⟨collected, past, new, still, .inr (.inl ⟨more, rest, goesOn⟩)⟩, ?_⟩
      rw [more]
      refine logged_append_batch base (own ▸ logged) (fun holds op old => ?_) collected
      obtain ⟨pair, listed, rfl⟩ := List.mem_map.mp old
      exact executing.answered holds pair listed
  · rcases batch with ⟨same, unreserved, goesOn⟩ | ⟨_, _, waits⟩ | ⟨ops, unreserved, _⟩
    · rw [same]
      exact ⟨⟨collected, past, new, still,
        .inr (.inl ⟨same.trans own, unreserved.trans reserved, goesOn⟩)⟩, logged⟩
    · exact absurd reserved waits
    · rw [reserved] at unreserved
      cases unreserved
  · rw [failed] at busy
    cases busy

omit base in
theorem replays_access (replays : (s.log.pc q).replays = true ∨ s.log.pc q = .idle)
    (accessed : Log.stepReplica cfg.geometry s.log q = some log)
    (sound : ∀ why, log.pc q ≠ .panicked why) :
    ownOps q log.appended = ownOps q s.log.appended ∧
      ((log.pc q).replays = true ∨ log.pc q = .idle) := by
  have access := Log.access_of_stepReplica accessed
  have busy := Log.free_of_stepReplica accessed
  rcases replays with own | idle
  · have reserved := Log.unreserved_of_replays own
    refine ⟨?_, access.replays sound own⟩
    rcases access.batch sound with ⟨same, _⟩ | ⟨same, _⟩ | ⟨ops, unreserved, _⟩
    · exact same
    · exact same
    · rw [reserved] at unreserved
      cases unreserved
  · rw [idle] at busy
    cases busy

variable {f : Closure}

theorem inCall_access {extra : List Resp} (holds : s.InCall cfg steady q n extra f)
    (accessed : Log.stepReplica cfg.geometry s.log q = some log)
    (sound : ∀ why, log.pc q ≠ .panicked why) (executed : log.executed = s.log.executed) :
    ({ s with log := log } : State D ReadOp WriteOp Resp).InCall cfg steady q n extra f ∧
      Logged steady s.issued q (ownOps q log.appended) := by
  cases f with
  | append => exact appending_access base holds accessed sound executed
  | combineExec waitingFor =>
    obtain ⟨⟨collected, past, new, executing, own⟩, replays⟩ := holds
    obtain ⟨same, goesOn⟩ := replays_access replays accessed sound
    refine ⟨⟨⟨collected, past, new, executing.withLog executed, same.trans own⟩, goesOn⟩, ?_⟩
    rw [same]
    exact base.logged q
  | replicaExec =>
    obtain ⟨quiet, replays⟩ := holds
    obtain ⟨same, goesOn⟩ := replays_access replays accessed sound
    refine ⟨⟨⟨?_, fun holds op mine => ?_⟩, goesOn⟩, ?_⟩
    · rw [State.own, executed, same]
      exact quiet.1
    · rw [State.own, same] at mine
      exact quiet.2 holds op mine
    · rw [same]
      exact base.logged q

section

variable {log : Log.State (Tagged WriteOp)} {call : Tagged WriteOp × Bool}
  (taken : Log.step cfg.geometry s.log (.access q) = some log)
  (executed : log.executed =
    update s.log.executed q (s.log.executed q ++ [call]))
  (appended : log.appended = s.log.appended)

omit base

include executed in
theorem executed_executes : (s.executes cfg q log call.1).log.executed q =
    s.log.executed q ++ [call] := by
  simp only [State.executes]
  rw [executed, update_self]

include taken in
theorem kept_executes {q' : Nat} (other : q' ≠ q) : Kept s (s.executes cfg q log call.1) q' := by
  have same : (s.executes cfg q log call.1).replicas q' = s.replicas q' :=
    replica_executes_of_ne s log _ other
  have apart : (Log.Event.access q : Log.Event (Tagged WriteOp)).replica ≠ some q' :=
    fun equal => other (Option.some.inj equal).symm
  exact ⟨Log.executed_of_step taken apart, Log.ownOps_of_step taken apart,
    Log.pc_of_step taken apart, by rw [same], by rw [same], by rw [same], by rw [same],
    fun j => by rw [same], fun j _ => by rw [same]; exact ⟨rfl, rfl⟩⟩

include taken executed appended in
theorem BaseInv.executes (base : BaseInv cfg steady s) :
    BaseInv cfg steady (s.executes cfg q log call.1) where
  reached := base.reached.step (e := .access q) taken
  data := by
    intro q'
    by_cases same : q' = q
    · subst same
      rw [replica_executes, executed_executes executed, replayData_snoc, ← base.data]
    · rw [replica_executes_of_ne s log _ same]
      simp only [State.executes]
      rw [executed, update_of_ne same]
      exact base.data q'
  next := forall_setReplica (P := fun _ r => 1 ≤ r.next) (base.next q) base.next
  calls := by
    intro t token
    refine (base.calls t token).mono (context_setReplica (by rfl) t) rfl rfl rfl ?_
      (Log.ctail_le_of_step taken)
    simp only [State.executes]
    rw [executed]
    by_cases same : t.replica = q
    · rw [same, update_self]
      exact List.prefix_append _ _
    · rw [update_of_ne same]
  logged := by
    intro q'
    simp only [State.own, State.executes]
    rw [appended]
    exact base.logged q'

include executed in
theorem responses_executes (base : BaseInv cfg steady s) :
    (s.executes cfg q log call.1).responses cfg q = s.responses cfg q ++
      if call.2 then [(call.1, (cfg.ds.dispatchMut (s.replicas q).data call.1.op).2)] else [] := by
  rw [State.responses, executed_executes executed, ownResponses_append, ← base.data]
  rfl

include executed in
theorem executing_executes (base : BaseInv cfg steady s) {past new : List (Tagged WriteOp × Resp)}
    (executing : s.Executing cfg steady q [] past new) :
    (s.executes cfg q log call.1).Executing cfg steady q
      (if call.2 then [(cfg.ds.dispatchMut (s.replicas q).data call.1.op).2] else []) past
      (new ++ if call.2 then [(call.1, (cfg.ds.dispatchMut (s.replicas q).data call.1.op).2)]
        else []) where
  responses := by
    rw [responses_executes executed base, executing.responses, List.append_assoc]
  result := by
    have result := executing.result
    rw [List.append_nil] at result
    rw [replica_executes, List.map_append, ← result]
    cases call.2 <;> rfl
  answered := by
    intro holds pair old
    have before := executing.answered holds pair old
    rw [State.Answered, replica_executes]
    exact before

theorem collected_executes {n : Nat} (collected : s.Collected steady q n) :
    (s.executes cfg q log call.1).Collected steady q n :=
  collected.congr (by rw [replica_executes]) (by rw [replica_executes])
    (by rw [replica_executes])

include taken executed appended in
/-- Outside of a combining round the log has no operation of the replica to execute. -/
theorem not_mine_of_quiet (base : BaseInv cfg steady s) (quiet : s.Quiet steady q) :
    call.2 = false := by
  have reached : (Log.system cfg.geometry _).Reachable log :=
    base.reached.step (e := .access q) taken
  have longer := (Log.mineOps_initial reached q).length_le
  rw [executed, update_self, appended, Log.mineOps_append, quiet.1, List.length_append,
    State.own] at longer
  cases mine : call.2 with
  | false => rfl
  | true =>
    have one : (mineOps [call]).length = 1 := by
      simp [mineOps, mine]
    omega

include taken executed appended in
/-- The replica executes the operation the log hands it. -/
theorem roundStep_executes (base : BaseInv cfg steady s) {n : Nat} {f : Closure}
    (holds : s.InCall cfg steady q n [] f)
    (unreserved : (log.pc q).unreserved = (s.log.pc q).unreserved)
    (replays : (log.pc q).replays = (s.log.pc q).replays)
    (goesOn : ∀ stuck, log.pc q ≠ .returned (.err stuck)) (busy : (s.log.pc q).free = false) :
    RoundStep cfg steady s (s.executes cfg q log call.1) q
      (afterDispatch n f (cfg.ds.dispatchMut (s.replicas q).data call.1.op).2 call.2) := by
  have own : (s.executes cfg q log call.1).own q = s.own q := by
    rw [State.own, State.executes, appended]
    rfl
  have buffer : ((s.executes cfg q log call.1).replicas q).buffer = (s.replicas q).buffer := by
    rw [replica_executes]
  have stays : (s.log.pc q).replays = true ∨ s.log.pc q = .idle → (log.pc q).replays = true := by
    rintro (own | idle)
    · rw [replays]
      exact own
    · rw [idle] at busy
      cases busy
  have rest : ∀ next : RoundNext Resp, next.releases = false → (∀ reason, next ≠ .panic reason) →
      (s.executes cfg q log call.1).StandingInv cfg steady q next.standing →
      RoundStep cfg steady s (s.executes cfg q log call.1) q next := by
    intro next keeps safe here
    refine ⟨rfl, rfl, rfl, base.executes taken executed appended, here,
      fun _ other => kept_executes taken other, ?_, safe⟩
    intro q'
    rw [keeps, if_neg (by simp)]
    exact setReplica_field (·.combiner) (by rfl) q'
  cases f with
  | append =>
    obtain ⟨collected, past, new, executing, stage⟩ := holds
    refine rest _ rfl (by simp [afterDispatch]) ⟨⟨collected_executes collected, past, _,
      executing_executes executed base executing, ?_⟩, by simp⟩
    rw [own, buffer]
    rcases stage with ⟨before, waits⟩ | ⟨after, reserved, _⟩ | ⟨_, stuck, failed⟩
    · exact .inl ⟨before, unreserved.trans waits⟩
    · exact .inr (.inl ⟨after, unreserved.trans reserved, goesOn⟩)
    · rw [failed] at busy
      cases busy
  | combineExec waitingFor =>
    obtain ⟨⟨collected, past, new, executing, after⟩, replaying⟩ := holds
    refine rest _ rfl (by simp [afterDispatch]) ⟨⟨⟨collected_executes collected, past, _,
      executing_executes executed base executing, ?_⟩, .inl (stays replaying)⟩, by simp⟩
    rw [own, buffer]
    exact after
  | replicaExec =>
    obtain ⟨quiet, replaying⟩ := holds
    have foreign := not_mine_of_quiet taken executed appended base quiet
    rw [foreign]
    refine rest _ rfl (by simp [afterDispatch]) ⟨⟨?_, fun holds op mine => ?_⟩,
      .inl (stays replaying)⟩
    · have none : mineOps [call] = [] := by
        simp [mineOps, foreign]
      rw [own, executed_executes executed, Log.mineOps_append, none, List.append_nil]
      exact quiet.1
    · rw [State.Answered, replica_executes]
      exact quiet.2 holds op (own ▸ mine)

end

/-! ### The end of a call -/

/-- Once `exec` returns there is a response for every operation of the batch. -/
theorem delivering_of_replaying (holds : s.Replaying cfg steady q n [])
    (free : (s.log.pc q).free = true) : s.Delivering cfg steady q n 1 0 := by
  obtain ⟨⟨⟨m, cover, same, batch, buffer⟩, past, new, executing, own⟩, replays⟩ := holds
  have idle : s.log.pc q = .idle := by
    rcases replays with running | idle
    · cases pc : s.log.pc q <;> rw [pc] at running free <;> first | rfl | cases running | cases free
    · exact idle
  have all := Log.mineOps_of_idle base.reached q idle
  have names := map_fst_responses cfg s q
  rw [executing.responses, all, List.map_append] at names
  have result := executing.result
  rw [List.append_nil] at result
  refine ⟨idle, le_rfl, ⟨m, cover, same, batch, buffer, ?_⟩, past, new, executing.responses,
    result.symm, ?_⟩
  · intro holds op mine
    rw [own, List.mem_append] at mine
    rcases mine with old | new
    · obtain ⟨pair, listed, rfl⟩ := List.mem_map.mp old
      exact .inl (executing.answered holds pair listed)
    · exact .inr (buffer ▸ new)
  · exact List.append_cancel_left (names.trans own)

theorem afterCall_of_inCall (holds : s.InCall cfg steady q n [] f)
    (free : (s.log.pc q).free = true) : s.AfterCall cfg steady q n f := by
  cases f with
  | append => exact holds
  | combineExec waitingFor => exact delivering_of_replaying base holds free
  | replicaExec => exact holds.1

/-- An `append` that fails has appended nothing. -/
theorem quiet_of_failed {stuck : Nat} (holds : s.Appending cfg steady q n [])
    (failed : s.log.pc q = .returned (.err stuck)) : s.Quiet steady q := by
  obtain ⟨_, past, new, executing, stage⟩ := holds
  have own : s.own q = past.map Prod.fst := by
    rcases stage with ⟨own, _⟩ | ⟨_, _, goesOn⟩ | ⟨own, _⟩
    · exact own
    · exact absurd failed (goesOn stuck)
    · exact own
  have names := map_fst_responses cfg s q
  have bounded := (Log.mineOps_initial base.reached q).length_le
  rw [executing.responses, List.map_append] at names
  refine ⟨?_, fun holds op mine => ?_⟩
  · rw [State.own] at own
    rw [← names, own, List.length_append] at bounded
    have none : new.map Prod.fst = [] := List.eq_nil_of_length_eq_zero (by omega)
    rw [← names, none, List.append_nil, State.own, own]
  · rw [own] at mine
    obtain ⟨pair, listed, rfl⟩ := List.mem_map.mp mine
    exact executing.answered holds pair listed

omit base in
theorem appended_of_returned (holds : s.Appending cfg steady q n [])
    (returned : s.log.pc q = .returned (.ok waitingFor)) : s.Appended cfg steady q n [] := by
  obtain ⟨collected, past, new, executing, stage⟩ := holds
  refine ⟨collected, past, new, executing, ?_⟩
  rcases stage with ⟨_, waits⟩ | ⟨own, _⟩ | ⟨_, stuck, failed⟩
  · rw [returned] at waits
    cases waits
  · exact own
  · rw [returned] at failed
    cases failed

theorem roundStep_writeUnlock {next : RoundNext Resp} (holds : s.AfterCall cfg steady q n f)
    (goes : afterWriteUnlock (s.log.pc q) n f = some next) :
    RoundStep cfg steady s (s.setReplica q { s.replicas q with wlock := false }) q next := by
  cases f with
  | append =>
    simp only [afterWriteUnlock] at goes
    split at goes
    · rename_i waitingFor returned
      cases goes
      exact .keep base rfl rfl (·.appended (appended_of_returned holds returned)) (by simp)
    · rename_i stuck failed
      cases goes
      exact .keep base rfl rfl (·.quiet (quiet_of_failed base holds failed)) (by simp)
    · cases goes
  | combineExec waitingFor =>
    cases goes
    exact .keep base rfl rfl (·.delivering holds) (by simp)
  | replicaExec =>
    cases goes
    exact .keep base rfl rfl (fun kept => ⟨kept.quiet holds, by simp⟩) (by simp)

variable {resp : Resp}

/-- The response to an own operation joins the results. -/
theorem roundStep_push (holds : s.InCall cfg steady q n [resp] f) (combines : f ≠ .replicaExec) :
    RoundStep cfg steady s (s.setReplica q { s.replicas q with
      result := (s.replicas q).result ++ [resp] }) q (.goOn (.replay n f)) := by
  have pushed : ∀ {past new}, s.Executing cfg steady q [resp] past new →
      (s.setReplica q { s.replicas q with
        result := (s.replicas q).result ++ [resp] }).Executing cfg steady q [] past new := by
    intro past new executing
    refine ⟨executing.responses, ?_, fun holds pair old => ?_⟩
    · rw [setReplica_same, List.append_nil]
      exact executing.result
    · exact (answered_setReplica (by rfl) _).mpr (executing.answered holds pair old)
  have collected : s.Collected steady q n → (s.setReplica q { s.replicas q with
      result := (s.replicas q).result ++ [resp] }).Collected steady q n :=
    fun collected => collected.congr (by rw [setReplica_same]) (by rw [setReplica_same])
      (by rw [setReplica_same])
  have buffer : ((s.setReplica q { s.replicas q with
      result := (s.replicas q).result ++ [resp] }).replicas q).buffer =
        (s.replicas q).buffer := by
    rw [setReplica_same]
  refine .set base rfl rfl le_rfl rfl ?_ (by simp)
  cases f with
  | append =>
    obtain ⟨batch, past, new, executing, stage⟩ := holds
    refine ⟨collected batch, past, new, pushed executing, ?_⟩
    rw [buffer]
    exact stage
  | combineExec waitingFor =>
    obtain ⟨⟨batch, past, new, executing, own⟩, replays⟩ := holds
    refine ⟨⟨collected batch, past, new, pushed executing, ?_⟩, replays⟩
    rw [buffer]
    exact own
  | replicaExec => exact absurd rfl combines

/-! ### Delivering -/

variable {first : Nat}

omit base in
theorem delivering_skip (holds : s.Delivering cfg steady q n i first) (inside : i < n)
    (none : (s.replicas q).inflight (i - 1) = 0) : s.Delivering cfg steady q n (i + 1) first := by
  have started := holds.started
  have width : i + 1 - 1 = i - 1 + 1 := by omega
  refine ⟨holds.idle, by omega, ?_, holds.responses⟩
  obtain ⟨m, cover, same, batch, rest, answered⟩ := holds.batch
  have here : s.batchOps q (i - 1) (m - 1) = s.batchOps q (i + 1 - 1) (m - 1) := by
    rw [batchOps_cons s q (by omega), none, width]
    rfl
  refine ⟨m, cover, same, fun j above below => batch j (by omega) below, ?_, ?_⟩
  · rw [rest, here]
  · rw [← here]
    exact answered

/-- The replica once thread `i` has its response. -/
def ReplicaState.answer (r : ReplicaState D WriteOp Resp) (i : Nat) (resp : Resp) :
    ReplicaState D WriteOp Resp :=
  { r with
    contexts := update r.contexts (i - 1) ((r.contexts (i - 1)).enqueueResp resp)
    inflight := update r.inflight (i - 1) 0 }

omit base in
theorem contexts_answer (r : ReplicaState D WriteOp Resp) (i : Nat) (resp : Resp) :
    (r.answer i resp).contexts (i - 1) = (r.contexts (i - 1)).enqueueResp resp :=
  update_self ..

omit base in
theorem contexts_answer_of_ne {r : ReplicaState D WriteOp Resp} {j : Nat} (other : j ≠ i - 1) :
    (r.answer i resp).contexts j = r.contexts j :=
  update_of_ne other ..

omit base in
theorem inflight_answer_of_ne {r : ReplicaState D WriteOp Resp} {j : Nat} (other : j ≠ i - 1) :
    (r.answer i resp).inflight j = r.inflight j :=
  update_of_ne other ..

omit base in
theorem comb_answer (r : ReplicaState D WriteOp Resp) (i : Nat) (resp : Resp) (j : Nat) :
    (r.contexts j).comb ≤ ((r.answer i resp).contexts j).comb := by
  by_cases same : j = i - 1
  · rw [same, contexts_answer]
    exact Nat.le_succ _
  · rw [contexts_answer_of_ne same]

/-- The thread finds the response to its own operation in its context. -/
theorem callInv_answer (started : 1 ≤ i) {op : Tagged WriteOp}
    (full : ((s.replicas q).contexts (i - 1)).tail = ((s.replicas q).contexts (i - 1)).comb + 1)
    (cell : ((s.replicas q).contexts (i - 1)).op = some op) (completed : s.Completed cfg q op resp)
    (t : Thread) (token : 1 ≤ t.tid) :
    CallInv cfg (s.setReplica q ((s.replicas q).answer i resp)) t := by
  have inv := base.calls t token
  by_cases mine : t = ⟨q, i⟩
  · subst mine
    have lower := inv.head_le_comb
    have upper := inv.tail_le
    have context : (s.setReplica q ((s.replicas q).answer i resp)).context ⟨q, i⟩ =
        (s.context ⟨q, i⟩).enqueueResp resp := by
      rw [State.context, setReplica_same, contexts_answer]
      rfl
    have fullHere : (s.context ⟨q, i⟩).tail = (s.context ⟨q, i⟩).comb + 1 := full
    refine ⟨?_, ?_, ?_, ?_, ?_, ?_, ?_, ?_, ?_, inv.answers⟩
    · rw [context]
      exact lower.trans (Nat.le_succ _)
    · rw [context]
      exact fullHere.ge
    · rw [context]
      exact upper
    · rw [context]
      exact inv.pending
    · rw [context, op_enqueueResp]
      exact inv.cell
    · rw [context]
      exact inv.issued
    · rw [context]
      exact inv.enqueues
    · rw [context, op_enqueueResp, resp_enqueueResp resp (by omega)]
      exact fun _ => ⟨op, resp, cell, rfl, completed⟩
    · rw [context]
      exact inv.received
  · have context : (s.setReplica q ((s.replicas q).answer i resp)).context t = s.context t := by
      unfold State.context
      by_cases same : t.replica = q
      · have other : t.tid - 1 ≠ i - 1 := by
          intro equal
          refine mine ?_
          obtain ⟨replica, tid⟩ := t
          simp only at same token equal
          rw [same, show tid = i by omega]
        rw [same, setReplica_same, contexts_answer_of_ne other]
      · rw [setReplica_of_ne s _ same]
    exact inv.mono context rfl rfl rfl (List.prefix_refl _) le_rfl

/-- The next results are those of the operations collected from context `i`. -/
theorem roundStep_answer (waitingFor : Option Nat) (holds : s.Delivering cfg steady q n i first)
    (inside : i < n) (some_ : (s.replicas q).inflight (i - 1) ≠ 0) :
    ∃ resp, (s.replicas q).inflight (i - 1) = 1 ∧ first + 1 ≤ (s.replicas q).result.length ∧
      ((s.replicas q).result.drop first).take 1 = [resp] ∧
      RoundStep cfg steady s (s.setReplica q ((s.replicas q).answer i resp)) q
        (.goOn (.deliver n (i + 1) (first + 1) waitingFor)) := by
  have started := holds.started
  have width : i + 1 - 1 = i - 1 + 1 := by omega
  obtain ⟨m, cover, same, batch, rest, answered⟩ := holds.batch
  obtain ⟨past, new, responses, result, buffer⟩ := holds.responses
  obtain ⟨one, full, op, cell, tid, number⟩ :=
    (batch (i - 1) le_rfl (by omega)).resolve_left some_
  -- the operation of the thread is the next one of the batch
  have head : (s.replicas q).buffer.drop first = op :: s.batchOps q i (m - 1) := by
    rw [rest, batchOps_cons s q (by omega), one, if_pos rfl, cell,
      show i - 1 + 1 = i by omega]
    rfl
  have position : first < new.length := by
    have nonempty : 0 < ((s.replicas q).buffer.drop first).length := by
      rw [head]
      exact Nat.succ_pos _
    rw [List.length_drop, ← buffer, List.length_map] at nonempty
    omega
  have named : new[first].1 = op := by
    have at_ : ((s.replicas q).buffer.drop first)[0]? = some op := by
      rw [head]
      rfl
    rw [List.getElem?_drop, Nat.add_zero, ← buffer, List.getElem?_map,
      List.getElem?_eq_getElem position] at at_
    exact Option.some.inj at_
  have completed : s.Completed cfg q op new[first].2 := by
    have whole : (s.log.executed q).take s.log.ctail = s.log.executed q :=
      List.take_of_length_le (Log.length_executed_le_ctail base.reached q holds.idle)
    rw [State.Completed, whole]
    have listed : new[first] ∈ s.responses cfg q := by
      rw [responses]
      exact List.mem_append_right _ (List.getElem_mem position)
    rw [← named]
    exact listed
  have slice : ((s.replicas q).result.drop first).take 1 = [new[first].2] := by
    rw [← result, List.drop_eq_getElem_cons (by rwa [List.length_map]), List.take_succ_cons,
      List.take_zero, List.getElem_map]
  refine ⟨new[first].2, one, ?_, slice, ?_⟩
  · rw [← result, List.length_map]
    omega
  · have later : ∀ j, i + 1 - 1 ≤ j → j ≠ i - 1 := by
      intro j above
      omega
    have sameOps : (s.setReplica q ((s.replicas q).answer i new[first].2)).batchOps q (i + 1 - 1)
        (m - 1) = s.batchOps q i (m - 1) := by
      have from_ : i + 1 - 1 = i := by omega
      rw [from_]
      refine batchOps_congr (fun j above below => ?_) (fun j above below => ?_)
      · rw [setReplica_same, inflight_answer_of_ne (by omega)]
      · rw [setReplica_same, contexts_answer_of_ne (by omega)]
    refine ⟨rfl, rfl, rfl, ?_, ⟨holds.idle, by omega, ⟨m, cover, same, ?_, ?_, ?_⟩, ?_⟩, ?_, ?_,
      by simp⟩
    · refine ⟨base.reached, ?_, ?_, callInv_answer base started full cell completed, base.logged⟩
      · exact forall_setReplica (P := fun q' r => r.data = replayData cfg cfg.data _)
          (base.data q) base.data
      · exact forall_setReplica (P := fun _ r => 1 ≤ r.next) (base.next q) base.next
    · intro j above below
      rw [setReplica_same, contexts_answer_of_ne (later j above),
        inflight_answer_of_ne (later j above)]
      exact batch j (by omega) below
    · rw [sameOps, setReplica_same, ReplicaState.answer, ← List.drop_drop, head]
      rfl
    · intro holds op' mine
      rw [sameOps, State.Answered, setReplica_same]
      have more := comb_answer (s.replicas q) i new[first].2 (op'.tid - 1)
      rcases answered holds op' mine with before | listed
      · exact .inl (Nat.lt_of_lt_of_le before more)
      · rw [← rest, head, List.mem_cons] at listed
        rcases listed with rfl | waits
        · refine .inl ?_
          rw [tid, Nat.add_sub_cancel, contexts_answer, number]
          exact Nat.lt_succ_self _
        · exact .inr waits
    · exact ⟨past, new, responses, by rw [setReplica_same]; exact result,
        by rw [setReplica_same]; exact buffer⟩
    · exact fun _ other => kept_setReplica_of_ne _ other
    · intro q'
      rw [if_neg (by simp [RoundNext.releases])]
      exact setReplica_field (·.combiner) (by rfl) q'

/-- When the round ends every operation of the batch is answered. -/
theorem quiet_of_delivered (holds : s.Delivering cfg steady q n i first) (outside : ¬ i < n) :
    s.Quiet steady q := by
  refine ⟨Log.mineOps_of_idle base.reached q holds.idle, fun holds' op mine => ?_⟩
  obtain ⟨m, _, same, _, _, answered⟩ := holds.batch
  have none : s.batchOps q (i - 1) (m - 1) = [] := by
    rw [State.batchOps, show m - 1 - (i - 1) = 0 by have := same holds'; omega]
    rfl
  refine (answered holds' op mine).resolve_right ?_
  rw [none]
  exact List.not_mem_nil

theorem roundStep_deliver (holds : s.Delivering cfg steady q n i first) :
    RoundStep cfg steady s (deliverStep s q n i first waitingFor).1 q
      (deliverStep s q n i first waitingFor).2 := by
  unfold deliverStep
  simp only
  split
  · rename_i inside
    split
    · rename_i none
      exact .stay base (delivering_skip holds inside none)
    · rename_i some_
      obtain ⟨resp, one, enough, slice, step⟩ :=
        roundStep_answer base waitingFor holds inside some_
      rw [if_pos (by rw [one]; exact enough), one, slice]
      exact step
  · rename_i outside
    refine .stay base ⟨quiet_of_delivered base holds outside, ?_⟩
    cases waitingFor <;> simp

variable {out : State D ReadOp WriteOp Resp × RoundNext Resp}

theorem roundStep_replay (holds : s.InCall cfg steady q n [] f)
    (taken : replayStep cfg s q n f = some out) : RoundStep cfg steady s out.1 q out.2 := by
  unfold replayStep at taken
  split at taken
  · rename_i free
    cases taken
    exact .stay base (afterCall_of_inCall base holds free)
  · rename_i busy
    obtain ⟨log, stepped, rfl⟩ := Option.map_eq_some_iff.mp taken
    have reached : (Log.system cfg.geometry _).Reachable log :=
      base.reached.step (e := .access q) stepped
    obtain ⟨registered, accessed⟩ : q < cfg.geometry.replicas ∧
        Log.stepReplica cfg.geometry s.log q = some log := by
      simp only [Log.step] at stepped
      split at stepped
      · exact ⟨‹_›, stepped⟩
      · cases stepped
    have sound := Log.not_panicked reached q
    have access := Log.access_of_stepReplica accessed
    rcases access.calls with same | ⟨call, executed, appended, unreserved, replays, goesOn⟩
    · have none : newCall s.log log q = none := by
        rw [newCall, same]
        exact List.getElem?_eq_none le_rfl
      obtain ⟨still, logged⟩ := inCall_access base holds accessed sound same
      rw [none]
      refine .withLog (base.withLog stepped same fun q' => ?_) stepped rfl still
      by_cases here : q' = q
      · subst here
        exact logged
      · rw [access.ownOps_of_ne here]
        exact base.logged q'
    · have called : newCall s.log log q = some call := by
        rw [newCall, executed, update_self, List.getElem?_concat_length]
      rw [called]
      exact roundStep_executes stepped executed appended base holds unreserved replays goesOn
        (Bool.eq_false_iff.mpr busy)

/-- **One access of a combiner.** -/
theorem roundStep_of_stepRound {round : Round Resp} (holds : s.RoundInv cfg steady q round)
    (cover : steady → ∀ n, round = .collectNext n → (s.replicas q).next = n)
    (taken : stepRound cfg s q round = some out) : RoundStep cfg steady s out.1 q out.2 := by
  cases round with
  | loadNext combines =>
    cases combines with
    | true =>
      cases taken
      exact roundStep_loadNext base holds
    | false =>
      cases taken
      exact .stay base holds
  | collectNext n =>
    cases taken
    exact roundStep_collectNext base holds fun steady => cover steady n rfl
  | collect n m i =>
    simp only [stepRound] at taken
    split at taken
    · rename_i inside
      split at taken
      · rename_i ops iterated
        cases taken
        exact roundStep_collect base holds inside iterated
      · rename_i failed
        have call := (base.calls ⟨q, i⟩ holds.2.2.1).iter
        simp only [State.context] at call
        rcases call with ⟨_, none⟩ | ⟨_, op, _, _, _, one⟩
        · rw [none] at failed
          cases failed
        · rw [one] at failed
          cases failed
    · rename_i outside
      cases taken
      obtain ⟨quiet, result, _, inside, bound, same, batch, buffer⟩ := holds
      obtain rfl : i = m := by omega
      exact .stay base ⟨quiet, result, i, bound, same, batch, buffer⟩
  | writeLock n f =>
    simp only [stepRound] at taken
    split at taken <;> cases taken
    · exact .stay base holds
    · exact .keep base rfl rfl (·.beforeCall holds) (by simp)
  | writeScan n f j =>
    simp only [stepRound] at taken
    split at taken
    · split at taken <;> cases taken
      · exact .stay base holds
      · exact .stay base holds
    · cases taken
      exact .stay base holds
  | call n f =>
    cases f with
    | append =>
      obtain ⟨log, stepped, rfl⟩ := Option.map_eq_some_iff.mp taken
      exact roundStep_callAppend base holds stepped
    | combineExec waitingFor =>
      obtain ⟨log, stepped, rfl⟩ := Option.map_eq_some_iff.mp taken
      exact roundStep_callExec base holds stepped
    | replicaExec =>
      obtain ⟨log, stepped, rfl⟩ := Option.map_eq_some_iff.mp taken
      exact roundStep_callSync base holds stepped
  | replay n f => exact roundStep_replay base holds taken
  | clearLoad n f resp mine j =>
    simp only [stepRound] at taken
    split at taken
    · split at taken <;> cases taken
      · exact .stay base holds
      · exact .stay base holds
    · cases taken
      exact .stay base holds
  | clearStore n f resp mine j =>
    cases taken
    exact .keep base rfl rfl (fun kept => ⟨kept.inCall holds.1, holds.2⟩) (by simp)
  | closureEnd n f resp mine =>
    cases taken
    cases mine with
    | true => exact roundStep_push base holds.1 holds.2
    | false =>
      simp only [Bool.false_eq_true, if_false]
      split
      · exact .keep base rfl rfl (·.inCall holds.1) (by simp)
      · exact .keep base rfl rfl (·.inCall holds.1) (by simp)
  | writeUnlock n f =>
    obtain ⟨next, goes, rfl⟩ := Option.map_eq_some_iff.mp taken
    exact roundStep_writeUnlock base holds goes
  | deliver n i first waitingFor =>
    cases taken
    exact roundStep_deliver base holds
  | unlock outcome =>
    cases taken
    refine .keep base rfl ?_ (·.quiet holds.1) (by simp)
    cases outcome with
    | ok => rfl
    | gcFailed stuck => rfl
    | noLogSpace stuck => exact absurd rfl (holds.2 stuck)

end

end Megalon.Nr
