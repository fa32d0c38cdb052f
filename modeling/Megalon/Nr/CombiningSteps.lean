import Megalon.Nr.CombiningRounds

/-!
Contract: the invariant of flat combining holds in every reachable state.

Owns: what the continuations of a thread keep of its locks and its call, one lemma per kind of
access outside rounds, and the run lemma.

Does not own: the accesses of rounds.
-/

namespace Megalon.Nr

open Function Foundations
open Log (mineOps ownOps)

variable {D ReadOp WriteOp Resp : Type} {cfg : Config D ReadOp WriteOp Resp} {steady : Prop}
  {s s' : State D ReadOp WriteOp Resp} {t : Thread}
  {pc pc' : ThreadPc ReadOp WriteOp Resp}

/-! ### Continuations -/

/-- The thread is in no round, and has no operation to enqueue. -/
def ThreadPc.outside : ThreadPc ReadOp WriteOp Resp → Bool
  | .combine _ _ | .sync _ _ _ | .enqueue _ => false
  | _ => true

theorem ne_enqueue_of_outside (outside : pc.outside = true) (op : WriteOp) : pc ≠ .enqueue op := by
  rintro rfl
  cases outside

theorem standing_of_outside (outside : pc.outside = true) (t : Thread) (q : Nat) :
    standing t q pc = .parked := by
  cases pc <;> first | rfl | cases outside

variable {q : Nat} {round : Round Resp}

theorem standing_cases (place : standing t q pc = .round round) :
    (∃ caller, pc = .combine caller round ∧ q = t.replica) ∨
      ∃ caller, pc = .sync caller q round := by
  unfold standing at place
  split at place
  · split at place
    · rename_i own
      cases place
      exact .inl ⟨_, rfl, own⟩
    · cases place
  · split at place
    · rename_i own
      cases place
      exact .inr ⟨_, by rw [own]⟩
    · cases place
  · cases place

theorem ownLock_of_holds (outside : pc.outside = true) (holds : Holds t pc q) :
    pc.ownLock = true ∧ q = t.replica := by
  rcases holds with own | ⟨caller, round, rfl⟩
  · exact own
  · cases outside

def Standing.rests : Standing Resp → Bool
  | .parked | .round (.loadNext _) => true
  | _ => false

theorem standingInv_of_rests {standing : Standing Resp} (rests : standing.rests = true) :
    s.StandingInv cfg steady q standing ↔ s.Quiet steady q := by
  cases standing with
  | parked => rfl
  | round round =>
    cases round with
    | loadNext combines => rfl
    | _ => cases rests

theorem rests_of_outside (outside : pc.outside = true) (t : Thread) (q : Nat) :
    (standing t q pc).rests = true := by
  rw [standing_of_outside outside]
  rfl

/-- A place where a thread goes on outside rounds, with an operation enqueued if `writes`, and
with the lock of its replica only if `locked`. -/
structure Continues (t : Thread) (writes locked : Bool) (pc : ThreadPc ReadOp WriteOp Resp) :
    Prop where
  pending : pc.pending = none ∨ pc.pending = some writes.toNat
  ownLock : pc.ownLock = true → locked = true
  enqueued : ∀ op, pc ≠ .enqueue op
  safe : ∀ reason, pc = .panicked reason → reason.loses = false
  rests : ∀ q, (standing t q pc).rests = true
  alone : ∀ caller q round, pc ≠ .sync caller q round

variable {writes locked : Bool}

theorem continues_panicked {reason : ReplicaPanic} (safe : reason.loses = false) :
    Continues t writes locked (.panicked reason : ThreadPc ReadOp WriteOp Resp) where
  pending := .inl rfl
  ownLock := fun lock => by cases lock
  enqueued := by simp
  safe := by
    intro reason' same
    cases same
    exact safe
  rests := fun _ => rfl
  alone := by simp

theorem continues_outside (pending : pc.pending = some writes.toNat)
    (ownLock : pc.ownLock = true → locked = true) (outside : pc.outside = true) :
    Continues t writes locked pc where
  pending := .inr pending
  ownLock := ownLock
  enqueued := ne_enqueue_of_outside outside
  safe := by
    rintro reason rfl
    cases pending
  rests := rests_of_outside outside t
  alone := by
    rintro caller q round rfl
    cases outside

theorem continues_combine (t : Thread) (caller : Caller ReadOp) :
    Continues t caller.mut true
      (.combine caller (.loadNext true) : ThreadPc ReadOp WriteOp Resp) where
  pending := .inr rfl
  ownLock := fun _ => rfl
  enqueued := by simp
  safe := by simp
  rests := by
    intro q
    simp only [standing]
    split <;> rfl
  alone := by simp

/-- The caller of `combine` keeps the lock. -/
def Outcome.keepsLock : Outcome → Bool
  | .noLogSpace _ => true
  | _ => false

theorem continues_afterCombine (t : Thread) (outcome : Outcome) (caller : Caller ReadOp) :
    Continues t caller.mut outcome.keepsLock
      (afterCombine t outcome caller : ThreadPc ReadOp WriteOp Resp) := by
  cases caller with
  | executeMut =>
    cases outcome with
    | ok => exact continues_outside rfl id rfl
    | gcFailed stuck =>
      simp only [afterCombine]
      split
      · exact continues_panicked rfl
      · exact continues_outside rfl id rfl
    | noLogSpace stuck => exact continues_outside rfl id rfl
  | getResponse final =>
    cases outcome with
    | ok => exact continues_outside rfl id rfl
    | gcFailed stuck =>
      simp only [afterCombine]
      split
      · exact continues_panicked rfl
      · split
        · exact continues_panicked rfl
        · exact continues_outside rfl id rfl
    | noLogSpace stuck =>
      simp only [afterCombine]
      split
      · exact continues_panicked rfl
      · exact continues_outside rfl id rfl
  | lookup l ctail locked =>
    cases outcome with
    | ok =>
      simp only [afterCombine]
      split
      · exact continues_outside rfl id rfl
      · exact continues_outside rfl id rfl
    | gcFailed stuck =>
      simp only [afterCombine]
      split
      · exact continues_panicked rfl
      · exact continues_outside rfl id rfl
    | noLogSpace stuck =>
      simp only [afterCombine]
      split
      · exact continues_panicked rfl
      · exact continues_outside rfl id rfl

theorem continues_afterSync (t : Thread) (q : Nat) (caller : SyncCaller ReadOp) :
    Continues t caller.mut caller.locked
      (afterSync q caller : ThreadPc ReadOp WriteOp Resp) := by
  cases caller with
  | noLogSpace caller =>
    cases caller with
    | executeMut => exact continues_combine t .executeMut
    | getResponse final => exact continues_combine t (.getResponse final)
    | lookup l ctail locked => exact continues_outside rfl id rfl
  | loop ctail resume => exact continues_outside rfl id rfl
  | gcFailed l => exact continues_outside rfl id rfl

theorem continues_afterLookup (t : Thread) (locked : Bool) :
    Continues t false locked (afterLookup locked : ThreadPc ReadOp WriteOp Resp) := by
  cases locked with
  | true => exact continues_outside rfl id rfl
  | false => exact continues_outside rfl id rfl

/-! ### Assembling a step -/

/-- A step of thread `t` to `pc` as replica `q` sees it: it does not notice it, or the thread
has its lock afterwards, or has given it up. -/
inductive Turn (cfg : Config D ReadOp WriteOp Resp) (steady : Prop)
    (s s' : State D ReadOp WriteOp Resp) (t : Thread) (pc : ThreadPc ReadOp WriteOp Resp)
    (q : Nat) : Prop
  | unnoticed (combiner : (s'.replicas q).combiner = (s.replicas q).combiner)
      (kept : Kept s s' q)
      (here : (s.replicas q).combiner = some t →
        s'.StandingInv cfg steady q (standing t q pc))
  | holds (before : ∀ t', t' ≠ t → (s.replicas q).combiner ≠ some t')
      (after : (s'.replicas q).combiner = some t)
      (here : s'.StandingInv cfg steady q (standing t q pc))
  | releases (before : ∀ t', t' ≠ t → (s.replicas q).combiner ≠ some t')
      (after : (s'.replicas q).combiner = none) (quiet : s'.Quiet steady q)

variable {t' : Thread}

theorem ne_of_held (held : (s.replicas q).combiner = some t) (t' : Thread) (other : t' ≠ t) :
    (s.replicas q).combiner ≠ some t' := by
  rw [held]
  exact fun equal => other (Option.some.inj equal).symm

theorem Turn.combiner_of_ne (turn : Turn cfg steady s s' t pc q) (other : t' ≠ t)
    (held : (s.replicas q).combiner = some t') : (s'.replicas q).combiner = some t' := by
  cases turn with
  | unnoticed combiner => exact combiner.trans held
  | holds before => exact absurd held (before t' other)
  | releases before => exact absurd held (before t' other)

theorem Kept.of_same (log : s'.log = s.log) (replicas : s'.replicas = s.replicas) (q : Nat) :
    Kept s s' q := by
  refine ⟨by rw [log], by rw [State.own, State.own, log], by rw [log], ?_, ?_, ?_, ?_, ?_, ?_⟩ <;>
    simp [replicas]

theorem CombiningInv.turn (inv : CombiningInv cfg steady s) (samePc : s'.pc = s.pc)
    (base : BaseInv cfg steady (s'.goto t pc)) (valid : ValidPc cfg t pc)
    (locks : ∀ q, Holds t pc q → (s'.replicas q).combiner = some t)
    (turns : ∀ q, Turn cfg steady s s' t pc q) : CombiningInv cfg steady (s'.goto t pc) where
  base := base
  valid := by
    intro t'
    by_cases same : t' = t
    · rw [same, goto_pc_self]
      exact valid
    · rw [goto_pc_other s' pc same, samePc]
      exact inv.valid t'
  locks := by
    intro t' q holds
    by_cases same : t' = t
    · rw [same, goto_pc_self] at holds
      rw [same]
      exact locks q holds
    · rw [goto_pc_other s' pc same, samePc] at holds
      exact (turns q).combiner_of_ne same (inv.locks t' q holds)
  rounds := by
    intro q
    have moved : Kept s' (s'.goto t pc) q := .of_same (by rfl) (by rfl) q
    refine moved.standingInv ?_
    have before := inv.rounds q
    unfold State.standing at before ⊢
    simp only [goto_replicas]
    cases turns q with
    | unnoticed combiner kept here =>
      rw [combiner]
      cases holder : (s.replicas q).combiner with
      | none =>
        rw [holder] at before
        exact kept.quiet before
      | some t' =>
        rw [holder] at before
        by_cases same : t' = t
        · simp only [same, goto_pc_self]
          exact here (holder.trans (congrArg _ same))
        · simp only [goto_pc_other s' pc same, samePc]
          exact kept.standingInv before
    | holds _ after here =>
      simp only [after, goto_pc_self]
      exact here
    | releases _ after quiet =>
      simp only [after]
      exact quiet

theorem Turn.elsewhere (inv : CombiningInv cfg steady s)
    (combiner : (s'.replicas q).combiner = (s.replicas q).combiner) (kept : Kept s s' q)
    (before : (standing t q (s.pc t)).rests = true) (after : (standing t q pc).rests = true) :
    Turn cfg steady s s' t pc q := by
  refine .unnoticed combiner kept fun held => ?_
  rw [standingInv_of_rests after]
  refine kept.quiet ?_
  have round := inv.rounds q
  unfold State.standing at round
  rw [held] at round
  exact (standingInv_of_rests before).mp round

section

variable (base : BaseInv cfg steady s)

include base

/-! ### Frames of thread steps -/

theorem BaseInv.ofThread (log : s'.log = s.log)
    (data : ∀ q, (s'.replicas q).data = (s.replicas q).data)
    (next : ∀ q, (s'.replicas q).next = (s.replicas q).next)
    (others : ∀ t', t' ≠ t → 1 ≤ t'.tid → s'.context t' = s.context t' ∧ s'.pc t' = s.pc t' ∧
      s'.issued t' = s.issued t' ∧ s'.received t' = s.received t')
    (issued : s.issued t <+: s'.issued t)
    (own : 1 ≤ t.tid → CallInv cfg s' t) : BaseInv cfg steady s' where
  reached := log ▸ base.reached
  data := by
    intro q
    rw [data, log]
    exact base.data q
  next := by
    intro q
    rw [next]
    exact base.next q
  calls := by
    intro t' token
    by_cases same : t' = t
    · subst same
      exact own token
    · obtain ⟨context, pc, issued, received⟩ := others t' same token
      refine (base.calls t' token).mono context pc issued received ?_ ?_
      · rw [log]
      · rw [log]
  logged := by
    intro q
    unfold State.own
    rw [log]
    refine ⟨fun op listed => ?_, (base.logged q).once⟩
    obtain ⟨token, called⟩ := (base.logged q).issued op listed
    refine ⟨token, ?_⟩
    by_cases same : (⟨q, op.tid⟩ : Thread) = t
    · rw [same] at called ⊢
      obtain ⟨more, extended⟩ := issued
      rw [← extended, List.getElem?_append_left (List.getElem?_eq_some_iff.mp called).1]
      exact called
    · rw [(others ⟨q, op.tid⟩ same token).2.2.1]
      exact called

theorem BaseInv.goto (pending : pc.pending = none ∨ pc.pending = (s.pc t).pending)
    (before : ∀ op, s.pc t ≠ .enqueue op) (after : ∀ op, pc ≠ .enqueue op) :
    BaseInv cfg steady (s.goto t pc) := by
  refine base.ofThread rfl (fun _ => rfl) (fun _ => rfl)
    (fun t' other _ => ⟨rfl, goto_pc_other s pc other, rfl, rfl⟩) (List.prefix_refl _)
    fun token => ?_
  have call := base.calls t token
  have known : ∀ n, pc.pending = some n → (s.pc t).pending = some n := by
    intro n now
    rcases pending with none | same
    · rw [none] at now
      cases now
    · rw [← same, now]
  refine ⟨call.head_le_comb, call.comb_le_tail, call.tail_le, ?_, call.cell, ?_, ?_, call.resp,
    call.received, call.answers⟩
  · rw [goto_pc_self]
    exact fun n now => call.pending n (known n now)
  · rw [goto_pc_self]
    intro some _
    obtain ⟨n, now⟩ := Option.ne_none_iff_exists'.mp some
    exact call.issued (by rw [known n now]; simp) before
  · rw [goto_pc_self]
    exact fun op now => absurd now (after op)

/-- A step that changes nothing the invariant speaks about. -/
structure Frame (cfg : Config D ReadOp WriteOp Resp) (steady : Prop)
    (s s' : State D ReadOp WriteOp Resp) : Prop where
  pc : s'.pc = s.pc
  base : BaseInv cfg steady s'
  kept : ∀ q, Kept s s' q
  combiner : ∀ q, (s'.replicas q).combiner = (s.replicas q).combiner

theorem Frame.refl : Frame cfg steady s s :=
  ⟨rfl, base, Kept.of_same rfl rfl, fun _ => rfl⟩

theorem Frame.withWatch (watch : Thread → Option (Nat × Bool)) :
    Frame cfg steady s { s with watch := watch } where
  pc := rfl
  base := ⟨base.reached, base.data, base.next, fun t token =>
    (base.calls t token).mono rfl rfl rfl rfl (List.prefix_refl _) le_rfl, base.logged⟩
  kept := Kept.of_same rfl rfl
  combiner := fun _ => rfl

theorem Frame.set {r : ReplicaState D WriteOp Resp}
    (data : r.data = (s.replicas q).data) (contexts : r.contexts = (s.replicas q).contexts)
    (next : (s.replicas q).next ≤ r.next) (buffer : r.buffer = (s.replicas q).buffer)
    (inflight : r.inflight = (s.replicas q).inflight) (result : r.result = (s.replicas q).result)
    (combiner : r.combiner = (s.replicas q).combiner) : Frame cfg steady s (s.setReplica q r) where
  pc := rfl
  base := base.setReplica data contexts next
  kept := by
    intro q'
    by_cases same : q' = q
    · subst same
      exact kept_setReplica buffer inflight result next contexts
    · exact kept_setReplica_of_ne r same
  combiner := setReplica_field (·.combiner) combiner

theorem Frame.withLog {log : Log.State (Tagged WriteOp)} {e : Log.Event (Tagged WriteOp)}
    (taken : Log.step cfg.geometry s.log e = some log)
    (nobody : e.replica = none) : Frame cfg steady s { s with log := log } where
  pc := rfl
  base := by
    refine base.withLog taken ?_ fun q => ?_
    · funext q
      exact Log.executed_of_step taken (by rw [nobody]; simp)
    · have same : ownOps q log.appended = s.own q :=
        Log.ownOps_of_step taken (by rw [nobody]; simp)
      rw [same]
      exact base.logged q
  kept := fun q => kept_log taken (by rw [nobody]; simp)
  combiner := fun _ => rfl

end

theorem CombiningInv.frame (inv : CombiningInv cfg steady s) (frame : Frame cfg steady s s') :
    CombiningInv cfg steady s' where
  base := frame.base
  valid := by
    rw [frame.pc]
    exact inv.valid
  locks := by
    rw [frame.pc]
    intro t q holds
    rw [frame.combiner]
    exact inv.locks t q holds
  rounds := by
    intro q
    have same : s'.standing q = s.standing q := by
      unfold State.standing
      rw [frame.combiner, frame.pc]
    rw [same]
    exact (frame.kept q).standingInv (inv.rounds q)

theorem Continues.valid (continues : Continues t writes locked pc)
    (registered : t.replica < cfg.geometry.replicas ∧ 1 ≤ t.tid) : ValidPc cfg t pc :=
  ⟨fun _ => registered, fun _ _ _ same => absurd same (continues.alone _ _ _), continues.safe⟩

theorem Continues.ownLock_of_holds (continues : Continues t writes locked pc)
    (holds : Holds t pc q) : locked = true ∧ q = t.replica := by
  rcases holds with ⟨own, same⟩ | ⟨caller, round, same⟩
  · exact ⟨continues.ownLock own, same⟩
  · exact absurd same (continues.alone _ _ _)

theorem validPc_idle : ValidPc cfg t (.idle : ThreadPc ReadOp WriteOp Resp) :=
  ⟨fun started => (by cases started), by simp, by simp⟩

theorem CombiningInv.move (inv : CombiningInv cfg steady s) (writes : Bool)
    (frame : Frame cfg steady s s') (here : s.pc t = pc) (started : pc.isIdle = false)
    (outside : pc.outside = true) (pending : pc.pending = some writes.toNat)
    (ownLock : locked = true → pc.ownLock = true) (continues : Continues t writes locked pc') :
    CombiningInv cfg steady (s'.goto t pc') := by
  subst here
  refine inv.turn frame.pc ?_ (continues.valid ((inv.valid t).registered started)) ?_ ?_
  · refine frame.base.goto ?_ ?_ continues.enqueued
    · rw [frame.pc, pending]
      exact continues.pending
    · rw [frame.pc]
      exact ne_enqueue_of_outside outside
  · intro q holds
    obtain ⟨own, same⟩ := continues.ownLock_of_holds holds
    rw [frame.combiner]
    exact inv.locks t q (.inl ⟨ownLock own, same⟩)
  · intro q
    exact Turn.elsewhere inv (frame.combiner q) (frame.kept q) (rests_of_outside outside t q)
      (continues.rests q)

/-! ### Steps outside rounds -/

theorem index_ne_of_ne (other : t' ≠ t) (token : 1 ≤ t.tid) (token' : 1 ≤ t'.tid)
    (same : t'.replica = t.replica) : t'.tid - 1 ≠ t.tid - 1 := by
  intro equal
  refine other ?_
  have tid : t'.tid = t.tid := by omega
  cases t
  cases t'
  exact Thread.mk.injEq .. ▸ ⟨same, tid⟩

theorem context_setContext_of_ne (c : Context WriteOp Resp) (other : t' ≠ t) (token : 1 ≤ t.tid)
    (token' : 1 ≤ t'.tid) :
    (s.setReplica t.replica ((s.replicas t.replica).setContext (t.tid - 1) c)).context t' =
      s.context t' := by
  unfold State.context
  by_cases same : t'.replica = t.replica
  · have different := index_ne_of_ne other token token' same
    rw [same, setReplica_same]
    exact update_of_ne different ..
  · rw [setReplica_of_ne s _ same]

theorem contexts_setContext (c : Context WriteOp Resp) (j : Nat) :
    ((s.setReplica t.replica
        ((s.replicas t.replica).setContext (t.tid - 1) c)).replicas t.replica).contexts j =
      if j = t.tid - 1 then c else (s.replicas t.replica).contexts j := by
  rw [setReplica_same]
  by_cases same : j = t.tid - 1
  · rw [if_pos same, same]
    exact update_self ..
  · rw [if_neg same]
    exact update_of_ne same ..

theorem kept_setContext {c : Context WriteOp Resp} (comb : c.comb = (s.context t).comb)
    (cell : (s.context t).tail = (s.context t).comb + 1 →
      c.tail = (s.context t).tail ∧ c.op = (s.context t).op) (q : Nat) :
    Kept s (s.setReplica t.replica ((s.replicas t.replica).setContext (t.tid - 1) c)) q := by
  by_cases same : q = t.replica
  · subst same
    refine ⟨rfl, rfl, rfl, ?_, ?_, ?_, ?_, ?_, ?_⟩
    · rw [setReplica_same]; rfl
    · rw [setReplica_same]; rfl
    · rw [setReplica_same]; rfl
    · rw [setReplica_same]; exact le_rfl
    · intro j
      rw [contexts_setContext]
      split
      · rename_i own
        rw [own]
        exact comb
      · rfl
    · intro j full
      rw [contexts_setContext]
      split
      · rename_i own
        rw [own] at full ⊢
        exact cell full
      · exact ⟨rfl, rfl⟩
  · exact kept_setReplica_of_ne _ same

theorem combiner_setContext (c : Context WriteOp Resp) (q : Nat) :
    ((s.setReplica t.replica
        ((s.replicas t.replica).setContext (t.tid - 1) c)).replicas q).combiner =
      (s.replicas q).combiner :=
  setReplica_field (·.combiner) (by rfl) q

theorem BaseInv.setContext (base : BaseInv cfg steady s) (token : 1 ≤ t.tid)
    (c : Context WriteOp Resp) (log : s'.log = s.log)
    (replicas : s'.replicas = (s.setReplica t.replica
      ((s.replicas t.replica).setContext (t.tid - 1) c)).replicas)
    (others : ∀ t', t' ≠ t → s'.pc t' = s.pc t' ∧ s'.issued t' = s.issued t' ∧
      s'.received t' = s.received t')
    (issued : s'.issued t = s.issued t) (own : CallInv cfg s' t) : BaseInv cfg steady s' := by
  refine base.ofThread log ?_ ?_ ?_ (issued ▸ List.prefix_refl _) fun _ => own
  · intro q
    rw [replicas]
    by_cases same : q = t.replica
    · rw [same, setReplica_same]
      rfl
    · rw [setReplica_of_ne s _ same]
  · intro q
    rw [replicas]
    by_cases same : q = t.replica
    · rw [same, setReplica_same]
      rfl
    · rw [setReplica_of_ne s _ same]
  · intro t' other token'
    refine ⟨?_, others t' other⟩
    rw [← context_setContext_of_ne (s := s) c other token token']
    simp only [State.context, replicas]

section

variable (inv : CombiningInv cfg steady s)

include inv

theorem combiningInv_enqueue {op : WriteOp} (here : s.pc t = .enqueue op) {c : Context WriteOp Resp}
    (enqueued : (s.context t).enqueue t.tid op = some c) :
    CombiningInv cfg steady
      ((s.setReplica t.replica ((s.replicas t.replica).setContext (t.tid - 1) c)).goto t
        (.tryCombine .executeMut)) := by
  have registered := (inv.valid t).registered (by rw [here]; rfl)
  have call := inv.base.calls t registered.2
  have empty : (s.context t).tail = (s.context t).head := by
    have := call.pending 0 (by rw [here]; rfl)
    omega
  have head_le := call.head_le_comb
  have comb_le := call.comb_le_tail
  rw [Context.enqueue, empty, Nat.sub_self, if_neg (by decide), Option.some.injEq] at enqueued
  subst enqueued
  refine inv.turn rfl ?_ ?_ ?_ ?_
  · refine inv.base.setContext registered.2 _ rfl rfl
      (fun t' other => ⟨goto_pc_other _ _ other, rfl, rfl⟩) rfl ?_
    have issued := call.enqueues op here
    refine ⟨?_, ?_, ?_, ?_, ?_, ?_, ?_, ?_, ?_, call.answers⟩ <;>
      simp only [State.context, goto_replicas, goto_pc_self, goto_issued, goto_received,
        setReplica_same, setReplica_issued, setReplica_received, ReplicaState.setContext,
        update_self]
    · exact head_le
    · exact (comb_le.trans (Nat.le_of_eq empty)).trans (Nat.le_succ _)
    · exact le_rfl
    · rintro n same
      cases same
      rfl
    · exact fun _ => ⟨_, congrArg PendingOperation.op (cell_setCell_same ..), rfl, rfl, issued.1⟩
    · exact fun _ _ => issued.2
    · exact fun _ same => by cases same
    · intro waiting
      have : (s.context t).head < (s.context t).comb := waiting
      omega
    · exact call.received
  · exact ⟨fun _ => registered, by simp, by simp⟩
  · intro q holds
    exact absurd (ownLock_of_holds rfl holds).1 (by simp [ThreadPc.ownLock])
  · intro q
    refine Turn.elsewhere inv (combiner_setContext _ q) (kept_setContext (by rfl) ?_ q) ?_ rfl
    · intro full
      omega
    · rw [here]
      rfl

theorem combiningInv_response {final : Bool} (here : s.pc t = .getResponse final) {resp : Resp}
    (waiting : (s.context t).head < (s.context t).comb) (given : (s.context t).resp = some resp) :
    CombiningInv cfg steady
      (({ s.setReplica t.replica ((s.replicas t.replica).setContext (t.tid - 1)
            (s.context t).takeResp) with
          received := update s.received t (s.received t ++ [resp]) } :
        State D ReadOp WriteOp Resp).goto t .idle) := by
  have registered := (inv.valid t).registered (by rw [here]; rfl)
  have call := inv.base.calls t registered.2
  have full : (s.context t).tail = (s.context t).head + 1 := call.pending 1 (by rw [here]; rfl)
  have comb : (s.context t).comb = (s.context t).head + 1 := by
    have := call.comb_le_tail
    omega
  refine inv.turn rfl ?_ validPc_idle ?_ ?_
  · refine inv.base.setContext registered.2 (s.context t).takeResp rfl rfl
      (fun t' other => ⟨goto_pc_other _ _ other, rfl, update_of_ne other ..⟩) rfl ?_
    have issued := call.issued (by rw [here]; simp [ThreadPc.pending]) (by simp [here])
    obtain ⟨op, _, cell, same, completed⟩ := call.resp waiting
    obtain ⟨op', cell', tid, number, called⟩ := call.cell full
    rw [cell'] at cell
    cases cell
    rw [given] at same
    cases same
    refine ⟨?_, ?_, ?_, ?_, ?_, ?_, ?_, ?_, ?_, ?_⟩ <;>
      simp only [State.context, goto_replicas, goto_pc_self, goto_issued, goto_received,
        setReplica_same, setReplica_issued, ReplicaState.setContext, update_self]
    · exact Nat.le_of_eq comb.symm
    · exact call.comb_le_tail
    · exact (Nat.le_of_eq full).trans (Nat.le_succ _)
    · rintro n pending
      cases pending
      exact full
    · intro more
      have : (s.context t).tail = (s.context t).head + 1 + 1 := more
      omega
    · exact fun _ _ => issued
    · exact fun _ enqueues => by cases enqueues
    · intro later
      have : (s.context t).head + 1 < (s.context t).comb := later
      omega
    · rw [List.length_append]
      exact congrArg (· + 1) call.received
    · intro k resp' known
      rw [List.getElem?_append] at known
      split at known
      · exact call.answers k resp' known
      · rename_i last
        obtain rfl : k = (s.context t).head := by
          rw [call.received] at last known
          have := (List.getElem?_eq_some_iff.mp known).1
          simp at this
          omega
        rw [call.received, Nat.sub_self] at known
        cases known
        refine ⟨op.op, called, ?_⟩
        rw [← tid, ← number]
        exact completed
  · intro q holds
    exact absurd (ownLock_of_holds rfl holds).1 (by simp [ThreadPc.ownLock])
  · intro q
    have kept : Kept s (s.setReplica t.replica ((s.replicas t.replica).setContext (t.tid - 1)
        (s.context t).takeResp)) q := by
      refine kept_setContext (by rfl) (fun more => ?_) q
      omega
    refine Turn.elsewhere inv (combiner_setContext _ q) ⟨kept.1, kept.2, kept.3, kept.4, kept.5,
      kept.6, kept.7, kept.8, kept.9⟩ ?_ rfl
    rw [here]
    rfl

theorem combiningInv_acquire
    (free : (s.replicas q).combiner = none) (outside : (s.pc t).outside = true)
    (pending : pc.pending = (s.pc t).pending) (after : ∀ op, pc ≠ .enqueue op)
    (valid : ValidPc cfg t pc) (rests : ∀ q', (standing t q' pc).rests = true)
    (locks : ∀ q', Holds t pc q' → q' = q ∨ Holds t (s.pc t) q') :
    CombiningInv cfg steady
      ((s.setReplica q { s.replicas q with combiner := some t }).goto t pc) := by
  refine inv.turn rfl ?_ valid ?_ ?_
  · refine BaseInv.goto (inv.base.setReplica (by rfl) (by rfl) le_rfl) (.inr pending)
      (ne_enqueue_of_outside outside) after
  · intro q' holds
    by_cases same : q' = q
    · rw [same, setReplica_same]
    · rw [setReplica_of_ne s _ same]
      exact inv.locks t q' ((locks q' holds).resolve_left same)
  · intro q'
    by_cases same : q' = q
    · subst same
      refine .holds (by simp [free]) (by rw [setReplica_same]) ?_
      rw [standingInv_of_rests (rests q')]
      have kept : Kept s (s.setReplica q' { s.replicas q' with combiner := some t }) q' :=
        kept_setReplica rfl rfl rfl le_rfl rfl
      refine kept.quiet ?_
      have quiet := inv.rounds q'
      unfold State.standing at quiet
      rw [free] at quiet
      exact quiet
    · exact Turn.elsewhere inv (by rw [setReplica_of_ne s _ same])
        (kept_setReplica_of_ne _ same) (rests_of_outside outside t q') (rests q')

theorem combiningInv_release (here : s.pc t = .lookupUnlock) : CombiningInv cfg steady
      ((s.setReplica t.replica { s.replicas t.replica with combiner := none }).goto t .idle) := by
  have held := inv.locks t t.replica (.inl ⟨by rw [here]; rfl, rfl⟩)
  refine inv.turn rfl ?_ validPc_idle ?_ ?_
  · exact BaseInv.goto (inv.base.setReplica (by rfl) (by rfl) le_rfl)
      (.inr (by simp [here, ThreadPc.pending]))
      (by simp [here]) (by simp)
  · intro q holds
    exact absurd (ownLock_of_holds rfl holds).1 (by simp [ThreadPc.ownLock])
  · intro q
    by_cases same : q = t.replica
    · subst same
      refine .releases (ne_of_held held) (by rw [setReplica_same]) ?_
      have kept : Kept s (s.setReplica t.replica
          { s.replicas t.replica with combiner := none }) t.replica :=
        kept_setReplica rfl rfl rfl le_rfl rfl
      refine kept.quiet ?_
      have quiet := inv.rounds t.replica
      unfold State.standing at quiet
      simp only [held, here] at quiet
      exact quiet
    · refine Turn.elsewhere inv (by rw [setReplica_of_ne s _ same])
        (kept_setReplica_of_ne _ same) ?_ rfl
      rw [here]
      rfl

end

/-! ### Steps of rounds -/

theorem releases_done (outcome : Outcome) :
    (RoundNext.done outcome : RoundNext Resp).releases = !outcome.keepsLock := by
  cases outcome <;> rfl

theorem roundInv_of_holds (inv : CombiningInv cfg steady s) (holds : Holds t (s.pc t) q)
    (here : standing t q (s.pc t) = .round round) : s.RoundInv cfg steady q round := by
  have standing := inv.rounds q
  unfold State.standing at standing
  rw [inv.locks t q holds] at standing
  simp only [here] at standing
  exact standing

section

variable {stage : Round Resp → ThreadPc ReadOp WriteOp Resp}
  {done : Outcome → ThreadPc ReadOp WriteOp Resp} (rounds : Rounds t q stage done)

include rounds

theorem Rounds.ne_enqueue (round : Round Resp) (op : WriteOp) : stage round ≠ .enqueue op := by
  cases rounds <;> simp

theorem Rounds.rests (outcome : Outcome) (q' : Nat) :
    (standing t q' (done outcome)).rests = true := by
  cases rounds with
  | combine caller => exact (continues_afterCombine t outcome caller).rests q'
  | sync caller => exact (continues_afterSync t q caller).rests q'

section

variable (here : pc = stage round)

include here

theorem Rounds.busy : pc.isIdle = false := by
  rw [here]
  cases rounds <;> rfl

theorem Rounds.holds : Holds t pc q := by
  cases rounds with
  | combine => exact .inl ⟨by rw [here]; rfl, rfl⟩
  | sync caller => exact .inr ⟨caller, round, here⟩

theorem Rounds.place : standing t q pc = .round round := by
  rw [here]
  cases rounds <;> exact if_pos rfl

theorem Rounds.rests_of_ne {q' : Nat} (other : q' ≠ q) : (standing t q' pc).rests = true := by
  have parked : standing t q' pc = .parked := by
    rw [here]
    cases rounds <;> exact if_neg other
  rw [parked]
  rfl

end

variable (inv : CombiningInv cfg steady s) (here : s.pc t = stage round)

include inv here

theorem combiningInv_goOn {next : Round Resp} (stepped : RoundStep cfg steady s s' q (.goOn next)) :
    CombiningInv cfg steady (s'.goto t (stage next)) := by
  have combiner : ∀ q', (s'.replicas q').combiner = (s.replicas q').combiner := by
    intro q'
    rw [stepped.combiner, if_neg (by simp [RoundNext.releases])]
  refine inv.turn stepped.pc ?_ ⟨fun _ => ?_, ?_, ?_⟩ ?_ ?_
  · refine stepped.base.goto (.inr ?_) ?_ (rounds.ne_enqueue next)
    · rw [stepped.pc, here]
      cases rounds <;> rfl
    · rw [stepped.pc, here]
      exact rounds.ne_enqueue round
  · exact (inv.valid t).registered (rounds.busy here)
  · intro caller q' round' same
    cases rounds <;> cases same
    exact (inv.valid t).helps caller q round here
  · cases rounds <;> simp
  · intro q' held
    rw [combiner]
    refine inv.locks t q' ?_
    rw [here]
    cases rounds with
    | combine => exact held.imp_right (by simp)
    | sync caller => exact held.imp id (by rintro ⟨_, _, ⟨⟩⟩; exact ⟨caller, round, rfl⟩)
  · intro q'
    by_cases same : q' = q
    · subst same
      have held := inv.locks t q' (rounds.holds here)
      refine .holds (ne_of_held held) ((combiner q').trans held) ?_
      rw [rounds.place rfl]
      exact stepped.here
    · exact Turn.elsewhere inv (combiner q') (stepped.elsewhere q' same)
        (rounds.rests_of_ne here same) (rounds.rests_of_ne rfl same)

theorem combiningInv_done {outcome : Outcome}
    (stepped : RoundStep cfg steady s s' q (.done outcome)) :
    CombiningInv cfg steady (s'.goto t (done outcome)) := by
  have held := inv.locks t q (rounds.holds here)
  have ends : ∃ writes locked, (stage round).pending = some writes.toNat ∧
      Continues t writes locked (done outcome) ∧
      (locked = true → (s'.replicas t.replica).combiner = some t) := by
    cases rounds with
    | combine caller =>
      refine ⟨_, _, rfl, continues_afterCombine t outcome caller, fun keeps => ?_⟩
      rw [stepped.combiner, releases_done, keeps, if_neg (by simp), held]
    | sync caller =>
      refine ⟨_, _, rfl, continues_afterSync t q caller, fun locked => ?_⟩
      -- A locked caller helps another replica, so the end of the round does not touch its lock.
      cases caller with
      | noLogSpace caller =>
        have other := (inv.valid t).helps caller q round here
        rw [stepped.combiner, if_neg fun both => other both.1.symm]
        exact inv.locks t t.replica (.inl ⟨by rw [here]; rfl, rfl⟩)
      | loop ctail resume => cases locked
      | gcFailed l => cases locked
  obtain ⟨writes, locked, pending, continues, locks⟩ := ends
  refine inv.turn stepped.pc ?_
    (continues.valid ((inv.valid t).registered (rounds.busy here))) ?_ ?_
  · refine stepped.base.goto ?_ ?_ continues.enqueued
    · rw [stepped.pc, here, pending]
      exact continues.pending
    · rw [stepped.pc, here]
      exact rounds.ne_enqueue round
  · intro q' held
    obtain ⟨own, rfl⟩ := continues.ownLock_of_holds held
    exact locks own
  · intro q'
    by_cases same : q' = q
    · subst same
      have combiner := stepped.combiner q'
      by_cases released : (RoundNext.done outcome : RoundNext Resp).releases = true
      · rw [if_pos ⟨rfl, released⟩] at combiner
        exact .releases (ne_of_held held) combiner stepped.here
      · rw [if_neg fun both => released both.2] at combiner
        refine .holds (ne_of_held held) (combiner.trans held) ?_
        rw [standingInv_of_rests (continues.rests q')]
        exact stepped.here
    · refine Turn.elsewhere inv ?_ (stepped.elsewhere q' same) (rounds.rests_of_ne here same)
        (continues.rests q')
      rw [stepped.combiner, if_neg fun both => same both.1]

end

/-! ### Steps of a thread -/

/-- The combiner of a round loads the number of threads twice: that of the operations it
collects is the one it loaded for the responses. -/
def LoadsSame (s : State D ReadOp WriteOp Resp) (t : Thread) : Prop :=
  ∀ q n, standing t q (s.pc t) = .round (.collectNext n) → (s.replicas q).next = n

section

variable (inv : CombiningInv cfg steady s)

include inv

theorem combiningInv_round (cover : steady → LoadsSame s t)
    {stage : Round Resp → ThreadPc ReadOp WriteOp Resp}
    {done : Outcome → ThreadPc ReadOp WriteOp Resp} (rounds : Rounds t q stage done)
    (here : s.pc t = stage round) {next : RoundNext Resp}
    (taken : stepRound cfg s q round = some (s', next)) :
    CombiningInv cfg steady (s'.goto t (next.pc stage done)) := by
  have stands := rounds.place here
  have stepped := roundStep_of_stepRound inv.base
    (roundInv_of_holds inv (rounds.holds here) stands)
    (fun holds n same => cover holds q n (stands.trans (congrArg _ same))) taken
  cases next with
  | goOn next => exact combiningInv_goOn rounds inv here stepped
  | done outcome => exact combiningInv_done rounds inv here stepped
  | panic reason => exact absurd rfl (stepped.safe reason)

theorem combiningInv_tryCombine {caller : Caller ReadOp}
    (here : s.pc t = .tryCombine caller) (free : (s.replicas t.replica).combiner = none) :
    CombiningInv cfg steady ((s.setReplica t.replica
      { s.replicas t.replica with combiner := some t }).goto t
        (.combine caller (.loadNext true))) := by
  have registered := (inv.valid t).registered (by rw [here]; rfl)
  have continues : Continues t caller.mut true
      (.combine caller (.loadNext true) : ThreadPc ReadOp WriteOp Resp) :=
    continues_combine t caller
  refine combiningInv_acquire inv free (by rw [here]; rfl) (by rw [here]; rfl) (by simp)
    (continues.valid registered) continues.rests ?_
  exact fun q holds => .inl (continues.ownLock_of_holds holds).2

theorem combiningInv_trySync {caller : SyncCaller ReadOp}
    (here : s.pc t = .trySync caller q) (free : (s.replicas q).combiner = none) :
    CombiningInv cfg steady ((s.setReplica q { s.replicas q with combiner := some t }).goto t
      (.sync caller q (.loadNext false))) := by
  have registered := (inv.valid t).registered (by rw [here]; rfl)
  refine combiningInv_acquire inv free (by rw [here]; rfl) (by rw [here]; rfl) (by simp)
    ⟨fun _ => registered, ?_, by simp⟩ ?_ ?_
  · rintro caller' q' round same rfl
    cases same
    -- The own lock is held, so it was not free.
    have held := inv.locks t t.replica (.inl ⟨by rw [here]; rfl, rfl⟩)
    rw [free] at held
    cases held
  · intro q'
    simp only [standing]
    split <;> rfl
  · intro q' holds
    rw [here]
    rcases holds with own | ⟨_, _, same⟩
    · exact .inr (.inl own)
    · cases same
      exact .inl rfl

theorem combiningInv_goes (here : s.pc t = pc)
    (goes : Goes s t pc pc') : CombiningInv cfg steady (s.goto t pc') := by
  have same := Frame.refl inv.base
  cases goes with
  | @notCombiner caller =>
    exact inv.move caller.mut same here rfl rfl rfl id (continues_afterCombine t .ok caller)
  | @notSyncer caller q =>
    exact inv.move caller.mut same here rfl rfl rfl id (continues_afterSync t q caller)
  | @syncCtail _ resume | @syncsMore _ _ resume =>
    exact inv.move resume same here rfl rfl rfl id (continues_outside rfl id rfl)
  | resumes | retries =>
    exact inv.move true same here rfl rfl rfl id (continues_outside rfl id rfl)
  | beyondComb beyond =>
    have call := inv.base.calls t ((inv.valid t).registered (by rw [here]; rfl)).2
    exact absurd call.head_le_comb (Nat.not_le.mpr beyond)
  | lookupCombines =>
    exact inv.move false same here rfl rfl rfl id (continues_combine t (.lookup _ _ true))
  | lookupTries =>
    exact inv.move false same here rfl rfl rfl id
      (continues_outside rfl (by simp [ThreadPc.ownLock]) rfl)
  | notSynced | races =>
    exact inv.move false same here rfl rfl rfl id (continues_panicked rfl)
  | _ => exact inv.move false same here rfl rfl rfl id (continues_outside rfl id rfl)

theorem combiningInv_outside (here : s.pc t = pc)
    (move : OutsideMove cfg s t pc s') : CombiningInv cfg steady s' := by
  cases move with
  | stays => exact inv
  | goes goes => exact combiningInv_goes inv here goes
  | enqueues enqueued => exact combiningInv_enqueue inv here enqueued
  | acquires free => exact combiningInv_tryCombine inv here free
  | acquiresOther free => exact combiningInv_trySync inv here free
  | returns waiting given => exact combiningInv_response inv here waiting given
  | takesNone waiting absent =>
    have call := inv.base.calls t ((inv.valid t).registered (by rw [here]; rfl)).2
    obtain ⟨_, resp, _, given, _⟩ := call.resp waiting
    cases absent.symm.trans given
  | reads | loadsAnchor =>
    exact inv.move false (.withWatch inv.base _) here rfl rfl rfl id (continues_outside rfl id rfl)
  | @readUnlocks l locked resp =>
    refine inv.move false
      (.set inv.base (by rfl) (by rfl) le_rfl (by rfl) (by rfl) (by rfl) (by rfl))
      here rfl rfl rfl id ?_
    split
    · exact continues_outside rfl id rfl
    · exact continues_afterLookup t locked
  | @storesAnchor l locked resp =>
    exact inv.move false
      (.set inv.base (by rfl) (by rfl) le_rfl (by rfl) (by rfl) (by rfl) (by rfl))
      here rfl rfl rfl id (continues_afterLookup t locked)
  | releases => exact combiningInv_release inv here
  | readLocks | backsOff | clearsAnchor =>
    exact inv.move false
      (.set inv.base (by rfl) (by rfl) le_rfl (by rfl) (by rfl) (by rfl) (by rfl))
      here rfl rfl rfl id (continues_outside rfl id rfl)

theorem combiningInv_stepThread
    (cover : steady → LoadsSame s t) {flag : Bool} (taken : stepThread cfg s t flag = some s') :
    CombiningInv cfg steady s' := by
  have move := threadMove_of_stepThread taken
  generalize here : s.pc t = pc at move
  cases move with
  | outside move => exact combiningInv_outside inv here move
  | round rounds stepped => exact combiningInv_round inv cover rounds here stepped

end

/-! ### Every run -/

/-- The forms of an event: a thread registers, starts a call or makes an access, or the hardware
moves a line of the log. -/
inductive StepForm (cfg : Config D ReadOp WriteOp Resp) (s : State D ReadOp WriteOp Resp) :
    ReplicaEvent ReadOp WriteOp → State D ReadOp WriteOp Resp → Prop
  | register {q : Nat} :
      StepForm cfg s (.register q)
        (s.setReplica q { s.replicas q with next := (s.replicas q).next + 1 })
  | start {t : Thread} {call} (registered : t.replica < cfg.geometry.replicas ∧ 1 ≤ t.tid)
      (idle : s.pc t = .idle) : StepForm cfg s (.start t call) (startCall s t call)
  | step {t : Thread} {flag} {s' : State D ReadOp WriteOp Resp}
      (taken : stepThread cfg s t flag = some s') (started : (s.pc t).isIdle = false) :
      StepForm cfg s (.step t flag) s'
  | line {e log line} (taken : Log.step cfg.geometry s.log line = some log)
      (nobody : line.replica = none) : StepForm cfg s e { s with log := log }

theorem stepForm_of_step {e : ReplicaEvent ReadOp WriteOp} (taken : step cfg s e = some s') :
    StepForm cfg s e s' := by
  cases e with
  | register q =>
    simp only [step] at taken
    split at taken <;> cases taken
    exact .register
  | start t call =>
    simp only [step] at taken
    split at taken <;> cases taken
    rename_i allowed
    refine .start ⟨allowed.1, allowed.2.1⟩ ?_
    cases here : s.pc t with
    | idle => rfl
    | _ => simp [here, ThreadPc.isIdle] at allowed
  | step t flag =>
    refine .step taken ?_
    cases here : s.pc t with
    | idle => simp [step, stepThread, here] at taken
    | _ => rfl
  | prefetch h a | evict h a =>
    simp only [step] at taken
    obtain ⟨log, stepped, rfl⟩ := Option.map_eq_some_iff.mp taken
    exact .line stepped rfl

theorem startCall_pc_other {t' : Thread} (call : Call ReadOp WriteOp) (other : t' ≠ t) :
    (startCall s t call).pc t' = s.pc t' := by
  cases call <;> exact goto_pc_other _ _ other

def SteadyStep (s : State D ReadOp WriteOp Resp) : ReplicaEvent ReadOp WriteOp → Prop
  | .step t _ => LoadsSame s t
  | _ => True

theorem combiningInv_initial : CombiningInv cfg steady (initialState cfg) where
  base :=
    { reached := .initial rfl
      data := fun _ => rfl
      next := fun _ => le_rfl
      calls := by
        intro t _
        refine ⟨le_rfl, le_rfl, Nat.zero_le _, ?_, ?_, fun _ _ => rfl, ?_, ?_, rfl, ?_⟩
        · rintro n pending
          cases pending
          rfl
        · intro full
          cases full
        · intro op enqueues
          cases enqueues
        · intro waiting
          exact absurd waiting (Nat.lt_irrefl 0)
        · intro k resp known
          cases known
      logged := fun _ => ⟨fun op listed => (by cases listed), fun _ => List.nodup_nil⟩ }
  valid := fun _ => validPc_idle
  locks := by
    intro t q holds
    exact absurd (ownLock_of_holds rfl holds).1 (by simp [initialState, ThreadPc.ownLock])
  rounds := by
    intro q
    refine ⟨rfl, fun _ op mine => ?_⟩
    cases mine

theorem combiningInv_executeMut (inv : CombiningInv cfg steady s)
    (registered : t.replica < cfg.geometry.replicas ∧ 1 ≤ t.tid) (here : s.pc t = .idle)
    (op : WriteOp) : CombiningInv cfg steady (startCall s t (.executeMut op)) := by
  have call := inv.base.calls t registered.2
  have empty := call.pending 0 (by rw [here]; rfl)
  have issued := call.issued (by simp [here, ThreadPc.pending]) (by simp [here])
  have samePc : ({ s with issued := update s.issued t (s.issued t ++ [op]) } :
      State D ReadOp WriteOp Resp).pc = s.pc := rfl
  refine inv.turn samePc ?_ ⟨fun _ => registered, by simp, by simp⟩ ?_ ?_
  · refine inv.base.ofThread rfl (fun _ => rfl) (fun _ => rfl)
      (fun t' other _ => ⟨rfl, goto_pc_other _ _ other, update_of_ne other .., rfl⟩)
      ?_ fun _ => ?_
    · simp only [goto_issued, update_self]
      exact List.prefix_append _ _
    refine ⟨call.head_le_comb, call.comb_le_tail, call.tail_le, ?_, ?_, ?_, ?_, call.resp,
      call.received, ?_⟩ <;>
      simp only [goto_pc_self, goto_issued, goto_received, update_self]
    · rintro n pending
      cases pending
      exact empty
    · intro full
      have : (s.context t).tail = (s.context t).head + 1 := full
      omega
    · exact fun _ none => absurd rfl (none op)
    · rintro op' same
      cases same
      have length : (s.issued t).length = (s.context t).head := issued.trans empty
      refine ⟨?_, ?_⟩
      · have : (s.issued t ++ [op])[(s.context t).head]? = some op := by
          rw [← length, List.getElem?_concat_length]
        exact this
      · rw [List.length_append]
        exact congrArg (· + 1) length
    · intro k resp known
      obtain ⟨op', called, completed⟩ := call.answers k resp known
      refine ⟨op', ?_, completed⟩
      rw [List.getElem?_append_left (List.getElem?_eq_some_iff.mp called).1]
      exact called
  · intro q holds
    rcases holds with ⟨own, _⟩ | ⟨_, _, same⟩
    · cases own
    · cases same
  · intro q
    refine Turn.elsewhere inv rfl (.of_same (by rfl) (by rfl) q) ?_ rfl
    rw [here]
    rfl

theorem combiningInv_start (inv : CombiningInv cfg steady s)
    (registered : t.replica < cfg.geometry.replicas ∧ 1 ≤ t.tid) (here : s.pc t = .idle)
    (call : Call ReadOp WriteOp) : CombiningInv cfg steady (startCall s t call) := by
  have begins : ∀ pc : ThreadPc ReadOp WriteOp Resp, pc.pending = some 0 →
      pc.outside = true → pc.ownLock = false → CombiningInv cfg steady (s.goto t pc) := by
    intro pc pending outside unlocked
    refine inv.turn rfl ?_ ⟨fun _ => registered, ?_, ?_⟩ ?_ ?_
    · refine inv.base.goto (.inr ?_) (by simp [here]) (ne_enqueue_of_outside outside)
      rw [pending, here]
      rfl
    · rintro caller q round rfl
      cases outside
    · rintro reason rfl
      cases pending
    · intro q holds
      rw [(ownLock_of_holds outside holds).1] at unlocked
      cases unlocked
    · intro q
      refine Turn.elsewhere inv rfl (.of_same rfl rfl q) ?_ (rests_of_outside outside t q)
      rw [here]
      rfl
  cases call with
  | executeMut op => exact combiningInv_executeMut inv registered here op
  | execute op anchor => exact begins _ rfl rfl rfl
  | sync => exact begins _ rfl rfl rfl
  | checkNotificationReset => exact begins _ rfl rfl rfl

theorem combiningInv_step (inv : CombiningInv cfg steady s) {e : ReplicaEvent ReadOp WriteOp}
    (cover : steady → SteadyStep s e) (taken : step cfg s e = some s') :
    CombiningInv cfg steady s' := by
  cases stepForm_of_step taken with
  | register =>
    exact inv.frame (.set inv.base (by rfl) (by rfl) (Nat.le_succ _) (by rfl) (by rfl) (by rfl)
      (by rfl))
  | start registered idle => exact combiningInv_start inv registered idle _
  | step taken => exact combiningInv_stepThread inv cover taken
  | line moved nobody => exact inv.frame (.withLog inv.base moved nobody)

/-- **The invariant of flat combining** holds in every reachable state; its part about
operations that are collected once, if every combiner loads the same number of threads
twice. -/
theorem combiningInv_of_reachable
    (reached : (replicaSystem cfg).ReachableWhere (fun s e => steady → SteadyStep s e) s) :
    CombiningInv cfg steady s := by
  refine reached.invariant ?_ ?_
  · rintro s rfl
    exact combiningInv_initial
  · intro s e s' inv cover taken
    exact combiningInv_step inv cover taken

end Megalon.Nr
