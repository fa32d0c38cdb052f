import Megalon.Nr.CombiningSteps

/-!
Contract: when the reader-writer lock of a replica keeps `dispatch` and `dispatch_mut` apart.

Owns: the places of readers and of the writer in the lock, what a step of the machine does to
them, and the invariant that holds while no reader is behind the last read lock a writer
scans.

Does not own: what lookups read.

`write(n)` waits for the first `n` read locks only, with a number `n` of threads that was
loaded before. A thread that has registered since may be reading then.
-/

namespace Megalon.Nr

open Function Foundations

/-! ### Places in the lock -/

/-- Where a thread is in `read` and behind it. `seen` counts the operations its replica had
executed when it got the lock. -/
inductive ReadSection where
  | outside
  | trying
  | inside (seen : Nat)
  | leaving
  deriving DecidableEq, Repr

def ReadSection.locks : ReadSection → Nat
  | .outside => 0
  | _ => 1

/-- How far the combiner is in `write` and behind it: it has scanned `j` of `n` read locks, or
has the lock. -/
inductive WriteGuard where
  | none
  | scanning (n j : Nat)
  | held
  deriving DecidableEq, Repr

section

variable {D ReadOp WriteOp Resp : Type} (cfg : Config D ReadOp WriteOp Resp)
  (s s' : State D ReadOp WriteOp Resp)

def ThreadPc.readSection : ThreadPc ReadOp WriteOp Resp → ReadSection
  | .readCheck _ _ => .trying
  | .reading _ _ seen => .inside seen
  | .readUnlock _ _ _ => .leaving
  | _ => .outside

def Round.writeGuard : Round Resp → WriteGuard
  | .writeScan n _ j => .scanning n j
  | .call _ _ | .replay _ _ | .clearLoad _ _ _ _ _ | .clearStore _ _ _ _ _ => .held
  | .closureEnd _ _ _ _ | .writeUnlock _ _ => .held
  | _ => .none

def Standing.writeGuard : Standing Resp → WriteGuard
  | .parked => .none
  | .round stage => stage.writeGuard

def State.writeGuard (q : Nat) : WriteGuard :=
  (s.standing q).writeGuard

def State.readLocks (t : Thread) : Nat :=
  (s.replicas t.replica).rlock (t.tid - 1)

def State.writeLock (q : Nat) : Bool :=
  (s.replicas q).wlock

/-! ### What a step may do -/

/-- A step as a reader sees it. -/
inductive SectionStep (t : Thread) : Prop
  | same (place : (s'.pc t).readSection = (s.pc t).readSection)
      (locks : s'.readLocks t = s.readLocks t)
  | tries (before : (s.pc t).readSection = .outside) (after : (s'.pc t).readSection = .trying)
      (locks : s'.readLocks t = s.readLocks t + 1)
  | backsOff (before : (s.pc t).readSection = .trying)
      (after : (s'.pc t).readSection = .outside) (locks : s'.readLocks t = s.readLocks t - 1)
  | enters (before : (s.pc t).readSection = .trying) (free : s.writeLock t.replica = false)
      (after : (s'.pc t).readSection = .inside (s.log.executed t.replica).length)
      (locks : s'.readLocks t = s.readLocks t)
  | reads (before : (s.pc t).readSection = .inside (s.log.executed t.replica).length)
      (after : (s'.pc t).readSection = .leaving) (locks : s'.readLocks t = s.readLocks t)
  | races {seen} (before : (s.pc t).readSection = .inside seen)
      (changed : (s.log.executed t.replica).length ≠ seen)
  | leaves (before : (s.pc t).readSection = .leaving)
      (after : (s'.pc t).readSection = .outside) (locks : s'.readLocks t = s.readLocks t - 1)

/-- A step as the writer of replica `q` sees it; `lock'` is the write lock after it. -/
inductive GuardStep (e : ReplicaEvent ReadOp WriteOp) (q : Nat) (lock' : Bool)
    (before after : WriteGuard) : Prop
  | free (after : after = .none)
  | same (guard : after = before) (lock : lock' = s.writeLock q)
  | locks {n} (after : after = .scanning n 0) (lock : lock' = true)
  | rescans {n j} (before : before = .scanning n j) (after : after = .scanning n 0)
      (lock : lock' = s.writeLock q)
  | scans {n j} (before : before = .scanning n j) (none : (s.replicas q).rlock j = 0)
      (after : after = .scanning n (j + 1)) (lock : lock' = s.writeLock q)
  | ends {t flag n f j} (event : e = .step t flag)
      (place : standing t q (s.pc t) = .round (.writeScan n f j)) (past : n ≤ j)
      (before : before = .scanning n j) (after : after = .held)
      (lock : lock' = s.writeLock q)

/-- What one event does to the readers and the writers. -/
structure LockStep (e : ReplicaEvent ReadOp WriteOp) : Prop where
  readers : ∀ t, 1 ≤ t.tid → SectionStep s s' t
  writer : ∀ q, GuardStep s e q (s'.writeLock q) (s.writeGuard q) (s'.writeGuard q)
  executed : ∀ q, s'.log.executed q = s.log.executed q ∨ s.writeGuard q = .held
  log : s'.log = s.log ∨ ∃ event, Log.step cfg.geometry s.log event = some s'.log

end

section

variable {D ReadOp WriteOp Resp : Type} {cfg : Config D ReadOp WriteOp Resp} {steady : Prop}
  {s s' : State D ReadOp WriteOp Resp} {t : Thread} {q : Nat}

/-! ### Steps of a round -/

/-- The stages of a round between the call of `append` or `exec` and its return. -/
def Round.inLog : Round Resp → Bool
  | .replay _ _ | .clearLoad _ _ _ _ _ | .clearStore _ _ _ _ _ | .closureEnd _ _ _ _ => true
  | _ => false

/-- Neither the lock nor the anchors of a replica differ. -/
structure ReplicaState.SameLocks (r r' : ReplicaState D WriteOp Resp) : Prop where
  rlock : r.rlock = r'.rlock
  wlock : r.wlock = r'.wlock
  changeNotif : r.changeNotif = r'.changeNotif

/-- An access of a round, as far as the lock, the anchors and the log go. -/
inductive RoundMove (cfg : Config D ReadOp WriteOp Resp) (s : State D ReadOp WriteOp Resp)
    (q : Nat) : Round Resp → RoundNext Resp → State D ReadOp WriteOp Resp → Prop
  | sets {round next r}
      (outside : round.inLog = false) (same : r.SameLocks (s.replicas q))
      (guard : next.standing.writeGuard = round.writeGuard) :
      RoundMove cfg s q round next (s.setReplica q r)
  | locks (n : Nat) (f : Closure) : RoundMove cfg s q (.writeLock n f) (.goOn (.writeScan n f 0))
      (s.setReplica q { s.replicas q with wlock := true })
  | scans (n : Nat) (f : Closure) {j} (none : (s.replicas q).rlock j = 0) :
      RoundMove cfg s q (.writeScan n f j) (.goOn (.writeScan n f (j + 1))) s
  | rescans (n : Nat) (f : Closure) (j : Nat) :
      RoundMove cfg s q (.writeScan n f j) (.goOn (.writeScan n f 0)) s
  | scanned {n} (f : Closure) {j} (past : n ≤ j) :
      RoundMove cfg s q (.writeScan n f j) (.goOn (.call n f)) s
  | calls (n : Nat) (f : Closure) {log e} (own : e.replica = some q)
      (stepped : Log.step cfg.geometry s.log e = some log) :
      RoundMove cfg s q (.call n f) (.goOn (.replay n f)) { s with log := log }
  | returns (n : Nat) (f : Closure) (free : (s.log.pc q).free = true) :
      RoundMove cfg s q (.replay n f) (.goOn (.writeUnlock n f)) s
  | replays (n : Nat) (f : Closure) {log}
      (stepped : Log.step cfg.geometry s.log (.access q) = some log) :
      RoundMove cfg s q (.replay n f) (.goOn (.replay n f)) { s with log := log }
  | executes (n : Nat) (f : Closure) {log op mine} (running : ¬ (s.log.pc q).free = true)
      (stepped : Log.step cfg.geometry s.log (.access q) = some log)
      (called : newCall s.log log q = some (op, mine)) :
      RoundMove cfg s q (.replay n f)
        (afterDispatch n f (cfg.ds.dispatchMut (s.replicas q).data op.op).2 mine)
        (s.executes cfg q log op)
  | finds (n : Nat) (f : Closure) (resp : Resp) (mine : Bool) (j : Nat) :
      RoundMove cfg s q (.clearLoad n f resp mine j) (.goOn (.clearStore n f resp mine j)) s
  | passes (n : Nat) (f : Closure) {resp} (mine : Bool) {j}
      (other : ¬ ((s.replicas q).changeNotif j = cfg.ds.cnIdx resp ∧ cfg.ds.cnIdx resp ≠ none)) :
      RoundMove cfg s q (.clearLoad n f resp mine j) (.goOn (.clearLoad n f resp mine (j + 1))) s
  | passed {n} (f : Closure) (resp : Resp) (mine : Bool) {j} (past : n ≤ j) :
      RoundMove cfg s q (.clearLoad n f resp mine j) (.goOn (.closureEnd n f resp mine)) s
  | clears (n : Nat) (f : Closure) (resp : Resp) (mine : Bool) (j : Nat) :
      RoundMove cfg s q (.clearStore n f resp mine j) (.goOn (.clearLoad n f resp mine (j + 1)))
        (s.setReplica q { s.replicas q with
          changeNotif := update (s.replicas q).changeNotif j none })
  | closes (n : Nat) (f : Closure) (resp : Resp) (mine : Bool) {r}
      (same : r.SameLocks (s.replicas q)) :
      RoundMove cfg s q (.closureEnd n f resp mine) (.goOn (.replay n f)) (s.setReplica q r)
  | unlocks (n : Nat) (f : Closure) {next}
      (outside : next.standing.writeGuard = .none) :
      RoundMove cfg s q (.writeUnlock n f) next
        (s.setReplica q { s.replicas q with wlock := false })

variable {round : Round Resp} {next : RoundNext Resp} {n : Nat} {f : Closure}

theorem RoundMove.stay (outside : round.inLog = false)
    (guard : next.standing.writeGuard = round.writeGuard) : RoundMove cfg s q round next s := by
  have same : RoundMove cfg s q round next (s.setReplica q (s.replicas q)) :=
    .sets outside ⟨rfl, rfl, rfl⟩ guard
  rwa [State.setReplica, update_eq_self] at same

theorem roundMove_replay (taken : replayStep cfg s q n f = some (s', next)) :
    RoundMove cfg s q (.replay n f) next s' := by
  simp only [replayStep] at taken
  split at taken
  · rename_i free
    cases taken
    exact .returns n f free
  · rename_i running
    obtain ⟨log, stepped, result⟩ := Option.map_eq_some_iff.mp taken
    split at result <;> cases result
    · exact .replays n f stepped
    · rename_i called
      exact .executes n f running stepped called

theorem roundMove_writeUnlock (goes : afterWriteUnlock (s.log.pc q) n f = some next) :
    next.standing.writeGuard = .none := by
  cases f with
  | append =>
    simp only [afterWriteUnlock] at goes
    split at goes <;> cases goes <;> rfl
  | combineExec waitingFor =>
    cases goes
    rfl
  | replicaExec =>
    cases goes
    rfl

theorem roundMove_of_stepRound (taken : stepRound cfg s q round = some (s', next)) :
    RoundMove cfg s q round next s' := by
  cases round with
  | loadNext combines =>
    cases combines <;> cases taken
    · exact .stay rfl rfl
    · exact .sets rfl ⟨rfl, rfl, rfl⟩ rfl
  | collectNext n =>
    cases taken
    exact .stay rfl rfl
  | collect n m i =>
    simp only [stepRound] at taken
    split at taken
    · split at taken <;> cases taken
      · exact .sets rfl ⟨rfl, rfl, rfl⟩ rfl
      · exact .stay rfl rfl
    · cases taken
      exact .stay rfl rfl
  | writeLock n f =>
    simp only [stepRound] at taken
    split at taken <;> cases taken
    · exact .stay rfl rfl
    · exact .locks n f
  | writeScan n f j =>
    simp only [stepRound] at taken
    split at taken
    · split at taken <;> cases taken
      · exact .scans n f ‹_›
      · exact .rescans n f j
    · rename_i past
      cases taken
      exact .scanned f (Nat.le_of_not_lt past)
  | call n f =>
    cases f <;> simp only [stepRound] at taken <;>
      obtain ⟨log, stepped, same⟩ := Option.map_eq_some_iff.mp taken <;> cases same <;>
      exact .calls n _ rfl stepped
  | replay n f => exact roundMove_replay taken
  | clearLoad n f resp mine j =>
    simp only [stepRound] at taken
    split at taken
    · split at taken <;> cases taken
      · exact .finds n f resp mine j
      · exact .passes n f mine ‹_›
    · rename_i past
      cases taken
      exact .passed f resp mine (Nat.le_of_not_lt past)
  | clearStore n f resp mine j =>
    cases taken
    exact .clears n f resp mine j
  | closureEnd n f resp mine =>
    cases taken
    refine .closes n f resp mine ?_
    split
    · exact ⟨rfl, rfl, rfl⟩
    · split <;> exact ⟨rfl, rfl, rfl⟩
  | writeUnlock n f =>
    simp only [stepRound] at taken
    obtain ⟨next', goes, same⟩ := Option.map_eq_some_iff.mp taken
    cases same
    exact .unlocks n f (roundMove_writeUnlock goes)
  | deliver n i first waitingFor =>
    simp only [stepRound, deliverStep] at taken
    split at taken
    · split at taken
      · cases taken
        exact .stay rfl rfl
      · split at taken <;> cases taken
        · exact .sets rfl ⟨rfl, rfl, rfl⟩ rfl
        · exact .stay rfl rfl
    · cases taken
      exact .stay rfl rfl
  | unlock outcome =>
    cases taken
    exact .sets rfl ⟨rfl, rfl, rfl⟩ rfl

/-- What an access of a round does to the lock of its replica. -/
structure RoundLock (cfg : Config D ReadOp WriteOp Resp) (s s' : State D ReadOp WriteOp Resp)
    (q : Nat) (round : Round Resp) (next : RoundNext Resp) : Prop where
  pc : s'.pc = s.pc
  others : ∀ q', q' ≠ q → s'.replicas q' = s.replicas q'
  rlock : (s'.replicas q).rlock = (s.replicas q).rlock
  log : s'.log = s.log ∨ round.writeGuard = .held ∧
    ∃ event, event.replica = some q ∧ Log.step cfg.geometry s.log event = some s'.log
  guard : ∀ t flag, standing t q (s.pc t) = .round round →
    GuardStep s (.step t flag : ReplicaEvent ReadOp WriteOp) q (s'.writeLock q)
      round.writeGuard next.standing.writeGuard

theorem RoundLock.read (guard : ∀ t flag, standing t q (s.pc t) = .round round →
    GuardStep s (.step t flag : ReplicaEvent ReadOp WriteOp) q (s.writeLock q)
      round.writeGuard next.standing.writeGuard) : RoundLock cfg s s q round next :=
  ⟨rfl, fun _ _ => rfl, rfl, .inl rfl, guard⟩

variable {r : ReplicaState D WriteOp Resp}

theorem RoundLock.set (rlock : r.rlock = (s.replicas q).rlock)
    (guard : ∀ t flag, GuardStep s (.step t flag : ReplicaEvent ReadOp WriteOp) q r.wlock
      round.writeGuard next.standing.writeGuard) :
    RoundLock cfg s (s.setReplica q r) q round next where
  pc := rfl
  others := fun _ other => setReplica_of_ne s r other
  rlock := by rw [setReplica_same, rlock]
  log := .inl rfl
  guard := by
    intro t flag _
    rw [State.writeLock, setReplica_same]
    exact guard t flag

theorem roundLock_of_stepRound (taken : stepRound cfg s q round = some (s', next)) :
    RoundLock cfg s s' q round next := by
  cases roundMove_of_stepRound taken with
  | sets _ same guard => exact .set same.rlock fun _ _ => .same guard same.wlock
  | locks n f => exact .set (by rfl) fun _ _ => .locks rfl rfl
  | scans n f none => exact .read fun _ _ _ => .scans rfl none rfl rfl
  | rescans n f j => exact .read fun _ _ _ => .rescans rfl rfl rfl
  | scanned f past => exact .read fun _ _ place => .ends rfl place past rfl rfl rfl
  | calls n f own stepped =>
    exact ⟨rfl, fun _ _ => rfl, rfl, .inr ⟨rfl, _, own, stepped⟩, fun _ _ _ => .same rfl rfl⟩
  | replays n f stepped =>
    exact ⟨rfl, fun _ _ => rfl, rfl, .inr ⟨rfl, _, rfl, stepped⟩, fun _ _ _ => .same rfl rfl⟩
  | @executes n f log op mine _ stepped _ =>
    refine ⟨rfl, fun _ other => replica_executes_of_ne s log _ other, by rw [replica_executes],
      .inr ⟨rfl, _, rfl, stepped⟩, fun _ _ _ => ?_⟩
    have same : (s.executes cfg q log op).writeLock q = s.writeLock q := by
      rw [State.writeLock, replica_executes]
      rfl
    cases f with
    | append => exact .same rfl same
    | combineExec waitingFor => exact .same rfl same
    | replicaExec =>
      cases mine with
      | true => exact .free rfl
      | false => exact .same rfl same
  | returns | finds | passes | passed => exact .read fun _ _ _ => .same rfl rfl
  | clears n f resp mine j => exact .set (by rfl) fun _ _ => .same rfl rfl
  | closes n f resp mine same => exact .set same.rlock fun _ _ => .same rfl same.wlock
  | unlocks n f outside => exact .set (by rfl) fun _ _ => .free outside

/-! ### Steps of threads outside rounds -/

/-- A step of thread `t` that is no access of a round. -/
structure OutsideStep (s s' : State D ReadOp WriteOp Resp) (t : Thread) : Prop where
  own : SectionStep s s' t
  others : ∀ t', t' ≠ t → s'.pc t' = s.pc t'
  locks : ∀ t', t' ≠ t → 1 ≤ t.tid → 1 ≤ t'.tid → s'.readLocks t' = s.readLocks t'
  wlock : ∀ q, s'.writeLock q = s.writeLock q
  combiner : ∀ q, (s'.replicas q).combiner = (s.replicas q).combiner ∨
    (s'.replicas q).combiner = none ∨ (s'.replicas q).combiner = some t
  rests : ∀ q, (standing t q (s'.pc t)).rests = true
  log : s'.log = s.log

theorem writeGuard_of_rests {standing : Standing Resp} (rests : standing.rests = true) :
    standing.writeGuard = .none := by
  cases standing with
  | parked => rfl
  | round round =>
    cases round with
    | loadNext combines => rfl
    | _ => cases rests

theorem writeGuard_of_others (others : ∀ t', t' ≠ t → s'.pc t' = s.pc t')
    (combiner : (s'.replicas q).combiner = (s.replicas q).combiner ∨
      (s'.replicas q).combiner = none ∨ (s'.replicas q).combiner = some t)
    (rests : (standing t q (s'.pc t)).rests = true) :
    s'.writeGuard q = .none ∨ s'.writeGuard q = s.writeGuard q := by
  unfold State.writeGuard State.standing
  cases holder : (s'.replicas q).combiner with
  | none => exact .inl rfl
  | some t' =>
    by_cases own : t' = t
    · subst own
      exact .inl (writeGuard_of_rests rests)
    · right
      rw [holder] at combiner
      rcases combiner with same | none | taken
      · rw [← same]
        simp only [others t' own]
      · cases none
      · exact absurd (Option.some.inj taken) own

theorem OutsideStep.lockStep (step : OutsideStep s s' t) (token : 1 ≤ t.tid)
    (e : ReplicaEvent ReadOp WriteOp) : LockStep cfg s s' e where
  readers := by
    intro t' token'
    by_cases own : t' = t
    · rw [own]
      exact step.own
    · exact .same (by rw [step.others t' own]) (step.locks t' own token token')
  writer := by
    intro q
    rcases writeGuard_of_others step.others (step.combiner q) (step.rests q) with none | same
    · exact .free none
    · exact .same same (step.wlock q)
  executed := fun q => .inl (by rw [step.log])
  log := .inl step.log

variable {pc : ThreadPc ReadOp WriteOp Resp}

theorem OutsideStep.move (moved : s'.pc = update s.pc t pc)
    (rlock : ∀ q, (s'.replicas q).rlock = (s.replicas q).rlock)
    (wlock : ∀ q, (s'.replicas q).wlock = (s.replicas q).wlock)
    (combiner : ∀ q, (s'.replicas q).combiner = (s.replicas q).combiner ∨
      (s'.replicas q).combiner = none ∨ (s'.replicas q).combiner = some t) (log : s'.log = s.log)
    (own : s'.pc t = pc → SectionStep s s' t) (rests : ∀ q, (standing t q pc).rests = true) :
    OutsideStep s s' t where
  own := by
    refine own ?_
    rw [moved, update_self]
  others := by
    intro t' other
    rw [moved, update_of_ne other]
  locks := fun t' _ _ _ => congrFun (rlock _) _
  wlock := wlock
  combiner := combiner
  rests := by
    rw [moved, update_self]
    exact rests
  log := log

theorem OutsideStep.goto (place : pc.readSection = (s.pc t).readSection)
    (rests : ∀ q, (standing t q pc).rests = true) : OutsideStep s (s.goto t pc) t :=
  .move rfl (fun _ => rfl) (fun _ => rfl) (fun _ => .inl rfl) rfl
    (fun now => .same (by rw [now, place]) rfl) rests

theorem OutsideStep.set (rlock : r.rlock = (s.replicas q).rlock)
    (wlock : r.wlock = (s.replicas q).wlock)
    (combiner : r.combiner = (s.replicas q).combiner ∨ r.combiner = none ∨ r.combiner = some t)
    (place : pc.readSection = (s.pc t).readSection) (rests : ∀ q, (standing t q pc).rests = true) :
    OutsideStep s ((s.setReplica q r).goto t pc) t := by
  have locks := setReplica_field (·.rlock) rlock
  refine .move rfl locks (setReplica_field (·.wlock) wlock) ?_ rfl
    (fun now => .same (by rw [now, place]) (congrFun (locks _) _)) rests
  exact forall_setReplica (P := fun q r => r.combiner = (s.replicas q).combiner ∨
    r.combiner = none ∨ r.combiner = some t) combiner fun _ => .inl rfl

theorem OutsideStep.setReadLock (count : Nat)
    (own : ∀ s', s'.pc t = pc → s'.readLocks t = count → SectionStep s s' t)
    (outside : pc.outside = true) :
    OutsideStep s ((s.setReplica t.replica { s.replicas t.replica with
      rlock := update (s.replicas t.replica).rlock (t.tid - 1) count }).goto t pc) t where
  own := by
    refine own _ (goto_pc_self ..) ?_
    rw [State.readLocks, goto_replicas, setReplica_same]
    exact update_self ..
  others := fun t' other => goto_pc_other _ pc other
  locks := by
    intro t' other token token'
    rw [State.readLocks, State.readLocks, goto_replicas]
    by_cases same : t'.replica = t.replica
    · have different := index_ne_of_ne other token token' same
      rw [same, setReplica_same]
      exact update_of_ne different ..
    · rw [setReplica_of_ne s _ same]
  wlock := setReplica_field (·.wlock) (by rfl)
  combiner := fun q => .inl (setReplica_field (·.combiner) (by rfl) q)
  rests := by
    rw [goto_pc_self]
    exact rests_of_outside outside t
  log := rfl

/-! ### Steps of the machine -/

theorem readSection_afterCombine (t : Thread) (outcome : Outcome) (caller : Caller ReadOp) :
    (afterCombine t outcome caller : ThreadPc ReadOp WriteOp Resp).readSection = .outside := by
  cases caller <;> cases outcome <;> simp only [afterCombine] <;> repeat' split
  all_goals rfl

theorem readSection_afterSync (q : Nat) (caller : SyncCaller ReadOp) :
    (afterSync q caller : ThreadPc ReadOp WriteOp Resp).readSection = .outside := by
  cases caller with
  | noLogSpace caller => cases caller <;> rfl
  | loop ctail resume => rfl
  | gcFailed l => rfl

variable {flag : Bool}

section

variable {stage : Round Resp → ThreadPc ReadOp WriteOp Resp}
  {done : Outcome → ThreadPc ReadOp WriteOp Resp} (rounds : Rounds t q stage done)

include rounds

theorem Rounds.readSection (round : Round Resp) : (stage round).readSection = .outside := by
  cases rounds <;> rfl

theorem Rounds.readSection_next (next : RoundNext Resp) :
    (next.pc stage done).readSection = .outside := by
  cases next with
  | goOn round => exact rounds.readSection round
  | done outcome =>
    cases rounds with
    | combine caller => exact readSection_afterCombine t outcome caller
    | sync caller => exact readSection_afterSync q caller
  | panic reason => rfl

variable (inv : CombiningInv cfg False s) (here : s.pc t = stage round)

include inv here

theorem Rounds.writeGuard : s.writeGuard q = round.writeGuard := by
  unfold State.writeGuard State.standing
  rw [inv.locks t q (rounds.holds here)]
  simp only [rounds.place here, Standing.writeGuard]

variable (taken : stepRound cfg s q round = some (s', next))

include taken

theorem Rounds.roundStep : RoundStep cfg False s s' q next :=
  roundStep_of_stepRound inv.base
    (roundInv_of_holds inv (rounds.holds here) (rounds.place here)) False.elim taken

/-- The writer of a round goes on where its access leads, or has left the lock. -/
theorem Rounds.guard_next :
    (s'.goto t (next.pc stage done)).writeGuard q = next.standing.writeGuard := by
  have held := inv.locks t q (rounds.holds here)
  have stepped := rounds.roundStep inv here taken
  unfold State.writeGuard State.standing
  rw [goto_replicas, stepped.combiner]
  cases next with
  | goOn round =>
    rw [if_neg (by simp [RoundNext.releases]), held]
    simp only [goto_pc_self]
    exact congrArg Standing.writeGuard (rounds.place rfl)
  | done outcome =>
    by_cases released : (RoundNext.done outcome : RoundNext Resp).releases = true
    · rw [if_pos ⟨rfl, released⟩]
      rfl
    · rw [if_neg fun both => released both.2, held]
      simp only [goto_pc_self]
      exact writeGuard_of_rests (rounds.rests outcome q)
  | panic reason => exact absurd rfl (stepped.safe reason)

theorem Rounds.lockStep :
    LockStep cfg s (s'.goto t (next.pc stage done)) (.step t flag) := by
  have lock := roundLock_of_stepRound taken
  have others : ∀ t', t' ≠ t → (s'.goto t (next.pc stage done)).pc t' = s.pc t' := by
    intro t' other
    rw [goto_pc_other s' _ other, lock.pc]
  refine ⟨fun t' _ => .same ?_ ?_, fun q' => ?_, fun q' => ?_, ?_⟩
  · by_cases own : t' = t
    · rw [own, goto_pc_self, here, rounds.readSection, rounds.readSection_next]
    · rw [others t' own]
  · rw [State.readLocks, State.readLocks, goto_replicas]
    by_cases same : t'.replica = q
    · rw [same, lock.rlock]
    · rw [lock.others _ same]
  · by_cases same : q' = q
    · subst same
      rw [rounds.writeGuard inv here, rounds.guard_next inv here taken]
      exact lock.guard t flag (rounds.place here)
    · have combiner : ((s'.goto t (next.pc stage done)).replicas q').combiner =
          (s.replicas q').combiner := by
        rw [goto_replicas, lock.others q' same]
      have quiet : (standing t q' ((s'.goto t (next.pc stage done)).pc t)).rests = true := by
        rw [goto_pc_self]
        cases next with
        | goOn round => exact rounds.rests_of_ne rfl same
        | done outcome => exact rounds.rests outcome q'
        | panic reason => rfl
      rcases writeGuard_of_others others (.inl combiner) quiet with none | kept
      · exact .free none
      · refine .same kept ?_
        rw [State.writeLock, State.writeLock, goto_replicas, lock.others q' same]
  · rcases lock.log with same | ⟨guard, event, own, stepped⟩
    · left
      rw [goto_log, same]
    · by_cases same : q' = q
      · subst same
        exact .inr ((rounds.writeGuard inv here).trans guard)
      · refine .inl (Log.executed_of_step stepped ?_)
        rw [own]
        exact fun equal => same (Option.some.inj equal).symm
  · refine lock.log.imp_right fun moved => ?_
    obtain ⟨_, event, _, stepped⟩ := moved
    exact ⟨event, stepped⟩

end

theorem OutsideMove.parked (move : OutsideMove cfg s t pc s') : standing t q pc = .parked := by
  cases move with
  | stays polls => cases pc <;> first | rfl | cases polls
  | goes goes => cases goes <;> rfl
  | _ => rfl

theorem outsideStep_goes {pc' : ThreadPc ReadOp WriteOp Resp} (here : s.pc t = pc)
    (goes : Goes s t pc pc') : OutsideStep s (s.goto t pc') t := by
  have rests : ∀ pc : ThreadPc ReadOp WriteOp Resp, pc.outside = true →
      ∀ q, (standing t q pc).rests = true := fun _ outside => rests_of_outside outside t
  cases goes with
  | @notCombiner caller =>
    exact .goto (by rw [here]; exact readSection_afterCombine t .ok caller)
      (continues_afterCombine t .ok caller).rests
  | @notSyncer caller q =>
    exact .goto (by rw [here]; exact readSection_afterSync q caller)
      (continues_afterSync t q caller).rests
  | lookupCombines =>
    exact .goto (by rw [here]; rfl) (continues_combine t (.lookup _ _ true)).rests
  | entersRead free =>
    exact .move rfl (fun _ => rfl) (fun _ => rfl) (fun _ => .inl rfl) rfl
      (fun now => .enters (by rw [here]; rfl) free (by rw [now]; rfl) rfl) (rests _ rfl)
  | races changed =>
    exact .move rfl (fun _ => rfl) (fun _ => rfl) (fun _ => .inl rfl) rfl
      (fun _ => .races (by rw [here]; rfl) changed) (rests _ rfl)
  | _ => exact .goto (by rw [here]; rfl) (rests _ rfl)

theorem outsideStep_of_move (here : s.pc t = pc) (move : OutsideMove cfg s t pc s') :
    OutsideStep s s' t := by
  have rests : ∀ pc : ThreadPc ReadOp WriteOp Resp, pc.outside = true →
      ∀ q, (standing t q pc).rests = true := fun _ outside => rests_of_outside outside t
  have still : s.pc = update s.pc t pc := by rw [← here, update_eq_self]
  cases move with
  | stays polls =>
    refine .move still (fun _ => rfl) (fun _ => rfl) (fun _ => .inl rfl) rfl
      (fun _ => .same rfl rfl) fun q => ?_
    cases pc <;> first | rfl | cases polls
  | goes goes => exact outsideStep_goes here goes
  | enqueues => exact .set (by rfl) (by rfl) (.inl (by rfl)) (by rw [here]; rfl) (rests _ rfl)
  | @acquires caller =>
    exact .set (by rfl) (by rfl) (.inr (.inr rfl)) (by rw [here]; rfl)
      (continues_combine t caller).rests
  | acquiresOther =>
    refine .set (by rfl) (by rfl) (.inr (.inr rfl)) (by rw [here]; rfl) fun q' => ?_
    simp only [standing]
    split <;> rfl
  | returns =>
    refine .move rfl (setReplica_field (·.rlock) (by rfl)) (setReplica_field (·.wlock) (by rfl))
      (fun q => .inl (setReplica_field (·.combiner) (by rfl) q)) rfl (fun now => .same ?_ ?_)
      (rests _ rfl)
    · rw [now, here]
      rfl
    · exact congrFun (setReplica_field (·.rlock) (by rfl) _) _
  | takesNone =>
    refine .move still (setReplica_field (·.rlock) (by rfl)) (setReplica_field (·.wlock) (by rfl))
      (fun q => .inl (setReplica_field (·.combiner) (by rfl) q)) rfl (fun _ => .same rfl ?_)
      (rests _ rfl)
    exact congrFun (setReplica_field (·.rlock) (by rfl) _) _
  | readLocks =>
    exact .setReadLock _ (fun s' now locks => .tries (by rw [here]; rfl) (by rw [now]; rfl) locks)
      rfl
  | backsOff =>
    exact .setReadLock _
      (fun s' now locks => .backsOff (by rw [here]; rfl) (by rw [now]; rfl) locks) rfl
  | reads =>
    exact .move rfl (fun _ => rfl) (fun _ => rfl) (fun _ => .inl rfl) rfl
      (fun now => .reads (by rw [here]; rfl) (by rw [now]; rfl) rfl) (rests _ rfl)
  | @readUnlocks l locked resp =>
    refine .setReadLock _ (fun s' now locks => .leaves (by rw [here]; rfl) ?_ locks) ?_
    · rw [now]
      split
      · rfl
      · cases locked <;> rfl
    · split
      · rfl
      · cases locked <;> rfl
  | @storesAnchor l locked resp =>
    refine .set (by rfl) (by rfl) (.inl (by rfl)) ?_ (continues_afterLookup t locked).rests
    rw [here]
    cases locked <;> rfl
  | releases => exact .set (by rfl) (by rfl) (.inr (.inl rfl)) (by rw [here]; rfl) (rests _ rfl)
  | loadsAnchor =>
    exact .move rfl (fun _ => rfl) (fun _ => rfl) (fun _ => .inl rfl) rfl
      (fun now => .same (by rw [now, here]; rfl) rfl) (rests _ rfl)
  | clearsAnchor =>
    exact .set (by rfl) (by rfl) (.inl (by rfl)) (by rw [here]; rfl) (rests _ rfl)

theorem lockStep_stepThread (inv : CombiningInv cfg False s)
    (taken : stepThread cfg s t flag = some s') (started : (s.pc t).isIdle = false) :
    LockStep cfg s s' (.step t flag) := by
  have move := threadMove_of_stepThread taken
  generalize here : s.pc t = pc at move
  cases move with
  | outside move =>
    exact (outsideStep_of_move here move).lockStep ((inv.valid t).registered started).2 _
  | round rounds stepped => exact rounds.lockStep inv here stepped

theorem pc_of_stepThread {t' : Thread} (taken : stepThread cfg s t flag = some s')
    (other : t' ≠ t) : s'.pc t' = s.pc t' := by
  have move := threadMove_of_stepThread taken
  generalize here : s.pc t = pc at move
  cases move with
  | outside move => exact (outsideStep_of_move here move).others t' other
  | round _ stepped => rw [goto_pc_other _ _ other, (roundLock_of_stepRound stepped).pc]

theorem LockStep.untouched (pc : s'.pc = s.pc)
    (rlock : ∀ q, (s'.replicas q).rlock = (s.replicas q).rlock)
    (wlock : ∀ q, (s'.replicas q).wlock = (s.replicas q).wlock)
    (combiner : ∀ q, (s'.replicas q).combiner = (s.replicas q).combiner)
    (log : s'.log = s.log) (e : ReplicaEvent ReadOp WriteOp) : LockStep cfg s s' e where
  readers := fun t _ => .same (by rw [pc]) (congrFun (rlock _) _)
  writer := by
    intro q
    refine .same ?_ (wlock q)
    unfold State.writeGuard State.standing
    rw [combiner, pc]
  executed := fun q => .inl (by rw [log])
  log := .inl log

theorem lockStep_log {log : Log.State (Tagged WriteOp)} {e : Log.Event (Tagged WriteOp)}
    (taken : Log.step cfg.geometry s.log e = some log) (nobody : e.replica = none)
    (event : ReplicaEvent ReadOp WriteOp) : LockStep cfg s { s with log := log } event := by
  have executed : ∀ q, log.executed q = s.log.executed q :=
    fun q => Log.executed_of_step taken (by rw [nobody]; simp)
  exact ⟨fun _ _ => .same rfl rfl, fun _ => .same rfl rfl, fun q => .inl (executed q),
    .inr ⟨e, taken⟩⟩

theorem outsideStep_startCall (here : s.pc t = .idle) (call : Call ReadOp WriteOp) :
    OutsideStep s (startCall s t call) t := by
  cases call with
  | executeMut op =>
    have moved : (startCall s t (.executeMut op)).pc = update s.pc t (.enqueue op) := rfl
    exact .move moved (fun _ => rfl) (fun _ => rfl) (fun _ => .inl rfl) rfl
      (fun now => .same (by rw [now, here]; rfl) rfl) fun _ => rfl
  | execute op anchor => exact .goto (by rw [here]; rfl) fun _ => rfl
  | sync => exact .goto (by rw [here]; rfl) fun _ => rfl
  | checkNotificationReset => exact .goto (by rw [here]; rfl) fun _ => rfl

/-- **One event**, as readers and writers see it. -/
theorem lockStep_of_step (inv : CombiningInv cfg False s) {e : ReplicaEvent ReadOp WriteOp}
    (taken : step cfg s e = some s') : LockStep cfg s s' e := by
  cases stepForm_of_step taken with
  | register =>
    exact .untouched (by rfl) (setReplica_field (·.rlock) (by rfl))
      (setReplica_field (·.wlock) (by rfl))
      (fun q => setReplica_field (·.combiner) (by rfl) q) (by rfl) _
  | start registered idle => exact (outsideStep_startCall idle _).lockStep registered.2 _
  | step taken started => exact lockStep_stepThread inv taken started
  | line moved nobody => exact lockStep_log moved nobody _

/-! ### Mutual exclusion -/

/-- When a writer has scanned its `n` read locks, no thread with a token above `n` is inside
its read section. -/
def ScansAll (s : State D ReadOp WriteOp Resp) : ReplicaEvent ReadOp WriteOp → Prop
  | .step t _ => ∀ q n f j, standing t q (s.pc t) = .round (.writeScan n f j) → n ≤ j →
      ∀ t', t'.replica = q → (∃ seen, (s.pc t').readSection = .inside seen) → t'.tid ≤ n
  | _ => True

structure LockInv (s : State D ReadOp WriteOp Resp) : Prop where
  readers : ∀ t, 1 ≤ t.tid → s.readLocks t = (s.pc t).readSection.locks
  locked : ∀ q, s.writeGuard q ≠ .none → s.writeLock q = true
  scanned : ∀ q n j, s.writeGuard q = .scanning n j → ∀ t, t.replica = q → 1 ≤ t.tid →
    t.tid ≤ j → ∀ seen, (s.pc t).readSection ≠ .inside seen
  held : ∀ q, s.writeGuard q = .held → ∀ t, t.replica = q → 1 ≤ t.tid →
    ∀ seen, (s.pc t).readSection ≠ .inside seen
  fixed : ∀ t, 1 ≤ t.tid → ∀ seen, (s.pc t).readSection = .inside seen →
    (s.log.executed t.replica).length = seen

theorem lockInv_initial : LockInv (initialState cfg) where
  readers := fun _ _ => rfl
  locked := fun _ guarded => absurd rfl guarded
  scanned := fun _ _ _ guarded => by cases guarded
  held := fun _ guarded => by cases guarded
  fixed := fun _ _ _ inside => by cases inside

section

variable {e : ReplicaEvent ReadOp WriteOp} (inv : LockInv s) (lock : LockStep cfg s s' e)

include inv lock

variable {seen : Nat}

theorem inside_before (token : 1 ≤ t.tid) (inside : (s'.pc t).readSection = .inside seen) :
    (s.pc t).readSection = .inside seen ∨
      s.writeLock t.replica = false ∧ (s.log.executed t.replica).length = seen := by
  cases lock.readers t token with
  | same place =>
    rw [place] at inside
    exact .inl inside
  | tries _ after => rw [after] at inside; cases inside
  | backsOff _ after => rw [after] at inside; cases inside
  | enters _ free after =>
    rw [after] at inside
    cases inside
    exact .inr ⟨free, rfl⟩
  | reads _ after => rw [after] at inside; cases inside
  | races before changed => exact absurd (inv.fixed t token _ before) changed
  | leaves _ after => rw [after] at inside; cases inside

theorem inside_of_guarded (token : 1 ≤ t.tid) (guarded : s.writeGuard t.replica ≠ .none)
    (inside : (s'.pc t).readSection = .inside seen) : (s.pc t).readSection = .inside seen := by
  refine (inside_before inv lock token inside).resolve_right fun entered => ?_
  have taken := inv.locked _ guarded
  rw [entered.1] at taken
  cases taken

theorem lockInv_readers (t : Thread) (token : 1 ≤ t.tid) :
    s'.readLocks t = (s'.pc t).readSection.locks := by
  have count := inv.readers t token
  cases lock.readers t token with
  | same place locks => rw [place, locks, count]
  | tries before after locks => rw [after, locks, count, before]; rfl
  | backsOff before after locks => rw [after, locks, count, before]; rfl
  | enters before _ after locks => rw [after, locks, count, before]; rfl
  | reads before after locks => rw [after, locks, count, before]; rfl
  | races before changed => exact absurd (inv.fixed t token _ before) changed
  | leaves before after locks => rw [after, locks, count, before]; rfl

theorem lockInv_locked (q : Nat) (guarded : s'.writeGuard q ≠ .none) : s'.writeLock q = true := by
  cases lock.writer q with
  | free after => exact absurd after guarded
  | same guard lock => exact lock.trans (inv.locked q (guard ▸ guarded))
  | locks _ lock => exact lock
  | rescans before _ lock => exact lock.trans (inv.locked q (by rw [before]; simp))
  | scans before _ _ lock => exact lock.trans (inv.locked q (by rw [before]; simp))
  | ends _ _ _ before _ lock => exact lock.trans (inv.locked q (by rw [before]; simp))

theorem lockInv_scanned {n j : Nat} (guarded : s'.writeGuard t.replica = .scanning n j)
    (token : 1 ≤ t.tid) (scanned : t.tid ≤ j) (seen : Nat) :
    (s'.pc t).readSection ≠ .inside seen := by
  intro inside
  cases lock.writer t.replica with
  | free after => rw [after] at guarded; cases guarded
  | same guard =>
    rw [guard] at guarded
    have before := inside_of_guarded inv lock token (by rw [guarded]; simp) inside
    exact inv.scanned _ n j guarded t rfl token scanned seen before
  | locks after =>
    rw [after] at guarded
    cases guarded
    omega
  | rescans _ after =>
    rw [after] at guarded
    cases guarded
    omega
  | @scans _ k before none after =>
    have inside := inside_of_guarded inv lock token (by rw [before]; simp) inside
    rw [after] at guarded
    cases guarded
    by_cases last : t.tid ≤ k
    · exact inv.scanned _ n k before t rfl token last seen inside
    · -- The scan has just read this thread's lock.
      have count := inv.readers t token
      have index : t.tid - 1 = k := by omega
      rw [inside, State.readLocks, index, none] at count
      cases count
  | ends _ _ _ _ after => rw [after] at guarded; cases guarded

theorem lockInv_held (condition : ScansAll s e) (guarded : s'.writeGuard t.replica = .held)
    (token : 1 ≤ t.tid) (seen : Nat) : (s'.pc t).readSection ≠ .inside seen := by
  intro inside
  cases lock.writer t.replica with
  | free after => rw [after] at guarded; cases guarded
  | same guard =>
    rw [guard] at guarded
    have before := inside_of_guarded inv lock token (by rw [guarded]; simp) inside
    exact inv.held _ guarded t rfl token seen before
  | locks after => rw [after] at guarded; cases guarded
  | rescans _ after => rw [after] at guarded; cases guarded
  | scans _ _ after => rw [after] at guarded; cases guarded
  | ends event place past before _ _ =>
    subst event
    have inside := inside_of_guarded inv lock token (by rw [before]; simp) inside
    have below := condition _ _ _ _ place past t rfl ⟨seen, inside⟩
    exact inv.scanned _ _ _ before t rfl token (below.trans past) seen inside

theorem lockInv_fixed (token : 1 ≤ t.tid) (inside : (s'.pc t).readSection = .inside seen) :
    (s'.log.executed t.replica).length = seen := by
  rcases inside_before inv lock token inside with before | ⟨free, count⟩
  · rcases lock.executed t.replica with same | held
    · rw [same]
      exact inv.fixed t token seen before
    · exact absurd before (inv.held _ held t rfl token seen)
  · rcases lock.executed t.replica with same | held
    · rw [same]
      exact count
    · have taken := inv.locked t.replica (by rw [held]; simp)
      rw [free] at taken
      cases taken

theorem lockInv_step (condition : ScansAll s e) : LockInv s' where
  readers := lockInv_readers inv lock
  locked := lockInv_locked inv lock
  scanned := by
    rintro q n j guarded t rfl token scanned seen
    exact lockInv_scanned inv lock guarded token scanned seen
  held := by
    rintro q guarded t rfl token seen
    exact lockInv_held inv lock condition guarded token seen
  fixed := fun t token seen inside => lockInv_fixed inv lock token inside

end

/-- **Readers and writers are apart** in every run in which every scan ends with the threads
it did not look at outside their read sections. -/
theorem lockInv_of_reachable (reached : (replicaSystem cfg).ReachableWhere ScansAll s) :
    CombiningInv cfg False s ∧ LockInv s := by
  refine reached.invariant (P := fun s => CombiningInv cfg False s ∧ LockInv s) ?_ ?_
  · rintro s rfl
    exact ⟨combiningInv_initial, lockInv_initial⟩
  · rintro s e s' ⟨combining, inv⟩ condition taken
    exact ⟨combiningInv_step combining False.elim taken,
      lockInv_step inv (lockStep_of_step combining taken) condition⟩

end

end Megalon.Nr
