import Megalon.Nr.Notifications

/-!
Contract: node replication as one sequential object (`node-replication/src/nr/replica.rs`,
`log.rs`).

Owns: the points at which calls take effect, that every response is the one of the sequential
object at its point, and that the points respect the order in real time.

Does not own: exactly-once combining and the freshness of lookups.
-/

namespace Megalon.Nr

open Foundations
open Log (callsOn)

section

variable {D ReadOp WriteOp Resp : Type} (cfg : Config D ReadOp WriteOp Resp)
  (s s' : State D ReadOp WriteOp Resp)

/-! ### The sequential object -/

/-- Call `k` of thread `t` is entry `j` of the log. -/
def State.EntryAt (t : Thread) (k j : Nat) : Prop :=
  ∃ op, s.log.appended[j]? = some (⟨op, t.tid, k⟩, t.replica)

/-- The replicas hold states of one sequential object and respond as it does: the update at
entry `j` finds the state after the entries below `j`, and a lookup that has seen `n` entries
the state after those. -/
structure Sequential : Prop where
  replicas : ∀ q, (s.replicas q).data = s.dataAt cfg (s.log.executed q).length
  updates : ∀ t k resp, 1 ≤ t.tid → (s.received t)[k]? = some resp → ∃ j op,
    (s.issued t)[k]? = some op ∧ s.log.appended[j]? = some (⟨op, t.tid, k⟩, t.replica) ∧
      resp = (cfg.ds.dispatchMut (s.dataAt cfg j) op).2
  once : ∀ t k i j, s.EntryAt t k i → s.EntryAt t k j → i = j
  lookups : ∀ t l locked n, s.pc t = .reading l locked n → n ≤ s.log.appended.length ∧
    ∀ flag s', step cfg s (.step t flag) = some s' →
      s'.pc t = .readUnlock l locked (cfg.ds.dispatch (s.dataAt cfg n) l.op)

/-- A thread that starts a call in the steps `trace` and is in a lookup at their end has called
that lookup in between. -/
def Calls (trace : List (State D ReadOp WriteOp Resp × ReplicaEvent ReadOp WriteOp))
    (t : Thread) : Prop :=
  ∃ u call, (u, .start t call) ∈ trace

/-- What happened up to `s` is before what is called in the steps `trace` after `s`, as the state
`s'` at their end shows it. -/
structure RealTime (trace : List (State D ReadOp WriteOp Resp × ReplicaEvent ReadOp WriteOp)) :
    Prop where
  log : s.log.appended <+: s'.log.appended
  update_update : ∀ t k i t' k' j, 1 ≤ t.tid → k < (s.received t).length → s'.EntryAt t k i →
    (s.issued t').length ≤ k' → s'.EntryAt t' k' j → i < j
  update_lookup : ∀ t k i t' l locked n, 1 ≤ t.tid → k < (s.received t).length →
    s'.EntryAt t k i → Calls trace t' → s'.pc t' = .reading l locked n → i < n
  lookup_update : ∀ t l locked n t' k' j, s.pc t = .reading l locked n →
    (s.issued t').length ≤ k' → s'.EntryAt t' k' j → n ≤ j
  lookup_lookup : ∀ t l locked n t' l' locked' n', s.pc t = .reading l locked n →
    Calls trace t' → s'.pc t' = .reading l' locked' n' → n ≤ n'

/-! ### Rounds inside the log -/

/-- A replica is inside `append` or `exec` only in the round of a thread. -/
def LogHeld : Prop :=
  ∀ q, (s.log.pc q).free = false → ∃ t round,
    standing t q (s.pc t) = .round round ∧ round.inLog = true

/-- A replica has one combiner, its log is called under the write lock only, and nobody reads
its data meanwhile. -/
structure Exclusive : Prop where
  combiner : ∀ t t' q, Holds t (s.pc t) q → Holds t' (s.pc t') q → t = t'
  writer : ∀ q, (s.log.pc q).free = false → s.writeGuard q = .held ∧ s.writeLock q = true
  reader : ∀ t l locked n, s.pc t = .reading l locked n →
    s.writeGuard t.replica ≠ .held ∧ (s.log.pc t.replica).free = true

/-- Steps of rounds that load the number of threads once, and of writers that scan every
read lock. -/
def Regular (s : State D ReadOp WriteOp Resp) (e : ReplicaEvent ReadOp WriteOp) : Prop :=
  SteadyStep s e ∧ ScansAll s e

end

section

variable {D ReadOp WriteOp Resp : Type} {cfg : Config D ReadOp WriteOp Resp}
  {s s' : State D ReadOp WriteOp Resp} {t : Thread} {q : Nat} {round : Round Resp}
  {next : RoundNext Resp} {e : ReplicaEvent ReadOp WriteOp}

/-! ### The log is free while it is read -/

theorem inLog_stepRound (taken : stepRound cfg s q round = some (s', next))
    (safe : ∀ reason, next ≠ .panic reason)
    (inside : (s.log.pc q).free = false → round.inLog = true)
    (busy : (s'.log.pc q).free = false) : ∃ stage, next = .goOn stage ∧ stage.inLog = true := by
  cases roundMove_of_stepRound taken with
  | sets outside same guard =>
    rw [inside busy] at outside
    cases outside
  | locks | scans | rescans | scanned | unlocks => cases inside busy
  | returns n f free =>
    rw [free] at busy
    cases busy
  | @executes n f log op mine running stepped called =>
    cases f with
    | append => exact ⟨_, rfl, rfl⟩
    | combineExec waitingFor => exact ⟨_, rfl, rfl⟩
    | replicaExec =>
      cases mine with
      | true => exact absurd rfl (safe _)
      | false => exact ⟨_, rfl, rfl⟩
  | calls | replays | finds | passes | passed | clears | closes => exact ⟨_, rfl, rfl⟩

theorem holds_of_standing {pc : ThreadPc ReadOp WriteOp Resp}
    (place : standing t q pc = .round round) : Holds t pc q := by
  rcases standing_cases place with ⟨caller, rfl, own⟩ | ⟨caller, rfl⟩
  · exact .inl ⟨rfl, own⟩
  · exact .inr ⟨caller, round, rfl⟩

theorem logHeld_round (inv : CombiningInv cfg False s) (held : LogHeld s)
    {stage : Round Resp → ThreadPc ReadOp WriteOp Resp}
    {done : Outcome → ThreadPc ReadOp WriteOp Resp} (rounds : Rounds t q stage done)
    (here : s.pc t = stage round) (taken : stepRound cfg s q round = some (s', next)) :
    LogHeld (s'.goto t (next.pc stage done)) := by
  have place := rounds.place here
  intro q' busy
  by_cases same : q' = q
  · subst same
    have inside : (s.log.pc q').free = false → round.inLog = true := by
      intro busy
      obtain ⟨t', round', place', inLog⟩ := held q' busy
      have same := (inv.locks t' q' (holds_of_standing place')).symm.trans
        (inv.locks t q' (rounds.holds here))
      cases same
      rw [← (standing_unique place place').2]
      exact inLog
    obtain ⟨round', rfl, inLog⟩ :=
      inLog_stepRound taken (rounds.roundStep inv here taken).safe inside busy
    refine ⟨t, round', ?_, inLog⟩
    rw [goto_pc_self]
    exact rounds.place rfl
  · have lock := roundLock_of_stepRound taken
    have unmoved : s'.log.pc q' = s.log.pc q' := by
      rcases lock.log with unmoved | ⟨_, event, own, stepped⟩
      · rw [unmoved]
      · refine Log.pc_of_step stepped ?_
        rw [own]
        exact fun equal => same (Option.some.inj equal).symm
    rw [goto_log, unmoved] at busy
    obtain ⟨t', round', place', inLog⟩ := held q' busy
    refine ⟨t', round', ?_, inLog⟩
    have other : t' ≠ t := by
      rintro rfl
      exact same (standing_unique place place').1
    rw [goto_pc_other _ _ other, lock.pc]
    exact place'

theorem LogHeld.keep (held : LogHeld s) (log : ∀ q, s'.log.pc q = s.log.pc q)
    (others : ∀ t', t' ≠ t → s'.pc t' = s.pc t') (outside : ∀ q, standing t q (s.pc t) = .parked) :
    LogHeld s' := by
  intro q busy
  rw [log] at busy
  obtain ⟨t', round, place, inLog⟩ := held q busy
  refine ⟨t', round, ?_, inLog⟩
  have other : t' ≠ t := by
    rintro rfl
    rw [outside] at place
    cases place
  rw [others t' other]
  exact place

theorem logHeld_stepThread (inv : CombiningInv cfg False s) (held : LogHeld s) {flag : Bool}
    (taken : stepThread cfg s t flag = some s') : LogHeld s' := by
  have move := threadMove_of_stepThread taken
  generalize here : s.pc t = pc at move
  cases move with
  | outside move =>
    have outside := outsideStep_of_move here move
    refine held.keep (fun _ => by rw [outside.log]) outside.others fun _ => ?_
    rw [here]
    exact move.parked
  | round rounds stepped => exact logHeld_round inv held rounds here stepped

theorem logHeld_step (inv : CombiningInv cfg False s) (held : LogHeld s)
    (taken : step cfg s e = some s') : LogHeld s' := by
  cases stepForm_of_step taken with
  | register => exact held
  | @start t call _ idle =>
    have outside := outsideStep_startCall idle call
    exact held.keep (fun _ => by rw [outside.log]) outside.others fun _ => by rw [idle]; rfl
  | step taken => exact logHeld_stepThread inv held taken
  | line moved nobody =>
    intro q busy
    exact held q (Log.pc_of_step moved (by rw [nobody]; simp) ▸ busy)

theorem logHeld_of_reachable (reached : (replicaSystem cfg).Reachable s) : LogHeld s := by
  have all : CombiningInv cfg False s ∧ LogHeld s := by
    refine System.Reachable.invariant (P := fun s => CombiningInv cfg False s ∧ LogHeld s)
      ?_ ?_ reached
    · rintro s rfl
      exact ⟨combiningInv_initial, fun _ busy => by cases busy⟩
    · rintro s e s' ⟨inv, held⟩ taken
      exact ⟨combiningInv_step inv False.elim taken, logHeld_step inv held taken⟩
  exact all.2

theorem guard_of_busy (inv : CombiningInv cfg False s) (held : LogHeld s)
    (busy : (s.log.pc q).free = false) : s.writeGuard q = .held := by
  obtain ⟨t, round, place, inLog⟩ := held q busy
  unfold State.writeGuard State.standing
  rw [inv.locks t q (holds_of_standing place)]
  simp only [place, Standing.writeGuard]
  cases round <;> first | rfl | cases inLog

theorem free_of_inside (reached : (replicaSystem cfg).ReachableWhere ScansAll s) {seen : Nat}
    (token : 1 ≤ t.tid) (inside : (s.pc t).readSection = .inside seen) :
    (s.log.pc t.replica).free = true := by
  obtain ⟨inv, lock⟩ := lockInv_of_reachable reached
  rw [← Bool.not_eq_false]
  intro busy
  have guard := guard_of_busy inv (logHeld_of_reachable reached.reachable) busy
  exact lock.held _ guard t rfl token seen inside

theorem tid_of_reading {steady : Prop} (inv : CombiningInv cfg steady s) {l : Lookup ReadOp}
    {locked : Bool} {n : Nat} (reading : s.pc t = .reading l locked n) : 1 ≤ t.tid :=
  ((inv.valid t).registered (by rw [reading]; rfl)).2

/-- **The locks of a replica exclude** in every run whose writers scan every read lock. -/
theorem replica_locks_exclude (reached : (replicaSystem cfg).ReachableWhere ScansAll s) :
    Exclusive s := by
  obtain ⟨inv, lock⟩ := lockInv_of_reachable reached
  refine ⟨?_, ?_, ?_⟩
  · intro t t' q holds holds'
    exact Option.some.inj ((inv.locks t q holds).symm.trans (inv.locks t' q holds'))
  · intro q busy
    have guard := guard_of_busy inv (logHeld_of_reachable reached.reachable) busy
    exact ⟨guard, lock.locked q (by rw [guard]; simp)⟩
  · intro t l locked n reading
    have token := tid_of_reading inv reading
    have inside : (s.pc t).readSection = .inside n := by rw [reading]; rfl
    exact ⟨fun guard => lock.held _ guard t rfl token n inside, free_of_inside reached token inside⟩

/-- What a thread reads inside its read section is below the completed tail. -/
theorem seen_le_ctail (reached : (replicaSystem cfg).ReachableWhere ScansAll s) {seen : Nat}
    (token : 1 ≤ t.tid) (inside : (s.pc t).readSection = .inside seen) : seen ≤ s.log.ctail := by
  obtain ⟨inv, lock⟩ := lockInv_of_reachable reached
  have free := free_of_inside reached token inside
  have bounded := (Log.ownInv_of_reachable inv.base.reached).ltail_le_ctail t.replica
  have position : (s.log.pc t.replica).position (s.log.ltails t.replica) =
      s.log.ltails t.replica := by
    cases here : s.log.pc t.replica <;> first | rfl | (rw [here] at free; cases free)
  rw [← lock.fixed t token seen inside, (Log.replayInv_of_reachable inv.base.reached).executed,
    callsOn, List.length_map, List.length_take, position]
  exact (Nat.min_le_left _ _).trans bounded

/-! ### Lookups called since -/

theorem lookupOf_step (inv : CombiningInv cfg False s) (taken : step cfg s e = some s')
    {l : Lookup ReadOp} (current : (s'.pc t).lookupOf = some l) :
    (s.pc t).lookupOf = some l ∨ l.since = s.log.ctail := by
  cases stepForm_of_step taken with
  | register | line => exact .inl current
  | @start t' call =>
    by_cases own : t = t'
    · subst own
      cases call <;> simp only [startCall, goto_pc_self] at current <;> cases current
      exact .inr rfl
    · rw [startCall_pc_other call own] at current
      exact .inl current
  | @step t' flag _ taken =>
    by_cases own : t = t'
    · subst own
      rcases (lookStep_of_stepThread inv taken).lookup with none | same
      · rw [none] at current
        cases current
      · exact .inl (same ▸ current)
    · rw [pc_of_stepThread taken own] at current
      exact .inl current

variable {allowed : State D ReadOp WriteOp Resp → ReplicaEvent ReadOp WriteOp → Prop}
  {trace : List (State D ReadOp WriteOp Resp × ReplicaEvent ReadOp WriteOp)}

theorem grows_of_segment (reached : (replicaSystem cfg).ReachableWhere allowed s)
    (segment : (replicaSystem cfg).Segment allowed s trace s') : LogGrows s s' := by
  induction segment with
  | refl => exact ⟨le_rfl, List.prefix_rfl, fun _ => List.prefix_rfl⟩
  | snoc before meets taken ih =>
    have inv := (lookupInv_of_reachable (before.reachableWhere reached).reachable).1
    have grows := (lockStep_of_step inv taken).grows
    exact ⟨ih.ctail.trans grows.ctail,
      ih.appended.trans grows.appended,
      fun q => (ih.executed q).trans (grows.executed q)⟩

theorem since_of_segment (reached : (replicaSystem cfg).ReachableWhere allowed s)
    (segment : (replicaSystem cfg).Segment allowed s trace s') (calls : Calls trace t)
    {l : Lookup ReadOp} (current : (s'.pc t).lookupOf = some l) : s.log.ctail ≤ l.since := by
  induction segment with
  | refl =>
    obtain ⟨_, _, listed⟩ := calls
    cases listed
  | @snoc u u' e trace before meets taken ih =>
    have inv := (lookupInv_of_reachable (before.reachableWhere reached).reachable).1
    rcases lookupOf_step inv taken current with known | now
    · obtain ⟨v, call, listed⟩ := calls
      rcases List.mem_append.mp listed with earlier | last
      · exact ih ⟨v, call, earlier⟩ known
      · -- a thread that starts a call is in no lookup before
        obtain ⟨rfl, rfl⟩ := Prod.mk.inj (List.mem_singleton.mp last)
        have started : step cfg v (.start t call) = some u' := taken
        simp only [step] at started
        split at started
        · rename_i ready
          cases here : v.pc t with
          | idle =>
            rw [here] at known
            cases known
          | _ =>
            rw [here] at ready
            cases ready.2.2.2
        · cases started
    · rw [now]
      exact (grows_of_segment reached before).ctail

/-- A thread leaves its idle place by a call only. -/
theorem calls_or_idle (segment : (replicaSystem cfg).Segment allowed s trace s')
    (idle : s.pc t = .idle) : Calls trace t ∨ s'.pc t = .idle := by
  induction segment with
  | refl => exact .inr idle
  | @snoc u u' e trace before meets taken ih =>
    rcases ih with ⟨v, call, listed⟩ | idle
    · exact .inl ⟨v, call, List.mem_append_left _ listed⟩
    cases stepForm_of_step taken with
    | register | line => exact .inr idle
    | @start t' call =>
      by_cases own : t = t'
      · subst own
        exact .inl ⟨u, call, by simp⟩
      · exact .inr ((startCall_pc_other call own).trans idle)
    | @step t' flag _ taken started =>
      have own : t ≠ t' := by
        rintro rfl
        rw [idle] at started
        cases started
      exact .inr ((pc_of_stepThread taken own).trans idle)

/-! ### Linearizability -/

/-- **Sequential responses**: every response of every run is that of the sequential object. -/
theorem sequential_of_reachable (reached : (replicaSystem cfg).ReachableWhere Regular s) :
    Sequential cfg s := by
  have inv : CombiningInv cfg True s :=
    combiningInv_of_reachable (reached.mono fun _ _ regular _ => regular.1)
  have base := inv.base
  have lock := (lockInv_of_reachable (reached.mono fun _ _ regular => regular.2)).2
  refine ⟨data_eq_dataAt base, ?_, ?_, ?_⟩
  · intro t k resp token received
    obtain ⟨op, called, completed⟩ := (base.calls t token).answers k resp received
    obtain ⟨j, _, produced⟩ := produces_of_completed base completed
    refine ⟨j, op, called, produced.entry, ?_⟩
    rw [produced.response, State.dataAt, ← foldl_callsOn t.replica]
    have executed := (Log.replayInv_of_reachable base.reached).executed t.replica
    have below := produced.executed
    rw [executed, callsOn, List.length_map, List.length_take] at below
    rw [executed, callsOn, ← List.map_take, List.take_take, Nat.min_eq_left (by omega)]
    rfl
  · rintro t k i j ⟨op, entry⟩ ⟨op', entry'⟩
    exact entry_unique base entry entry' rfl rfl
  · intro t l locked n reading
    have fixed := lock.fixed t (tid_of_reading inv reading) n (by rw [reading]; rfl)
    refine ⟨fixed ▸ length_executed_le_appended base t.replica, fun flag s' taken => ?_⟩
    simp only [step, stepThread, reading] at taken
    rw [if_pos fixed] at taken
    cases taken
    rw [goto_pc_self, data_eq_dataAt base, fixed]

theorem entryAt_before (grows : LogGrows s s') {k j : Nat}
    (entry : s'.EntryAt t k j) (below : j < s.log.appended.length) : s.EntryAt t k j := by
  obtain ⟨op, entry⟩ := entry
  obtain ⟨more, appended⟩ := grows.appended
  rw [← appended, List.getElem?_append_left below] at entry
  exact ⟨op, entry⟩

theorem entryAt_mono (grows : LogGrows s s') {k j : Nat} (entry : s.EntryAt t k j) :
    s'.EntryAt t k j := by
  obtain ⟨op, entry⟩ := entry
  obtain ⟨more, appended⟩ := grows.appended
  refine ⟨op, ?_⟩
  rw [← appended, List.getElem?_append_left (List.getElem?_eq_some_iff.mp entry).1]
  exact entry

theorem length_appended_le (base : BaseInv cfg True s) (grows : LogGrows s s') {k j : Nat}
    (called : (s.issued t).length ≤ k) (entry : s'.EntryAt t k j) : s.log.appended.length ≤ j := by
  by_contra below
  obtain ⟨op, entry⟩ := entryAt_before grows entry (Nat.lt_of_not_le below)
  have issued := ((base.logged t.replica).issued _ (mem_own entry)).2
  have bound : k < (s.issued t).length := (List.getElem?_eq_some_iff.mp issued).1
  omega

theorem lt_ctail_of_received (base : BaseInv cfg True s) (base' : BaseInv cfg True s')
    (grows : LogGrows s s') {k i : Nat} (token : 1 ≤ t.tid) (returned : k < (s.received t).length)
    (entry : s'.EntryAt t k i) : i < s.log.ctail ∧ i < s.log.appended.length := by
  obtain ⟨op, _, completed⟩ :=
    (base.calls t token).answers k _ (List.getElem?_eq_getElem returned)
  obtain ⟨j, below, produced⟩ := produces_of_completed base completed
  obtain ⟨op', entry⟩ := entry
  obtain ⟨_, found⟩ := entryAt_mono grows ⟨op, produced.entry⟩
  obtain rfl := entry_unique base' entry found rfl rfl
  exact ⟨below, (List.getElem?_eq_some_iff.mp produced.entry).1⟩

theorem realTime_of_segment (reached : (replicaSystem cfg).ReachableWhere Regular s)
    (segment : (replicaSystem cfg).Segment Regular s trace s') : RealTime s s' trace := by
  have reached' := segment.reachableWhere reached
  have inv : CombiningInv cfg True s :=
    combiningInv_of_reachable (reached.mono fun _ _ regular _ => regular.1)
  have inv' : CombiningInv cfg True s' :=
    combiningInv_of_reachable (reached'.mono fun _ _ regular _ => regular.1)
  have scans := reached.mono fun _ _ regular => regular.2
  have grows := grows_of_segment reached segment
  -- A lookup called after `s` sees at least what was completed in `s`.
  have later : ∀ {t l locked n}, Calls trace t → s'.pc t = .reading l locked n →
      s.log.ctail ≤ n := by
    intro t l locked n calls reading
    have current : (s'.pc t).lookupOf = some l := by rw [reading]; rfl
    have fixed := (lockInv_of_reachable (reached'.mono fun _ _ regular => regular.2)).2.fixed t
      (tid_of_reading inv' reading) n (by rw [reading]; rfl)
    calc s.log.ctail ≤ l.since := since_of_segment reached segment calls current
      _ ≤ (s'.log.executed t.replica).length :=
        ((lookupInv_of_reachable reached'.reachable).2 t).synced l current (by rw [reading]; rfl)
      _ = n := fixed
  refine ⟨grows.appended, ?_, ?_, ?_, ?_⟩
  · intro t k i t' k' j registered returned entry called entry'
    exact (lt_ctail_of_received inv.base inv'.base grows registered returned entry).2.trans_le
      (length_appended_le inv.base grows called entry')
  · intro t k i t' l locked n registered returned entry calls reading
    exact (lt_ctail_of_received inv.base inv'.base grows registered returned entry).1.trans_le
      (later calls reading)
  · intro t l locked n t' k' j reading called entry
    calc n = (s.log.executed t.replica).length :=
          ((lockInv_of_reachable scans).2.fixed t (tid_of_reading inv reading) n
            (by rw [reading]; rfl)).symm
      _ ≤ s.log.appended.length := length_executed_le_appended inv.base t.replica
      _ ≤ j := length_appended_le inv.base grows called entry
  · intro t l locked n t' l' locked' n' reading calls reading'
    exact (seen_le_ctail scans (tid_of_reading inv reading) (by rw [reading]; rfl)).trans
      (later calls reading')

/-- **Node replication is linearizable** in every run whose rounds load one number of threads
and whose writers scan every read lock: all responses are those of one sequential object that
executes the log, and calls that do not overlap take effect in the order of the calls. -/
theorem linearizable (reached : (replicaSystem cfg).ReachableWhere Regular s)
    (segment : (replicaSystem cfg).Segment Regular s trace s') :
    Sequential cfg s' ∧ RealTime s s' trace :=
  ⟨sequential_of_reachable (segment.reachableWhere reached), realTime_of_segment reached segment⟩

/-! ### Runs of few threads -/

/-- A test for regular steps in runs of few threads. -/
def regularTest (threads : List Thread) (s : State D ReadOp WriteOp Resp)
    (e : ReplicaEvent ReadOp WriteOp) : Bool :=
  steadyTest s e && scansAllTest threads s e

theorem regular_tests (cfg : Config D ReadOp WriteOp Resp) (threads : List Thread) :
    System.Tests (replicaSystem cfg) (OnlyThreads threads) (regularTest threads) Regular where
  initial := (scansAll_tests cfg threads).initial
  kept := by
    intro s e s' only passes taken
    rw [regularTest, Bool.and_eq_true] at passes
    exact (scansAll_tests cfg threads).kept s e s' only passes.2 taken
  sound := by
    intro s e only passes
    rw [regularTest, Bool.and_eq_true] at passes
    exact ⟨steadyStep_of_test passes.1, scansAll_of_test only passes.2⟩

end

theorem replica_locks_exclude_callThenLookup :
    ∃ s, (replicaSystem countingReplicas).ReachableWhere ScansAll s ∧
      readsAt s ⟨1, 1⟩ ⟨0, 1⟩ = some (1, 1, 1) ∧ Exclusive s := by
  obtain ⟨s, reached, evaluated⟩ := System.exists_reachableWhere_of_run
    (scansAll_tests countingReplicas [⟨0, 1⟩, ⟨1, 1⟩]) rfl callThenLookup
    (fun s => decide (readsAt s ⟨1, 1⟩ ⟨0, 1⟩ = some (1, 1, 1))) (by decide +kernel)
  exact ⟨s, reached, of_decide_eq_true evaluated, replica_locks_exclude reached⟩

/-- A thread of replica 1 looks up twice, and in between a thread of replica 0 calls and has its
response. -/
def lookupCallLookup : List (ReplicaEvent Unit Unit) :=
  List.flatten
    [List.replicate 2 (.step ⟨1, 1⟩ true), [.start ⟨0, 1⟩ (.executeMut ())],
      List.replicate 44 (.step ⟨0, 1⟩ true), [.start ⟨1, 1⟩ (.execute () false)],
      List.replicate 44 (.step ⟨1, 1⟩ true)]

theorem linearizable_lookupCallLookup :
    ∃ s trace s', (replicaSystem countingReplicas).ReachableWhere Regular s ∧
      (replicaSystem countingReplicas).Segment Regular s trace s' ∧
      (readsAt s ⟨1, 1⟩ ⟨0, 1⟩ = some (0, 0, 0) ∧ s'.received ⟨0, 1⟩ = [0] ∧
        readsAt s' ⟨1, 1⟩ ⟨0, 1⟩ = some (1, 1, 1)) ∧
      Sequential countingReplicas s' ∧ RealTime s s' trace := by
  obtain ⟨s₀, s, trace, s', reached, meets, taken, segment, evaluated⟩ :=
    System.exists_segment_of_runThenTrace (regular_tests countingReplicas [⟨0, 1⟩, ⟨1, 1⟩]) rfl
      ([.register 0, .register 1, .start ⟨1, 1⟩ (.execute () false)] ++
        List.replicate 3 (.step ⟨1, 1⟩ true))
      (.step ⟨1, 1⟩ true) lookupCallLookup
      (fun _ s _ s' => decide (readsAt s ⟨1, 1⟩ ⟨0, 1⟩ = some (0, 0, 0) ∧
        s'.received ⟨0, 1⟩ = [0] ∧ readsAt s' ⟨1, 1⟩ ⟨0, 1⟩ = some (1, 1, 1)))
      (by decide +kernel)
  have before := reached.step meets taken
  exact ⟨s, trace, s', before, segment, of_decide_eq_true evaluated, linearizable before segment⟩

end Megalon.Nr
