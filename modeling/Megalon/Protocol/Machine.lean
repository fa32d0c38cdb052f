import Mathlib.Algebra.Ring.Nat
import Megalon.Protocol.Moves

/-!
Contract: the transition system of all threads and replicas.

Owns: states, events, initial states, and the forms a step can take.

Does not own: properties of its runs.
-/

namespace Megalon.Protocol

open Function Core Foundations Index

structure Thread (Key : Type) (nodes : Nat) where
  call : Call Key
  pc : Pc Key nodes

structure State (Key Mem : Type) (nodes : Nat) where
  shared : Shared Key Mem nodes
  threads : Nat → Thread Key nodes

inductive Event (Key : Type) where
  | start (t : Nat) (call : Call Key)
  | thread (t choice : Nat)
  /-- `combine` dispatches the next entry of the log to the data of a replica. -/
  | replay (r : Nat)
  /-- `try_sync` does. -/
  | sync (r : Nat)
  /-- A round of replay is over: the local tail is stored. -/
  | complete (r : Nat)

section

variable {Key Mem : Type} [BlockKey Key] (cfg : Config Key Mem)

abbrev Config.Thread := Protocol.Thread Key cfg.nodes

abbrev Config.State := Protocol.State Key Mem cfg.nodes

/-- The steps of a run, each with the state before it. -/
abbrev Config.Trace := List (cfg.State × Event Key)

/-- The sum of offset and count is a `size_t`. One that wraps around passes the check of the
call, whose copy then leaves the page: such a call is not started here. -/
def Call.adds (call : Call Key) : Bool :=
  match call.kind with
  | .sampleReclaim | .iterativeReclaim => true
  | _ => call.offset + call.count < 2 ^ 64

/-- Where a call begins; an access across the end of the page is fatal. -/
def Call.entryPc (call : Call Key) : cfg.Pc :=
  match call.kind with
  | .sampleReclaim =>
    if call.count = 0 then .returned 0 []
    else .sampleVictim (.sample call.count) (call.samples (.sample call.count)) []
  | .iterativeReclaim => .iterateLock call.offset 0 call.count
  | _ => if call.offset + call.count ≤ cfg.slotSize then .anchorCtail else .crashed

def Pc.ready {nodes : Nat} : Pc Key nodes → Bool
  | .idle => true
  | .returned _ _ => true
  | _ => false

def Config.lines : Nat := (cfg.slotSize + (cfg.lineSize - 1)) / cfg.lineSize

/-- The notifications of the threads of `r` that wait for `slot` are cleared. -/
def clearNotif (changeNotif : Nat → Option Nat) (r : Fin cfg.nodes) (slot : Option Nat) :
    Nat → Option Nat :=
  fun t => if cfg.replica t = r ∧ changeNotif t = slot then none else changeNotif t

/-- `combine` on entry `applied r`: dispatch, clear notifications, and flush the page
unless the operation came from this replica. -/
def replayEntry (s : cfg.Shared) (r : Fin cfg.nodes) (entry : LogEntry Key) : cfg.Shared :=
  { s with
    applied := update s.applied r (s.applied r + 1)
    changeNotif := clearNotif cfg s.changeNotif r (replaySlot cfg.nodes s.log (s.applied r))
    pages :=
      match replaySlot cfg.nodes s.log (s.applied r) with
      | some slot =>
        if cfg.replica entry.thread = r then s.pages
        else cfg.memory.flushLines s.pages r slot cfg.lines
      | none => s.pages }

/-- `try_sync` dispatches the entry and does nothing else. -/
def syncEntry (s : cfg.Shared) (r : Fin cfg.nodes) : cfg.Shared :=
  { s with applied := update s.applied r (s.applied r + 1) }

def completeRound (s : cfg.Shared) (r : Fin cfg.nodes) : cfg.Shared :=
  { s with
    ltail := update s.ltail r (s.applied r)
    ctail := max s.ctail (s.applied r) }

def stepThread (s : cfg.State) (t choice : Nat) : Option cfg.State :=
  (next cfg t (s.threads t).call choice (s.threads t).pc).bind fun instr =>
    (perform cfg t s.shared instr.act).map fun (shared, reply) =>
      ⟨shared, update s.threads t ⟨(s.threads t).call, instr.resume reply⟩⟩

def stepReplica (s : cfg.State) (r : Nat) (change : Fin cfg.nodes → Option cfg.Shared) :
    Option cfg.State :=
  if inside : r < cfg.nodes then (change ⟨r, inside⟩).map fun shared => ⟨shared, s.threads⟩
  else none

def step (s : cfg.State) : Event Key → Option cfg.State
  | .start t call =>
    if (s.threads t).pc.ready && call.adds then
      some ⟨s.shared, update s.threads t ⟨call, call.entryPc cfg⟩⟩
    else none
  | .thread t choice => stepThread cfg s t choice
  | .replay r =>
    stepReplica cfg s r fun r =>
      s.shared.log[s.shared.applied r]?.map fun entry => replayEntry cfg s.shared r entry
  | .sync r =>
    -- an entry of this replica would lose its result, which is a panic
    stepReplica cfg s r fun r =>
      s.shared.log[s.shared.applied r]?.bind fun entry =>
        if cfg.replica entry.thread = r then none else some (syncEntry cfg s.shared r)
  | .complete r => stepReplica cfg s r fun r => some (completeRound cfg s.shared r)

/-- An empty directory, free records and slots, and no call in progress; the bytes of
the pages and the keys in free records are arbitrary. -/
structure Initial (s : cfg.State) : Prop where
  log : s.shared.log = []
  ctail : s.shared.ctail = 0
  ltail : ∀ r, s.shared.ltail r = 0
  applied : ∀ r, s.shared.applied r = 0
  changeNotif : ∀ t, s.shared.changeNotif t = none
  word : ∀ w, s.shared.word w = initSeqlock
  allocatedSlotNum : s.shared.allocatedSlotNum = 0
  localSeq : ∀ r w, s.shared.localSeq r w = none
  freeBit : ∀ slot, s.shared.freeBit slot = decide (slot < cfg.numPages)
  pages : cfg.memory.initial s.shared.pages
  threads : ∀ t, (s.threads t).pc = .idle

def system : System cfg.State (Event Key) where
  init := Initial cfg
  step := step cfg

/-- The initial state with given page data, and `key` in the free records. -/
def initialState (pages : Mem) (key : Key) : cfg.State where
  shared :=
    { log := []
      ctail := 0
      ltail := fun _ => 0
      applied := fun _ => 0
      changeNotif := fun _ => none
      word := fun _ => initSeqlock
      blockId := fun _ => key
      allocatedSlotNum := 0
      localSeq := fun _ _ => none
      freeBit := fun slot => decide (slot < cfg.numPages)
      pages := pages }
  threads := fun _ => ⟨⟨.get, key, none, 0, 0⟩, .idle⟩

theorem initial_initialState {pages : Mem} (key : Key) (initial : cfg.memory.initial pages) :
    (system cfg).init (initialState cfg pages key) where
  log := rfl
  ctail := rfl
  ltail := fun _ => rfl
  applied := fun _ => rfl
  changeNotif := fun _ => rfl
  word := fun _ => rfl
  allocatedSlotNum := rfl
  localSeq := fun _ _ => rfl
  freeBit := fun _ => rfl
  pages := initial
  threads := fun _ => rfl

def twoHosts (poolLen numPages slotSize : Nat) (some : 0 < poolLen)
    (memory : PageMemory (Fin 2) Mem) : Config Key Mem where
  nodes := 2
  replica := fun t => Fin.ofNat 2 t
  poolLen := poolLen
  poolLen_pos := some
  numPages := numPages
  slotSize := slotSize
  lineSize := 1
  lineSize_pos := Nat.one_pos
  fileBacked := fun _ => false
  pread := fun _ => none
  pread_length := fun _ _ failed => nomatch failed
  memory := memory

/-! ### Forms of a step -/

variable {cfg} {s s' : cfg.State} {t : Nat}

theorem step_start {call : Call Key} (taken : step cfg s (.start t call) = some s') :
    (s.threads t).pc.ready = true ∧
      s' = ⟨s.shared, update s.threads t ⟨call, call.entryPc cfg⟩⟩ := by
  simp only [step] at taken
  split at taken
  · rename_i ready
    rw [Bool.and_eq_true] at ready
    exact ⟨ready.1, (Option.some.inj taken).symm⟩
  · cases taken

theorem adds_of_start {call : Call Key} (taken : step cfg s (.start t call) = some s') :
    call.adds = true := by
  simp only [step] at taken
  split at taken
  · rename_i ready
    rw [Bool.and_eq_true] at ready
    exact ready.2
  · cases taken

variable {choice : Nat}

theorem step_thread (taken : step cfg s (.thread t choice) = some s') :
    ∃ instr shared reply, next cfg t (s.threads t).call choice (s.threads t).pc = some instr ∧
      perform cfg t s.shared instr.act = some (shared, reply) ∧
      s' = ⟨shared, update s.threads t ⟨(s.threads t).call, instr.resume reply⟩⟩ := by
  simp only [step, stepThread, Option.bind_eq_some_iff, Option.map_eq_some_iff] at taken
  obtain ⟨instr, fetched, ⟨shared, reply⟩, acted, rfl⟩ := taken
  exact ⟨instr, shared, reply, fetched, acted, rfl⟩

theorem step_of_perform {instr : Instr Key cfg.nodes} {shared : cfg.Shared}
    {reply : instr.act.Reply cfg.nodes}
    (fetched : next cfg t (s.threads t).call choice (s.threads t).pc = some instr)
    (acted : perform cfg t s.shared instr.act = some (shared, reply)) :
    step cfg s (.thread t choice) =
      some ⟨shared, update s.threads t ⟨(s.threads t).call, instr.resume reply⟩⟩ := by
  simp only [step, stepThread, fetched, Option.bind_some, acted, Option.map_some]

variable {r : Nat}

theorem stepReplica_some {change : Fin cfg.nodes → Option cfg.Shared}
    (taken : stepReplica cfg s r change = some s') :
    ∃ (inside : r < cfg.nodes) (shared : cfg.Shared),
      change ⟨r, inside⟩ = some shared ∧ s' = ⟨shared, s.threads⟩ := by
  simp only [stepReplica] at taken
  split at taken
  · rename_i inside
    rw [Option.map_eq_some_iff] at taken
    obtain ⟨shared, changed, rfl⟩ := taken
    exact ⟨inside, shared, changed, rfl⟩
  · cases taken

theorem step_replay (taken : step cfg s (.replay r) = some s') :
    ∃ (inside : r < cfg.nodes) (entry : LogEntry Key),
      s.shared.log[s.shared.applied ⟨r, inside⟩]? = some entry ∧
      s' = ⟨replayEntry cfg s.shared ⟨r, inside⟩ entry, s.threads⟩ := by
  simp only [step] at taken
  obtain ⟨inside, shared, changed, rfl⟩ := stepReplica_some taken
  rw [Option.map_eq_some_iff] at changed
  obtain ⟨entry, present, rfl⟩ := changed
  exact ⟨inside, entry, present, rfl⟩

theorem step_sync (taken : step cfg s (.sync r) = some s') :
    ∃ (inside : r < cfg.nodes) (entry : LogEntry Key),
      s.shared.log[s.shared.applied ⟨r, inside⟩]? = some entry ∧
      s' = ⟨syncEntry cfg s.shared ⟨r, inside⟩, s.threads⟩ := by
  simp only [step] at taken
  obtain ⟨inside, shared, changed, rfl⟩ := stepReplica_some taken
  rw [Option.bind_eq_some_iff] at changed
  obtain ⟨entry, present, changed⟩ := changed
  split at changed
  · cases changed
  · exact ⟨inside, entry, present, by rw [Option.some.inj changed]⟩

theorem step_complete (taken : step cfg s (.complete r) = some s') :
    ∃ inside : r < cfg.nodes, s' = ⟨completeRound cfg s.shared ⟨r, inside⟩, s.threads⟩ := by
  simp only [step] at taken
  obtain ⟨inside, shared, changed, rfl⟩ := stepReplica_some taken
  exact ⟨inside, by rw [Option.some.inj changed]⟩

theorem step_move (taken : step cfg s (.thread t choice) = some s') :
    ∃ act reply shared pc', Move cfg t (s.threads t).call choice (s.threads t).pc act reply pc' ∧
      perform cfg t s.shared act = some (shared, reply) ∧
      s' = ⟨shared, update s.threads t ⟨(s.threads t).call, pc'⟩⟩ := by
  obtain ⟨instr, shared, reply, fetched, acted, rfl⟩ := step_thread taken
  exact ⟨_, _, _, _, move_of_next fetched reply, acted, rfl⟩

/-- The forms of a step: a call starts, a thread moves, or a replica replays an entry or
ends a round, which changes neither the log, the records nor the bitmap. -/
inductive StepForm (s : cfg.State) : Event Key → cfg.State → Prop
  | start {t call} (ready : (s.threads t).pc.ready = true) :
      StepForm s (.start t call)
        ⟨s.shared, update s.threads t ⟨call, call.entryPc cfg⟩⟩
  | thread {t choice act reply shared pc'}
      (move : Move cfg t (s.threads t).call choice (s.threads t).pc act reply pc')
      (acted : perform cfg t s.shared act = some (shared, reply)) :
      StepForm s (.thread t choice)
        ⟨shared, update s.threads t ⟨(s.threads t).call, pc'⟩⟩
  | replica {e applied ltail ctail changeNotif pages} (other : ∀ t choice, e ≠ .thread t choice)
      (flushed : pages = s.shared.pages ∨
        ∃ r slot, pages = cfg.memory.flushLines s.shared.pages r slot cfg.lines) :
      StepForm s e
        ⟨{ s.shared with applied, ltail, ctail, changeNotif, pages }, s.threads⟩

variable {e : Event Key}

theorem stepForm_of_step (taken : step cfg s e = some s') : StepForm s e s' := by
  cases e with
  | start t call =>
    obtain ⟨ready, rfl⟩ := step_start taken
    exact .start ready
  | thread t choice =>
    obtain ⟨_, _, _, _, move, acted, rfl⟩ := step_move taken
    exact .thread move acted
  | replay r =>
    obtain ⟨_, _, _, rfl⟩ := step_replay taken
    refine .replica (by simp) ?_
    repeat' split
    · exact .inl rfl
    · exact .inr ⟨_, _, rfl⟩
    · exact .inl rfl
  | sync r =>
    obtain ⟨_, _, _, rfl⟩ := step_sync taken
    exact .replica (by simp) (.inl rfl)
  | complete r =>
    obtain ⟨_, rfl⟩ := step_complete taken
    exact .replica (by simp) (.inl rfl)

/-- What holds of a new call and after every move holds of all threads after a step if it
holds of those that do not move. -/
theorem forall_threads_step {P : Nat → cfg.Thread → Prop} (taken : step cfg s e = some s')
    (others : ∀ t, (∀ choice, e ≠ .thread t choice) → P t (s.threads t))
    (enters : ∀ t call, P t ⟨call, call.entryPc cfg⟩)
    (moves : ∀ {t choice act reply shared pc'}, e = .thread t choice → s'.shared = shared →
      Move cfg t (s.threads t).call choice (s.threads t).pc act reply pc' →
      perform cfg t s.shared act = some (shared, reply) → P t ⟨(s.threads t).call, pc'⟩) (t : Nat) :
    P t (s'.threads t) := by
  cases stepForm_of_step taken with
  | start =>
    exact (Function.forall_update_iff s.threads P).mpr
      ⟨enters _ _, fun t' _ => others t' (by simp)⟩ t
  | thread move acted =>
    refine (Function.forall_update_iff s.threads P).mpr
      ⟨moves rfl rfl move acted, fun t' different => others t' ?_⟩ t
    rintro choice ⟨⟩
    exact different rfl
  | replica other => exact others t (other t)

theorem call_of_step (taken : step cfg s e = some s')
    (busy : (s.threads t).pc.ready = true → False) : (s'.threads t).call = (s.threads t).call := by
  cases stepForm_of_step taken with
  | @start t' call ready =>
    have different : t ≠ t' := by
      rintro rfl
      exact busy ready
    simp [different]
  | @thread t' _ _ _ _ _ move acted =>
    by_cases same : t = t'
    · subst same
      simp
    · simp [same]
  | replica => rfl

/-! ### Runs of a few threads -/

/-- The event is not one of a thread from `n` on. -/
def Event.within (n : Nat) : Event Key → Bool
  | .start t _ => decide (t < n)
  | .thread t _ => decide (t < n)
  | _ => true

/-- Threads from `n` on have never been started. -/
def OthersIdle (n : Nat) (s : cfg.State) : Prop :=
  ∀ t, n ≤ t → (s.threads t).pc = .idle

theorem othersIdle_initial (n : Nat) (s : cfg.State) (start : Initial cfg s) : OthersIdle n s :=
  fun t _ => start.threads t

theorem othersIdle_step {n : Nat} (idle : OthersIdle n s) (inside : e.within n = true)
    (taken : step cfg s e = some s') : OthersIdle n s' := by
  intro t' beyond
  cases stepForm_of_step taken with
  | @start t _ _ | @thread t _ _ _ _ _ _ _ =>
    have different : t' ≠ t := by
      have := of_decide_eq_true inside
      omega
    simpa [different] using idle t' beyond
  | replica => exact idle t' beyond

end

end Megalon.Protocol
