import Mathlib.Logic.Relation
import Megalon.Protocol.AnchoredReads

/-!
Contract: what one thread does while no other thread runs.

Owns: the tails of the log along all runs, the steps of the replicas between two steps of the
thread, and when a call that runs alone returns.

Does not own: the calls themselves.
-/

namespace Megalon.Protocol

open Function Core Foundations Index

section

variable {Key Mem : Type} [BlockKey Key] (cfg : Config Key Mem)

/-! ### Tails of the log -/

def Pc.awaited {nodes : Nat} : Pc Key nodes → Option Nat
  | .createWait _ _ index _ | .victimWait _ _ index _ | .switchWait _ index _
  | .writeWrapWait _ index => some index
  | _ => none

/-- How far the replicas are, and that every entry beyond the completed tail is awaited. -/
structure Tails (s : cfg.State) : Prop where
  applied : ∀ r, s.shared.applied r ≤ s.shared.log.length
  ltail : ∀ r, s.shared.ltail r ≤ s.shared.applied r
  completed : ∀ r, s.shared.ltail r ≤ s.shared.ctail
  ctail : s.shared.ctail ≤ s.shared.log.length
  logged : ∀ i, i < s.shared.log.length →
    i < s.shared.ctail ∨ ∃ t, (s.threads t).pc.awaited = some i

variable {cfg} {s : cfg.State}

theorem tails_initial (start : Initial cfg s) : Tails cfg s where
  applied := fun r => by simp [start.applied]
  ltail := fun r => by simp [start.ltail]
  completed := fun r => by simp [start.ltail]
  ctail := by simp [start.ctail]
  logged := fun i inside => by simp [start.log] at inside

variable {t choice : Nat} {pc' : cfg.Pc}

theorem await_of_awaited {index : Nat} {call : Call Key} {pc : cfg.Pc} {act : Act Key}
    {reply : act.Reply cfg.nodes} (move : Move cfg t call choice pc act reply pc')
    (waits : pc.awaited = some index) : act = .await index := by
  cases move <;> cases waits <;> rfl

theorem awaited_of_submit {call : Call Key} {pc : cfg.Pc}
    {s shared : cfg.Shared} {request : Request Key} {reply : (Act.submit request).Reply cfg.nodes}
    (move : Move cfg t call choice pc (.submit request) reply pc')
    (acted : perform cfg t s (.submit request) = some (shared, reply)) :
    pc'.awaited = some s.log.length := by
  obtain ⟨_, index, _⟩ := perform_submit acted
  rw [← index]
  cases move <;> rfl

theorem logged_thread {shared : cfg.Shared} {act : Act Key}
    {reply : act.Reply cfg.nodes} (tails : Tails cfg s)
    (move : Move cfg t (s.threads t).call choice (s.threads t).pc act reply pc')
    (acted : perform cfg t s.shared act = some (shared, reply)) (i : Nat)
    (inside : i < shared.log.length) :
    i < shared.ctail ∨ ∃ t',
      (update s.threads t ⟨(s.threads t).call, pc'⟩ t').pc.awaited = some i := by
  have frame := perform_frame acted
  by_cases old : i < s.shared.log.length
  · rcases tails.logged i old with done | ⟨t', waits⟩
    · exact .inl (by rw [frame.ctail]; exact done)
    by_cases same : t' = t
    · -- the thread goes on only when the entry is complete
      subst same
      obtain rfl := await_of_awaited move waits
      left
      simp only [perform] at acted
      split at acted
      · rename_i ready
        have := tails.completed (cfg.replica t')
        rw [frame.ctail]
        omega
      · cases acted
    · exact .inr ⟨t', by rw [update_of_ne same]; exact waits⟩
  · rcases perform_log acted with same | ⟨request, rfl, grown⟩
    · rw [same] at inside
      exact absurd inside old
    · rw [grown, List.length_append, List.length_singleton] at inside
      obtain rfl : i = s.shared.log.length := by omega
      refine .inr ⟨t, ?_⟩
      rw [update_self]
      exact awaited_of_submit move acted

variable {s' : cfg.State}

theorem tails_step {e : Event Key} (tails : Tails cfg s) (taken : step cfg s e = some s') :
    Tails cfg s' := by
  have applied := appliedInside_step s e s' tails.applied taken
  cases e with
  | start t call =>
    obtain ⟨ready, rfl⟩ := step_start taken
    refine ⟨applied, tails.ltail, tails.completed, tails.ctail, fun i inside => ?_⟩
    rcases tails.logged i inside with done | ⟨t', waits⟩
    · exact .inl done
    · have different : t' ≠ t := by
        rintro rfl
        cases counter : (s.threads t').pc <;> simp_all [Pc.ready, Pc.awaited]
      exact .inr ⟨t', by simpa [different] using waits⟩
  | thread t choice =>
    obtain ⟨more, log⟩ := log_step_append taken
    obtain ⟨_, _, shared, _, move, acted, rfl⟩ := step_move taken
    have frame := perform_frame acted
    refine ⟨applied, fun r => ?_, fun r => ?_, ?_, logged_thread tails move acted⟩
    · rw [frame.ltail, frame.applied]
      exact tails.ltail r
    · rw [frame.ltail, frame.ctail]
      exact tails.completed r
    · simp only at log
      rw [frame.ctail, log, List.length_append]
      exact tails.ctail.trans (Nat.le_add_right _ _)
  | replay r =>
    obtain ⟨inside, entry, _, rfl⟩ := step_replay taken
    refine ⟨applied, fun r' => (tails.ltail r').trans ?_, tails.completed, tails.ctail,
      tails.logged⟩
    by_cases same : r' = ⟨r, inside⟩
    · subst same
      simp [replayEntry]
    · simp [replayEntry, same]
  | sync r =>
    obtain ⟨inside, entry, _, rfl⟩ := step_sync taken
    refine ⟨applied, fun r' => (tails.ltail r').trans ?_, tails.completed, tails.ctail,
      tails.logged⟩
    by_cases same : r' = ⟨r, inside⟩
    · subst same
      simp [syncEntry]
    · simp [syncEntry, same]
  | complete r =>
    obtain ⟨inside, rfl⟩ := step_complete taken
    refine ⟨applied, fun r' => ?_, fun r' => ?_, ?_, fun i below => ?_⟩
    · by_cases same : r' = ⟨r, inside⟩
      · subst same
        simp [completeRound]
      · simpa [completeRound, same] using tails.ltail r'
    · by_cases same : r' = ⟨r, inside⟩
      · subst same
        simp [completeRound]
      · simpa [completeRound, same] using Or.inl (tails.completed r')
    · simpa [completeRound] using ⟨tails.ctail, tails.applied ⟨r, inside⟩⟩
    · rcases tails.logged i below with done | waits
      · exact .inl (Nat.lt_of_lt_of_le done (Nat.le_max_left _ _))
      · exact .inr waits

/-! ### Between two steps of the thread -/

def Event.ofReplica : Event Key → Bool
  | .replay _ | .sync _ | .complete _ => true
  | _ => false

variable (cfg) in
def CatchesUp : cfg.State → cfg.State → Prop :=
  Relation.ReflTransGen fun s s' => ∃ e : Event Key, e.ofReplica = true ∧ step cfg s e = some s'

/-- What the replicas leave alone. A thread whose replica has the whole log keeps its
notification. -/
structure Unmoved (s s' : cfg.State) : Prop where
  threads : s'.threads = s.threads
  log : s'.shared.log = s.shared.log
  word : s'.shared.word = s.shared.word
  blockId : s'.shared.blockId = s.shared.blockId
  allocatedSlotNum : s'.shared.allocatedSlotNum = s.shared.allocatedSlotNum
  localSeq : s'.shared.localSeq = s.shared.localSeq
  freeBit : s'.shared.freeBit = s.shared.freeBit
  applied : ∀ r, s.shared.applied r = s.shared.log.length →
    s'.shared.applied r = s.shared.log.length
  changeNotif : ∀ t, s.shared.applied (cfg.replica t) = s.shared.log.length →
    s'.shared.changeNotif t = s.shared.changeNotif t

theorem Unmoved.refl (s : cfg.State) : Unmoved s s :=
  ⟨rfl, rfl, rfl, rfl, rfl, rfl, rfl, fun _ same => same, fun _ _ => rfl⟩

theorem Unmoved.trans {s₁ s₂ : cfg.State} (first : Unmoved s s₁)
    (second : Unmoved s₁ s₂) : Unmoved s s₂ where
  threads := second.threads.trans first.threads
  log := second.log.trans first.log
  word := second.word.trans first.word
  blockId := second.blockId.trans first.blockId
  allocatedSlotNum := second.allocatedSlotNum.trans first.allocatedSlotNum
  localSeq := second.localSeq.trans first.localSeq
  freeBit := second.freeBit.trans first.freeBit
  applied := fun r current => by
    rw [← first.log]
    exact second.applied r (by rw [first.log]; exact first.applied r current)
  changeNotif := fun t current =>
    (second.changeNotif t (by rw [first.log]; exact first.applied _ current)).trans
      (first.changeNotif t current)

theorem unmoved_step {e : Event Key} (replica : e.ofReplica = true)
    (taken : step cfg s e = some s') : Unmoved s s' := by
  cases e with
  | start | thread => cases replica
  | replay r =>
    obtain ⟨inside, entry, present, rfl⟩ := step_replay taken
    have pending := (List.getElem?_eq_some_iff.mp present).1
    refine ⟨rfl, rfl, rfl, rfl, rfl, rfl, rfl, fun r' current => ?_, fun t current => ?_⟩
    · have other : r' ≠ ⟨r, inside⟩ := by
        rintro rfl
        omega
      simpa [replayEntry, other] using current
    · have other : cfg.replica t ≠ ⟨r, inside⟩ := by
        intro same
        rw [same] at current
        omega
      simp [replayEntry, clearNotif, other]
  | sync r =>
    obtain ⟨inside, entry, present, rfl⟩ := step_sync taken
    have pending := (List.getElem?_eq_some_iff.mp present).1
    refine ⟨rfl, rfl, rfl, rfl, rfl, rfl, rfl, fun r' current => ?_, fun _ _ => rfl⟩
    have other : r' ≠ ⟨r, inside⟩ := by
      rintro rfl
      omega
    simpa [syncEntry, other] using current
  | complete r =>
    obtain ⟨_, rfl⟩ := step_complete taken
    exact ⟨rfl, rfl, rfl, rfl, rfl, rfl, rfl, fun _ current => current, fun _ _ => rfl⟩

theorem unmoved_of_catchesUp (caught : CatchesUp cfg s s') : Unmoved s s' := by
  induction caught with
  | refl => exact .refl s
  | tail _ taken before =>
    obtain ⟨e, replica, taken⟩ := taken
    exact before.trans (unmoved_step replica taken)

theorem tails_of_catchesUp (tails : Tails cfg s) (caught : CatchesUp cfg s s') : Tails cfg s' := by
  induction caught with
  | refl => exact tails
  | tail _ taken before =>
    obtain ⟨e, _, taken⟩ := taken
    exact tails_step before taken

variable (cfg) in
/-- A scan of the bitmap that nobody disturbs finds a free slot if there is one, and a
compare-exchange that nobody disturbs succeeds. -/
def undisturbed (t choice : Nat) (s : cfg.State) : Bool :=
  match (s.threads t).pc with
  | .createReserve =>
    decide (choice < cfg.numPages) ||
      (List.range cfg.numPages).all fun slot => !s.shared.freeBit slot
  | .createRecycleTwice _ _ | .createRecycle _ _ | .victimRecycle _ _ _ | .switchRecycle _ =>
    choice == 0
  | _ => true

/-- Thread `t` is at `pc` in a call, no other thread is in one, and the records are owned. -/
structure Solo (strict : Prop) (t : Nat) (call : Call Key) (pc : cfg.Pc)
    (s : cfg.State) : Prop where
  thread : s.threads t = ⟨call, pc⟩
  others : ∀ t', t' ≠ t → (s.threads t').pc.ready = true
  records : RecordsIn cfg strict s
  tails : Tails cfg s

section

variable {strict : Prop} {t : Nat} {call : Call Key} {pc : cfg.Pc}
  {s : cfg.State}

theorem Solo.unmoved (solo : Solo strict t call pc s) {s' : cfg.State}
    (caught : CatchesUp cfg s s') : Solo strict t call pc s' := by
  have same := unmoved_of_catchesUp caught
  refine ⟨by rw [same.threads, solo.thread], by rw [same.threads]; exact solo.others, ?_,
    tails_of_catchesUp solo.tails caught⟩
  rw [RecordsIn, same.log, same.word, same.blockId, same.threads]
  exact solo.records

def State.advance (s : cfg.State) (t : Nat) (call : Call Key)
    (shared : cfg.Shared) (pc : cfg.Pc) : cfg.State :=
  ⟨shared, update s.threads t ⟨call, pc⟩⟩

theorem Solo.advance (solo : Solo strict t call pc s) {choice : Nat} {instr : Instr Key cfg.nodes}
    {shared : cfg.Shared} {reply : instr.act.Reply cfg.nodes}
    (allowed : uncontested cfg s (.thread t choice) = true)
    (frees : strict → recycles cfg s (.thread t choice) = true)
    (fetched : next cfg t call choice pc = some instr)
    (acted : perform cfg t s.shared instr.act = some (shared, reply)) :
    Solo strict t call (instr.resume reply) (s.advance t call shared (instr.resume reply)) := by
  have taken : step cfg s (.thread t choice) =
      some (s.advance t call shared (instr.resume reply)) := by
    have fetched : next cfg t (s.threads t).call choice (s.threads t).pc = some instr := by
      rw [solo.thread]
      exact fetched
    rw [step_of_perform fetched acted, solo.thread]
    rfl
  refine ⟨by simp [State.advance], fun t' other => ?_,
    recordsIn_step solo.records allowed frees taken, tails_step solo.tails taken⟩
  simpa [State.advance, other] using solo.others t' other

/-! ### What a thread that runs alone knows -/

theorem Solo.ctail (solo : Solo strict t call pc s) (idle : pc.awaited = none) :
    s.shared.ctail = s.shared.log.length := by
  refine Nat.le_antisymm solo.tails.ctail ?_
  by_contra short
  have pending : s.shared.ctail < s.shared.log.length := by omega
  rcases solo.tails.logged _ pending with done | ⟨t', waits⟩
  · exact absurd done (Nat.lt_irrefl _)
  by_cases same : t' = t
  · subst same
    rw [solo.thread] at waits
    simp [idle] at waits
  · have ready := solo.others t' same
    cases counter : (s.threads t').pc <;> simp_all [Pc.ready, Pc.awaited]

omit [BlockKey Key] in
theorem hold_of_ready {nodes : Nat} {call : Call Key} {pc : Pc Key nodes}
    (ready : pc.ready = true) : pc.hold call = none := by
  cases pc <;> first
    | rfl
    | cases ready

theorem Solo.unlocked (solo : Solo True t call pc s) {w : Nat}
    (free : ∀ h, pc.hold call = some h → h.record ≠ w) : (s.shared.word w).isLocked = false := by
  by_contra locked
  obtain ⟨t', h, holds, record⟩ := solo.records.locked trivial w (eq_true_of_ne_false locked)
  by_cases same : t' = t
  · subst same
    rw [holdOf, solo.thread] at holds
    exact free h holds record
  · rw [holdOf, hold_of_ready (solo.others t' same)] at holds
    cases holds

end

end

end Megalon.Protocol
