import Megalon.Protocol.RecordSteps

/-!
Contract: the record that a reclaim loop frees is the one it has locked.

Owns: what the reclaim loops of `wmeta_manager.cc`, `AdmitWrite`, `CreateEntry` and
`SwitchRW` do between `WLockOnly` and the release of the record, that the directory
gives back the locked record in runs without contested insertions, and a run in which
it gives back another one.

Does not own: which records are sampled.
-/

namespace Megalon.Protocol

open Function Core Foundations Index

section

variable {Key Mem : Type} {nodes : Nat}

/-- A thread that has the answer of `SwitchToReadOnly` has no record from it or the
record it locked. -/
def Pc.ReclaimsOwn : Pc Key nodes → Prop
  | .victimWait _ w _ result => result = none ∨ result = some w
  | .victimRecycle _ w reclaimed => reclaimed = w
  | _ => True

/-- The record that is locked and the record that `RecycleWmeta` is called with. -/
def Pc.recycling : Pc Key nodes → Option (Nat × Nat)
  | .victimRecycle _ w reclaimed => some (w, reclaimed)
  | _ => none

theorem eq_victimRecycle_of_recycling {pc : Pc Key nodes} {w reclaimed : Nat}
    (recycles : pc.recycling = some (w, reclaimed)) :
    ∃ purpose, pc = .victimRecycle purpose w reclaimed := by
  cases pc with
  | victimRecycle purpose w' reclaimed' =>
    simp only [Pc.recycling, Option.some.injEq, Prod.mk.injEq] at recycles
    obtain ⟨rfl, rfl⟩ := recycles
    exact ⟨purpose, rfl⟩
  | _ => cases recycles

end

section

variable {Key Mem : Type} [BlockKey Key] {cfg : Config Key Mem}

theorem reclaimsOwn_entryPc (call : Call Key) : (call.entryPc cfg).ReclaimsOwn := by
  unfold Call.entryPc
  repeat' split
  all_goals trivial

variable {s : cfg.State} {t : Nat} {shared : cfg.Shared}

theorem reclaimsOwn_switchToReadOnly {w : Nat} {purpose : Purpose} {victim : Key}
    {reply : Nat × Option (GCDResponse Key cfg.nodes)} (owned : RecordsOwned cfg s)
    (at_ : (s.threads t).pc = .victimSwitch purpose w victim)
    (acted : perform cfg t s.shared (.submit (.switchToReadOnly victim)) = some (shared, reply)) :
    switchToReadOnlyResult reply.2 = some w := by
  have holds : holdOf s.threads t = some ⟨w, .victim victim⟩ := by
    rw [holdOf, at_]
    rfl
  have named : (latestPages s.shared.log).record victim = some w := (owned.held t _ holds).2.2.2
  obtain ⟨_, _, answers⟩ := perform_submit acted
  rw [answers.reclaimed _ rfl, named]

def ReclaimingOwn (s : cfg.State) : Prop := ∀ t, (s.threads t).pc.ReclaimsOwn

theorem reclaimsOwn_move {choice : Nat} {call : Call Key} {pc pc' : cfg.Pc}
    {act : Act Key} {reply : act.Reply cfg.nodes} (own : pc.ReclaimsOwn)
    (owned : RecordsOwned cfg s) (at_ : (s.threads t).pc = pc)
    (move : Move cfg t call choice pc act reply pc')
    (acted : perform cfg t s.shared act = some (shared, reply)) : pc'.ReclaimsOwn := by
  cases move with
  | victimSwitch => exact .inr (reclaimsOwn_switchToReadOnly owned at_ acted)
  | victimSwitched => simpa [Pc.ReclaimsOwn] using own
  | _ => trivial

theorem reclaimingOwn_step {s' : cfg.State} {e : Event Key} (own : ReclaimingOwn s)
    (owned : RecordsOwned cfg s) (taken : step cfg s e = some s') : ReclaimingOwn s' :=
  forall_threads_step (P := fun _ thread => thread.pc.ReclaimsOwn) taken (fun t _ => own t)
    (fun _ => reclaimsOwn_entryPc)
    fun _ _ move acted => reclaimsOwn_move (own _) owned rfl move acted

theorem reclaimingOwn_of_reachable
    (reached : (system cfg).ReachableWhere (fun s e => uncontested cfg s e = true) s) :
    RecordsOwned cfg s ∧ ReclaimingOwn s := by
  refine reached.invariant (P := fun s => RecordsOwned cfg s ∧ ReclaimingOwn s) ?_ ?_
  · intro s start
    refine ⟨recordsIn_initial s start, fun t => ?_⟩
    rw [start.threads t]
    trivial
  · rintro s e s' ⟨owned, own⟩ allowed taken
    exact ⟨recordsOwned_step s e s' owned allowed taken, reclaimingOwn_step own owned taken⟩

/-! ### The reclaim loops -/

variable (cfg)

/-- In each reclaim loop that holds the lock of record `w`: `SwitchToReadOnly` of the
block id of `w` returns no record or `w`, `RecycleWmeta` is called with `w`, and `w` is
not locked after `RecycleWmeta` or `WUnlockOnly`. The compare-exchange of `RecycleWmeta`
meets the word that was loaded: no step of another thread changes it. -/
structure ReclaimsLocked (s : cfg.State) : Prop where
  answered : ∀ t choice purpose w victim, (s.threads t).pc = .victimSwitch purpose w victim →
    (s.shared.word w).isLocked = true ∧ s.shared.blockId w = victim ∧
      ∃ s' index result, step cfg s (.thread t choice) = some s' ∧
        (s'.threads t).pc = .victimWait purpose w index result ∧
        (result = none ∨ result = some w)
  recycled : ∀ t purpose w reclaimed, (s.threads t).pc = .victimRecycle purpose w reclaimed →
    reclaimed = w ∧ (s.shared.word w).isLocked = true ∧
      (∀ e s', (∀ choice, e ≠ .thread t choice) → uncontested cfg s e = true →
        step cfg s e = some s' → s'.shared.word w = s.shared.word w) ∧
      ∃ s', step cfg s (.thread t 0) = some s' ∧ (s'.shared.word w).isLocked = false
  unlocked : ∀ t choice purpose w, (s.threads t).pc = .victimUnlock purpose w →
    (s.shared.word w).isLocked = true ∧
      ∃ s', step cfg s (.thread t choice) = some s' ∧ (s'.shared.word w).isLocked = false

variable {cfg}

theorem step_of_next {choice : Nat} {pc : cfg.Pc} {instr : Instr Key cfg.nodes}
    {reply : instr.act.Reply cfg.nodes} (at_ : (s.threads t).pc = pc)
    (fetched : next cfg t (s.threads t).call choice pc = some instr)
    (acted : perform cfg t s.shared instr.act = some (shared, reply)) :
    step cfg s (.thread t choice) =
      some ⟨shared, update s.threads t ⟨(s.threads t).call, instr.resume reply⟩⟩ := by
  simp only [step, stepThread, at_, fetched, Option.bind_some, acted, Option.map_some]

theorem exists_perform_submit (t : Nat) (s : cfg.Shared) (request : Request Key) :
    ∃ shared reply, perform cfg t s (.submit request) = some (shared, reply) := by
  obtain ⟨response, accepted, _⟩ := dispatchMut_toDirectory cfg.nodes (latestPages s.log) request
  simp only [perform, latest_eq, accepted]
  exact ⟨_, _, rfl⟩

/-- **The reclaimed record is the locked one**, in every state of a run without
contested insertions. -/
theorem reclaims_locked {s : cfg.State}
    (reached : (system cfg).ReachableWhere (fun s e => uncontested cfg s e = true) s) :
    ReclaimsLocked cfg s := by
  obtain ⟨owned, own⟩ := reclaimingOwn_of_reachable reached
  have held : ∀ t hold, (s.threads t).pc.hold (s.threads t).call = some hold →
      (s.shared.word hold.record).isFree = false ∧
        (s.shared.word hold.record).isLocked = true ∧
        hold.status.Claim (latestPages s.shared.log).record s.shared.blockId hold.record :=
    fun t hold holds => (owned.held t hold holds).2
  refine ⟨?_, ?_, ?_⟩
  · intro t choice purpose w victim at_
    obtain ⟨_, set, named⟩ := held t ⟨w, .victim victim⟩ (by rw [at_]; rfl)
    obtain ⟨shared, reply, acted⟩ := exists_perform_submit t s.shared (.switchToReadOnly victim)
    refine ⟨set, (owned.named victim w named).2.2, _, reply.1,
      switchToReadOnlyResult reply.2, step_of_next at_ rfl acted, ?_, Or.inr ?_⟩
    · simp only [update_self]
    · exact reclaimsOwn_switchToReadOnly owned at_ acted
  · intro t purpose w reclaimed at_
    have same : reclaimed = w := by
      have here := own t
      rwa [at_] at here
    subst same
    have holds : holdOf s.threads t = some ⟨reclaimed, .detached⟩ := by
      rw [holdOf, at_]
      rfl
    obtain ⟨used, set, _⟩ := held t _ holds
    refine ⟨rfl, set, fun e s' other allowed taken => ?_, _, step_of_next at_ rfl rfl, ?_⟩
    · exact word_kept_of_held owned allowed taken holds other
    · simp [recycle, used, set, Shared.setWord, Shared.countRecycled]
  · intro t choice purpose w at_
    obtain ⟨_, _, never⟩ := held t ⟨w, .impossible⟩ (by rw [at_]; rfl)
    exact never.elim

end

/-! ### Two runs -/

section

/-- Thread 2 locks record 0 in `IterativeReclaim` and switches its page to read-only. -/
def reclaimFirst : List (Event BlockId) :=
  [.start 2 ⟨.iterativeReclaim, pageKey, none, 1, 0⟩] ++ steps 3 2 0 ++ catchUp 1 0 ++ steps 1 2 0

/-- Thread 1 is about to insert the page when thread 0 creates it with record 0. The
insertion takes record 0 from the entry, and a second `Put` gives it record 1. -/
def putAroundRead : List (Event BlockId) :=
  [.start 1 (readCall .read 1)] ++ steps 6 1 1 ++ putAlone ++ steps 1 1 1 ++ catchUp 1 0 ++
  [.start 0 (putCall 1 8)] ++ steps 8 0 0 ++ catchUp 1 0 ++ steps 2 0 0

/-- The reclaim loop holds record 0 and calls `RecycleWmeta` with record 1, which nobody
holds. -/
theorem other_record_putAroundRead :
    ∃ s, (system twoPool).Reachable s ∧ ¬ ReclaimsLocked twoPool s := by
  obtain ⟨s, reached, broken⟩ := System.exists_reachable_of_run (system twoPool) initial_twoStart
    (putAroundRead ++ reclaimFirst)
    (fun s => decide ((s.threads 2).pc.recycling = some (0, 1)) && !(s.shared.word 1).isLocked)
    (by decide +kernel)
  rw [Bool.and_eq_true, decide_eq_true_eq] at broken
  refine ⟨s, reached, fun reclaims => ?_⟩
  obtain ⟨purpose, at_⟩ := eq_victimRecycle_of_recycling broken.1
  exact absurd (reclaims.recycled 2 purpose 0 1 at_).1 Nat.one_ne_zero

/-- After a `Put` that meets no other thread the loop frees the record it has locked. -/
theorem reclaims_locked_putAlone :
    ∃ s, (system twoPool).ReachableWhere (fun s e => uncontested twoPool s e = true) s ∧
      (s.threads 2).pc.recycling = some (0, 0) ∧ ReclaimsLocked twoPool s := by
  obtain ⟨s, reached, recycles⟩ := System.exists_reachableWhere_of_run
    (.of_sound (system twoPool) (uncontested twoPool) fun _ _ passes => passes) initial_twoStart
    (putAlone ++ reclaimFirst)
    (fun s => decide ((s.threads 2).pc.recycling = some (0, 0))) (by decide +kernel)
  exact ⟨s, reached, of_decide_eq_true recycles, reclaims_locked reached⟩

end

end Megalon.Protocol
