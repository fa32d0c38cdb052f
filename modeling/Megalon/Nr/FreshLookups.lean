import Megalon.Nr.ExactlyOnce
import Megalon.Nr.ReadGuards

/-!
Contract: what the lookups of node replication read.

Owns: the lookup a thread is in and the tails it has seen, their invariant, and that a lookup
reads the state after a prefix of the log that covers every call that had returned when it
was called.

Does not own: the lock that keeps the data still while it is read.
-/

namespace Megalon.Nr

open Foundations
open Log (callsOn)

section

variable {D ReadOp WriteOp Resp : Type} (cfg : Config D ReadOp WriteOp Resp)
  (s s' : State D ReadOp WriteOp Resp)

/-! ### Lookups -/

def Caller.lookupOf : Caller ReadOp → Option (Lookup ReadOp)
  | .lookup l _ _ => some l
  | _ => none

def SyncCaller.lookupOf : SyncCaller ReadOp → Option (Lookup ReadOp)
  | .noLogSpace caller => caller.lookupOf
  | .gcFailed l => some l
  | .loop _ _ => none

def ThreadPc.lookupOf : ThreadPc ReadOp WriteOp Resp → Option (Lookup ReadOp)
  | .tryCombine caller | .combine caller _ => caller.lookupOf
  | .trySync caller _ | .sync caller _ _ => caller.lookupOf
  | .lookupCtail l _ | .lookupCheck l _ _ | .assertSynced l _ _ => some l
  | .readLock l _ | .readCheck l _ | .reading l _ _ => some l
  | .readUnlock l _ _ | .storeAnchor l _ _ => some l
  | _ => none

def Caller.ctail : Caller ReadOp → Option Nat
  | .lookup _ ctail _ => some ctail
  | _ => none

/-- The completed tail the lookup has loaded and not checked yet. -/
def ThreadPc.ctail : ThreadPc ReadOp WriteOp Resp → Option Nat
  | .tryCombine caller | .combine caller _ => caller.ctail
  | .lookupCheck _ ctail _ | .assertSynced _ ctail _ => some ctail
  | _ => none

def ThreadPc.synced : ThreadPc ReadOp WriteOp Resp → Bool
  | .readLock _ _ | .readCheck _ _ | .reading _ _ _ => true
  | _ => false

def ThreadPc.response : ThreadPc ReadOp WriteOp Resp → Option Resp
  | .readUnlock _ _ resp | .storeAnchor _ _ resp => some resp
  | _ => none

/-! ### Fresh lookups -/

/-- The state after the first `n` operations of the log. -/
def State.dataAt (n : Nat) : D :=
  (s.log.appended.take n).foldl (fun data entry => (cfg.ds.dispatchMut data entry.1.op).1)
    cfg.data

/-- The operations of the calls that had returned when the lookup was called are below the
completed tail of that moment. -/
def Covers (l : Lookup ReadOp) : Prop :=
  ∀ t k, 1 ≤ t.tid → k < l.returned t → ∃ j op, j < l.since ∧
    s.log.appended[j]? = some (⟨op, t.tid, k⟩, t.replica)

/-- Lookups read the state after a prefix of the log with every operation that had been
answered; answered operations are below the completed tail. -/
structure Fresh : Prop where
  reads : ∀ t l locked seen, s.pc t = .reading l locked seen →
    (s.log.executed t.replica).length = seen ∧ l.since ≤ seen ∧
      (s.replicas t.replica).data = s.dataAt cfg seen ∧ Covers s l
  returns : ∀ t l resp, (s.pc t).lookupOf = some l → (s.pc t).response = some resp →
    ∃ n, l.since ≤ n ∧ n ≤ s.log.appended.length ∧
      resp = cfg.ds.dispatch (s.dataAt cfg n) l.op ∧ Covers s l
  answered : ∀ t k resp, 1 ≤ t.tid → (s.received t)[k]? = some resp →
    ∃ j op, j < s.log.ctail ∧ Produces cfg s t.replica j ⟨op, t.tid, k⟩ resp
  defined : ∀ t, s.pc t ≠ .panicked .dataRace

end

section

variable {D ReadOp WriteOp Resp : Type} {cfg : Config D ReadOp WriteOp Resp}
  {s s' : State D ReadOp WriteOp Resp} {t : Thread}
  {pc pc' : ThreadPc ReadOp WriteOp Resp}

/-! ### What a step of a lookup may do -/

/-- A thread goes on with its lookup, or ends it. -/
structure LookStep (cfg : Config D ReadOp WriteOp Resp) (s : State D ReadOp WriteOp Resp)
    (t : Thread) (pc pc' : ThreadPc ReadOp WriteOp Resp) : Prop where
  lookup : pc'.lookupOf = none ∨ pc'.lookupOf = pc.lookupOf
  ctail : ∀ ctail, pc'.ctail = some ctail → pc.ctail = some ctail ∨ ctail = s.log.ctail
  synced : pc'.synced = true → pc.synced = true ∨
    ∃ ctail, pc.ctail = some ctail ∧ ctail ≤ s.log.ltails t.replica
  response : ∀ resp, pc'.response = some resp → pc.response = some resp ∨
    ∃ l locked, pc = .reading l locked (s.log.executed t.replica).length ∧
      resp = cfg.ds.dispatch (s.replicas t.replica).data l.op
  defined : pc' = .panicked .dataRace → pc = pc' ∨
    ∃ l locked seen, pc = .reading l locked seen ∧
      (s.log.executed t.replica).length ≠ seen

theorem LookStep.plain (lookup : pc'.lookupOf = none ∨ pc'.lookupOf = pc.lookupOf)
    (ctail : pc'.ctail = none ∨ pc'.ctail = pc.ctail) (synced : pc'.synced = false)
    (response : pc'.response = none) (defined : pc' ≠ .panicked .dataRace) :
    LookStep cfg s t pc pc' where
  lookup := lookup
  ctail := by
    intro loaded known
    rcases ctail with none | same
    · rw [none] at known
      cases known
    · exact .inl (same ▸ known)
  synced := by
    rw [synced]
    exact fun impossible => by cases impossible
  response := by
    rw [response]
    exact fun _ impossible => by cases impossible
  defined := fun race => absurd race defined

theorem lookStep_afterCombine (t : Thread) (outcome : Outcome) {caller : Caller ReadOp}
    (lookup : pc.lookupOf = caller.lookupOf) (ctail : pc.ctail = caller.ctail) :
    LookStep cfg s t pc (afterCombine t outcome caller) := by
  cases caller <;> cases outcome <;> simp only [afterCombine] <;> (repeat' split)
  all_goals
    refine .plain ?_ ?_ rfl rfl (by simp)
    · rw [lookup]
      first | exact .inl rfl | exact .inr rfl
    · rw [ctail]
      first | exact .inl rfl | exact .inr rfl

theorem lookStep_afterSync (t : Thread) (q : Nat) {caller : SyncCaller ReadOp}
    (lookup : pc.lookupOf = caller.lookupOf) : LookStep cfg s t pc (afterSync q caller) := by
  cases caller with
  | noLogSpace caller =>
    cases caller with
    | executeMut => exact .plain (.inl rfl) (.inl rfl) rfl rfl (by simp [afterSync])
    | getResponse final => exact .plain (.inl rfl) (.inl rfl) rfl rfl (by simp [afterSync])
    | lookup l ctail locked =>
      exact .plain (.inr lookup.symm) (.inl rfl) rfl rfl (by simp [afterSync])
  | loop ctail resume => exact .plain (.inl rfl) (.inl rfl) rfl rfl (by simp [afterSync])
  | gcFailed l => exact .plain (.inr lookup.symm) (.inl rfl) rfl rfl (by simp [afterSync])

theorem lookStep_roundPc {next : RoundNext Resp} {stage : Round Resp → ThreadPc ReadOp WriteOp Resp}
    {done : Outcome → ThreadPc ReadOp WriteOp Resp}
    (goesOn : ∀ round, LookStep cfg s t pc (stage round))
    (ended : ∀ outcome, LookStep cfg s t pc (done outcome))
    (safe : ∀ reason, next ≠ .panic reason) : LookStep cfg s t pc (next.pc stage done) := by
  cases next with
  | goOn round => exact goesOn round
  | done outcome => exact ended outcome
  | panic reason => exact absurd rfl (safe reason)

/-- A thread goes on inside its read section, or in front of it once it is synchronized. -/
theorem LookStep.reading (lookup : pc'.lookupOf = pc.lookupOf) (ctail : pc'.ctail = none)
    (synced : pc.synced = true ∨ ∃ ctail, pc.ctail = some ctail ∧ ctail ≤ s.log.ltails t.replica)
    (response : pc'.response = none) (defined : pc' ≠ .panicked .dataRace) :
    LookStep cfg s t pc pc' where
  lookup := .inr lookup
  ctail := by
    rw [ctail]
    exact fun _ impossible => by cases impossible
  synced := fun _ => synced
  response := by
    rw [response]
    exact fun _ impossible => by cases impossible
  defined := fun race => absurd race defined

theorem lookStep_goes (goes : Goes s t pc pc') : LookStep cfg s t pc pc' := by
  cases goes with
  | notCombiner => exact lookStep_afterCombine t .ok rfl rfl
  | @notSyncer _ q => exact lookStep_afterSync t q rfl
  | lookupCtail =>
    refine ⟨.inr rfl, ?_, nofun, nofun, nofun⟩
    rintro ctail known
    cases known
    exact .inr rfl
  | checked synced | assertSynced synced =>
    exact .reading rfl rfl (.inr ⟨_, rfl, synced⟩) rfl (by simp)
  | entersRead => exact .reading rfl rfl (.inl rfl) rfl (by simp)
  | races changed => exact ⟨.inl rfl, nofun, nofun, nofun, fun _ => .inr ⟨_, _, _, rfl, changed⟩⟩
  | checkedLocked | lookupCombines | lookupTries =>
    exact .plain (.inr rfl) (.inr rfl) rfl rfl (by simp)
  | _ => exact .plain (.inl rfl) (.inl rfl) rfl rfl (by simp)

theorem lookStep_of_move (here : s.pc t = pc) (move : OutsideMove cfg s t pc s') :
    LookStep cfg s t pc (s'.pc t) := by
  cases move with
  | stays polls =>
    rw [here]
    cases pc with
    | enqueue | getResponse => exact .plain (.inl rfl) (.inl rfl) rfl rfl (by simp)
    | _ => cases polls
  | goes goes =>
    rw [goto_pc_self]
    exact lookStep_goes goes
  | takesNone =>
    rw [setReplica_pc, here]
    exact .plain (.inl rfl) (.inl rfl) rfl rfl (by simp)
  | acquires =>
    rw [goto_pc_self]
    exact .plain (.inr rfl) (.inr rfl) rfl rfl (by simp)
  | acquiresOther =>
    rw [goto_pc_self]
    exact .plain (.inr rfl) (.inl rfl) rfl rfl (by simp)
  | readLocks | backsOff =>
    rw [goto_pc_self]
    exact .reading rfl rfl (.inl rfl) rfl (by simp)
  | @reads l locked =>
    rw [goto_pc_self]
    refine ⟨.inr rfl, nofun, nofun, ?_, nofun⟩
    rintro resp known
    cases known
    exact .inr ⟨l, locked, rfl, rfl⟩
  | @readUnlocks l locked resp =>
    rw [goto_pc_self]
    split
    · exact ⟨.inr rfl, nofun, nofun, fun _ known => .inl known, nofun⟩
    · cases locked <;> exact .plain (.inl rfl) (.inl rfl) rfl rfl (by simp [afterLookup])
  | @storesAnchor _ locked =>
    rw [goto_pc_self]
    cases locked <;> exact .plain (.inl rfl) (.inl rfl) rfl rfl (by simp [afterLookup])
  | enqueues | returns | releases | loadsAnchor | clearsAnchor =>
    rw [goto_pc_self]
    exact .plain (.inl rfl) (.inl rfl) rfl rfl (by simp)

theorem lookStep_of_stepThread (inv : CombiningInv cfg False s) {flag : Bool}
    (taken : stepThread cfg s t flag = some s') : LookStep cfg s t (s.pc t) (s'.pc t) := by
  have move := threadMove_of_stepThread taken
  generalize here : s.pc t = pc at move
  cases move with
  | outside move => exact lookStep_of_move here move
  | round rounds stepped =>
    have safe := (rounds.roundStep inv here stepped).safe
    rw [goto_pc_self]
    cases rounds with
    | combine =>
      exact lookStep_roundPc (fun round => .plain (.inr rfl) (.inr rfl) rfl rfl (by simp))
        (fun outcome => lookStep_afterCombine t outcome rfl rfl) safe
    | sync =>
      exact lookStep_roundPc (fun round => .plain (.inr rfl) (.inl rfl) rfl rfl (by simp))
        (fun _ => lookStep_afterSync t _ rfl) safe

/-! ### The invariant of a lookup -/

/-- What a thread's lookup has seen of the log. -/
structure LookupInv (cfg : Config D ReadOp WriteOp Resp) (s : State D ReadOp WriteOp Resp)
    (t : Thread) (pc : ThreadPc ReadOp WriteOp Resp) : Prop where
  since : ∀ l, pc.lookupOf = some l → l.since ≤ s.log.ctail ∧ Covers s l
  loaded : ∀ l ctail, pc.lookupOf = some l → pc.ctail = some ctail → l.since ≤ ctail
  synced : ∀ l, pc.lookupOf = some l → pc.synced = true →
    l.since ≤ (s.log.executed t.replica).length
  response : ∀ l resp, pc.lookupOf = some l → pc.response = some resp →
    ∃ n, l.since ≤ n ∧ n ≤ (s.log.executed t.replica).length ∧
      resp = cfg.ds.dispatch (s.dataAt cfg n) l.op

theorem foldl_callsOn (r : Nat) (ops : List (Tagged WriteOp × Nat)) (data : D) :
    replayData cfg data (callsOn r ops) =
      ops.foldl (fun data entry => (cfg.ds.dispatchMut data entry.1.op).1) data := by
  rw [replayData, callsOn, List.foldl_map]

variable {steady : Prop}

theorem data_eq_dataAt (base : BaseInv cfg steady s) (q : Nat) :
    (s.replicas q).data = s.dataAt cfg (s.log.executed q).length := by
  have executed := (Log.replayInv_of_reachable base.reached).executed q
  rw [base.data, executed, foldl_callsOn, State.dataAt, callsOn, List.length_map,
    List.length_take]
  have same : s.log.appended.take ((s.log.pc q).position (s.log.ltails q)) = s.log.appended.take
      (min ((s.log.pc q).position (s.log.ltails q)) s.log.appended.length) :=
    List.take_eq_take_iff.mpr (by omega)
  rw [same]

/-- What a step leaves of the log. -/
structure LogGrows (s s' : State D ReadOp WriteOp Resp) : Prop where
  ctail : s.log.ctail ≤ s'.log.ctail
  appended : s.log.appended <+: s'.log.appended
  executed : ∀ q, s.log.executed q <+: s'.log.executed q

variable {e : ReplicaEvent ReadOp WriteOp}

theorem LockStep.grows (lock : LockStep cfg s s' e) : LogGrows s s' := by
  rcases lock.log with same | ⟨event, stepped⟩
  · exact ⟨Nat.le_of_eq (by rw [same]), ⟨[], by rw [List.append_nil, same]⟩,
      fun q => ⟨[], by rw [List.append_nil, same]⟩⟩
  · exact ⟨Log.ctail_le_of_step stepped, Log.appended_grows stepped, Log.executed_grows stepped⟩

theorem Covers.mono (grows : LogGrows s s') {l : Lookup ReadOp} (covers : Covers s l) :
    Covers s' l := by
  intro t k token returned
  obtain ⟨j, op, below, entry⟩ := covers t k token returned
  obtain ⟨more, appended⟩ := grows.appended
  refine ⟨j, op, below, ?_⟩
  rw [← appended, List.getElem?_append_left (List.getElem?_eq_some_iff.mp entry).1]
  exact entry

theorem dataAt_mono (grows : LogGrows s s') {n : Nat} (known : n ≤ s.log.appended.length) :
    s'.dataAt cfg n = s.dataAt cfg n := by
  obtain ⟨more, appended⟩ := grows.appended
  rw [State.dataAt, State.dataAt, ← appended, List.take_append_of_le_length known]

section

variable (base : BaseInv cfg steady s)

include base

theorem length_executed_le_appended (q : Nat) :
    (s.log.executed q).length ≤ s.log.appended.length := by
  rw [(Log.replayInv_of_reachable base.reached).executed q, callsOn, List.length_map,
    List.length_take]
  exact Nat.min_le_right _ _

theorem LookupInv.mono (inv : LookupInv cfg s t pc)
    (grows : LogGrows s s') : LookupInv cfg s' t pc where
  since := by
    intro l current
    obtain ⟨bound, covers⟩ := inv.since l current
    exact ⟨bound.trans grows.ctail, covers.mono grows⟩
  loaded := inv.loaded
  synced := by
    intro l current synced
    exact (inv.synced l current synced).trans (grows.executed t.replica).length_le
  response := by
    intro l resp current given
    obtain ⟨n, bound, executed, answer⟩ := inv.response l resp current given
    refine ⟨n, bound, executed.trans (grows.executed t.replica).length_le, ?_⟩
    rw [dataAt_mono grows (executed.trans (length_executed_le_appended base t.replica))]
    exact answer

theorem LookupInv.look (registered : t.replica < cfg.geometry.replicas) (inv : LookupInv cfg s t pc)
    (look : LookStep cfg s t pc pc') : LookupInv cfg s t pc' := by
  have before : ∀ l, pc'.lookupOf = some l → pc.lookupOf = some l := by
    intro l current
    rcases look.lookup with none | same
    · rw [none] at current
      cases current
    · exact same ▸ current
  refine ⟨fun l current => inv.since l (before l current), ?_, ?_, ?_⟩
  · intro l ctail current loaded
    rcases look.ctail ctail loaded with known | now
    · exact inv.loaded l ctail (before l current) known
    · rw [now]
      exact (inv.since l (before l current)).1
  · intro l current synced
    rcases look.synced synced with known | ⟨ctail, loaded, reached⟩
    · exact inv.synced l (before l current) known
    · calc l.since ≤ ctail := inv.loaded l ctail (before l current) loaded
        _ ≤ s.log.ltails t.replica := reached
        _ ≤ (s.log.executed t.replica).length :=
          Log.ltail_le_length_executed base.reached t.replica registered
  · intro l resp current given
    rcases look.response resp given with known | ⟨l', locked, reading, answer⟩
    · exact inv.response l resp (before l current) known
    · have same := before l current
      rw [reading] at same
      cases same
      refine ⟨_, inv.synced l (before l current) (by rw [reading]; rfl), le_rfl, ?_⟩
      rw [answer, data_eq_dataAt base]

theorem lookupInv_start (t : Thread) (op : ReadOp) (anchor : Bool) :
    LookupInv cfg s t (.lookupCtail
      ⟨op, anchor, s.log.ctail, fun t' => (s.received t').length⟩ false) where
  since := by
    rintro l current
    cases current
    refine ⟨le_rfl, fun t' k token returned => ?_⟩
    have received := List.getElem?_eq_getElem returned
    obtain ⟨op, _, completed⟩ := (base.calls t' token).answers k _ received
    obtain ⟨j, below, produced⟩ := produces_of_completed base completed
    exact ⟨j, op, below, produced.entry⟩
  loaded := fun _ _ _ loaded => by cases loaded
  synced := fun _ _ synced => by cases synced
  response := fun _ _ _ given => by cases given

end

theorem lookupInv_none (t : Thread) (none : pc.lookupOf = none) : LookupInv cfg s t pc := by
  refine ⟨?_, ?_, ?_, ?_⟩ <;> intro l <;> rw [none]
  · exact fun impossible => by cases impossible
  · exact fun _ impossible => by cases impossible
  · exact fun impossible => by cases impossible
  · exact fun _ impossible => by cases impossible

theorem lookupInv_startCall (base : BaseInv cfg steady s) (t : Thread)
    (call : Call ReadOp WriteOp) : LookupInv cfg s t ((startCall s t call).pc t) := by
  cases call with
  | executeMut op =>
    rw [startCall, goto_pc_self]
    exact lookupInv_none t rfl
  | execute op anchor =>
    rw [startCall, goto_pc_self]
    exact lookupInv_start base t op anchor
  | sync =>
    rw [startCall, goto_pc_self]
    exact lookupInv_none t rfl
  | checkNotificationReset =>
    rw [startCall, goto_pc_self]
    exact lookupInv_none t rfl

theorem lookupInv_step (combining : CombiningInv cfg False s)
    (inv : ∀ t, LookupInv cfg s t (s.pc t)) (taken : step cfg s e = some s') (t : Thread) :
    LookupInv cfg s' t (s'.pc t) := by
  have grows := (lockStep_of_step combining taken).grows
  have kept : s'.pc t = s.pc t → LookupInv cfg s' t (s'.pc t) := by
    intro same
    rw [same]
    exact (inv t).mono combining.base grows
  cases stepForm_of_step taken with
  | register | line => exact kept rfl
  | @start t' call =>
    by_cases own : t = t'
    · rw [own]
      exact (lookupInv_startCall combining.base t' call).mono combining.base grows
    · exact kept (startCall_pc_other call own)
  | @step t' flag _ taken started =>
    by_cases own : t = t'
    · subst own
      have registered := ((combining.valid t).registered started).1
      have look := lookStep_of_stepThread combining taken
      exact ((inv t).look combining.base registered look).mono combining.base grows
    · exact kept (pc_of_stepThread taken own)

theorem lookupInv_of_reachable (reached : (replicaSystem cfg).Reachable s) :
    CombiningInv cfg False s ∧ ∀ t, LookupInv cfg s t (s.pc t) := by
  refine System.Reachable.invariant
    (P := fun s => CombiningInv cfg False s ∧ ∀ t, LookupInv cfg s t (s.pc t)) ?_ ?_ reached
  · rintro s rfl
    exact ⟨combiningInv_initial, fun t => lookupInv_none t rfl⟩
  · rintro s e s' ⟨combining, inv⟩ taken
    exact ⟨combiningInv_step combining False.elim taken, lookupInv_step combining inv taken⟩

/-! ### Freshness -/

theorem defined_step (combining : CombiningInv cfg False s) (lock : LockInv s)
    (defined : ∀ t, s.pc t ≠ .panicked .dataRace) (taken : step cfg s e = some s') (t : Thread) :
    s'.pc t ≠ .panicked .dataRace := by
  cases stepForm_of_step taken with
  | register | line => exact defined t
  | @start t' call =>
    by_cases own : t = t'
    · rw [own]
      cases call <;> simp [startCall]
    · rw [startCall_pc_other call own]
      exact defined t
  | @step t' flag _ taken =>
    by_cases own : t = t'
    · subst own
      intro race
      have look := lookStep_of_stepThread combining taken
      rcases look.defined race with same | ⟨l, locked, seen, reading, changed⟩
      · exact defined t (same.trans race)
      · have token := ((combining.valid t).registered (by rw [reading]; rfl)).2
        exact changed (lock.fixed t token seen (by rw [reading]; rfl))
    · rw [pc_of_stepThread taken own]
      exact defined t

theorem defined_of_reachable (reached : (replicaSystem cfg).ReachableWhere ScansAll s) :
    ∀ t, s.pc t ≠ .panicked .dataRace := by
  have all : (CombiningInv cfg False s ∧ LockInv s) ∧ ∀ t, s.pc t ≠ .panicked .dataRace := by
    refine reached.invariant (P := fun s =>
      (CombiningInv cfg False s ∧ LockInv s) ∧ ∀ t, s.pc t ≠ .panicked .dataRace) ?_ ?_
    · rintro s rfl
      exact ⟨⟨combiningInv_initial, lockInv_initial⟩, by simp [initialState]⟩
    · rintro s e s' ⟨⟨combining, lock⟩, defined⟩ condition taken
      exact ⟨⟨combiningInv_step combining False.elim taken,
        lockInv_step lock (lockStep_of_step combining taken) condition⟩,
        defined_step combining lock defined taken⟩
  exact all.2

/-- **Lookups are fresh.** In every run in which every scan of a writer ends with the threads
it did not look at outside their read sections, a lookup reads the state after a prefix of
the log that is at least as long as the completed tail when it was called, and that contains
every call that had returned by then. -/
theorem lookups_fresh (reached : (replicaSystem cfg).ReachableWhere ScansAll s) : Fresh cfg s := by
  obtain ⟨combining, lookups⟩ := lookupInv_of_reachable reached.reachable
  have lock := (lockInv_of_reachable reached).2
  have base := combining.base
  refine ⟨?_, ?_, ?_, defined_of_reachable reached⟩
  · intro t l locked seen reading
    have token := ((combining.valid t).registered (by rw [reading]; rfl)).2
    have length := lock.fixed t token seen (by rw [reading]; rfl)
    have current : (s.pc t).lookupOf = some l := by
      rw [reading]
      rfl
    refine ⟨length, ?_, ?_, ((lookups t).since l current).2⟩
    · rw [← length]
      exact (lookups t).synced l current (by rw [reading]; rfl)
    · rw [← length]
      exact data_eq_dataAt base t.replica
  · intro t l resp current given
    obtain ⟨n, bound, executed, answer⟩ := (lookups t).response l resp current given
    exact ⟨n, bound, executed.trans (length_executed_le_appended base t.replica), answer,
      ((lookups t).since l current).2⟩
  · intro t k resp token received
    obtain ⟨op, _, completed⟩ := (base.calls t token).answers k resp received
    obtain ⟨j, below, produced⟩ := produces_of_completed base completed
    exact ⟨j, op, below, produced⟩

/-! ### Runs of few threads -/

def OnlyThreads (threads : List Thread) (s : State D ReadOp WriteOp Resp) : Prop :=
  ∀ t, t ∉ threads → s.pc t = .idle

/-- The scan of a thread: its replica, the number of read locks and how far it is. -/
def ThreadPc.scan (t : Thread) : ThreadPc ReadOp WriteOp Resp → Option (Nat × Nat × Nat)
  | .combine _ (.writeScan n _ j) => some (t.replica, n, j)
  | .sync _ q (.writeScan n _ j) => some (q, n, j)
  | _ => none

theorem scan_of_standing {q n j : Nat} {f : Closure}
    (place : standing t q pc = .round (.writeScan n f j)) : pc.scan t = some (q, n, j) := by
  rcases standing_cases place with ⟨caller, rfl, rfl⟩ | ⟨caller, rfl⟩ <;> rfl

def ReadSection.isInside : ReadSection → Bool
  | .inside _ => true
  | _ => false

/-- A test for `ScansAll` in runs of few threads. -/
def scansAllTest (threads : List Thread) (s : State D ReadOp WriteOp Resp) :
    ReplicaEvent ReadOp WriteOp → Bool
  | .step t _ => decide (t ∈ threads) &&
      match (s.pc t).scan t with
      | some (q, n, j) => decide (j < n) || threads.all fun t' =>
        decide (t'.replica ≠ q) || decide (t'.tid ≤ n) || !(s.pc t').readSection.isInside
      | none => true
  | .start t _ => decide (t ∈ threads)
  | _ => true

variable {threads : List Thread}

theorem scansAll_of_test (only : OnlyThreads threads s) (passes : scansAllTest threads s e = true) :
    ScansAll s e := by
  cases e with
  | step t flag =>
    rintro q n f j place past t' rfl ⟨seen, inside⟩
    simp only [scansAllTest, scan_of_standing place, Bool.and_eq_true, Bool.or_eq_true,
      decide_eq_true_eq, List.all_eq_true] at passes
    have listed : t' ∈ threads := by
      by_contra missing
      rw [only t' missing] at inside
      cases inside
    rcases passes.2 with short | all
    · omega
    · rcases all t' listed with (other | below) | outside
      · exact absurd rfl other
      · exact below
      · rw [inside] at outside
        cases outside
  | _ => trivial

def ReplicaEvent.among (threads : List Thread) : ReplicaEvent ReadOp WriteOp → Bool
  | .step t _ | .start t _ => decide (t ∈ threads)
  | _ => true

theorem onlyThreads_step (only : OnlyThreads threads s) (among : e.among threads = true)
    (taken : step cfg s e = some s') : OnlyThreads threads s' := by
  intro t missing
  have other : ∀ {t'}, decide (t' ∈ threads) = true → t ≠ t' := by
    rintro _ listed rfl
    exact missing (of_decide_eq_true listed)
  cases stepForm_of_step taken with
  | register | line => exact only t missing
  | start =>
    rw [startCall_pc_other _ (other among)]
    exact only t missing
  | step taken =>
    rw [pc_of_stepThread taken (other among)]
    exact only t missing

theorem among_of_scansAllTest (passes : scansAllTest threads s e = true) :
    e.among threads = true := by
  cases e with
  | step t flag =>
    rw [scansAllTest, Bool.and_eq_true] at passes
    exact passes.1
  | start t call => exact passes
  | _ => rfl

theorem scansAll_tests (cfg : Config D ReadOp WriteOp Resp) (threads : List Thread) :
    System.Tests (replicaSystem cfg) (OnlyThreads threads) (scansAllTest threads) ScansAll where
  initial := by
    rintro s rfl t _
    rfl
  kept := fun _ _ _ only passes taken =>
    onlyThreads_step only (among_of_scansAllTest passes) taken
  sound := fun _ _ only passes => scansAll_of_test only passes

end

/-- The lookup of a thread inside its read section: the completed tail it began with, the
number of calls of thread `t'` that had returned, and the operations it has seen. -/
def readsAt (s : State Nat Unit Unit Nat) (t t' : Thread) : Option (Nat × Nat × Nat) :=
  match s.pc t with
  | .reading l _ seen => some (l.since, l.returned t', seen)
  | _ => none

def racesAt (s : State Nat Unit Unit Nat) (t : Thread) : Bool :=
  match s.pc t with
  | .panicked .dataRace => true
  | _ => false

/-- Replica 0 executes and completes one operation, then a thread of replica 1 looks up and
enters its read section. -/
def callThenLookup : List (ReplicaEvent Unit Unit) :=
  firstLoads ++ List.replicate 41 (.step ⟨0, 1⟩ true) ++
    [.register 1, .start ⟨1, 1⟩ (.execute () false)] ++ List.replicate 44 (.step ⟨1, 1⟩ true)

theorem lookups_fresh_callThenLookup :
    ∃ s, (replicaSystem countingReplicas).ReachableWhere ScansAll s ∧
      readsAt s ⟨1, 1⟩ ⟨0, 1⟩ = some (1, 1, 1) ∧ Fresh countingReplicas s := by
  obtain ⟨s, reached, evaluated⟩ := System.exists_reachableWhere_of_run
    (scansAll_tests countingReplicas [⟨0, 1⟩, ⟨1, 1⟩]) rfl callThenLookup
    (fun s => decide (readsAt s ⟨1, 1⟩ ⟨0, 1⟩ = some (1, 1, 1))) (by decide +kernel)
  exact ⟨s, reached, of_decide_eq_true evaluated, lookups_fresh reached⟩

/-- Two threads register behind the first load of a round, and the second one enters its read
section. -/
def thirdReads : List (ReplicaEvent Unit Unit) :=
  [.register 0, .register 0, .start ⟨0, 3⟩ (.execute () false)] ++
    List.replicate 4 (.step ⟨0, 3⟩ true)

/-- The writer of the round scans the first two read locks and executes an operation while the
third thread is inside `dispatch`. -/
theorem lookup_races_registering :
    ∃ s, (replicaSystem countingReplicas).Reachable s ∧
      (racesAt s ⟨0, 3⟩ = true ∧ (s.log.executed 0).length = 1) ∧
      ¬ Fresh countingReplicas s := by
  obtain ⟨s, reached, evaluated⟩ := System.exists_reachable_of_run
    (replicaSystem countingReplicas) rfl
    (firstLoads ++ thirdReads ++ List.replicate 30 (.step ⟨0, 1⟩ true) ++ [.step ⟨0, 3⟩ true])
    (fun s => decide (racesAt s ⟨0, 3⟩ = true ∧ (s.log.executed 0).length = 1))
    (by decide +kernel)
  have holds := of_decide_eq_true evaluated
  refine ⟨s, reached, holds, fun fresh => ?_⟩
  have race := holds.1
  unfold racesAt at race
  split at race
  · rename_i here
    exact fresh.defined _ here
  · cases race

end Megalon.Nr
