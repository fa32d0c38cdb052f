import Megalon.Nr.FreshLookups

/-!
Contract: the change notifications of anchored lookups.

Owns: the places where an anchor is stored, cleared and checked, what a step does to them,
their invariant, and that a check that returns true has missed no operation.

Does not own: the locks, and what the lookups read.

The theorem is about runs that stay out of the gaps of the protocol: the anchor is stored
after the read lock is released, `try_sync` clears no anchor, `combine` clears those of the
threads it has counted, and does so after `dispatch_mut`.
-/

namespace Megalon.Nr

open Function Foundations

section

variable {D ReadOp WriteOp Resp : Type} (cfg : Config D ReadOp WriteOp Resp)
  (s s' : State D ReadOp WriteOp Resp)

/-! ### Anchors -/

/-- The response whose slot the thread is about to store as its anchor. -/
def ThreadPc.storing : ThreadPc ReadOp WriteOp Resp → Option Resp
  | .readUnlock l _ resp => if l.anchor then some resp else none
  | .storeAnchor _ _ resp => some resp
  | _ => none

def ThreadPc.aside : ThreadPc ReadOp WriteOp Resp → Bool
  | .readUnlock _ _ _ | .storeAnchor _ _ _ | .checkStore _ _ => false
  | _ => true

/-- The entry of the thread in `change_notif`. -/
def State.anchor (t : Thread) : Option Nat :=
  (s.replicas t.replica).changeNotif (t.tid - 1)

/-- The closure has executed an operation that reports slot `c`, and has not come past entry
`k` since. -/
def Round.Clears (k c : Nat) : Round Resp → Prop
  | .clearLoad n _ resp _ j | .clearStore n _ resp _ j =>
    cfg.ds.cnIdx resp = some c ∧ j ≤ k ∧ k < n
  | _ => False

def RoundNext.Clears (k c : Nat) : RoundNext Resp → Prop
  | .goOn round => round.Clears cfg k c
  | _ => False

/-- Some thread is about to clear entry `k` of replica `q` because of slot `c`. -/
def Clearing (q k c : Nat) : Prop :=
  ∃ t round, standing t q (s.pc t) = .round round ∧ round.Clears cfg k c

/-- The slot that the operation reports which replica `q` executes in its next access of the
log. -/
def State.reportsNext (q : Nat) : Option Nat :=
  if (s.log.pc q).free then none
  else
    (Log.step cfg.geometry s.log (.access q)).bind fun log =>
      (newCall s.log log q).bind fun call =>
        cfg.ds.cnIdx (cfg.ds.dispatchMut (s.replicas q).data call.1.op).2

/-! ### Runs without gaps -/

/-- An operation that reports the slot a thread watches is executed by a closure that comes to
the thread's entry, when the thread has stored its anchor. -/
def ClearsWatched (t : Thread) : Prop :=
  ∀ q n f c, standing t q (s.pc t) = .round (.replay n f) → s.reportsNext cfg q = some c →
    ∀ t', t'.replica = q → s.watch t' = some (c, false) →
      f ≠ .replicaExec ∧ t'.tid ≤ n ∧ (s.pc t').storing = none

/-- A check does not fall between an operation that reports the watched slot and the store
that clears the entry. -/
def ChecksCleared (t : Thread) : Prop :=
  s.pc t = .checkLoad → ∀ c executed, s.watch t = some (c, executed) →
    ¬ Clearing cfg s t.replica (t.tid - 1) c

def Notified : ReplicaEvent ReadOp WriteOp → Prop
  | .step t _ => ClearsWatched cfg s t ∧ ChecksCleared cfg s t
  | _ => True

/-- Where a check returns true, the replica has executed no operation that reports the slot of
the thread's last anchored lookup since that lookup has read it. -/
def NoneLost : Prop :=
  ∀ t current watched c executed, s.pc t = .checkStore current watched → current ≠ none →
    watched = some (c, executed) → executed = false

/-! ### What a step may do -/

/-- A step that leaves the stage of the thread and its watch. -/
structure Unseen (t : Thread) : Prop where
  storing : (s'.pc t).storing = (s.pc t).storing
  checks : ∀ current watched, s'.pc t = .checkStore current watched →
    s.pc t = .checkStore current watched
  watch : s'.watch t = s.watch t
  anchor : s'.anchor t = s.anchor t ∨ s'.anchor t = none
  clearing : ∀ c, Clearing cfg s t.replica (t.tid - 1) c →
    Clearing cfg s' t.replica (t.tid - 1) c ∨ s'.anchor t ≠ some c

/-- A step as the anchor of thread `t` sees it. -/
inductive NotifyStep (e : ReplicaEvent ReadOp WriteOp) (t : Thread) : Prop
  | unseen (unseen : Unseen cfg s s' t)
  | reads (resp : Resp) (after : (s'.pc t).storing = some resp)
      (checks : ∀ current watched, s'.pc t ≠ .checkStore current watched)
      (watch : s'.watch t = (cfg.ds.cnIdx resp).map fun c => (c, false))
  | stores (resp : Resp) (before : (s.pc t).storing = some resp)
      (after : (s'.pc t).aside = true) (watch : s'.watch t = s.watch t)
      (anchor : s'.anchor t = cfg.ds.cnIdx resp)
  | loads {flag} (event : e = .step t flag) (before : s.pc t = .checkLoad)
      (after : s'.pc t = .checkStore (s.anchor t) (s.watch t)) (watch : s'.watch t = none)
  | executes {t₁ flag q n f} (event : e = .step t₁ flag)
      (place : standing t₁ q (s.pc t₁) = .round (.replay n f))
      (storing : (s'.pc t).storing = (s.pc t).storing)
      (checks : ∀ current watched, s'.pc t = .checkStore current watched →
        s.pc t = .checkStore current watched)
      (watch : s'.watch t = noteExecuted q (s.reportsNext cfg q) s.watch t)
      (anchor : s'.anchor t = s.anchor t)
      (clearing : ∀ c, Clearing cfg s t.replica (t.tid - 1) c →
        Clearing cfg s' t.replica (t.tid - 1) c)
      (clears : f ≠ .replicaExec → ∀ k c, s.reportsNext cfg q = some c → k < n →
        Clearing cfg s' q k c)

/-- The invariant of an anchor. -/
structure AnchorInv (t : Thread) : Prop where
  storing : ∀ resp, (s.pc t).storing = some resp →
    s.watch t = (cfg.ds.cnIdx resp).map fun c => (c, false)
  anchored : (s.pc t).storing = none → ∀ c executed, s.watch t = some (c, executed) →
    s.anchor t = none ∨ s.anchor t = some c
  reported : (s.pc t).storing = none → ∀ c, s.watch t = some (c, true) →
    s.anchor t = none ∨ Clearing cfg s t.replica (t.tid - 1) c
  checked : ∀ a c executed, s.pc t = .checkStore (some a) (some (c, executed)) →
    executed = false

end

section

variable {D ReadOp WriteOp Resp : Type} {cfg : Config D ReadOp WriteOp Resp}
  {s s' : State D ReadOp WriteOp Resp} {t t' : Thread} {q : Nat}
  {pc pc' : ThreadPc ReadOp WriteOp Resp}

theorem storing_of_aside (aside : pc.aside = true) : pc.storing = none := by
  cases pc <;> first | rfl | cases aside

theorem ne_checkStore_of_aside (aside : pc.aside = true) (current : Option Nat)
    (watched : Option (Nat × Bool)) : pc ≠ .checkStore current watched := by
  rintro rfl
  cases aside

theorem aside_afterCombine (t : Thread) (outcome : Outcome) (caller : Caller ReadOp) :
    (afterCombine t outcome caller : ThreadPc ReadOp WriteOp Resp).aside = true := by
  cases caller <;> cases outcome <;> simp only [afterCombine] <;> (repeat' split) <;> rfl

theorem aside_afterSync (q : Nat) (caller : SyncCaller ReadOp) :
    (afterSync q caller : ThreadPc ReadOp WriteOp Resp).aside = true := by
  cases caller with
  | noLogSpace caller => cases caller <;> rfl
  | loop ctail resume => rfl
  | gcFailed l => rfl

theorem aside_afterLookup (locked : Bool) :
    (afterLookup locked : ThreadPc ReadOp WriteOp Resp).aside = true := by
  cases locked <;> rfl

/-! ### Steps of a round -/

/-- What an access of a round does to the anchors of its replica. -/
inductive RoundEffect (cfg : Config D ReadOp WriteOp Resp) (s s' : State D ReadOp WriteOp Resp)
    (q : Nat) (round : Round Resp) (next : RoundNext Resp) : Prop
  | clears (watch : s'.watch = s.watch)
      (anchors : ∀ k, (s'.replicas q).changeNotif k = (s.replicas q).changeNotif k ∨
        (s'.replicas q).changeNotif k = none)
      (passes : ∀ k c, round.Clears cfg k c →
        next.Clears cfg k c ∨ (s'.replicas q).changeNotif k ≠ some c)
  | executes {n f} (here : round = .replay n f)
      (watch : s'.watch = noteExecuted q (s.reportsNext cfg q) s.watch)
      (anchors : (s'.replicas q).changeNotif = (s.replicas q).changeNotif)
      (begins : f ≠ .replicaExec → ∀ k c, s.reportsNext cfg q = some c → k < n →
        next.Clears cfg k c)

variable {round : Round Resp} {next : RoundNext Resp}

theorem not_clears_of_outside (outside : round.inLog = false) (k c : Nat) :
    ¬ round.Clears cfg k c := by
  cases round <;> first | exact id | cases outside

theorem RoundEffect.plain (watch : s'.watch = s.watch)
    (anchors : (s'.replicas q).changeNotif = (s.replicas q).changeNotif)
    (none : ∀ k c, ¬ round.Clears cfg k c) : RoundEffect cfg s s' q round next :=
  .clears watch (fun k => .inl (congrFun anchors k)) fun k c clears => absurd clears (none k c)

variable {r : ReplicaState D WriteOp Resp}

theorem RoundEffect.set (anchors : r.changeNotif = (s.replicas q).changeNotif)
    (none : ∀ k c, ¬ round.Clears cfg k c) : RoundEffect cfg s (s.setReplica q r) q round next :=
  .plain rfl (by rw [setReplica_same, anchors]) none

theorem roundEffect_of_stepRound (taken : stepRound cfg s q round = some (s', next)) :
    RoundEffect cfg s s' q round next := by
  cases roundMove_of_stepRound taken with
  | sets outside same _ => exact .set same.changeNotif (not_clears_of_outside outside)
  | locks n f => exact .set (by rfl) fun _ _ => id
  | scans | rescans | scanned | calls | returns | replays =>
    exact .plain rfl rfl fun _ _ => id
  | @executes n f log op mine running stepped called =>
    have reports : s.reportsNext cfg q =
        cfg.ds.cnIdx (cfg.ds.dispatchMut (s.replicas q).data op.op).2 := by
      rw [State.reportsNext, if_neg running, stepped, Option.bind_some, called, Option.bind_some]
    refine .executes rfl (by rw [reports]; rfl) (by rw [replica_executes]) ?_
    intro notSync k c reported below
    rw [reports] at reported
    cases f with
    | append => exact ⟨reported, Nat.zero_le k, below⟩
    | combineExec waitingFor => exact ⟨reported, Nat.zero_le k, below⟩
    | replicaExec => exact absurd rfl notSync
  | finds n f resp mine j =>
    exact .clears rfl (fun _ => .inl rfl) fun k c clears => .inl clears
  | @passes n f resp mine j other =>
    refine .clears rfl (fun _ => .inl rfl) fun k c clears => ?_
    obtain ⟨reports, reached, below⟩ := clears
    by_cases now : j = k
    · right
      intro anchored
      refine other ⟨?_, by rw [reports]; simp⟩
      rw [now, anchored, reports]
    · exact .inl ⟨reports, by omega, below⟩
  | passed f resp mine past =>
    refine .clears rfl (fun _ => .inl rfl) fun k c clears => ?_
    obtain ⟨_, reached, below⟩ := clears
    omega
  | clears n f resp mine j =>
    refine .clears rfl ?_ ?_
    · intro k
      rw [setReplica_same]
      by_cases now : k = j
      · rw [now]
        exact .inr (update_self ..)
      · exact .inl (update_of_ne now ..)
    · rintro k c ⟨reports, reached, below⟩
      by_cases now : k = j
      · right
        rw [setReplica_same, now]
        simp
      · exact .inl ⟨reports, by omega, below⟩
  | closes n f resp mine same => exact .set same.changeNotif fun _ _ => id
  | unlocks n f outside => exact .set (by rfl) fun _ _ => id

theorem standing_unique {q' : Nat} {round' : Round Resp} (place : standing t q pc = .round round)
    (place' : standing t q' pc = .round round') : q' = q ∧ round' = round := by
  rcases standing_cases place with ⟨caller, rfl, rfl⟩ | ⟨caller, rfl⟩
  · rcases standing_cases place' with ⟨caller', same, rfl⟩ | ⟨caller', same⟩ <;> cases same
    exact ⟨rfl, rfl⟩
  · rcases standing_cases place' with ⟨caller', same, _⟩ | ⟨caller', same⟩ <;> cases same
    exact ⟨rfl, rfl⟩

variable {flag : Bool}

section

variable {t₁ : Thread} {stage : Round Resp → ThreadPc ReadOp WriteOp Resp}
  {done : Outcome → ThreadPc ReadOp WriteOp Resp} (rounds : Rounds t₁ q stage done)

include rounds

theorem Rounds.aside (round : Round Resp) : (stage round).aside = true := by
  cases rounds <;> rfl

theorem Rounds.aside_next (next : RoundNext Resp) : (next.pc stage done).aside = true := by
  cases next with
  | goOn round => exact rounds.aside round
  | done outcome =>
    cases rounds with
    | combine caller => exact aside_afterCombine t₁ outcome caller
    | sync caller => exact aside_afterSync q caller
  | panic reason => rfl

theorem Rounds.notifyStep (here : s.pc t₁ = stage round)
    (taken : stepRound cfg s q round = some (s', next)) (t : Thread) :
    NotifyStep cfg s (s'.goto t₁ (next.pc stage done)) (.step t₁ flag) t := by
  have lock := roundLock_of_stepRound taken
  have place := rounds.place here
  have after := rounds.aside_next next
  generalize goes : next.pc stage done = pc at after
  have others : ∀ t', t' ≠ t₁ → (s'.goto t₁ pc).pc t' = s.pc t' := by
    intro t' other
    rw [goto_pc_other s' pc other, lock.pc]
  have own : (s'.goto t₁ pc).pc t₁ = pc := goto_pc_self ..
  have storing : ((s'.goto t₁ pc).pc t).storing = (s.pc t).storing := by
    by_cases same : t = t₁
    · rw [same, own, here, storing_of_aside after, storing_of_aside (rounds.aside round)]
    · rw [others t same]
  have checks : ∀ current watched, (s'.goto t₁ pc).pc t = .checkStore current watched →
      s.pc t = .checkStore current watched := by
    intro current watched checks
    by_cases same : t = t₁
    · rw [same, own] at checks
      exact absurd checks (ne_checkStore_of_aside after _ _)
    · rwa [others t same] at checks
  have begun : ∀ k c, next.Clears cfg k c → Clearing cfg (s'.goto t₁ pc) q k c := by
    intro k c clears
    cases next with
    | goOn round' => exact ⟨t₁, round', by rw [own]; exact rounds.place goes.symm, clears⟩
    | done outcome => cases clears
    | panic reason => cases clears
  -- What another thread clears it goes on clearing; what this round clears is up to it.
  have kept : ∀ q' k c, Clearing cfg s q' k c →
      Clearing cfg (s'.goto t₁ pc) q' k c ∨ q' = q ∧ round.Clears cfg k c := by
    rintro q' k c ⟨t', round', place', clears⟩
    by_cases same : t' = t₁
    · rw [same] at place'
      obtain ⟨sameReplica, sameRound⟩ := standing_unique place place'
      exact .inr ⟨sameReplica, sameRound ▸ clears⟩
    · exact .inl ⟨t', round', by rw [others t' same]; exact place', clears⟩
  cases roundEffect_of_stepRound taken with
  | clears watch anchors passes =>
    refine .unseen ⟨storing, checks, congrFun watch t, ?_, ?_⟩
    · by_cases here : t.replica = q
      · rw [State.anchor, State.anchor, goto_replicas, here]
        exact anchors _
      · left
        rw [State.anchor, State.anchor, goto_replicas, lock.others _ here]
    · intro c clearing
      rcases kept _ _ _ clearing with still | ⟨here, clears⟩
      · exact .inl still
      · rw [State.anchor, goto_replicas, here]
        exact (passes _ c clears).imp_left (begun _ c)
  | @executes n f here watch anchors begins =>
    refine .executes rfl (here ▸ place) storing checks (congrFun watch t) ?_ ?_ ?_
    · rw [State.anchor, State.anchor, goto_replicas]
      by_cases same : t.replica = q
      · rw [same, anchors]
      · rw [lock.others _ same]
    · intro c clearing
      refine (kept _ _ _ clearing).resolve_right fun mine => ?_
      rw [here] at mine
      exact mine.2
    · exact fun notSync k c reports below => begun k c (begins notSync k c reports below)

end

/-! ### Steps outside rounds -/

/-- A step of thread `t` that is no access of a round. -/
structure OutsideNotify (cfg : Config D ReadOp WriteOp Resp) (s s' : State D ReadOp WriteOp Resp)
    (e : ReplicaEvent ReadOp WriteOp) (t : Thread) : Prop where
  others : ∀ t', t' ≠ t → s'.pc t' = s.pc t'
  parked : ∀ q, standing t q (s.pc t) = .parked
  watch : ∀ t', t' ≠ t → s'.watch t' = s.watch t'
  anchors : ∀ q k, ¬ (q = t.replica ∧ k = t.tid - 1) →
    (s'.replicas q).changeNotif k = (s.replicas q).changeNotif k
  own : NotifyStep cfg s s' e t

variable {k c : Nat}

theorem clearing_of_others (others : ∀ t', t' ≠ t → s'.pc t' = s.pc t')
    (parked : ∀ q, standing t q (s.pc t) = .parked) (clearing : Clearing cfg s q k c) :
    Clearing cfg s' q k c := by
  obtain ⟨t', round, place, clears⟩ := clearing
  have elsewhere : t' ≠ t := by
    rintro rfl
    rw [parked] at place
    cases place
  exact ⟨t', round, by rw [others t' elsewhere]; exact place, clears⟩

variable {e : ReplicaEvent ReadOp WriteOp}

theorem OutsideNotify.notifyStep (step : OutsideNotify cfg s s' e t) (token : 1 ≤ t.tid)
    (token' : 1 ≤ t'.tid) : NotifyStep cfg s s' e t' := by
  by_cases same : t' = t
  · exact same ▸ step.own
  · refine .unseen ⟨by rw [step.others t' same], ?_, step.watch t' same, .inl ?_, ?_⟩
    · intro current watched here
      rwa [step.others t' same] at here
    · exact step.anchors _ _ fun own => index_ne_of_ne same token token' own.1 own.2
    · exact fun c clearing => .inl (clearing_of_others step.others step.parked clearing)

theorem OutsideNotify.move (moved : s'.pc = update s.pc t pc) (watch : s'.watch = s.watch)
    (anchors : ∀ q, (s'.replicas q).changeNotif = (s.replicas q).changeNotif)
    (parked : ∀ q, standing t q (s.pc t) = .parked) (storing : pc.storing = (s.pc t).storing)
    (checks : ∀ current watched, pc ≠ .checkStore current watched) :
    OutsideNotify cfg s s' e t := by
  have own : s'.pc t = pc := by rw [moved, update_self]
  have others : ∀ t', t' ≠ t → s'.pc t' = s.pc t' := by
    intro t' other
    rw [moved, update_of_ne other]
  refine ⟨others, parked, fun _ _ => by rw [watch], fun q k _ => by rw [anchors], .unseen ?_⟩
  refine ⟨by rw [own, storing], ?_, by rw [watch], .inl ?_, ?_⟩
  · intro current watched here
    rw [own] at here
    exact absurd here (checks current watched)
  · rw [State.anchor, State.anchor, anchors]
  · exact fun c clearing => .inl (clearing_of_others others parked clearing)

theorem OutsideNotify.goto (parked : ∀ q, standing t q (s.pc t) = .parked)
    (before : (s.pc t).aside = true) (after : pc.aside = true) :
    OutsideNotify cfg s (s.goto t pc) e t :=
  .move rfl rfl (fun _ => rfl) parked (by rw [storing_of_aside before, storing_of_aside after])
    (ne_checkStore_of_aside after)

theorem OutsideNotify.set (anchors : r.changeNotif = (s.replicas q).changeNotif)
    (parked : ∀ q, standing t q (s.pc t) = .parked) (before : (s.pc t).aside = true)
    (after : pc.aside = true) : OutsideNotify cfg s ((s.setReplica q r).goto t pc) e t :=
  .move rfl rfl (setReplica_field (·.changeNotif) anchors) parked
    (by rw [storing_of_aside before, storing_of_aside after]) (ne_checkStore_of_aside after)

theorem anchors_setReplica {entry : Option Nat} {q' : Nat}
    (elsewhere : ¬ (q' = t.replica ∧ k = t.tid - 1)) :
    ((s.setReplica t.replica { s.replicas t.replica with
      changeNotif := update (s.replicas t.replica).changeNotif (t.tid - 1) entry
      }).replicas q').changeNotif k = (s.replicas q').changeNotif k := by
  by_cases here : q' = t.replica
  · rw [here, setReplica_same]
    exact update_of_ne (fun same => elsewhere ⟨here, same⟩) ..
  · rw [setReplica_of_ne s _ here]

theorem outsideNotify_goes {pc' : ThreadPc ReadOp WriteOp Resp} (here : s.pc t = pc)
    (goes : Goes s t pc pc') (e : ReplicaEvent ReadOp WriteOp) :
    OutsideNotify cfg s (s.goto t pc') e t := by
  cases goes with
  | @notCombiner caller =>
    exact .goto (fun _ => by rw [here]; rfl) (by rw [here]; rfl) (aside_afterCombine t .ok caller)
  | @notSyncer caller q =>
    exact .goto (fun _ => by rw [here]; rfl) (by rw [here]; rfl) (aside_afterSync q caller)
  | _ => exact .goto (fun _ => by rw [here]; rfl) (by rw [here]; rfl) rfl

theorem outsideNotify_of_move (flag : Bool) (here : s.pc t = pc)
    (move : OutsideMove cfg s t pc s') : OutsideNotify cfg s s' (.step t flag) t := by
  have still : s.pc = update s.pc t pc := by rw [← here, update_eq_self]
  cases move with
  | stays polls =>
    refine .move still rfl (fun _ => rfl) (fun q => ?_) (by rw [here]) fun _ _ => ?_
    · rw [here]
      cases pc <;> first | rfl | cases polls
    · rintro rfl
      cases polls
  | goes goes => exact outsideNotify_goes here goes _
  | takesNone =>
    exact .move still rfl (setReplica_field (·.changeNotif) (by rfl)) (fun _ => by rw [here]; rfl)
      (by rw [here]) (by simp)
  | returns =>
    exact .move rfl rfl (setReplica_field (·.changeNotif) (by rfl)) (fun _ => by rw [here]; rfl)
      (by rw [here]; rfl) (by simp)
  | @reads l locked =>
    have parked : ∀ q, standing t q (s.pc t) = .parked := fun _ => by rw [here]; rfl
    cases anchored : l.anchor with
    | true =>
      refine ⟨fun _ other => goto_pc_other _ _ other, parked, ?_, fun _ _ _ => rfl,
        .reads (cfg.ds.dispatch (s.replicas t.replica).data l.op) ?_ ?_ ?_⟩
      · exact fun t' other => update_of_ne other ..
      · rw [goto_pc_self]
        exact if_pos anchored
      · simp
      · exact update_self ..
    | false =>
      refine .move rfl rfl (fun _ => rfl) parked ?_ (by simp)
      rw [here]
      simp [ThreadPc.storing, anchored]
  | @readUnlocks l locked resp =>
    have parked : ∀ q, standing t q (s.pc t) = .parked := fun _ => by rw [here]; rfl
    cases anchored : l.anchor with
    | true =>
      refine .move rfl rfl (setReplica_field (·.changeNotif) (by rfl)) parked ?_ (by simp)
      rw [here]
      simp [ThreadPc.storing, anchored]
    | false =>
      refine .move rfl rfl (setReplica_field (·.changeNotif) (by rfl)) parked ?_
        (ne_checkStore_of_aside (aside_afterLookup locked))
      rw [here, if_neg (by simp), storing_of_aside (aside_afterLookup locked)]
      simp [ThreadPc.storing, anchored]
  | @storesAnchor l locked resp =>
    refine ⟨fun _ other => goto_pc_other _ _ other, fun _ => by rw [here]; rfl, fun _ _ => rfl,
      fun q k elsewhere => anchors_setReplica elsewhere, .stores resp ?_ ?_ rfl ?_⟩
    · rw [here]
      rfl
    · rw [goto_pc_self]
      exact aside_afterLookup locked
    · rw [State.anchor, goto_replicas, State.setAnchor, setReplica_same]
      exact update_self ..
  | loadsAnchor =>
    refine ⟨fun _ other => goto_pc_other _ _ other, fun _ => by rw [here]; rfl, ?_,
      fun _ _ _ => rfl, .loads rfl here ?_ ?_⟩
    · exact fun t' other => update_of_ne other ..
    · rw [goto_pc_self]
      rfl
    · exact update_self ..
  | clearsAnchor =>
    have others : ∀ t', t' ≠ t → (s.goto t .idle).pc t' = s.pc t' :=
      fun t' other => goto_pc_other s .idle other
    have parked : ∀ q, standing t q (s.pc t) = .parked := fun _ => by rw [here]; rfl
    refine ⟨others, parked, fun _ _ => rfl, fun q k elsewhere => anchors_setReplica elsewhere,
      .unseen ⟨?_, ?_, rfl, .inr ?_, fun c clearing => .inl ?_⟩⟩
    · rw [goto_pc_self, here]
      rfl
    · simp
    · rw [State.anchor, goto_replicas, State.setAnchor, setReplica_same]
      exact update_self ..
    · exact clearing_of_others others parked clearing
  | enqueues | acquires | acquiresOther | readLocks | backsOff | releases =>
    exact .set (by rfl) (fun _ => by rw [here]; rfl) (by rw [here]; rfl) rfl

theorem outsideNotify_startCall (here : s.pc t = .idle) (call : Call ReadOp WriteOp)
    (e : ReplicaEvent ReadOp WriteOp) : OutsideNotify cfg s (startCall s t call) e t := by
  have parked : ∀ q, standing t q (s.pc t) = .parked := fun _ => by rw [here]; rfl
  have before : (s.pc t).aside = true := by rw [here]; rfl
  cases call with
  | executeMut op => exact .move rfl rfl (fun _ => rfl) parked (by rw [here]; rfl) (by simp)
  | execute op anchor => exact .goto parked before rfl
  | sync => exact .goto parked before rfl
  | checkNotificationReset => exact .goto parked before rfl

/-! ### One event -/

theorem notifyStep_stepThread (taken : stepThread cfg s t flag = some s') (token : 1 ≤ t.tid)
    (token' : 1 ≤ t'.tid) : NotifyStep cfg s s' (.step t flag) t' := by
  have move := threadMove_of_stepThread taken
  generalize here : s.pc t = pc at move
  cases move with
  | outside move => exact (outsideNotify_of_move flag here move).notifyStep token token'
  | round rounds stepped => exact rounds.notifyStep here stepped t'

theorem notifyStep_same (pc : s'.pc = s.pc) (watch : s'.watch = s.watch)
    (anchors : ∀ q, (s'.replicas q).changeNotif = (s.replicas q).changeNotif) (t : Thread) :
    NotifyStep cfg s s' e t := by
  refine .unseen ⟨by rw [pc], fun _ _ here => by rwa [pc] at here, by rw [watch], .inl ?_, ?_⟩
  · rw [State.anchor, State.anchor, anchors]
  · rintro c ⟨t', round, place, clears⟩
    exact .inl ⟨t', round, by rw [pc]; exact place, clears⟩

/-- **One event**, as the anchor of a thread sees it. -/
theorem notifyStep_of_step (combining : CombiningInv cfg False s) (taken : step cfg s e = some s')
    (token : 1 ≤ t.tid) : NotifyStep cfg s s' e t := by
  cases stepForm_of_step taken with
  | register =>
    exact notifyStep_same (by rfl) (by rfl) (setReplica_field (·.changeNotif) (by rfl)) t
  | start registered idle =>
    exact (outsideNotify_startCall idle _ _).notifyStep registered.2 token
  | @step t' _ _ taken started =>
    exact notifyStep_stepThread taken ((combining.valid t').registered started).2 token
  | line => exact notifyStep_same (by rfl) (by rfl) (fun _ => by rfl) t

/-! ### The invariant -/

theorem anchorInv_initial (t : Thread) : AnchorInv cfg (initialState cfg) t where
  storing := fun _ storing => by cases storing
  anchored := fun _ _ _ watched => by cases watched
  reported := fun _ _ watched => by cases watched
  checked := fun _ _ _ here => by cases here

theorem AnchorInv.unseen (inv : AnchorInv cfg s t) (unseen : Unseen cfg s s' t) :
    AnchorInv cfg s' t := by
  have anchored : (s'.pc t).storing = none → ∀ c executed, s'.watch t = some (c, executed) →
      s'.anchor t = none ∨ s'.anchor t = some c := by
    intro storing c executed watched
    rw [unseen.storing] at storing
    rw [unseen.watch] at watched
    rcases unseen.anchor with same | none
    · rw [same]
      exact inv.anchored storing c executed watched
    · exact .inl none
  refine ⟨?_, anchored, ?_, ?_⟩
  · intro resp storing
    rw [unseen.storing] at storing
    rw [unseen.watch]
    exact inv.storing resp storing
  · intro storing c watched
    have before := inv.reported (unseen.storing ▸ storing) c (unseen.watch ▸ watched)
    rcases before with none | clearing
    · rcases unseen.anchor with same | cleared
      · exact .inl (same.trans none)
      · exact .inl cleared
    · rcases unseen.clearing c clearing with still | passed
      · exact .inr still
      · exact .inl ((anchored storing c true watched).resolve_right passed)
  · exact fun a c executed here => inv.checked a c executed (unseen.checks _ _ here)

variable {idx : Option Nat}

theorem noteExecuted_cases {executed : Bool}
    (noted : noteExecuted q idx s.watch t = some (c, executed)) :
    s.watch t = some (c, executed) ∨
      executed = true ∧ s.watch t = some (c, false) ∧ t.replica = q ∧ idx = some c := by
  unfold noteExecuted at noted
  split at noted
  · rename_i slot known watched
    cases noted
    cases known with
    | true => exact .inl watched
    | false =>
      by_cases reports : t.replica = q ∧ idx = some c
      · right
        exact ⟨by simp [reports.1, reports.2], watched, reports.1, reports.2⟩
      · left
        rw [watched]
        have unknown : (decide (t.replica = q) && decide (idx = some c)) = false := by
          simpa using reports
        rw [unknown]
        rfl
  · cases noted

theorem noteExecuted_none (watched : s.watch t = none) : noteExecuted q idx s.watch t = none := by
  simp only [noteExecuted, watched]

/-- Replica `q` executes an operation: if it reports the slot the thread watches, the closure
goes on to clear the thread's entry. -/
theorem AnchorInv.executes (inv : AnchorInv cfg s t)
    (storing : (s'.pc t).storing = (s.pc t).storing)
    (checks : ∀ current watched, s'.pc t = .checkStore current watched →
      s.pc t = .checkStore current watched) (watch : s'.watch t = noteExecuted q idx s.watch t)
    (anchor : s'.anchor t = s.anchor t) (clearing : ∀ c, Clearing cfg s t.replica (t.tid - 1) c →
      Clearing cfg s' t.replica (t.tid - 1) c)
    (reports : t.replica = q → ∀ c, idx = some c → s.watch t = some (c, false) →
      (s.pc t).storing = none ∧ Clearing cfg s' q (t.tid - 1) c) : AnchorInv cfg s' t where
  storing := by
    intro resp stored
    rw [storing] at stored
    have before := inv.storing resp stored
    cases slot : cfg.ds.cnIdx resp with
    | none =>
      rw [slot] at before
      rw [watch, noteExecuted_none before]
      rfl
    | some c =>
      rw [slot] at before
      have unreported : ¬ (t.replica = q ∧ idx = some c) := by
        intro now
        have idle := (reports now.1 c now.2 before).1
        rw [stored] at idle
        cases idle
      have unknown : (decide (t.replica = q) && decide (idx = some c)) = false := by
        simpa using unreported
      rw [watch]
      simp only [noteExecuted, before, Option.map_some, unknown, Bool.or_false]
  anchored := by
    intro stored c executed watched
    rw [storing] at stored
    rw [anchor]
    rw [watch] at watched
    rcases noteExecuted_cases watched with before | ⟨_, before, _⟩
    · exact inv.anchored stored c executed before
    · exact inv.anchored stored c false before
  reported := by
    intro stored c watched
    rw [storing] at stored
    rw [watch] at watched
    rcases noteExecuted_cases watched with before | ⟨_, before, here, reported⟩
    · rw [anchor]
      exact (inv.reported stored c before).imp_right (clearing c)
    · right
      rw [here]
      exact (reports here c reported before).2
  checked := fun a c executed here => inv.checked a c executed (checks _ _ here)

theorem anchorInv_step (inv : AnchorInv cfg s t) (token : 1 ≤ t.tid) (condition : Notified cfg s e)
    (step : NotifyStep cfg s s' e t) : AnchorInv cfg s' t := by
  cases step with
  | unseen unseen => exact inv.unseen unseen
  | reads resp after checks watch =>
    refine ⟨?_, ?_, ?_, fun _ _ _ here => absurd here (checks _ _)⟩
    · intro resp' storing
      rw [after] at storing
      cases storing
      exact watch
    · intro storing
      rw [after] at storing
      cases storing
    · intro storing
      rw [after] at storing
      cases storing
  | stores resp before after watch anchor =>
    have read := inv.storing resp before
    refine ⟨?_, ?_, ?_, fun _ _ _ here => absurd here (ne_checkStore_of_aside after _ _)⟩
    · intro resp' storing
      rw [storing_of_aside after] at storing
      cases storing
    · intro _ c executed watched
      rw [watch, read, Option.map_eq_some_iff] at watched
      obtain ⟨slot, reported, same⟩ := watched
      cases same
      exact .inr (anchor.trans reported)
    · intro _ c watched
      rw [watch, read, Option.map_eq_some_iff] at watched
      obtain ⟨slot, _, same⟩ := watched
      cases same
  | loads event before after watch =>
    subst event
    refine ⟨?_, ?_, ?_, ?_⟩
    · intro resp storing
      rw [after] at storing
      cases storing
    · intro _ c executed watched
      rw [watch] at watched
      cases watched
    · intro _ c watched
      rw [watch] at watched
      cases watched
    · intro a c executed here
      rw [after, ThreadPc.checkStore.injEq] at here
      obtain ⟨anchored, watched⟩ := here
      cases executed with
      | false => rfl
      | true =>
        have idle : (s.pc t).storing = none := by rw [before]; rfl
        rcases inv.reported idle c watched with none | clearing
        · rw [none] at anchored
          cases anchored
        · exact absurd clearing (condition.2 before c true watched)
  | executes event place storing checks watch anchor clearing clears =>
    subst event
    refine inv.executes storing checks watch anchor clearing fun here c reports watched => ?_
    obtain ⟨notSync, counted, stored⟩ := condition.1 _ _ _ c place reports t here watched
    exact ⟨stored, clears notSync _ c reports (by omega)⟩

theorem anchorInv_of_reachable (reached : (replicaSystem cfg).ReachableWhere (Notified cfg) s) :
    CombiningInv cfg False s ∧ ∀ t, 1 ≤ t.tid → AnchorInv cfg s t := by
  refine reached.invariant
    (P := fun s => CombiningInv cfg False s ∧ ∀ t, 1 ≤ t.tid → AnchorInv cfg s t) ?_ ?_
  · rintro s rfl
    exact ⟨combiningInv_initial, fun t _ => anchorInv_initial t⟩
  · rintro s e s' ⟨combining, inv⟩ condition taken
    exact ⟨combiningInv_step combining False.elim taken, fun t token =>
      anchorInv_step (inv t token) token condition (notifyStep_of_step combining taken token)⟩

/-- **No notification is lost** in every run in which an operation that reports a watched slot
is executed by a closure that comes to the watching thread's entry, after the thread has
stored its anchor, and in which no check falls between the operation and the clearing. -/
theorem notifications_kept (reached : (replicaSystem cfg).ReachableWhere (Notified cfg) s) :
    NoneLost s := by
  obtain ⟨combining, inv⟩ := anchorInv_of_reachable reached
  intro t current watched c executed here positive watches
  have token := ((combining.valid t).registered (by rw [here]; rfl)).2
  cases current with
  | none => exact absurd rfl positive
  | some a =>
    rw [watches] at here
    exact (inv t token).checked a c executed here

/-! ### Runs of few threads -/

/-- The round of a thread that replays: its replica, the threads it has counted and its
closure. -/
def ThreadPc.replaying (t : Thread) : ThreadPc ReadOp WriteOp Resp → Option (Nat × Nat × Closure)
  | .combine _ (.replay n f) => some (t.replica, n, f)
  | .sync _ q (.replay n f) => some (q, n, f)
  | _ => none

def ThreadPc.clearing : ThreadPc ReadOp WriteOp Resp → Bool
  | .combine _ (.clearLoad _ _ _ _ _) | .combine _ (.clearStore _ _ _ _ _) => true
  | .sync _ _ (.clearLoad _ _ _ _ _) | .sync _ _ (.clearStore _ _ _ _ _) => true
  | _ => false

def ThreadPc.isCheckLoad : ThreadPc ReadOp WriteOp Resp → Bool
  | .checkLoad => true
  | _ => false

/-- A test for `Notified` in runs of few threads. -/
def notifiedTest (cfg : Config D ReadOp WriteOp Resp) (threads : List Thread)
    (s : State D ReadOp WriteOp Resp) (e : ReplicaEvent ReadOp WriteOp) : Bool :=
  e.among threads &&
    match e with
    | .step t _ =>
      (match (s.pc t).replaying t with
      | some (q, n, f) => threads.all fun t' =>
        decide (t'.replica ≠ q) || (s.watch t').all fun watched =>
          decide (s.reportsNext cfg q ≠ some watched.1) || watched.2 ||
            decide (f ≠ .replicaExec) && decide (t'.tid ≤ n) && (s.pc t').storing.isNone
      | none => true) &&
        (!(s.pc t).isCheckLoad || threads.all fun t' => !(s.pc t').clearing)
    | _ => true

theorem replaying_of_standing (place : standing t q pc = .round (.replay n f)) :
    pc.replaying t = some (q, n, f) := by
  rcases standing_cases place with ⟨caller, rfl, rfl⟩ | ⟨caller, rfl⟩ <;> rfl

theorem clearing_of_standing (place : standing t q pc = .round round)
    (clears : round.Clears cfg k c) : pc.clearing = true := by
  rcases standing_cases place with ⟨caller, rfl, _⟩ | ⟨caller, rfl⟩
  · cases round <;> first | rfl | cases clears
  · cases round <;> first | rfl | cases clears

/-- Only these threads take part and watch slots. -/
structure OnlyWatching (threads : List Thread) (s : State D ReadOp WriteOp Resp) : Prop where
  idle : OnlyThreads threads s
  watch : ∀ t, t ∉ threads → s.watch t = none

theorem notified_of_test {threads : List Thread} (only : OnlyWatching threads s)
    (passes : notifiedTest cfg threads s e = true) : Notified cfg s e := by
  cases e with
  | step t flag =>
    simp only [notifiedTest, Bool.and_eq_true] at passes
    refine ⟨?_, ?_⟩
    · rintro q n f c place reports t' rfl watched
      have listed : t' ∈ threads := by
        by_contra missing
        rw [only.watch t' missing] at watched
        cases watched
      have tested := passes.2.1
      rw [replaying_of_standing place] at tested
      have here := List.all_eq_true.mp tested t' listed
      simpa [watched, reports, Bool.and_eq_true, and_assoc] using here
    · rintro here c executed watched ⟨t', round, place, clears⟩
      have clearing := clearing_of_standing place clears
      have listed : t' ∈ threads := by
        by_contra missing
        rw [only.idle t' missing] at clearing
        cases clearing
      have tested := passes.2.2
      rw [here] at tested
      have other := List.all_eq_true.mp tested t' listed
      rw [clearing] at other
      cases other
  | _ => trivial

theorem watch_of_stepThread {t₁ : Thread} (taken : stepThread cfg s t₁ flag = some s')
    (other : t ≠ t₁) (unset : s.watch t = none) : s'.watch t = none := by
  have move := threadMove_of_stepThread taken
  generalize here : s.pc t₁ = pc at move
  cases move with
  | round _ stepped =>
    rw [goto_watch]
    cases roundEffect_of_stepRound stepped with
    | clears watch => rw [watch, unset]
    | executes here watch =>
      rw [watch]
      exact noteExecuted_none unset
  | outside move => rw [(outsideNotify_of_move flag here move).watch t other, unset]

theorem onlyWatching_step {threads : List Thread} (only : OnlyWatching threads s)
    (among : e.among threads = true) (taken : step cfg s e = some s') :
    OnlyWatching threads s' := by
  refine ⟨onlyThreads_step only.idle among taken, fun t missing => ?_⟩
  have unset := only.watch t missing
  cases stepForm_of_step taken with
  | register | line => exact unset
  | @start _ call => cases call <;> exact unset
  | step taken =>
    refine watch_of_stepThread taken ?_ unset
    rintro rfl
    exact missing (of_decide_eq_true among)

theorem notified_tests (cfg : Config D ReadOp WriteOp Resp) (threads : List Thread) :
    System.Tests (replicaSystem cfg) (OnlyWatching threads) (notifiedTest cfg threads)
      (Notified cfg) where
  initial := by
    rintro s rfl
    exact ⟨fun _ _ => rfl, fun _ _ => rfl⟩
  kept := by
    intro s e s' only passes taken
    unfold notifiedTest at passes
    rw [Bool.and_eq_true] at passes
    exact onlyWatching_step only passes.1 taken
  sound := fun _ _ only passes => notified_of_test only passes

end

section

open Megalon.Index

def directoryReplicas : Config (Directory BlockId 1) BlockId (Modify BlockId 1)
    (Option (GCDResponse BlockId 1)) :=
  ⟨Log.twoReplicas, directoryDispatch 1, pageSlots, fun _ => none⟩

def putPage (key : BlockId) (slot : Nat) : List (ReplicaEvent BlockId (Modify BlockId 1)) :=
  .start ⟨0, 1⟩ (.executeMut (.checkPutArrayWmeta key (some slot) sharedCacheNode none)) ::
    List.replicate 49 (.step ⟨0, 1⟩ true)

/-- Host 0 has two threads. The first one puts a page into slot 7, and the second one looks it
up with `execute_anchor` and takes `steps` steps. -/
def putThenAnchor (steps : Nat) : List (ReplicaEvent BlockId (Modify BlockId 1)) :=
  [.register 0, .register 0] ++ putPage firstKey 7 ++
    [.start ⟨0, 2⟩ (.execute firstKey true)] ++ List.replicate steps (.step ⟨0, 2⟩ true)

def anchorChecked : List (ReplicaEvent BlockId (Modify BlockId 1)) :=
  [.start ⟨0, 2⟩ .checkNotificationReset, .step ⟨0, 2⟩ true]

def checkAt (s : State (Directory BlockId 1) BlockId (Modify BlockId 1)
    (Option (GCDResponse BlockId 1))) (t : Thread) : Option (Option Nat × Option (Nat × Bool)) :=
  match s.pc t with
  | .checkStore current watched => some (current, watched)
  | _ => none

theorem checkStore_of_checkAt {s : State (Directory BlockId 1) BlockId (Modify BlockId 1)
    (Option (GCDResponse BlockId 1))} {t : Thread} {current : Option Nat}
    {watched : Option (Nat × Bool)} (checked : checkAt s t = some (current, watched)) :
    s.pc t = .checkStore current watched := by
  unfold checkAt at checked
  split at checked
  · rename_i here
    cases checked
    exact here
  · cases checked

/-- Another page is put between the lookup and the check. -/
theorem notifications_kept_otherPage :
    ∃ s, (replicaSystem directoryReplicas).ReachableWhere (Notified directoryReplicas) s ∧
      (checkAt s ⟨0, 2⟩ = some (some 7, some (7, false)) ∧ (s.log.executed 0).length = 2) ∧
      NoneLost s := by
  obtain ⟨s, reached, evaluated⟩ := System.exists_reachableWhere_of_run
    (notified_tests directoryReplicas [⟨0, 1⟩, ⟨0, 2⟩]) rfl
    (putThenAnchor 7 ++ putPage ⟨2, 0⟩ 8 ++ anchorChecked)
    (fun s => decide (checkAt s ⟨0, 2⟩ = some (some 7, some (7, false)) ∧
      (s.log.executed 0).length = 2)) (by decide +kernel)
  exact ⟨s, reached, of_decide_eq_true evaluated, notifications_kept reached⟩

/-- The second thread has read slot 7 and released the data; the first one makes the page
read-write and clears the anchors; then the second one stores its anchor, and its check
returns true. -/
theorem notification_lost_lateAnchor :
    ∃ s, (replicaSystem directoryReplicas).Reachable s ∧
      checkAt s ⟨0, 2⟩ = some (some 7, some (7, true)) ∧ ¬ NoneLost s := by
  obtain ⟨s, reached, evaluated⟩ := System.exists_reachable_of_run
    (replicaSystem directoryReplicas) rfl
    (putThenAnchor 6 ++ [.start ⟨0, 1⟩ (.executeMut switchToReadWrite)] ++
      List.replicate 49 (.step ⟨0, 1⟩ true) ++ [.step ⟨0, 2⟩ true] ++ anchorChecked)
    (fun s => decide (checkAt s ⟨0, 2⟩ = some (some 7, some (7, true)))) (by decide +kernel)
  have checked := of_decide_eq_true evaluated
  refine ⟨s, reached, checked, fun kept => ?_⟩
  have executed := kept _ _ _ 7 true (checkStore_of_checkAt checked) (by simp) rfl
  cases executed

end

end Megalon.Nr
