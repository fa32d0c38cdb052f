import Megalon.Nr.Replica

/-!
Contract: what one access of a thread does, as a relation.

Owns: the moves of a thread, one for each branch of its program, those that change nothing but
the place of the thread apart, and that `stepThread` makes no others.

Does not own: the accesses inside a round.
-/

namespace Megalon.Nr

open Function

variable {D ReadOp WriteOp Resp : Type} (cfg : Config D ReadOp WriteOp Resp)
  (s : State D ReadOp WriteOp Resp) (t : Thread)

def State.context : Context WriteOp Resp :=
  (s.replicas t.replica).contexts (t.tid - 1)

/-- Moves that change nothing but the place of the thread. -/
inductive Goes : ThreadPc ReadOp WriteOp Resp → ThreadPc ReadOp WriteOp Resp → Prop
  | notCombiner {caller} : Goes (.tryCombine caller) (afterCombine t .ok caller)
  | notSyncer {caller q} : Goes (.trySync caller q) (afterSync q caller)
  | syncCtail {q resume} : Goes (.syncCtail q resume) (.syncCheck q s.log.ctail resume)
  | resumes {q ctail} : Goes (.syncCheck q ctail true) (.getResponse true)
  | synced {q ctail} : Goes (.syncCheck q ctail false) .idle
  | syncsMore {q ctail resume} :
      Goes (.syncCheck q ctail resume) (.trySync (.loop ctail resume) q)
  | retries {final} : Goes (.getResponse final) (.tryCombine (.getResponse final))
  | beyondComb {final} (beyond : (s.context t).comb < (s.context t).head) :
      Goes (.getResponse final) (.panicked .contextRes)
  | lookupCtail {l locked} : Goes (.lookupCtail l locked) (.lookupCheck l s.log.ctail locked)
  | checkedLocked {l ctail} : Goes (.lookupCheck l ctail true) (.assertSynced l ctail true)
  | checked {l ctail} (synced : ctail ≤ s.log.ltails t.replica) :
      Goes (.lookupCheck l ctail false) (.readLock l false)
  | lookupCombines {l ctail} :
      Goes (.lookupCheck l ctail true) (.combine (.lookup l ctail true) (.loadNext true))
  | lookupTries {l ctail} :
      Goes (.lookupCheck l ctail false) (.tryCombine (.lookup l ctail false))
  | assertSynced {l ctail locked} (synced : ctail ≤ s.log.ltails t.replica) :
      Goes (.assertSynced l ctail locked) (.readLock l locked)
  | notSynced {l ctail locked} : Goes (.assertSynced l ctail locked) (.panicked .notSynced)
  | entersRead {l locked} (free : (s.replicas t.replica).wlock = false) :
      Goes (.readCheck l locked) (.reading l locked (s.log.executed t.replica).length)
  | races {l locked seen} (changed : (s.log.executed t.replica).length ≠ seen) :
      Goes (.reading l locked seen) (.panicked .dataRace)

/-- The thread polls. -/
def ThreadPc.polls : ThreadPc ReadOp WriteOp Resp → Bool
  | .enqueue _ | .getResponse _ => true
  | _ => false

def State.setReadLock (n : Nat) : State D ReadOp WriteOp Resp :=
  s.setReplica t.replica { s.replicas t.replica with
    rlock := update (s.replicas t.replica).rlock (t.tid - 1) n }

def State.setAnchor (anchor : Option Nat) : State D ReadOp WriteOp Resp :=
  s.setReplica t.replica { s.replicas t.replica with
    changeNotif := update (s.replicas t.replica).changeNotif (t.tid - 1) anchor }

/-- The moves outside rounds. -/
inductive OutsideMove : ThreadPc ReadOp WriteOp Resp → State D ReadOp WriteOp Resp → Prop
  | stays {pc} (polls : pc.polls = true) : OutsideMove pc s
  | goes {pc pc'} (goes : Goes s t pc pc') : OutsideMove pc (s.goto t pc')
  | enqueues {op c} (enqueued : (s.context t).enqueue t.tid op = some c) :
      OutsideMove (.enqueue op)
        ((s.setReplica t.replica ((s.replicas t.replica).setContext (t.tid - 1) c)).goto t
          (.tryCombine .executeMut))
  | acquires {caller} (free : (s.replicas t.replica).combiner = none) :
      OutsideMove (.tryCombine caller)
        ((s.setReplica t.replica { s.replicas t.replica with combiner := some t }).goto t
          (.combine caller (.loadNext true)))
  | acquiresOther {caller q} (free : (s.replicas q).combiner = none) :
      OutsideMove (.trySync caller q)
        ((s.setReplica q { s.replicas q with combiner := some t }).goto t
          (.sync caller q (.loadNext false)))
  | returns {final resp}
      (waiting : (s.context t).head < (s.context t).comb)
      (given : ((s.context t).cell (s.context t).head).resp = some resp) :
      OutsideMove (.getResponse final)
        (({ s.setReplica t.replica
              ((s.replicas t.replica).setContext (t.tid - 1) (s.context t).takeResp) with
            received := update s.received t (s.received t ++ [resp]) } :
          State D ReadOp WriteOp Resp).goto t .idle)
  | takesNone {final}
      (waiting : (s.context t).head < (s.context t).comb)
      (absent : ((s.context t).cell (s.context t).head).resp = none) :
      OutsideMove (.getResponse final)
        (s.setReplica t.replica
          ((s.replicas t.replica).setContext (t.tid - 1) (s.context t).takeResp))
  | readLocks {l locked} :
      OutsideMove (.readLock l locked)
        ((s.setReadLock t ((s.replicas t.replica).rlock (t.tid - 1) + 1)).goto t
          (.readCheck l locked))
  | backsOff {l locked} :
      OutsideMove (.readCheck l locked)
        ((s.setReadLock t ((s.replicas t.replica).rlock (t.tid - 1) - 1)).goto t
          (.readLock l locked))
  | reads {l locked} :
      OutsideMove (.reading l locked (s.log.executed t.replica).length)
        (({ s with
          watch :=
            if l.anchor then
              update s.watch t
                ((cfg.ds.cnIdx (cfg.ds.dispatch (s.replicas t.replica).data l.op)).map
                  fun c => (c, false))
            else s.watch } : State D ReadOp WriteOp Resp).goto t
          (.readUnlock l locked (cfg.ds.dispatch (s.replicas t.replica).data l.op)))
  | readUnlocks {l locked resp} :
      OutsideMove (.readUnlock l locked resp)
        ((s.setReadLock t ((s.replicas t.replica).rlock (t.tid - 1) - 1)).goto t
          (if l.anchor then .storeAnchor l locked resp else afterLookup locked))
  | storesAnchor {l locked resp} :
      OutsideMove (.storeAnchor l locked resp)
        ((s.setAnchor t (cfg.ds.cnIdx resp)).goto t (afterLookup locked))
  | releases :
      OutsideMove .lookupUnlock
        ((s.setReplica t.replica { s.replicas t.replica with combiner := none }).goto t .idle)
  | loadsAnchor :
      OutsideMove .checkLoad
        (({ s with watch := update s.watch t none } : State D ReadOp WriteOp Resp).goto t
          (.checkStore ((s.replicas t.replica).changeNotif (t.tid - 1)) (s.watch t)))
  | clearsAnchor {current watched} :
      OutsideMove (.checkStore current watched) ((s.setAnchor t none).goto t .idle)

/-- The rounds of a thread: the replica, the places in the round and those behind it. -/
inductive Rounds : Nat → (Round Resp → ThreadPc ReadOp WriteOp Resp) →
    (Outcome → ThreadPc ReadOp WriteOp Resp) → Prop
  | combine (caller) :
      Rounds t.replica (.combine caller) fun outcome => afterCombine t outcome caller
  | sync (caller) (q : Nat) : Rounds q (.sync caller q) fun _ => afterSync q caller

/-- What a thread does at its place. -/
inductive ThreadMove : ThreadPc ReadOp WriteOp Resp → State D ReadOp WriteOp Resp → Prop
  | outside {pc s'} (move : OutsideMove cfg s t pc s') : ThreadMove pc s'
  | round {q stage done round after next} (rounds : Rounds t q stage done)
      (taken : stepRound cfg s q round = some (after, next)) :
      ThreadMove (stage round) (after.goto t (next.pc stage done))

variable {cfg s t}

theorem outsideMove_getResponse (final retry : Bool) :
    OutsideMove cfg s t (.getResponse final) (getResponseStep s t final retry) := by
  unfold getResponseStep
  simp only
  split
  · split
    · exact .goes .retries
    · exact .stays rfl
  rename_i moved
  split
  · rename_i beyond
    exact .goes (.beyondComb beyond)
  rename_i ordered
  have waiting := Nat.lt_of_le_of_ne (Nat.le_of_not_lt ordered) moved
  split
  · rename_i given
    exact .returns waiting given
  · rename_i absent
    exact .takesNone waiting absent

/-- **The moves of a thread.** -/
theorem threadMove_of_stepThread {s' : State D ReadOp WriteOp Resp} {flag : Bool}
    (taken : stepThread cfg s t flag = some s') : ThreadMove cfg s t (s.pc t) s' := by
  unfold stepThread at taken
  cases here : s.pc t with
  | idle | panicked reason => simp [here] at taken
  | enqueue op =>
    simp only [here] at taken
    split at taken <;> cases taken
    · rename_i enqueued
      exact .outside (.enqueues enqueued)
    · exact .outside (.stays rfl)
  | tryCombine caller =>
    simp only [here] at taken
    split at taken <;> cases taken
    · rename_i free
      exact .outside (.acquires free.1)
    · exact .outside (.goes .notCombiner)
  | combine caller round =>
    simp only [here] at taken
    obtain ⟨out, stepped, rfl⟩ := Option.map_eq_some_iff.mp taken
    exact .round (.combine caller) stepped
  | trySync caller q =>
    simp only [here] at taken
    split at taken <;> cases taken
    · rename_i free
      exact .outside (.acquiresOther free.1)
    · exact .outside (.goes .notSyncer)
  | sync caller q round =>
    simp only [here] at taken
    obtain ⟨out, stepped, rfl⟩ := Option.map_eq_some_iff.mp taken
    exact .round (.sync caller q) stepped
  | syncCheck q ctail resume =>
    simp only [here] at taken
    split at taken <;> cases taken
    · cases resume
      · exact .outside (.goes .synced)
      · exact .outside (.goes .resumes)
    · exact .outside (.goes .syncsMore)
  | getResponse final =>
    simp only [here] at taken
    cases taken
    exact .outside (outsideMove_getResponse final flag)
  | lookupCheck l ctail locked =>
    simp only [here] at taken
    split at taken
    · rename_i synced
      cases taken
      cases locked
      · exact .outside (.goes (.checked synced))
      · exact .outside (.goes .checkedLocked)
    · cases locked <;> cases taken
      · exact .outside (.goes .lookupTries)
      · exact .outside (.goes .lookupCombines)
  | assertSynced l ctail locked =>
    simp only [here] at taken
    split at taken <;> cases taken
    · rename_i synced
      exact .outside (.goes (.assertSynced synced))
    · exact .outside (.goes .notSynced)
  | readCheck l locked =>
    simp only [here] at taken
    split at taken <;> cases taken
    · exact .outside .backsOff
    · rename_i free
      exact .outside (.goes (.entersRead (Bool.eq_false_iff.mpr free)))
  | reading l locked seen =>
    simp only [here] at taken
    split at taken
    · rename_i unchanged
      subst unchanged
      cases taken
      exact .outside .reads
    · rename_i changed
      cases taken
      exact .outside (.goes (.races changed))
  | syncCtail | lookupCtail | readLock | readUnlock | storeAnchor | lookupUnlock | checkLoad
  | checkStore =>
    simp only [here] at taken
    cases taken
    first
      | exact .outside (.goes .syncCtail)
      | exact .outside (.goes .lookupCtail)
      | exact .outside (by constructor)

end Megalon.Nr
