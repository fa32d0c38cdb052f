import Megalon.Nr.LogReplay

/-!
Contract: where a replica's own operations stand in the log.

Owns: what one access of a replica does to the history, the batch of an `append` call that is
not reserved yet, and the bounds of the own operations: published when `append` returns,
executed when `exec` returns, below the completed tail when the local tail covers them.

Does not own: the order of the counters and the replay itself.
-/

namespace Megalon.Nr.Log

open Function Foundations

variable {Op : Type} {g : Geometry}

/-- The operations replica `r` reserved, in log order. -/
def ownOps (r : Nat) (appended : List (Op × Nat)) : List Op :=
  (appended.filter fun e => decide (e.2 = r)).map Prod.fst

def mineOps (calls : List (Op × Bool)) : List Op :=
  (calls.filter Prod.snd).map Prod.fst

@[simp]
theorem ownOps_append (r : Nat) (xs ys : List (Op × Nat)) :
    ownOps r (xs ++ ys) = ownOps r xs ++ ownOps r ys := by
  simp [ownOps]

theorem ownOps_map_self (r : Nat) (ops : List Op) : ownOps r (ops.map fun op => (op, r)) = ops := by
  induction ops with
  | nil => rfl
  | cons op ops ih =>
    rw [List.map_cons, ownOps, List.filter_cons_of_pos (by simp), List.map_cons]
    exact congrArg (op :: ·) ih

variable {r q : Nat}

theorem ownOps_map_of_ne (different : q ≠ r) (ops : List Op) :
    ownOps q (ops.map fun op => (op, r)) = [] := by
  simp [ownOps, different.symm]

@[simp]
theorem mineOps_append (xs ys : List (Op × Bool)) :
    mineOps (xs ++ ys) = mineOps xs ++ mineOps ys := by
  simp [mineOps]

theorem mineOps_callsOn (r : Nat) (ops : List (Op × Nat)) :
    mineOps (callsOn r ops) = ownOps r ops := by
  simp [mineOps, callsOn, ownOps, List.filter_map, Function.comp_def]

/-! ### The batch of a call -/

def AdvanceCaller.unreserved : AdvanceCaller Op → Option (List Op)
  | .gcWait frame => some frame.ops
  | .afterAppend _ => none

def ExecCaller.unreserved : ExecCaller Op → Option (List Op)
  | .replica => none
  | .gcWait frame => some frame.ops
  | .advanceHead frame => frame.caller.unreserved

def MinTailCaller.unreserved : MinTailCaller Op → Option (List Op)
  | .appendStuck frame => some frame.ops
  | .advanceHead frame _ _ => frame.caller.unreserved

/-- The batch of an `append` call that has yet to reserve its entries. -/
def Pc.unreserved : Pc Op → Option (List Op)
  | .appendTail frame | .appendHead frame _ | .appendReserve frame _ _ => some frame.ops
  | .execLtail caller | .execGtail caller _ | .execHead caller _ _ => caller.unreserved
  | .execFlush caller _ _ _ | .execEntry caller _ _ => caller.unreserved
  | .execCtail caller _ | .execDone caller _ => caller.unreserved
  | .advanceGlobalHead frame | .advanceF frame _ => frame.caller.unreserved
  | .minTailFirst caller | .minTailNext caller _ _ _ => caller.unreserved
  | .advanceStore frame _ _ => frame.caller.unreserved
  | _ => none

/-- The commit tail a replica has loaded in `exec`. -/
def Pc.gtail : Pc Op → Option Nat
  | .execHead _ _ gtail | .execFlush _ _ gtail _ | .execEntry _ gtail _ => some gtail
  | .execCtail _ gtail | .execDone _ gtail => some gtail
  | _ => none

/-- `exec` that the replica called itself. -/
def Pc.replays : Pc Op → Bool
  | .execLtail .replica | .execGtail .replica _ | .execHead .replica _ _ => true
  | .execFlush .replica _ _ _ | .execEntry .replica _ _ => true
  | .execCtail .replica _ | .execDone .replica _ => true
  | _ => false

/-- A place inside a call that is not the end of `exec`, or the end of a successful
`append`. -/
def Pc.passes : Pc Op → Bool
  | .idle | .execDone _ _ | .returned (.err _) => false
  | _ => true

/-! ### One access -/

/-- What a move of a replica that leaves the history and the counters alone does to its
place. -/
structure Pc.Moves (commitTail : Nat) (pc next : Pc Op) : Prop where
  span : next.span = pc.span ∨ next.span = none ∧ ∀ start n, pc.span = some (start, n) → n = 0
  unreserved : next.unreserved = pc.unreserved ∧ (∀ stuck, next ≠ .returned (.err stuck)) ∨
    (∃ stuck, next = .returned (.err stuck)) ∧ pc.unreserved ≠ none ∨
    ∃ why, next = .panicked why
  gtail : ∀ gtail, next.gtail = some gtail →
    pc.gtail = some gtail ∨ gtail = commitTail ∧ pc.span = none
  replays : pc.replays = true → next.replays = true ∨ next = .idle ∨ ∃ why, next = .panicked why
  settles : next = .idle → pc = .execGtail .replica commitTail
  done : ∀ caller gtail, next = .execDone caller gtail → pc = next

/-- The effects of one access of replica `r`. -/
inductive Access (s : State Op) (r : Nat) : State Op → Prop
  | reserve {frame advance} (at_ : s.pc r = .appendReserve frame s.tail advance) :
      Access s r ({ s with
        tail := s.tail + frame.ops.length
        appended := s.appended ++ frame.ops.map fun op => (op, r) }.goto r
          (afterEntry frame s.tail advance 0))
  | publish {frame start advance} (at_ : s.pc r = .publishStore frame start advance) :
      Access s r ({ s with commitTail := start + frame.ops.length }.goto r
        (afterPublish frame advance))
  | execute {caller gtail i slog} (call : Op × Bool) (at_ : s.pc r = .execEntry caller gtail i) :
      Access s r ({ s with
        slog := slog
        executed := update s.executed r (s.executed r ++ [call]) }.goto r
          (.execEntry caller gtail (i + 1)))
  | complete {caller gtail} (at_ : s.pc r = .execCtail caller gtail) :
      Access s r ({ s with ctail := max s.ctail gtail }.goto r (.execDone caller gtail))
  | finish {caller gtail} (at_ : s.pc r = .execDone caller gtail) :
      Access s r ({ s with ltails := update s.ltails r gtail }.goto r (afterExec caller))
  | move {slog head pc next} (at_ : s.pc r = pc) (moves : pc.Moves s.commitTail next) :
      Access s r ({ s with slog := slog, head := head }.goto r next)

variable {commitTail : Nat} {pc : Pc Op}

theorem Pc.Moves.inside {next : Pc Op} (span : next.span = pc.span)
    (unreserved : next.unreserved = pc.unreserved)
    (gtail : next.gtail = pc.gtail ∨ next.gtail = none)
    (replays : pc.replays = false ∨ next.replays = pc.replays) (passes : next.passes = true) :
    pc.Moves commitTail next where
  span := .inl span
  unreserved := by
    refine .inl ⟨unreserved, ?_⟩
    rintro stuck rfl
    cases passes
  gtail := by
    intro loaded same
    rcases gtail with kept | dropped
    · exact .inl (kept ▸ same)
    · rw [dropped] at same
      cases same
  replays := by
    intro own
    rcases replays with other | kept
    · rw [other] at own
      cases own
    · exact .inl (kept.trans own)
  settles := by
    rintro rfl
    cases passes
  done := by
    rintro caller loaded rfl
    cases passes

theorem Pc.Moves.stuck {stuck : Nat} {caller : AdvanceCaller Op} (span : pc.span = none)
    (unreserved : pc.unreserved = caller.unreserved) (replays : pc.replays = false) :
    pc.Moves commitTail (afterAdvanceStuck stuck caller) where
  span := by
    cases caller <;> exact .inl span.symm
  unreserved := by
    cases caller with
    | gcWait frame =>
      exact .inr (.inl ⟨⟨stuck, rfl⟩, by rw [unreserved]; simp [AdvanceCaller.unreserved]⟩)
    | afterAppend frame => exact .inl ⟨unreserved.symm, by simp [afterAdvanceStuck]⟩
  gtail := by
    intro gtail same
    cases caller <;> cases same
  replays := by
    intro own
    rw [replays] at own
    cases own
  settles := by
    intro idle
    cases caller <;> cases idle
  done := by
    intro _ _ same
    cases caller <;> cases same

section

variable (frame : AppendFrame Op)

include frame

theorem afterEntry_unreserved (tail : Nat) (advance : Bool) (i : Nat) :
    (afterEntry frame tail advance i).unreserved = none := by
  unfold afterEntry
  split <;> rfl

theorem afterEntry_gtail (tail : Nat) (advance : Bool) (i : Nat) :
    (afterEntry frame tail advance i).gtail = none := by
  unfold afterEntry
  split <;> rfl

theorem afterPublish_unreserved (advance : Bool) :
    (afterPublish frame advance).unreserved = none := by
  unfold afterPublish
  split <;> rfl

theorem afterPublish_gtail (advance : Bool) :
    (afterPublish frame advance).gtail = none := by
  unfold afterPublish
  split <;> rfl

end

theorem afterExec_unreserved (caller : ExecCaller Op) :
    (afterExec caller).unreserved = caller.unreserved := by
  cases caller <;> rfl

theorem moves_afterHead (frame : AppendFrame Op) (tail head commitTail : Nat) :
    (Pc.appendHead frame tail).Moves commitTail (afterHead g frame tail head) := by
  unfold afterHead
  split
  · split
    · exact .inside rfl rfl (.inr rfl) (.inl rfl) rfl
    · exact .inside rfl rfl (.inr rfl) (.inl rfl) rfl
  · exact .inside rfl rfl (.inr rfl) (.inl rfl) rfl

theorem moves_afterMinTail (caller : MinTailCaller Op)
    (idx minReplicaIdx minLocalTail commitTail : Nat) :
    (Pc.minTailNext caller idx minReplicaIdx minLocalTail).Moves commitTail
      (afterMinTail minReplicaIdx minLocalTail caller) := by
  cases caller with
  | appendStuck frame =>
    exact ⟨.inl rfl, .inr (.inl ⟨⟨_, rfl⟩, by simp [Pc.unreserved, MinTailCaller.unreserved]⟩),
      by simp [afterMinTail, Pc.gtail], by simp [Pc.replays],
      by simp [afterMinTail], by simp [afterMinTail]⟩
  | advanceHead frame globalHead f =>
    simp only [afterMinTail]
    split
    · split
      · exact .stuck rfl rfl rfl
      · exact .inside rfl rfl (.inr rfl) (.inl rfl) rfl
    · exact .inside rfl rfl (.inr rfl) (.inl rfl) rfl

theorem moves_afterAdvance (frame : AdvanceFrame Op) (f minLocalTail commitTail : Nat) :
    (Pc.advanceStore frame f minLocalTail).Moves commitTail (afterAdvance frame.caller) := by
  obtain ⟨caller, iteration⟩ := frame
  cases caller with
  | gcWait inner => exact .inside rfl rfl (.inr rfl) (.inl rfl) rfl
  | afterAppend inner =>
    exact .inside rfl rfl (.inr rfl) (.inl rfl) rfl

theorem moves_afterExec (caller : ExecCaller Op) (commitTail : Nat) :
    (Pc.execGtail caller commitTail).Moves commitTail (afterExec caller) := by
  cases caller with
  | replica =>
    exact ⟨.inl rfl, .inl ⟨rfl, by simp [afterExec]⟩, by simp [afterExec, Pc.gtail],
      fun _ => .inr (.inl rfl),
      fun _ => rfl, by simp [afterExec]⟩
  | gcWait frame => exact .inside rfl rfl (.inr rfl) (.inl rfl) rfl
  | advanceHead frame =>
    exact .inside rfl rfl (.inr rfl) (.inl rfl) rfl

theorem moves_afterEntry (frame : AppendFrame Op) (tail : Nat) (advance : Bool) (i : Nat) :
    (Pc.appendFlush frame tail advance i).Moves commitTail
      (afterEntry frame tail advance (i + 1)) := by
  refine .inside (afterEntry_span _ _ _ _) (afterEntry_unreserved _ _ _ _)
    (.inr (afterEntry_gtail _ _ _ _)) (.inl rfl) ?_
  unfold afterEntry
  split <;> rfl

theorem moves_afterPublish {start : Nat} {frame : AppendFrame Op} (advance : Bool)
    (empty : frame.ops.length = 0) :
    (Pc.publishWait frame start advance).Moves commitTail (afterPublish frame advance) := by
  have spanNone : (afterPublish frame advance).span = none := by
    unfold afterPublish
    split <;> rfl
  have returns : ∀ stuck, afterPublish frame advance ≠ .returned (.err stuck) := by
    unfold afterPublish
    split <;> simp
  refine ⟨.inr ⟨spanNone, ?_⟩, .inl ⟨afterPublish_unreserved frame advance, returns⟩,
    ?_, ?_, ?_, ?_⟩
  · intro start n span
    cases span
    exact empty
  · rw [afterPublish_gtail]
    intro _ none
    cases none
  · intro own
    cases own
  · unfold afterPublish
    split <;> simp
  · unfold afterPublish
    split <;> simp

theorem Pc.Moves.panics (why : Panic) (span : pc.span = none) :
    pc.Moves commitTail (.panicked why) where
  span := .inl span.symm
  unreserved := .inr (.inr ⟨why, rfl⟩)
  gtail := by
    intro _ none
    cases none
  replays := fun _ => .inr (.inr ⟨why, rfl⟩)
  settles := by
    intro idle
    cases idle
  done := by
    intro _ _ same
    cases same

theorem moves_execHead (caller : ExecCaller Op) (ltail commitTail : Nat) :
    (Pc.execGtail caller ltail).Moves commitTail (.execHead caller ltail commitTail) := by
  refine ⟨.inl rfl, .inl ⟨rfl, by simp⟩, ?_, ?_, by simp, by simp⟩
  · intro gtail loaded
    cases loaded
    exact .inr ⟨rfl, rfl⟩
  · intro own
    cases caller
    · exact .inl rfl
    · cases own
    · cases own

variable {s s' : State Op}

theorem access_of_stepReplica (taken : stepReplica g s r = some s') : Access s r s' := by
  unfold stepReplica at taken
  split at taken
  all_goals rename_i at_
  · cases taken
  · cases taken
  · cases taken
  -- append
  · split at taken <;> cases taken
    · exact .move at_ (.inside rfl rfl (.inr rfl) (.inl rfl) rfl)
    · exact .move at_ (.inside rfl rfl (.inr rfl) (.inl rfl) rfl)
  · cases taken
    exact .move at_ (moves_afterHead _ _ _ _)
  · split at taken
    · rename_i won
      cases taken
      subst won
      exact .reserve at_
    · cases taken
      exact .move at_ (.inside rfl rfl (.inr rfl) (.inl rfl) rfl)
  · cases taken
    exact .move at_ (.inside rfl rfl (.inr rfl) (.inl rfl) rfl)
  · cases taken
    exact .move at_ (moves_afterEntry _ _ _ _)
  -- publish
  · split at taken
    · rename_i empty
      cases taken
      exact .move at_ (moves_afterPublish _ empty)
    · split at taken <;> cases taken
      · exact .move at_ (.inside rfl rfl (.inr rfl) (.inl rfl) rfl)
      · have waits : Access s r (s.goto r (s.pc r)) :=
          .move rfl (.inside rfl rfl (.inl rfl) (.inr rfl) (by rw [at_]; rfl))
        simpa only [State.goto, update_eq_self] using waits
  · cases taken
    exact .publish at_
  -- exec
  · rename_i caller
    cases taken
    exact .move at_ (.inside rfl rfl (.inr rfl) (.inr (by cases caller <;> rfl)) rfl)
  · rename_i caller ltail
    split at taken <;> cases taken
    · rename_i settled
      subst settled
      exact .move at_ (moves_afterExec caller s.commitTail)
    · exact .move at_ (moves_execHead caller ltail s.commitTail)
  · rename_i caller ltail gtail
    split at taken <;> cases taken
    · exact .move at_ (.panics _ rfl)
    · exact .move at_ (.inside rfl rfl (.inl rfl) (.inr (by cases caller <;> rfl)) rfl)
  · rename_i caller ltail gtail i
    split at taken <;> cases taken
    · exact .move at_ (.inside rfl rfl (.inl rfl) (.inr (by cases caller <;> rfl)) rfl)
    · exact .move at_ (.inside rfl rfl (.inl rfl) (.inr (by cases caller <;> rfl)) rfl)
  · rename_i caller gtail i
    split at taken
    · simp only at taken
      split at taken <;> cases taken
      · exact .execute _ at_
      · exact .move at_ (.panics _ rfl)
    · cases taken
      exact .move at_ (.inside rfl rfl (.inl rfl) (.inr (by cases caller <;> rfl)) rfl)
  · cases taken
    exact .complete at_
  · cases taken
    exact .finish at_
  -- advance_head and find_min_tail
  · cases taken
    exact .move at_ (.inside rfl rfl (.inr rfl) (.inl rfl) rfl)
  · cases taken
    exact .move at_ (.inside rfl rfl (.inr rfl) (.inl rfl) rfl)
  · cases taken
    exact .move at_ (.inside rfl rfl (.inr rfl) (.inl rfl) rfl)
  · split at taken
    · split at taken <;> cases taken
      · exact .move at_ (.inside rfl rfl (.inr rfl) (.inl rfl) rfl)
      · exact .move at_ (.inside rfl rfl (.inr rfl) (.inl rfl) rfl)
    · cases taken
      exact .move at_ (moves_afterMinTail _ _ _ _ _)
  · split at taken <;> cases taken
    · exact .move at_ (moves_afterAdvance _ _ _ _)
    · exact .move at_ (.inside rfl rfl (.inr rfl) (.inl rfl) rfl)

theorem Access.pc_of_ne (access : Access s r s') (other : q ≠ r) : s'.pc q = s.pc q := by
  cases access <;> exact goto_pc_of_ne _ _ other

theorem pc_of_stepReplica (taken : stepReplica g s r = some s') (other : q ≠ r) :
    s'.pc q = s.pc q :=
  (access_of_stepReplica taken).pc_of_ne other

section

variable (access : Access s r s')

include access

theorem Access.executed_of_ne (other : q ≠ r) :
    s'.executed q = s.executed q := by
  cases access with
  | execute => exact update_of_ne other ..
  | _ => rfl

theorem Access.ltails_of_ne (other : q ≠ r) :
    s'.ltails q = s.ltails q := by
  cases access with
  | finish => exact update_of_ne other ..
  | _ => rfl

theorem Access.ctail_le : s.ctail ≤ s'.ctail := by
  cases access with
  | complete => exact le_max_left _ _
  | _ => exact le_rfl

theorem Access.ownOps_of_ne (other : q ≠ r) :
    ownOps q s'.appended = ownOps q s.appended := by
  cases access with
  | reserve =>
    simp only [State.goto, ownOps_append, ownOps_map_of_ne other, List.append_nil]
  | _ => rfl

theorem Access.batch (sound : ∀ why, s'.pc r ≠ .panicked why) :
    (ownOps r s'.appended = ownOps r s.appended ∧
      (s'.pc r).unreserved = (s.pc r).unreserved ∧ ∀ stuck, s'.pc r ≠ .returned (.err stuck)) ∨
    (ownOps r s'.appended = ownOps r s.appended ∧
      (∃ stuck, s'.pc r = .returned (.err stuck)) ∧ (s.pc r).unreserved ≠ none) ∨
    ∃ ops, (s.pc r).unreserved = some ops ∧
      ownOps r s'.appended = ownOps r s.appended ++ ops ∧ (s'.pc r).unreserved = none ∧
        ∀ stuck, s'.pc r ≠ .returned (.err stuck) := by
  cases access with
  | @reserve frame advance at_ =>
    rw [goto_pc_same, at_]
    refine .inr (.inr ⟨frame.ops, rfl, ?_, afterEntry_unreserved .., ?_⟩)
    · simp only [State.goto, ownOps_append, ownOps_map_self]
    · rw [afterEntry]
      split <;> simp
  | publish at_ =>
    rw [goto_pc_same, at_]
    refine .inl ⟨rfl, afterPublish_unreserved .., ?_⟩
    rw [afterPublish]
    split <;> simp
  | execute call at_ =>
    rw [goto_pc_same, at_]
    exact .inl ⟨rfl, rfl, by simp⟩
  | complete at_ =>
    rw [goto_pc_same, at_]
    exact .inl ⟨rfl, rfl, by simp⟩
  | @finish caller gtail at_ =>
    rw [goto_pc_same, at_]
    refine .inl ⟨rfl, afterExec_unreserved caller, ?_⟩
    cases caller <;> simp [afterExec]
  | move at_ moves =>
    rw [goto_pc_same] at sound ⊢
    rw [at_]
    rcases moves.unreserved with ⟨same, returns⟩ | ⟨failed, waiting⟩ | ⟨why, panicked⟩
    · exact .inl ⟨rfl, same, returns⟩
    · exact .inr (.inl ⟨rfl, failed, waiting⟩)
    · exact absurd panicked (sound why)

end

theorem unreserved_of_replays (own : pc.replays = true) : pc.unreserved = none := by
  unfold Pc.replays at own
  split at own
  all_goals first | rfl | cases own

theorem Access.replays (access : Access s r s') (sound : ∀ why, s'.pc r ≠ .panicked why)
    (own : (s.pc r).replays = true) : (s'.pc r).replays = true ∨ s'.pc r = .idle := by
  cases access with
  | reserve at_ | publish at_ =>
    rw [at_] at own
    cases own
  | @execute caller _ _ _ _ at_ | @complete caller _ at_ =>
    rw [at_] at own
    rw [goto_pc_same]
    cases caller <;> first | exact .inl rfl | cases own
  | @finish caller gtail at_ =>
    rw [at_] at own
    rw [goto_pc_same]
    cases caller <;> first | exact .inr rfl | cases own
  | move at_ moves =>
    rw [goto_pc_same] at sound ⊢
    rcases moves.replays (at_ ▸ own) with goesOn | idle | ⟨why, panicked⟩
    · exact .inl goesOn
    · exact .inr idle
    · exact absurd panicked (sound why)

theorem free_of_stepReplica (taken : stepReplica g s r = some s') : (s.pc r).free = false := by
  unfold stepReplica at taken
  split at taken
  all_goals rename_i at_
  all_goals rw [at_]
  · cases taken
  · cases taken
  all_goals rfl

theorem Access.calls (access : Access s r s') :
    s'.executed = s.executed ∨
      ∃ call, s'.executed = update s.executed r (s.executed r ++ [call]) ∧
        s'.appended = s.appended ∧ (s'.pc r).unreserved = (s.pc r).unreserved ∧
          (s'.pc r).replays = (s.pc r).replays ∧ ∀ stuck, s'.pc r ≠ .returned (.err stuck) := by
  cases access with
  | @execute caller _ _ _ call at_ =>
    rw [goto_pc_same, at_]
    exact .inr ⟨call, rfl, rfl, rfl, by cases caller <;> rfl, by simp⟩
  | _ => exact .inl rfl

/-! ### One event -/

def Event.replica : Event Op → Option Nat
  | .append r _ | .exec r | .access r => some r
  | .prefetch _ _ | .evict _ _ => none

variable {e : Event Op}

theorem access_or_same (taken : step g s e = some s') :
    (s'.executed = s.executed ∧ s'.appended = s.appended ∧ s'.ctail = s.ctail ∧
        s'.ltails = s.ltails) ∨
      ∃ r, e = .access r ∧ r < g.replicas ∧ stepReplica g s r = some s' := by
  cases stepForm_of_step taken with
  | access registered taken => exact .inr ⟨_, rfl, registered, taken⟩
  | _ => exact .inl ⟨rfl, rfl, rfl, rfl⟩

theorem append_spec {ops : List Op} (taken : step g s (.append r ops) = some s') :
    s'.executed = s.executed ∧ s'.appended = s.appended ∧ s'.pc r = .appendTail ⟨ops, 1, 1⟩ := by
  cases stepForm_of_step taken
  exact ⟨rfl, rfl, goto_pc_same _ _ _⟩

theorem exec_spec (taken : step g s (.exec r) = some s') :
    s'.executed = s.executed ∧ s'.appended = s.appended ∧ s'.pc r = .execLtail .replica := by
  cases stepForm_of_step taken
  exact ⟨rfl, rfl, goto_pc_same _ _ _⟩

section

variable (taken : step g s e = some s')

include taken

theorem pc_of_step (other : e.replica ≠ some q) : s'.pc q = s.pc q := by
  cases stepForm_of_step taken with
  | append | exec => exact goto_pc_of_ne _ _ fun same => other (same ▸ rfl)
  | access _ taken => exact pc_of_stepReplica taken fun same => other (same ▸ rfl)
  | prefetch | evict => rfl

theorem executed_of_step (other : e.replica ≠ some q) : s'.executed q = s.executed q := by
  rcases access_or_same taken with ⟨same, _⟩ | ⟨r, rfl, _, accessed⟩
  · rw [same]
  · exact (access_of_stepReplica accessed).executed_of_ne fun same => other (same ▸ rfl)

theorem ownOps_of_step (other : e.replica ≠ some q) :
    ownOps q s'.appended = ownOps q s.appended := by
  rcases access_or_same taken with ⟨_, same, _⟩ | ⟨r, rfl, _, accessed⟩
  · rw [same]
  · exact (access_of_stepReplica accessed).ownOps_of_ne fun same => other (same ▸ rfl)

theorem ctail_le_of_step : s.ctail ≤ s'.ctail := by
  rcases access_or_same taken with ⟨_, _, same, _⟩ | ⟨r, rfl, _, accessed⟩
  · exact same.ge
  · exact (access_of_stepReplica accessed).ctail_le

theorem appended_grows : s.appended <+: s'.appended := by
  rcases access_or_same taken with ⟨_, same, _⟩ | ⟨r, rfl, _, accessed⟩
  · exact same ▸ List.prefix_rfl
  · cases access_of_stepReplica accessed with
    | reserve => exact List.prefix_append _ _
    | _ => exact List.prefix_rfl

theorem executed_grows (q : Nat) : s.executed q <+: s'.executed q := by
  rcases access_or_same taken with ⟨same, _⟩ | ⟨r, rfl, _, accessed⟩
  · exact same ▸ List.prefix_rfl
  · rcases (access_of_stepReplica accessed).calls with same | ⟨call, executed, _⟩
    · exact same ▸ List.prefix_rfl
    · rw [executed]
      by_cases own : q = r
      · rw [own, update_self]
        exact List.prefix_append _ _
      · exact (update_of_ne own ..).symm ▸ List.prefix_rfl

end

/-! ### Own operations -/

/-- Where the own operations of each replica are. -/
structure OwnInv (s : State Op) : Prop where
  published : ∀ {r j op}, s.appended[j]? = some (op, r) → j < s.commitTail ∨
    ∃ start n, (s.pc r).span = some (start, n) ∧ start ≤ j ∧ j < start + n
  loaded : ∀ {r gtail}, (s.pc r).gtail = some gtail →
    ∀ {j op}, s.appended[j]? = some (op, r) → j < gtail
  settled : ∀ {r}, s.pc r = .idle →
    ∀ {j op}, s.appended[j]? = some (op, r) → j < (s.executed r).length
  ltail_le_ctail : ∀ r, s.ltails r ≤ s.ctail
  gtail_le_ctail : ∀ {r caller gtail}, s.pc r = .execDone caller gtail → gtail ≤ s.ctail

theorem ownInv_initial : OwnInv (initial : State Op) where
  published := fun present => by cases present
  loaded := fun _ _ _ present => by cases present
  settled := fun _ _ _ present => by cases present
  ltail_le_ctail := fun _ => le_rfl
  gtail_le_ctail := fun done => by cases done

theorem Access.logged {j : Nat} {op : Op} (access : Access s r s')
    (present : s'.appended[j]? = some (op, q)) :
    s.appended[j]? = some (op, q) ∨ q = r ∧ ∃ frame advance,
      s.pc r = .appendReserve frame s.tail advance ∧ s.appended.length ≤ j ∧
        j < s.appended.length + frame.ops.length := by
  cases access with
  | @reserve frame advance at_ =>
    simp only [State.goto] at present
    rcases Nat.lt_or_ge j s.appended.length with old | new
    · rw [List.getElem?_append_left old] at present
      exact .inl present
    · rw [List.getElem?_append_right new, List.getElem?_map] at present
      obtain ⟨op', found, same⟩ := Option.map_eq_some_iff.mp present
      obtain ⟨inside, _⟩ := List.getElem?_eq_some_iff.mp found
      cases same
      exact .inr ⟨rfl, frame, advance, at_, new, by omega⟩
  | _ => exact .inl present

theorem Access.commitTail_le (access : Access s r s') (tails : TailInv g s.tails s.pc) :
    s.commitTail ≤ s'.commitTail := by
  cases access with
  | @publish frame start advance at_ =>
    have ready := tails.loaded r
    rw [at_] at ready
    exact ready.1.trans_le (Nat.le_add_right ..)
  | _ => exact le_rfl

section

variable {s s' : State Op} {r : Nat} (tails : TailInv g s.tails s.pc) (replay : ReplayInv g s)
  (inv : OwnInv s)

include tails replay in
theorem length_executed (registered : r < g.replicas) :
    (s.executed r).length = (s.pc r).position (s.ltails r) := by
  have below := (position_le_commitTail tails registered).2
  have covered : s.commitTail ≤ s.tail := tails.bounds.commitTail_le_tail
  rw [replay.executed r, callsOn, List.length_map, List.length_take, replay.length_eq]
  omega

variable {j : Nat} {op : Op}

include inv in
theorem OwnInv.below_commitTail (present : s.appended[j]? = some (op, r))
    (span : (s.pc r).span = none) : j < s.commitTail := by
  rcases inv.published present with below | ⟨start, n, pending, _⟩
  · exact below
  · rw [span] at pending
    cases pending

include tails replay inv in
theorem published_access (access : Access s r s') (present : s'.appended[j]? = some (op, r)) :
    j < s'.commitTail ∨
      ∃ start n, (s'.pc r).span = some (start, n) ∧ start ≤ j ∧ j < start + n := by
  have older := access.logged present
  cases access with
  | @reserve frame advance at_ =>
    rcases older with old | ⟨_, frame', advance', at', above, below⟩
    · exact .inl (inv.below_commitTail old (by rw [at_]; rfl))
    · rw [at_] at at'
      cases at'
      rw [replay.length_eq] at above below
      exact .inr ⟨s.tail, frame.ops.length, by rw [goto_pc_same, afterEntry_span], above, below⟩
  | @publish frame start advance at_ =>
    have ready := tails.loaded r
    rw [at_] at ready
    have atStart : s.commitTail = start := ready.1
    refine .inl ?_
    simp only [State.goto]
    rcases inv.published present with below | ⟨start', n, pending, _, below⟩
    · omega
    · rw [at_] at pending
      cases pending
      exact below
  | execute _ at_ | complete at_ | finish at_ =>
    exact .inl (inv.below_commitTail present (by rw [at_]; rfl))
  | move at_ moves =>
    rw [goto_pc_same]
    rcases inv.published present with below | ⟨start, n, pending, above, below⟩
    · exact .inl below
    · rw [at_] at pending
      rcases moves.span with same | ⟨_, empty⟩
      · exact .inr ⟨start, n, same.trans pending, above, below⟩
      · have := empty start n pending
        omega

include inv in
theorem loaded_access (access : Access s r s') {gtail : Nat} (loaded : (s'.pc r).gtail = some gtail)
    (present : s'.appended[j]? = some (op, r)) : j < gtail := by
  cases access <;> rw [goto_pc_same] at loaded
  case reserve =>
    rw [afterEntry_gtail] at loaded
    cases loaded
  case publish =>
    rw [afterPublish_gtail] at loaded
    cases loaded
  case execute at_ => exact inv.loaded (by rw [at_]; exact loaded) present
  case complete at_ => exact inv.loaded (by rw [at_]; exact loaded) present
  case finish caller _ _ => cases caller <;> cases loaded
  case move at_ moves =>
    rcases moves.gtail gtail loaded with same | ⟨rfl, span⟩
    · exact inv.loaded (at_ ▸ same) present
    · exact inv.below_commitTail present (at_ ▸ span)

include tails replay inv in
theorem settled_access (registered : r < g.replicas) (access : Access s r s')
    (idle : s'.pc r = .idle) (present : s'.appended[j]? = some (op, r)) :
    j < (s'.executed r).length := by
  have executed := length_executed tails replay registered
  cases access <;> rw [goto_pc_same] at idle
  case reserve =>
    rw [afterEntry] at idle
    split at idle <;> cases idle
  case publish =>
    rw [afterPublish] at idle
    split at idle <;> cases idle
  case execute => cases idle
  case complete => cases idle
  case finish at_ =>
    rw [at_] at executed
    exact executed ▸ inv.loaded (by rw [at_]; rfl) present
  case move at_ moves =>
    have at_ := at_.trans (moves.settles idle)
    have synced := tails.loaded r
    rw [at_] at synced executed
    have atEnd : s.commitTail = s.ltails r := synced
    have below : j < s.commitTail := inv.below_commitTail present (by rw [at_]; rfl)
    exact executed ▸ atEnd ▸ below

include inv in
theorem ltail_le_ctail_access (access : Access s r s') (q : Nat) : s'.ltails q ≤ s'.ctail := by
  have mono := (inv.ltail_le_ctail q).trans access.ctail_le
  by_cases same : q = r
  · subst same
    cases access with
    | finish at_ =>
      simp only [State.goto, update_self]
      exact inv.gtail_le_ctail at_
    | _ => exact mono
  · rw [access.ltails_of_ne same]
    exact mono

include inv in
theorem gtail_le_ctail_access (access : Access s r s') {caller : ExecCaller Op} {gtail : Nat}
    (done : s'.pc r = .execDone caller gtail) : gtail ≤ s'.ctail := by
  cases access <;> rw [goto_pc_same] at done
  case reserve =>
    rw [afterEntry] at done
    split at done <;> cases done
  case publish =>
    rw [afterPublish] at done
    split at done <;> cases done
  case execute => cases done
  case complete =>
    cases done
    exact le_max_right _ _
  case finish caller' _ _ => cases caller' <;> cases done
  case move at_ moves => exact inv.gtail_le_ctail (at_.trans ((moves.done _ _ done).trans done))

include tails replay inv in
theorem ownInv_stepReplica (registered : r < g.replicas) (taken : stepReplica g s r = some s') :
    OwnInv s' := by
  have access := access_of_stepReplica taken
  have others : ∀ {q : Nat}, q ≠ r → s'.pc q = s.pc q := fun other => pc_of_stepReplica taken other
  have old : ∀ {q j : Nat} {op : Op}, q ≠ r → s'.appended[j]? = some (op, q) →
      s.appended[j]? = some (op, q) := by
    intro q j op other present
    rcases access.logged present with earlier | ⟨same, _⟩
    · exact earlier
    · exact absurd same other
  refine ⟨?_, ?_, ?_, ltail_le_ctail_access inv access, ?_⟩
  · intro q j op present
    by_cases same : q = r
    · subst same
      exact published_access tails replay inv access present
    · rw [others same]
      have mono := access.commitTail_le tails
      exact (inv.published (old same present)).imp (fun below => by omega) id
  · intro q gtail loaded j op present
    by_cases same : q = r
    · subst same
      exact loaded_access inv access loaded present
    · rw [others same] at loaded
      exact inv.loaded loaded (old same present)
  · intro q idle j op present
    by_cases same : q = r
    · subst same
      exact settled_access tails replay inv registered access idle present
    · rw [others same] at idle
      rw [access.executed_of_ne same]
      exact inv.settled idle (old same present)
  · intro q caller gtail done
    by_cases same : q = r
    · subst same
      exact gtail_le_ctail_access inv access done
    · rw [others same] at done
      exact (inv.gtail_le_ctail done).trans access.ctail_le

include inv in
theorem OwnInv.enter {pc : Pc Op} (span : (s.pc r).span = none) (gtail : pc.gtail = none)
    (passes : pc.passes = true) : OwnInv (s.goto r pc) := by
  refine ⟨?_, ?_, ?_, inv.ltail_le_ctail, ?_⟩
  · intro q j op present
    by_cases same : q = r
    · subst same
      exact .inl (inv.below_commitTail present span)
    · rw [goto_pc_of_ne s pc same]
      exact inv.published present
  · intro q loaded atQ j op present
    by_cases same : q = r
    · subst same
      rw [goto_pc_same, gtail] at atQ
      cases atQ
    · rw [goto_pc_of_ne s pc same] at atQ
      exact inv.loaded atQ present
  · intro q idle j op present
    by_cases same : q = r
    · subst same
      rw [goto_pc_same] at idle
      subst idle
      cases passes
    · rw [goto_pc_of_ne s pc same] at idle
      exact inv.settled idle present
  · intro q caller loaded done
    by_cases same : q = r
    · subst same
      rw [goto_pc_same] at done
      subst done
      cases passes
    · rw [goto_pc_of_ne s pc same] at done
      exact inv.gtail_le_ctail done

end

theorem span_of_free (free : pc.free = true) : pc.span = none := by
  cases pc <;> first | rfl | cases free

theorem ownInv_step (tails : TailInv g s.tails s.pc) (replay : ReplayInv g s) (inv : OwnInv s)
    (taken : step g s e = some s') : OwnInv s' := by
  cases stepForm_of_step taken with
  | append _ free | exec _ free => exact inv.enter (span_of_free free) rfl rfl
  | access registered taken => exact ownInv_stepReplica tails replay inv registered taken
  | prefetch | evict =>
    exact ⟨inv.published, inv.loaded, inv.settled, inv.ltail_le_ctail, inv.gtail_le_ctail⟩

theorem ownInv_of_reachable (reached : (system g Op).Reachable s) : OwnInv s := by
  have all : TailInv g s.tails s.pc ∧ ReplayInv g s ∧ OwnInv s := by
    refine System.Reachable.invariant
      (P := fun s => TailInv g s.tails s.pc ∧ ReplayInv g s ∧ OwnInv s) ?_ ?_ reached
    · rintro s rfl
      exact ⟨tailInv_initial, replayInv_initial, ownInv_initial⟩
    · rintro s e s' ⟨tails, replay, inv⟩ taken
      exact ⟨tailInv_step tails taken, replayInv_step tails replay taken,
        ownInv_step tails replay inv taken⟩
  exact all.2.2

/-! ### Reachable logs -/

section

variable {s : State Op} (reached : (system g Op).Reachable s) (r : Nat)

include reached

theorem mineOps_initial : mineOps (s.executed r) <+: ownOps r s.appended := by
  have split := List.take_append_drop ((s.pc r).position (s.ltails r)) s.appended
  rw [(replayInv_of_reachable reached).executed r, mineOps_callsOn]
  refine ⟨ownOps r (s.appended.drop ((s.pc r).position (s.ltails r))), ?_⟩
  rw [← ownOps_append, split]

theorem mineOps_of_idle (idle : s.pc r = .idle) : mineOps (s.executed r) = ownOps r s.appended := by
  have executed := (replayInv_of_reachable reached).executed r
  have split := List.take_append_drop (s.ltails r) s.appended
  rw [idle] at executed
  have none : ownOps r (s.appended.drop (s.ltails r)) = [] := by
    rw [ownOps, List.map_eq_nil_iff, List.filter_eq_nil_iff]
    rintro ⟨op, q⟩ later own
    obtain rfl : q = r := of_decide_eq_true own
    obtain ⟨i, found⟩ := List.mem_iff_getElem?.mp later
    rw [List.getElem?_drop] at found
    have below := (ownInv_of_reachable reached).settled idle found
    rw [executed, callsOn, List.length_map, List.length_take] at below
    simp only [Pc.position] at below
    omega
  rw [executed, mineOps_callsOn]
  nth_rewrite 2 [← split]
  rw [ownOps_append, none, List.append_nil]
  rfl

theorem length_executed_le_ctail (idle : s.pc r = .idle) : (s.executed r).length ≤ s.ctail := by
  have bounded := (ownInv_of_reachable reached).ltail_le_ctail r
  rw [(replayInv_of_reachable reached).executed r, callsOn, List.length_map, List.length_take, idle]
  exact (Nat.min_le_left _ _).trans bounded

theorem ltail_le_length_executed (registered : r < g.replicas) :
    s.ltails r ≤ (s.executed r).length := by
  have tails := tailInv_of_reachable reached
  rw [length_executed tails (replayInv_of_reachable reached) registered]
  exact (position_le_commitTail tails registered).1

theorem not_panicked (why : Panic) : s.pc r ≠ .panicked why := by
  intro panicked
  have loaded := (tailInv_of_reachable reached).loaded r
  have sound := ((replayInv_of_reachable reached).claims r).neverEmpty
  rw [panicked] at loaded sound
  cases why with
  | localTailOutsideLog => exact loaded rfl
  | emptyEntry => exact sound rfl

end

end Megalon.Nr.Log
