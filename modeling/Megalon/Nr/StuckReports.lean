import Megalon.Nr.LogBounds

/-!
Contract: the replica that `append` reports as stuck.

Owns: the log with compare-exchanges that fail without a reason, when a report names the replica
that asked, and a run in which it does.

Does not own: what the caller does with a report (`nr/mod.rs` asserts that it names another
replica, and syncs that one).

`find_min_tail` reads one tail per step and keeps the first of equal tails. The tails of the
scanning replica and of those before it decide: a replica that lags behind the caller when the
scan begins, and does not catch up before the scan has read its tail, is reported before the
caller is.
-/

namespace Megalon.Nr.Log

open Function Foundations

variable {Op : Type} {g : Geometry}

def AppendResult.stuck : AppendResult → Option Nat
  | .ok waitingFor => waitingFor
  | .err stuck => some stuck

/-- A failed `compare_exchange_weak` may have found the expected tail. -/
inductive WeakEvent (Op : Type) where
  | strong (e : Event Op)
  | failCas (r : Nat)
  deriving DecidableEq, Repr

def weakStep (g : Geometry) (s : State Op) : WeakEvent Op → Option (State Op)
  | .strong e => step g s e
  | .failCas r =>
    match s.pc r with
    | .appendReserve frame _ _ =>
      if r < g.replicas then some (s.goto r (.appendTail frame)) else none
    | _ => none

def weakSystem (g : Geometry) (Op : Type) : System (State Op) (WeakEvent Op) where
  init := fun s => s = initial
  step := weakStep g

/-- `find_min_tail` whose result `append` may return. -/
def MinTailCaller.reports : MinTailCaller Op → Bool
  | .appendStuck _ => true
  | .advanceHead frame _ _ => frame.iteration % warnThreshold = 0

/-- Local tail `p` comes before local tail `q` in `find_min_tail`. -/
def Before (tail p tail' q : Nat) : Prop := tail < tail' ∨ (tail = tail' ∧ p < q)

instance (tail p tail' q : Nat) : Decidable (Before tail p tail' q) :=
  inferInstanceAs (Decidable (_ ∨ _))

/-- The tails the scan of a replica has still to read, when its result may be returned. -/
def Pc.scansFrom : Pc Op → Option Nat
  | .minTailNext caller idx _ _ => if caller.reports then some idx else none
  | _ => none

/-- When a scan for a report begins, another replica lags behind the caller; and a replica that
lags behind a caller does not catch up with it before the scan has read its tail. -/
def othersLag (g : Geometry) (s : State Op) : WeakEvent Op → Prop
  | .strong (.access r) =>
    match s.pc r with
    | .minTailFirst caller => caller.reports = true →
        ∃ p, p < g.replicas ∧ Before (s.ltails p) p (s.ltails r) r
    | .execDone _ gtail => ∀ q idx, q ≠ r → (s.pc q).scansFrom = some idx → idx ≤ r →
        Before (s.ltails r) r (s.ltails q) q → Before gtail r (s.ltails q) q
    | _ => True
  | _ => True

/-! ### What a step does to a scan -/

def Pc.silent : Pc Op → Bool
  | .minTailNext _ _ _ _ => false
  | .returned result => result.stuck.isNone
  | _ => true

/-- The scans and the local tails after replica `r` has moved on to `next`. -/
inductive Scan (g : Geometry) (s : State Op) (r : Nat) : (Nat → Nat) → Pc Op → Prop
  | silent {next} (silent : next.silent = true) : Scan g s r s.ltails next
  | stores {next caller gtail}
      (now : s.pc r = .execDone caller gtail) (silent : next.silent = true) :
      Scan g s r (update s.ltails r gtail) next
  | begins {caller} (now : s.pc r = .minTailFirst caller) :
      Scan g s r s.ltails (.minTailNext caller 0 0 (s.ltails 0))
  | lower {caller idx least tail}
      (now : s.pc r = .minTailNext caller idx least tail) (below : s.ltails idx < tail) :
      Scan g s r s.ltails (.minTailNext caller (idx + 1) idx (s.ltails idx))
  | higher {caller idx least tail}
      (now : s.pc r = .minTailNext caller idx least tail) (above : tail ≤ s.ltails idx) :
      Scan g s r s.ltails (.minTailNext caller (idx + 1) least tail)
  | ends {caller idx least tail}
      (now : s.pc r = .minTailNext caller idx least tail) (done : g.replicas ≤ idx) :
      Scan g s r s.ltails (afterMinTail least tail caller)

theorem silent_afterEntry (frame : AppendFrame Op) (tail : Nat) (advance : Bool) (i : Nat) :
    (afterEntry frame tail advance i).silent = true := by
  unfold afterEntry
  split <;> rfl

theorem silent_afterPublish (frame : AppendFrame Op) (advance : Bool) :
    (afterPublish frame advance).silent = true := by
  unfold afterPublish
  split <;> rfl

theorem silent_afterExec (caller : ExecCaller Op) : (afterExec caller).silent = true := by
  cases caller <;> rfl

theorem silent_afterAdvance (caller : AdvanceCaller Op) : (afterAdvance caller).silent = true := by
  cases caller <;> rfl

theorem silent_afterHead (frame : AppendFrame Op) (tail head : Nat) :
    (afterHead g frame tail head).silent = true := by
  unfold afterHead
  split
  · split <;> rfl
  · rfl

variable {s s' : State Op} {r : Nat}

theorem scan_of_stepReplica (taken : stepReplica g s r = some s') :
    ∃ next, s'.pc = update s.pc r next ∧ Scan g s r s'.ltails next := by
  unfold stepReplica at taken
  split at taken
  all_goals rename_i now
  · cases taken
  · cases taken
  · cases taken
  -- append
  · split at taken <;> cases taken <;> exact ⟨_, rfl, .silent rfl⟩
  · cases taken
    exact ⟨_, rfl, .silent (silent_afterHead _ _ _)⟩
  · split at taken <;> cases taken
    · exact ⟨_, rfl, .silent (silent_afterEntry _ _ _ _)⟩
    · exact ⟨_, rfl, .silent rfl⟩
  · cases taken
    exact ⟨_, rfl, .silent rfl⟩
  · cases taken
    exact ⟨_, rfl, .silent (silent_afterEntry _ _ _ _)⟩
  -- publish
  · split at taken
    · cases taken
      exact ⟨_, rfl, .silent (silent_afterPublish _ _)⟩
    · split at taken <;> cases taken
      · exact ⟨_, rfl, .silent rfl⟩
      · exact ⟨s.pc r, (update_eq_self ..).symm, .silent (by rw [now]; rfl)⟩
  · cases taken
    exact ⟨_, rfl, .silent (silent_afterPublish _ _)⟩
  -- exec
  · cases taken
    exact ⟨_, rfl, .silent rfl⟩
  · split at taken <;> cases taken
    · exact ⟨_, rfl, .silent (silent_afterExec _)⟩
    · exact ⟨_, rfl, .silent rfl⟩
  · split at taken <;> cases taken <;> exact ⟨_, rfl, .silent rfl⟩
  · split at taken <;> cases taken <;> exact ⟨_, rfl, .silent rfl⟩
  · split at taken
    · simp only at taken
      split at taken <;> cases taken <;> exact ⟨_, rfl, .silent rfl⟩
    · cases taken
      exact ⟨_, rfl, .silent rfl⟩
  · cases taken
    exact ⟨_, rfl, .silent rfl⟩
  · cases taken
    exact ⟨_, rfl, .stores now (silent_afterExec _)⟩
  -- advance_head and find_min_tail
  · cases taken
    exact ⟨_, rfl, .silent rfl⟩
  · cases taken
    exact ⟨_, rfl, .silent rfl⟩
  · cases taken
    exact ⟨_, rfl, .begins now⟩
  · split at taken
    · split at taken <;> cases taken
      · rename_i below
        exact ⟨_, rfl, .lower now below⟩
      · rename_i above
        exact ⟨_, rfl, .higher now (Nat.le_of_not_lt above)⟩
    · rename_i done
      cases taken
      exact ⟨_, rfl, .ends now (Nat.le_of_not_lt done)⟩
  · split at taken <;> cases taken
    · exact ⟨_, rfl, .silent (silent_afterAdvance _)⟩
    · exact ⟨_, rfl, .silent rfl⟩

/-! ### Reports -/

/-- The scan of replica `q` has found a tail that comes before its own, or has still to read one;
what it has found of its own tail still holds. -/
structure ScanInv (g : Geometry) (ltails : Nat → Nat) (q idx least tail : Nat) : Prop where
  own : least = q → tail = ltails q
  read : least ≤ idx
  lags : Before tail least (ltails q) q ∨
    ∃ p, idx ≤ p ∧ p < g.replicas ∧ Before (ltails p) p (ltails q) q

/-- No report of replica `q` names `q`. -/
def ReportInv (g : Geometry) (ltails : Nat → Nat) (q : Nat) : Pc Op → Prop
  | .minTailNext caller idx least tail =>
    caller.reports = true → ScanInv g ltails q idx least tail
  | .returned result => result.stuck ≠ some q
  | _ => True

variable {ltails : Nat → Nat} {q : Nat}

theorem reportInv_of_silent {pc : Pc Op} (silent : pc.silent = true) : ReportInv g ltails q pc := by
  cases pc with
  | minTailNext caller idx least tail => cases silent
  | returned result =>
    intro named
    rw [Pc.silent, named] at silent
    cases silent
  | _ => trivial

variable {least tail : Nat}

theorem ScanInv.next {idx : Nat} (inv : ScanInv g ltails q idx least tail) :
    (ltails idx < tail → ScanInv g ltails q (idx + 1) idx (ltails idx)) ∧
    (tail ≤ ltails idx → ScanInv g ltails q (idx + 1) least tail) := by
  obtain ⟨own, read, found | ⟨p, unread, registered, lags⟩⟩ := inv
  · refine ⟨fun below => ⟨?_, by omega, .inl ?_⟩, fun _ => ⟨own, by omega, .inl found⟩⟩
    · rintro rfl
      rfl
    · unfold Before at found ⊢
      omega
  · refine ⟨fun below => ⟨?_, by omega, ?_⟩, fun above => ⟨own, by omega, ?_⟩⟩
    · rintro rfl
      rfl
    · by_cases here : p = idx
      · subst here
        exact .inl lags
      · exact .inr ⟨p, by omega, registered, lags⟩
    · by_cases here : p = idx
      · subst here
        unfold Before at lags ⊢
        omega
      · exact .inr ⟨p, by omega, registered, lags⟩

theorem ScanInv.done {idx : Nat} (inv : ScanInv g ltails q idx least tail)
    (done : g.replicas ≤ idx) : least ≠ q := by
  rintro rfl
  have mine := inv.own rfl
  rcases inv.lags with found | ⟨p, unread, registered, _⟩
  · unfold Before at found
    omega
  · omega

theorem reportInv_afterMinTail {caller : MinTailCaller Op}
    (other : caller.reports = true → least ≠ q) :
    ReportInv g ltails q (afterMinTail least tail caller) := by
  cases caller with
  | appendStuck frame =>
    intro named
    exact other rfl (Option.some.inj named)
  | advanceHead frame globalHead f =>
    simp only [afterMinTail]
    split
    · split
      · rename_i reports
        have different := other (decide_eq_true reports)
        cases frame.caller with
        | gcWait inner => exact fun named => different (Option.some.inj named)
        | afterAppend inner => exact fun named => different (Option.some.inj named)
      · trivial
    · trivial

theorem reportInv_own {next : Pc Op} (inv : ReportInv g s.ltails r (s.pc r))
    (meets : othersLag g s (.strong (.access r))) (scan : Scan g s r s'.ltails next) :
    ReportInv g s'.ltails r next := by
  generalize after : s'.ltails = ltails at scan
  cases scan with
  | silent silent => exact reportInv_of_silent silent
  | stores _ silent => exact reportInv_of_silent silent
  | begins now =>
    intro reports
    simp only [othersLag, now] at meets
    obtain ⟨p, registered, lags⟩ := meets reports
    refine ⟨?_, le_rfl, .inr ⟨p, Nat.zero_le p, registered, lags⟩⟩
    rintro rfl
    rfl
  | lower now below =>
    intro reports
    rw [now] at inv
    exact (inv reports).next.1 below
  | higher now above =>
    intro reports
    rw [now] at inv
    exact (inv reports).next.2 above
  | ends now done =>
    rw [now] at inv
    exact reportInv_afterMinTail fun reports => (inv reports).done done

theorem reportInv_other {next : Pc Op} (other : q ≠ r) (inv : ReportInv g s.ltails q (s.pc q))
    (meets : othersLag g s (.strong (.access r))) (scan : Scan g s r s'.ltails next) :
    ReportInv g s'.ltails q (s.pc q) := by
  generalize after : s'.ltails = ltails at scan
  cases scan with
  | silent _ => exact inv
  | begins _ => exact inv
  | lower _ _ => exact inv
  | higher _ _ => exact inv
  | ends _ _ => exact inv
  | @stores _ caller gtail now _ =>
    simp only [othersLag, now] at meets
    cases position : s.pc q with
    | minTailNext asks idx least tail =>
      intro reports
      rw [position] at inv
      obtain ⟨own, read, lags⟩ := inv reports
      have same : update s.ltails r gtail q = s.ltails q :=
        update_of_ne other ..
      refine ⟨fun mine => (own mine).trans same.symm, read, ?_⟩
      rw [same]
      rcases lags with found | ⟨p, unread, registered, lags⟩
      · exact .inl found
      · refine .inr ⟨p, unread, registered, ?_⟩
        by_cases stored : p = r
        · subst stored
          rw [update_self]
          refine meets q idx other ?_ unread lags
          rw [position, Pc.scansFrom, if_pos reports]
        · rwa [update_of_ne stored]
    | returned result =>
      rw [position] at inv
      exact inv
    | _ => trivial

theorem reportInv_step {e : WeakEvent Op} (inv : ∀ q, ReportInv g s.ltails q (s.pc q))
    (meets : othersLag g s e) (taken : weakStep g s e = some s') :
    ∀ q, ReportInv g s'.ltails q (s'.pc q) := by
  have quiet : ∀ (r : Nat) (next : Pc Op), next.silent = true →
      ∀ q, ReportInv g (s.goto r next).ltails q ((s.goto r next).pc q) :=
    fun r next silent => forall_goto (P := fun q pc => ReportInv g s.ltails q pc)
      (reportInv_of_silent silent) fun q _ => inv q
  cases e with
  | failCas r =>
    simp only [weakStep] at taken
    split at taken
    · split at taken <;> cases taken
      exact quiet r _ rfl
    · cases taken
  | strong e =>
    cases stepForm_of_step taken with
    | append | exec => exact quiet _ _ rfl
    | prefetch | evict => exact inv
    | @access r _ _ taken =>
      obtain ⟨next, pcs, scan⟩ := scan_of_stepReplica taken
      intro q
      rw [pcs]
      by_cases same : q = r
      · rw [same, update_self]
        exact reportInv_own (inv r) meets scan
      · rw [update_of_ne same]
        exact reportInv_other same (inv q) meets scan

/-- While some replica lags behind the caller at every report, no report names the caller. -/
theorem stuck_ne_self {s : State Op} (reached : (weakSystem g Op).ReachableWhere (othersLag g) s)
    (q : Nat) {result : AppendResult} (returned : s.pc q = .returned result) :
    result.stuck ≠ some q := by
  have inv := reached.invariant (P := fun s => ∀ q, ReportInv g s.ltails q (s.pc q))
    (fun s start => by
      cases start
      exact fun _ => trivial)
    (fun s e s' inv meets taken => reportInv_step inv meets taken) q
  rw [returned] at inv
  exact inv

/-! ### Runs -/

/-- An `append` of replica 1 that takes one entry between the loads and the compare-exchange of an
`append` of replica 0. -/
def lostRound : List (WeakEvent Nat) :=
  List.flatten [List.replicate 2 (.strong (.access 0)), [.strong (.append 1 [7])],
    List.replicate 7 (.strong (.access 1)), [.strong (.access 0)]]

def alwaysLost : List (WeakEvent Nat) :=
  List.flatten [[.strong (.append 0 [9])], (List.replicate 127 lostRound).flatten,
    List.replicate 5 (.strong (.access 0))]

/-- The contention limit makes replica 0 report itself. -/
theorem stuck_self_alwaysLost :
    ∃ s : State Nat, (weakSystem twoReplicas Nat).Reachable s ∧ s.pc 0 = .returned (.err 0) := by
  obtain ⟨s, reached, holds⟩ := System.exists_reachable_of_run (weakSystem twoReplicas Nat) rfl
    alwaysLost (fun s => decide (s.pc 0 = .returned (.err 0))) (by decide +kernel)
  exact ⟨s, reached, of_decide_eq_true holds⟩

def contended : List (WeakEvent Nat) :=
  List.flatten [[.strong (.append 1 [9])],
    (List.replicate 127
      [.strong (.access 1), .strong (.access 1), .failCas 1]).flatten,
    List.replicate 5 (.strong (.access 1))]

/-- Checks `othersLag` in runs without `exec`. -/
def lagTest (g : Geometry) (s : State Nat) : WeakEvent Nat → Bool
  | .strong (.access r) =>
    match s.pc r with
    | .minTailFirst _ => (List.range g.replicas).any fun p => Before (s.ltails p) p (s.ltails r) r
    | .execDone _ _ => false
    | _ => true
  | _ => true

theorem lagTest_sound (s : State Nat) (e : WeakEvent Nat) (passes : lagTest g s e = true) :
    othersLag g s e := by
  cases e with
  | failCas r => trivial
  | strong e =>
    cases e with
    | access r =>
      unfold othersLag
      simp only
      split
      · rename_i caller now
        intro _
        simp only [lagTest, now, List.any_eq_true, List.mem_range, decide_eq_true_iff] at passes
        exact passes
      · rename_i now
        simp [lagTest, now] at passes
      · trivial
    | _ => trivial

theorem stuck_ne_self_contended :
    ∃ s : State Nat, (weakSystem twoReplicas Nat).ReachableWhere (othersLag twoReplicas) s ∧
      s.pc 1 = .returned (.err 0) ∧ (AppendResult.err 0).stuck ≠ some 1 := by
  obtain ⟨s, reached, holds⟩ := System.exists_reachableWhere_of_run
    (System.Tests.of_sound (weakSystem twoReplicas Nat) (lagTest twoReplicas) lagTest_sound) rfl
    contended (fun s => decide (s.pc 1 = .returned (.err 0))) (by decide +kernel)
  have returned := of_decide_eq_true holds
  exact ⟨s, reached, returned, stuck_ne_self reached 1 returned⟩

end Megalon.Nr.Log
