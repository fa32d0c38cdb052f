import Mathlib.Data.Option.Basic

/-!
Contract: partial transition systems whose nondeterminism is carried by events.

Owns: runs of events, reachability under a condition on the steps taken, run
segments, and the invariant rules every machine of the development is proved
with.

Does not own: any particular machine.
-/

namespace Megalon.Foundations

/-- A transition system: `step s e = none` means that event `e` is not enabled
in state `s`. -/
structure System (State Event : Type) where
  init : State → Prop
  step : State → Event → Option State

namespace System

variable {State Event : Type} (system : System State Event)

/-- Executes a list of events from a state; stops at the first event that is
not enabled. -/
def run (s : State) : List Event → Option State
  | [] => some s
  | e :: rest => (system.step s e).bind fun next => run next rest

@[simp]
theorem run_nil (s : State) : system.run s [] = some s := rfl

theorem run_cons (s : State) (e : Event) (rest : List Event) :
    system.run s (e :: rest) = (system.step s e).bind fun next => system.run next rest := rfl

/-- States reached from an initial state by steps that all meet `allowed`. -/
inductive ReachableWhere (allowed : State → Event → Prop) : State → Prop
  | initial {s} (start : system.init s) : ReachableWhere allowed s
  | step {s s' e} (before : ReachableWhere allowed s)
      (meets : allowed s e) (taken : system.step s e = some s') : ReachableWhere allowed s'

def Reachable (s : State) : Prop :=
  system.ReachableWhere (fun _ _ => True) s

/-- `Segment allowed s trace s'`: the trace leads from `s` to `s'`. It lists each event
with the state it is taken from, and each meets `allowed` there. -/
inductive Segment (allowed : State → Event → Prop) (s : State) :
    List (State × Event) → State → Prop
  | refl : Segment allowed s [] s
  | snoc {s' s'' e trace}
      (before : Segment allowed s trace s') (meets : allowed s' e)
      (taken : system.step s' e = some s'') : Segment allowed s (trace ++ [(s', e)]) s''

variable {system} {allowed : State → Event → Prop} {s : State}

theorem ReachableWhere.mono {wider : State → Event → Prop} (weaker : ∀ s e, allowed s e → wider s e)
    (reached : system.ReachableWhere allowed s) : system.ReachableWhere wider s := by
  induction reached with
  | initial start => exact .initial start
  | step _ meets taken ih =>
    exact .step ih (weaker _ _ meets) taken

theorem ReachableWhere.reachable (reached : system.ReachableWhere allowed s) : system.Reachable s :=
  reached.mono fun _ _ _ => trivial

/-- **Invariant rule.** A predicate that holds initially and is kept by every
allowed step holds in every state so reached. -/
theorem ReachableWhere.invariant {P : State → Prop} (base : ∀ s, system.init s → P s)
    (preserved : ∀ s e s', P s → allowed s e → system.step s e = some s' → P s')
    (reached : system.ReachableWhere allowed s) : P s := by
  induction reached with
  | initial start => exact base _ start
  | step _ meets taken ih =>
    exact preserved _ _ _ ih meets taken

theorem Reachable.invariant {P : State → Prop} (base : ∀ s, system.init s → P s)
    (preserved : ∀ s e s', P s → system.step s e = some s' → P s') (reached : system.Reachable s) :
    P s :=
  ReachableWhere.invariant base (fun s e s' holds _ taken => preserved s e s' holds taken) reached

variable {s' : State}

theorem Reachable.step {e : Event} (before : system.Reachable s)
    (taken : system.step s e = some s') : system.Reachable s' :=
  ReachableWhere.step before trivial taken

theorem reachable_of_run (events : List Event) (before : system.Reachable s)
    (executed : system.run s events = some s') : system.Reachable s' := by
  induction events generalizing s with
  | nil =>
    rw [run_nil, Option.some.injEq] at executed
    exact executed ▸ before
  | cons e rest ih =>
    rw [run_cons, Option.bind_eq_some_iff] at executed
    obtain ⟨next, taken, executed⟩ := executed
    exact ih (before.step taken) executed

theorem reachable_get_run (system : System State Event) (start : system.init s)
    (events : List Event) (enabled : (system.run s events).isSome = true) :
    system.Reachable ((system.run s events).get enabled) :=
  reachable_of_run events (.initial start) (Option.some_get enabled).symm

/-- `run` with a test before each event. -/
def runWhere (system : System State Event) (test : State → Event → Bool) (s : State) :
    List Event → Option State
  | [] => some s
  | e :: rest =>
    if test s e then (system.step s e).bind fun next => runWhere system test next rest else none

/-- A test for `allowed` that is right in states with a property the tested steps
keep. -/
structure Tests (system : System State Event) (known : State → Prop)
    (test : State → Event → Bool) (allowed : State → Event → Prop) : Prop where
  initial : ∀ s, system.init s → known s
  kept : ∀ s e s', known s → test s e = true → system.step s e = some s' → known s'
  sound : ∀ s e, known s → test s e = true → allowed s e

theorem Tests.of_sound (system : System State Event) (test : State → Event → Bool)
    (sound : ∀ s e, test s e = true → allowed s e) : Tests system (fun _ => True) test allowed where
  initial := fun _ _ => trivial
  kept := fun _ _ _ _ _ _ => trivial
  sound := fun s e _ passes => sound s e passes

section

variable {known : State → Prop} {test : State → Event → Bool} {allowed : State → Event → Prop}

theorem reachableWhere_of_runWhere (tests : Tests system known test allowed) {s s' : State}
    (before : system.ReachableWhere allowed s) (knows : known s) (events : List Event)
    (executed : system.runWhere test s events = some s') :
    system.ReachableWhere allowed s' ∧ known s' := by
  induction events generalizing s with
  | nil =>
    rw [runWhere, Option.some.injEq] at executed
    exact executed ▸ ⟨before, knows⟩
  | cons e rest ih =>
    simp only [runWhere] at executed
    split at executed
    · rename_i passes
      rw [Option.bind_eq_some_iff] at executed
      obtain ⟨next, taken, executed⟩ := executed
      exact ih (before.step (tests.sound s e knows passes) taken)
        (tests.kept s e next knows passes taken) executed
    · cases executed

/-- A state with an evaluated property at the end of an evaluated run whose events all
pass a test. -/
theorem exists_reachableWhere_of_run (tests : Tests system known test allowed) {s : State}
    (start : system.init s) (events : List Event) (property : State → Bool)
    (evaluated : (system.runWhere test s events).any property = true) :
    ∃ s', system.ReachableWhere allowed s' ∧ property s' = true := by
  rw [Option.any_eq_true] at evaluated
  obtain ⟨s', executed, holds⟩ := evaluated
  exact ⟨s', (reachableWhere_of_runWhere tests (.initial start) (tests.initial s start) events
    executed).1, holds⟩

end

theorem exists_reachable_of_run (system : System State Event) (start : system.init s)
    (events : List Event) (property : State → Bool)
    (evaluated : (system.run s events).any property = true) :
    ∃ s', system.Reachable s' ∧ property s' = true := by
  rw [Option.any_eq_true] at evaluated
  obtain ⟨s', executed, holds⟩ := evaluated
  exact ⟨s', reachable_of_run events (.initial start) executed, holds⟩

variable {trace : List (State × Event)}

theorem Segment.mono {wider : State → Event → Prop} (weaker : ∀ s e, allowed s e → wider s e)
    (segment : system.Segment allowed s trace s') : system.Segment wider s trace s' := by
  induction segment with
  | refl => exact .refl
  | snoc _ meets taken ih => exact ih.snoc (weaker _ _ meets) taken

theorem Segment.reachableWhere (segment : system.Segment allowed s trace s')
    (before : system.ReachableWhere allowed s) : system.ReachableWhere allowed s' := by
  induction segment with
  | refl => exact before
  | snoc _ meets taken ih => exact ih.step meets taken

theorem Segment.cons {s₁ s₂ : State} {e : Event} (meets : allowed s e)
    (taken : system.step s e = some s₁) (segment : system.Segment allowed s₁ trace s₂) :
    system.Segment allowed s ((s, e) :: trace) s₂ := by
  induction segment with
  | refl => exact Segment.refl.snoc meets taken
  | snoc _ meets taken ih => exact ih.snoc meets taken

/-- `runWhere` with the trace of the run. -/
def traceWhere (system : System State Event) (test : State → Event → Bool)
    (trace : List (State × Event)) (s : State) : List Event → Option (List (State × Event) × State)
  | [] => some (trace, s)
  | e :: rest =>
    if test s e then
      (system.step s e).bind fun next => traceWhere system test (trace ++ [(s, e)]) next rest
    else none

variable {known : State → Prop} {test : State → Event → Bool}

variable (tests : Tests system known test allowed)

include tests

theorem segment_of_traceWhere {s₀ : State}
    {trace' : List (State × Event)} (before : system.Segment allowed s₀ trace s) (knows : known s)
    (events : List Event) (executed : system.traceWhere test trace s events = some (trace', s')) :
    system.Segment allowed s₀ trace' s' := by
  induction events generalizing s trace with
  | nil =>
    cases executed
    exact before
  | cons e rest ih =>
    simp only [traceWhere] at executed
    split at executed
    · rename_i passes
      rw [Option.bind_eq_some_iff] at executed
      obtain ⟨next, taken, executed⟩ := executed
      exact ih (before.snoc (tests.sound s e knows passes) taken)
        (tests.kept s e next knows passes taken) executed
    · cases executed

/-- A run up to a step that is singled out, and the segment after it. -/
def runThenTrace (system : System State Event) (test : State → Event → Bool) (s : State)
    (before : List Event) (e : Event) (after : List Event)
    (property : State → State → List (State × Event) → State → Bool) : Bool :=
  (system.runWhere test s before).any fun s₀ =>
    test s₀ e && (system.step s₀ e).any fun s₁ =>
      (system.traceWhere test [] s₁ after).any fun (trace, s₂) => property s₀ s₁ trace s₂

theorem exists_segment_of_runThenTrace
    (start : system.init s) (before : List Event) (e : Event) (after : List Event)
    (property : State → State → List (State × Event) → State → Bool)
    (evaluated : system.runThenTrace test s before e after property = true) :
    ∃ s₀ s₁ trace s₂, system.ReachableWhere allowed s₀ ∧ allowed s₀ e ∧
      system.step s₀ e = some s₁ ∧ system.Segment allowed s₁ trace s₂ ∧
      property s₀ s₁ trace s₂ = true := by
  simp only [runThenTrace, Option.any_eq_true, Bool.and_eq_true] at evaluated
  obtain ⟨s₀, executed, passes, s₁, taken, ⟨trace, s₂⟩, traced, holds⟩ := evaluated
  obtain ⟨reached, knows⟩ :=
    reachableWhere_of_runWhere tests (.initial start) (tests.initial s start) before executed
  exact ⟨s₀, s₁, trace, s₂, reached, tests.sound s₀ e knows passes, taken,
    segment_of_traceWhere tests .refl (tests.kept s₀ e s₁ knows passes taken) after traced, holds⟩

theorem exists_segment_of_trace (start : system.init s)
    (e : Event) (after : List Event) (property : List (State × Event) → State → Bool)
    (evaluated : (test s e && (system.step s e).any fun s₁ =>
      (system.traceWhere test [] s₁ after).any fun (trace, s₂) => property trace s₂) = true) :
    ∃ trace s₂, system.Segment allowed s ((s, e) :: trace) s₂ ∧ property trace s₂ = true := by
  simp only [Option.any_eq_true, Bool.and_eq_true] at evaluated
  obtain ⟨passes, s₁, taken, ⟨trace, s₂⟩, traced, holds⟩ := evaluated
  have knows := tests.initial s start
  have rest := segment_of_traceWhere tests .refl (tests.kept s e s₁ knows passes taken) after traced
  exact ⟨trace, s₂, rest.cons (tests.sound s e knows passes) taken, holds⟩

end System

end Megalon.Foundations
