import Mathlib.Data.List.Basic

/-!
Contract: services that are told requests and show answers to some of them.

Owns: the sequences of answers a state can show, states that cannot be told apart by them, and
the two rules to prove that: silent requests lead from one state to the other, or a sequence is
shown by one of them only.

Does not own: any particular service.
-/

namespace Megalon.Foundations

/-- `serve s q = none` means that request `q` cannot be made in state `s`. -/
structure Service (State Request Answer : Type) where
  serve : State → Request → Option (State × Option Answer)

namespace Service

variable {State Request Answer : Type} (service : Service State Request Answer)

/-- Some sequence of requests from `s` on shows these answers. -/
inductive Shows : State → List Answer → Prop
  | nil (s : State) : Shows s []
  | cons {s s' request shown answers}
      (served : service.serve s request = some (s', shown)) (later : Shows s' answers) :
      Shows s (shown.toList ++ answers)

def observe (s : State) : List Request → Option (List Answer)
  | [] => some []
  | request :: rest =>
    (service.serve s request).bind fun reply =>
      (observe reply.1 rest).map fun answers => reply.2.toList ++ answers

def Indistinguishable (s s' : State) : Prop :=
  ∀ answers, service.Shows s answers ↔ service.Shows s' answers

/-- Requests that show nothing lead from `s` to `s'`. -/
inductive Silently : State → State → Prop
  | refl (s : State) : Silently s s
  | cons {s s' s'' request} (served : service.serve s request = some (s', none))
      (later : Silently s' s'') : Silently s s''

variable {service} {s s' : State}

theorem Shows.of_observe {requests : List Request} {answers : List Answer}
    (observed : service.observe s requests = some answers) : service.Shows s answers := by
  induction requests generalizing s answers with
  | nil =>
    cases observed
    exact .nil s
  | cons request rest ih =>
    obtain ⟨⟨s', shown⟩, served, later⟩ := Option.bind_eq_some_iff.mp observed
    obtain ⟨answers', answered, rfl⟩ := Option.map_eq_some_iff.mp later
    exact .cons served (ih answered)

theorem Shows.of_silently {answers : List Answer} (silent : service.Silently s s')
    (answered : service.Shows s' answers) : service.Shows s answers := by
  induction silent with
  | refl s => exact answered
  | cons served _ ih => exact .cons served (ih answered)

theorem indistinguishable_of_silently (there : service.Silently s s')
    (back : service.Silently s' s) : service.Indistinguishable s s' :=
  fun _ => ⟨.of_silently back, .of_silently there⟩

/-- **A sequence that is never shown.** The states that have shown its first `k` answers are in
stage `k`, and no stage is the last. -/
theorem not_shows_of_stages {target : List Answer} {Stage : Nat → State → Prop}
    (silent : ∀ {k s request s'}, Stage k s → service.serve s request = some (s', none) →
      Stage k s')
    (shown : ∀ {k s request s' answer}, Stage k s →
      service.serve s request = some (s', some answer) → target[k]? = some answer →
        Stage (k + 1) s')
    (unfinished : ∀ {k s}, Stage k s → k < target.length) (start : Stage 0 s) :
    ¬service.Shows s target := by
  have never : ∀ s answers, service.Shows s answers → ∀ k, Stage k s →
      answers ≠ target.drop k := by
    intro s answers answered
    induction answered with
    | nil s =>
      intro k stage same
      have left := unfinished stage
      rw [eq_comm, List.drop_eq_nil_iff] at same
      omega
    | @cons s s' request answer answers served _ ih =>
      intro k stage same
      cases answer with
      | none => exact ih k (silent stage served) same
      | some answer =>
        rw [List.drop_eq_getElem_cons (unfinished stage)] at same
        obtain ⟨first, rest⟩ := List.cons.inj same
        have here : target[k]? = some answer := by
          rw [List.getElem?_eq_getElem (unfinished stage), first]
        exact ih (k + 1) (shown stage served here) rest
  intro answered
  exact never s target answered 0 start rfl

end Service

end Megalon.Foundations
