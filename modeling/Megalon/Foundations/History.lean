import Mathlib.Data.List.Nodup
import Mathlib.Logic.Function.Basic

/-!
Contract: histories of concurrent calls, and linearization points.

Owns: labels of a history, the progress of each thread through its calls, and the rule
that the order of the points where calls take effect is an order of the acknowledged
calls that is consistent with real time.

Does not own: what a call does.
-/

namespace Megalon.Foundations

open Function

/-- `commit` is the point where the call of a thread takes effect; `acked` says that the
response reports an effect. -/
inductive Label (Op : Type) where
  | invoke (t : Nat) (op : Op)
  | commit (t : Nat)
  | respond (t : Nat) (acked : Bool)

variable {Op : Type}

/-- The label is an invocation or a response of thread `t`. -/
def Label.Bounds (t : Nat) : Label Op → Prop
  | .invoke t' _ => t' = t
  | .commit _ => False
  | .respond t' _ => t' = t

/-- The call that thread `t` starts at position `i` is acknowledged at position `j`. -/
structure Acknowledged (history : List (Label Op)) (i j t : Nat) (op : Op) : Prop where
  invoked : history[i]? = some (.invoke t op)
  responded : history[j]? = some (.respond t true)
  before : i < j
  between : ∀ k label, i < k → k < j → history[k]? = some label → ¬ label.Bounds t

/-- An order of the acknowledged calls, each with the position of its invocation, in
which a call comes before all calls that start after its response. -/
structure Linearizes (history : List (Label Op)) (order : List (Nat × Op)) : Prop where
  nodup : (order.map Prod.fst).Nodup
  mem_iff : ∀ i op, (i, op) ∈ order ↔ ∃ j t, Acknowledged history i j t op
  realTime : ∀ i j t op i' op', Acknowledged history i j t op → (i', op') ∈ order → j < i' →
    List.Sublist [(i, op), (i', op')] order

/-- Progress of a thread through a call that was invoked at position `start`. -/
inductive Progress (Op : Type) where
  | idle
  | pending (start : Nat) (op : Op)
  | done (start : Nat) (op : Op)

structure Tracker (Op : Type) where
  progress : Nat → Progress Op
  order : List (Nat × Op)

def Tracker.set (tracker : Tracker Op) (t : Nat) (progress : Progress Op) : Tracker Op :=
  { tracker with progress := update tracker.progress t progress }

@[simp]
theorem Tracker.set_set (tracker : Tracker Op) (t : Nat) (first second : Progress Op) :
    (tracker.set t first).set t second = tracker.set t second := by
  simp [Tracker.set]

theorem Tracker.set_self (tracker : Tracker Op) (t : Nat) :
    tracker.set t (tracker.progress t) = tracker := by
  simp [Tracker.set]

/-- The call of thread `t` takes effect. -/
def Tracker.commit (tracker : Tracker Op) (t start : Nat) (op : Op) : Tracker Op :=
  ⟨update tracker.progress t (.done start op), tracker.order ++ [(start, op)]⟩

/-- In the history every acknowledged call takes effect exactly once, between its
invocation and its response, and no other call takes effect. -/
inductive Tracks : List (Label Op) → Tracker Op → Prop
  | nil : Tracks [] ⟨fun _ => .idle, []⟩
  | invoke {history tracker} (t : Nat) (op : Op)
      (before : Tracks history tracker) (idle : tracker.progress t = .idle) :
      Tracks (history ++ [.invoke t op]) (tracker.set t (.pending history.length op))
  | commit {history tracker t start op}
      (before : Tracks history tracker) (pending : tracker.progress t = .pending start op) :
      Tracks (history ++ [.commit t]) (tracker.commit t start op)
  | acknowledge {history tracker t start op}
      (before : Tracks history tracker) (done : tracker.progress t = .done start op) :
      Tracks (history ++ [.respond t true]) (tracker.set t .idle)
  | refuse {history tracker t start op}
      (before : Tracks history tracker) (pending : tracker.progress t = .pending start op) :
      Tracks (history ++ [.respond t false]) (tracker.set t .idle)

/-! ### Positions in a history that grows -/

variable {history : List (Label Op)} {last label : Label Op} {k : Nat}

theorem getElem?_snoc_cases (found : (history ++ [last])[k]? = some label) :
    history[k]? = some label ∧ k < history.length ∨ k = history.length ∧ label = last := by
  rcases Nat.lt_trichotomy k history.length with inside | rfl | beyond
  · rw [List.getElem?_append_left inside] at found
    exact .inl ⟨found, inside⟩
  · rw [List.getElem?_concat_length, Option.some.injEq] at found
    exact .inr ⟨rfl, found.symm⟩
  · rw [List.getElem?_eq_none (by simp; omega)] at found
    cases found

theorem getElem?_snoc (last : Label Op) (found : history[k]? = some label) :
    (history ++ [last])[k]? = some label := by
  rw [List.getElem?_append_left (List.getElem?_eq_some_iff.mp found).1, found]

theorem lt_length_of_getElem? (found : history[k]? = some label) : k < history.length :=
  (List.getElem?_eq_some_iff.mp found).1

variable {t : Nat} {op : Op}

theorem Acknowledged.snoc {i j : Nat} (acked : Acknowledged history i j t op) (last : Label Op) :
    Acknowledged (history ++ [last]) i j t op where
  invoked := getElem?_snoc last acked.invoked
  responded := getElem?_snoc last acked.responded
  before := acked.before
  between := fun k label lower upper found => by
    have inside := lt_length_of_getElem? acked.responded
    rcases getElem?_snoc_cases found with ⟨found, _⟩ | ⟨rfl, _⟩
    · exact acked.between k label lower upper found
    · omega

theorem Acknowledged.cases_snoc {i j : Nat} (acked : Acknowledged (history ++ [last]) i j t op) :
    Acknowledged history i j t op ∨ j = history.length ∧ last = .respond t true ∧
      history[i]? = some (.invoke t op) ∧
      ∀ k label, i < k → history[k]? = some label → ¬ label.Bounds t := by
  rcases getElem?_snoc_cases acked.responded with ⟨responded, inside⟩ | ⟨rfl, same⟩
  · rcases getElem?_snoc_cases acked.invoked with ⟨invoked, _⟩ | ⟨rfl, _⟩
    · exact .inl ⟨invoked, responded, acked.before, fun k label lower upper found =>
        acked.between k label lower upper (getElem?_snoc last found)⟩
    · have := acked.before
      omega
  · rcases getElem?_snoc_cases acked.invoked with ⟨invoked, _⟩ | ⟨rfl, _⟩
    · exact .inr ⟨rfl, same.symm, invoked, fun k label lower found =>
        acked.between k label lower (lt_length_of_getElem? found) (getElem?_snoc last found)⟩
    · exact absurd acked.before (Nat.lt_irrefl _)

/-! ### Linearization points -/

/-- The call of a thread in progress: where it started, and that the thread has done
nothing since. -/
structure InProgress (history : List (Label Op)) (t start : Nat) (op : Op) : Prop where
  invoked : history[start]? = some (.invoke t op)
  since : ∀ k label, start < k → history[k]? = some label → ¬ label.Bounds t

theorem InProgress.snoc {start : Nat} (progress : InProgress history t start op)
    (other : ¬ last.Bounds t) : InProgress (history ++ [last]) t start op where
  invoked := getElem?_snoc last progress.invoked
  since := fun k label lower found => by
    rcases getElem?_snoc_cases found with ⟨found, _⟩ | ⟨_, rfl⟩
    · exact progress.since k label lower found
    · exact other

theorem InProgress.start_unique {start start' : Nat} {op' : Op}
    (first : InProgress history t start op) (second : InProgress history t start' op') :
    start = start' ∧ op = op' := by
  rcases Nat.lt_trichotomy start start' with lt | rfl | gt
  · exact absurd rfl (first.since start' _ lt second.invoked)
  · have same := first.invoked.symm.trans second.invoked
    simp only [Option.some.injEq, Label.invoke.injEq] at same
    exact ⟨rfl, same.2⟩
  · exact absurd rfl (second.since start _ gt first.invoked)

structure TrackInvariant (history : List (Label Op)) (tracker : Tracker Op) : Prop where
  pending : ∀ t start op, tracker.progress t = .pending start op →
    InProgress history t start op ∧ start ∉ tracker.order.map Prod.fst
  done : ∀ t start op, tracker.progress t = .done start op →
    InProgress history t start op ∧ (start, op) ∈ tracker.order
  nodup : (tracker.order.map Prod.fst).Nodup
  bound : ∀ start op, (start, op) ∈ tracker.order → start < history.length
  mem : ∀ start op, (start, op) ∈ tracker.order →
    (∃ t, tracker.progress t = .done start op) ∨ ∃ j t, Acknowledged history start j t op
  acked : ∀ i j t op, Acknowledged history i j t op → (i, op) ∈ tracker.order
  realTime : ∀ i j t op i' op', Acknowledged history i j t op → (i', op') ∈ tracker.order →
    j < i' → List.Sublist [(i, op), (i', op')] tracker.order

section

variable {history : List (Label Op)} {tracker : Tracker Op} {t start : Nat} {op : Op}

theorem Tracker.set_cases (tracker : Tracker Op) {t' : Nat} {new value : Progress Op}
    (found : (tracker.set t new).progress t' = value) :
    t' = t ∧ new = value ∨ t' ≠ t ∧ tracker.progress t' = value := by
  by_cases same : t' = t
  · subst same
    exact .inl ⟨rfl, by simpa [Tracker.set] using found⟩
  · exact .inr ⟨same, by simpa [Tracker.set, same] using found⟩

theorem TrackInvariant.nil : TrackInvariant ([] : List (Label Op)) ⟨fun _ => .idle, []⟩ where
  pending := fun _ _ _ found => nomatch found
  done := fun _ _ _ found => nomatch found
  nodup := List.nodup_nil
  bound := fun _ _ found => nomatch found
  mem := fun _ _ found => nomatch found
  acked := fun _ _ _ _ acked => nomatch acked.invoked
  realTime := fun _ _ _ _ _ _ acked => nomatch acked.invoked

theorem Acknowledged.of_snoc {last : Label Op} {i j : Nat}
    (acked : Acknowledged (history ++ [last]) i j t op) (other : ∀ t, last ≠ .respond t true) :
    Acknowledged history i j t op := by
  rcases acked.cases_snoc with acked | ⟨_, same, _⟩
  · exact acked
  · exact absurd same (other t)

section

variable (invariant : TrackInvariant history tracker)

include invariant

theorem TrackInvariant.invoke
    (idle : tracker.progress t = .idle) (op : Op) : TrackInvariant (history ++ [.invoke t op])
      (tracker.set t (.pending history.length op)) where
  pending := fun t' start' op' found => by
    rcases tracker.set_cases found with ⟨rfl, new⟩ | ⟨different, old⟩
    · cases new
      refine ⟨⟨List.getElem?_concat_length, fun k label lower found => ?_⟩, fun member => ?_⟩
      · have := lt_length_of_getElem? found
        simp only [List.length_append, List.length_singleton] at this
        omega
      · obtain ⟨⟨_, op⟩, member, rfl⟩ := List.mem_map.mp member
        exact absurd (invariant.bound _ op member) (Nat.lt_irrefl _)
    · obtain ⟨progress, fresh⟩ := invariant.pending t' start' op' old
      exact ⟨progress.snoc fun same => different same.symm, fresh⟩
  done := fun t' start' op' found => by
    rcases tracker.set_cases found with ⟨rfl, new⟩ | ⟨different, old⟩
    · cases new
    · obtain ⟨progress, member⟩ := invariant.done t' start' op' old
      exact ⟨progress.snoc fun same => different same.symm, member⟩
  nodup := invariant.nodup
  bound := fun start' op' member => by
    have := invariant.bound start' op' member
    simp only [List.length_append, List.length_singleton]
    omega
  mem := fun start' op' member => by
    rcases invariant.mem start' op' member with ⟨t', found⟩ | ⟨j, t', acked⟩
    · have different : t' ≠ t := by
        rintro rfl
        simp [idle] at found
      exact .inl ⟨t', by simpa [Tracker.set, different] using found⟩
    · exact .inr ⟨j, t', acked.snoc _⟩
  acked := fun i j t' op' acked =>
    invariant.acked i j t' op' (acked.of_snoc (by simp))
  realTime := fun i j t' op' i' op'' acked =>
    invariant.realTime i j t' op' i' op'' (acked.of_snoc (by simp))

theorem TrackInvariant.commit (pending : tracker.progress t = .pending start op) :
    TrackInvariant (history ++ [.commit t]) (tracker.commit t start op) := by
  obtain ⟨progress, fresh⟩ := invariant.pending t start op pending
  have cases {t' : Nat} {value : Progress Op}
      (found : (tracker.commit t start op).progress t' = value) :
      t' = t ∧ .done start op = value ∨ t' ≠ t ∧ tracker.progress t' = value :=
    tracker.set_cases found
  refine ⟨fun t' start' op' found => ?_, fun t' start' op' found => ?_, ?_, ?_, ?_, ?_, ?_⟩
  · rcases cases found with ⟨_, new⟩ | ⟨different, old⟩
    · cases new
    · obtain ⟨progress', fresh'⟩ := invariant.pending t' start' op' old
      refine ⟨progress'.snoc id, ?_⟩
      rw [Tracker.commit, List.map_append, List.mem_append, not_or]
      refine ⟨fresh', ?_⟩
      rw [List.map_singleton, List.mem_singleton]
      rintro rfl
      have same := progress'.invoked.symm.trans progress.invoked
      simp only [Option.some.injEq, Label.invoke.injEq] at same
      exact different same.1
  · rcases cases found with ⟨rfl, new⟩ | ⟨_, old⟩
    · cases new
      exact ⟨progress.snoc id, by simp [Tracker.commit]⟩
    · obtain ⟨progress', member⟩ := invariant.done t' start' op' old
      exact ⟨progress'.snoc id, by simp [Tracker.commit, member]⟩
  · rw [Tracker.commit, List.map_append, List.nodup_append]
    refine ⟨invariant.nodup, by simp, fun i earlier i' later => ?_⟩
    rw [List.map_singleton, List.mem_singleton] at later
    rintro rfl
    subst later
    exact fresh earlier
  · intro start' op' member
    rw [List.length_append, List.length_singleton]
    rcases List.mem_append.mp member with earlier | last
    · exact Nat.lt_succ_of_lt (invariant.bound start' op' earlier)
    · cases List.mem_singleton.mp last
      exact Nat.lt_succ_of_lt (lt_length_of_getElem? progress.invoked)
  · intro start' op' member
    rcases List.mem_append.mp member with earlier | last
    · rcases invariant.mem start' op' earlier with ⟨t', found⟩ | ⟨j, t', acked⟩
      · have different : t' ≠ t := by
          rintro rfl
          simp [pending] at found
        exact .inl ⟨t', by simpa [Tracker.commit, different] using found⟩
      · exact .inr ⟨j, t', acked.snoc _⟩
    · cases List.mem_singleton.mp last
      exact .inl ⟨t, by simp [Tracker.commit]⟩
  · intro i j t' op' acked
    exact List.mem_append_left _
      (invariant.acked i j t' op' (acked.of_snoc (by simp)))
  · intro i j t' op' i' op'' acked member after
    have acked := acked.of_snoc (by simp)
    rcases List.mem_append.mp member with earlier | last
    · exact (invariant.realTime i j t' op' i' op'' acked earlier after).trans
        (List.sublist_append_left _ _)
    · -- the call that takes effect now comes after everything acknowledged so far
      exact (List.singleton_sublist.mpr (invariant.acked i j t' op' acked)).append
        (List.singleton_sublist.mpr last)

theorem TrackInvariant.respond (flag : Bool)
    (acks : ∀ start op, tracker.progress t = .done start op → flag = true)
    (own : flag = true → ∃ start op, tracker.progress t = .done start op) :
    TrackInvariant (history ++ [.respond t flag]) (tracker.set t .idle) where
  pending := fun t' start' op' found => by
    rcases tracker.set_cases found with ⟨_, new⟩ | ⟨different, old⟩
    · cases new
    · obtain ⟨progress, fresh⟩ := invariant.pending t' start' op' old
      exact ⟨progress.snoc fun same => different same.symm, fresh⟩
  done := fun t' start' op' found => by
    rcases tracker.set_cases found with ⟨_, new⟩ | ⟨different, old⟩
    · cases new
    · obtain ⟨progress, member⟩ := invariant.done t' start' op' old
      exact ⟨progress.snoc fun same => different same.symm, member⟩
  nodup := invariant.nodup
  bound := fun start' op' member => by
    have := invariant.bound start' op' member
    simp only [List.length_append, List.length_singleton]
    omega
  mem := fun start' op' member => by
    rcases invariant.mem start' op' member with ⟨t', found⟩ | ⟨j, t', acked⟩
    · by_cases same : t' = t
      · subst same
        obtain rfl := acks start' op' found
        obtain ⟨progress, _⟩ := invariant.done t' start' op' found
        refine .inr ⟨history.length, t', getElem?_snoc _ progress.invoked,
          List.getElem?_concat_length, lt_length_of_getElem? progress.invoked,
          fun k label lower upper found => ?_⟩
        rcases getElem?_snoc_cases found with ⟨found, _⟩ | ⟨rfl, _⟩
        · exact progress.since k label lower found
        · exact absurd upper (Nat.lt_irrefl _)
      · exact .inl ⟨t', by simpa [Tracker.set, same] using found⟩
    · exact .inr ⟨j, t', acked.snoc _⟩
  acked := fun i j t' op' acked => by
    rcases acked.cases_snoc with acked | ⟨_, same, invoked, since⟩
    · exact invariant.acked i j t' op' acked
    · cases same
      obtain ⟨start', op'', found⟩ := own rfl
      obtain ⟨progress, member⟩ := invariant.done t start' op'' found
      obtain ⟨rfl, rfl⟩ := InProgress.start_unique ⟨invoked, since⟩ progress
      exact member
  realTime := fun i j t' op' i' op'' acked member after => by
    rcases acked.cases_snoc with acked | ⟨rfl, _⟩
    · exact invariant.realTime i j t' op' i' op'' acked member after
    · have := invariant.bound i' op'' member
      omega

end

theorem trackInvariant_of_tracks (tracks : Tracks history tracker) :
    TrackInvariant history tracker := by
  induction tracks with
  | nil => exact .nil
  | invoke t op _ idle ih => exact ih.invoke idle op
  | commit _ pending ih => exact ih.commit pending
  | acknowledge _ done ih =>
    exact ih.respond true (fun _ _ _ => rfl) fun _ => ⟨_, _, done⟩
  | refuse _ pending ih =>
    exact ih.respond false (fun _ _ done => by simp [pending] at done) nofun

/-- **Linearization points.** When no call is in progress, the order in which calls have
taken effect is one of the acknowledged calls, and consistent with real time. -/
theorem linearizes_of_tracks (tracks : Tracks history tracker)
    (complete : ∀ t, tracker.progress t = .idle) : Linearizes history tracker.order := by
  have invariant := trackInvariant_of_tracks tracks
  refine ⟨invariant.nodup, fun i op => ⟨fun member => ?_, fun ⟨j, t, acked⟩ => ?_⟩,
    invariant.realTime⟩
  · rcases invariant.mem i op member with ⟨t, found⟩ | acked
    · simp [complete t] at found
    · exact acked
  · exact invariant.acked i j t op acked

end

end Megalon.Foundations
