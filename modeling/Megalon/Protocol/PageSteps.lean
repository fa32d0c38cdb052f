import Megalon.Protocol.RecordOwnership

/-!
Contract: how the page of a key changes along runs without contested insertions.

Owns: which program counters append which operations, and the three changes a page can
undergo: insertion, a switch to read-write, and a switch to read-only by the thread
that has locked its record.

Does not own: the bytes of the pages.
-/

namespace Megalon.Protocol

open Function Core Foundations Index

section

variable {Key Mem : Type} [BlockKey Key] {cfg : Config Key Mem}

/-- The operation a thread appends to the log at a program counter. -/
inductive Submits (call : Call Key) : cfg.Pc → Request Key → Prop
  | insert (slot : Nat) (wmeta : Option Nat) :
      Submits call (.createInsert slot wmeta) (.checkAndInsert call.key slot wmeta)
  | reclaim (purpose : Purpose) (w : Nat) (victim : Key) :
      Submits call (.victimSwitch purpose w victim) (.switchToReadOnly victim)
  | switchRW (w : Nat) :
      Submits call (.switchSubmit w) (.invalidateSwitchToRWShared call.key w)
  | wrapAround (w : Nat) : Submits call (.writeWrap w) (.seqCountWrapAround call.key)

variable {t : Nat}

theorem submits_of_move {choice : Nat} {call : Call Key} {pc pc' : cfg.Pc}
    {request : Request Key} {reply : (Act.submit request).Reply cfg.nodes}
    (move : Move cfg t call choice pc (.submit request) reply pc') : Submits call pc request := by
  cases move <;> constructor

theorem perform_log {s s' : cfg.Shared} {act : Act Key} {reply : act.Reply cfg.nodes}
    (acted : perform cfg t s act = some (s', reply)) :
    s'.log = s.log ∨ ∃ request, act = .submit request ∧ s'.log = s.log ++ [⟨request, t⟩] := by
  by_cases quiet : act.quiet = true
  · exact .inl (perform_quiet quiet acted).1
  cases act with
  | submit request =>
    obtain ⟨rfl, _, _⟩ := perform_submit acted
    exact .inr ⟨request, rfl, rfl⟩
  | tryAllocateLock w =>
    simp only [perform] at acted
    split at acted <;> cases acted <;> exact .inl rfl
  | wLockOnly w =>
    rcases acquire_cases acted with ⟨rfl, _⟩ | ⟨_, _, rfl, _⟩ <;> exact .inl rfl
  | wSeqBegin w =>
    rcases acquire_cases acted with ⟨rfl, _⟩ | ⟨_, _, rfl, _⟩ <;> exact .inl rfl
  | recycleWmeta =>
    obtain rfl := perform_recycleWmeta acted
    left
    unfold recycle
    split
    · simp only [Shared.countRecycled]
    · split
      · simp only [Shared.countRecycled, Shared.setWord]
      · rfl
  | setBlockId | getBlockId | wUnlockOnly | wSeqEnd =>
    cases acted
    exact .inl rfl
  | _ => exact absurd rfl quiet

variable {s s' : cfg.State} {e : Event Key}

theorem log_step (taken : step cfg s e = some s') :
    s'.shared.log = s.shared.log ∨ ∃ t choice request, e = .thread t choice ∧
      Submits (s.threads t).call (s.threads t).pc request ∧
      s'.shared.log = s.shared.log ++ [⟨request, t⟩] := by
  cases stepForm_of_step taken with
  | start _ => exact .inl rfl
  | @thread t choice _ _ _ _ move acted =>
    rcases perform_log acted with same | ⟨request, rfl, grown⟩
    · exact .inl same
    · exact .inr ⟨t, choice, request, rfl, submits_of_move move, grown⟩
  | replica => exact .inl rfl

/-- How a step of thread `t` changes the page of `key`. -/
inductive PageChange (s : cfg.State) (t : Nat) (key : Key) :
    Option Page → Option Page → Prop
  | inserted {slot wmeta} (mine : (s.threads t).call.key = key)
      (at_insert : (s.threads t).pc = .createInsert slot wmeta) :
      PageChange s t key none (some ⟨slot, wmeta⟩)
  | toReadWrite {slot w} (mine : (s.threads t).call.key = key)
      (at_switch : (s.threads t).pc = .switchSubmit w) :
      PageChange s t key (some ⟨slot, none⟩) (some ⟨slot, some w⟩)
  | toReadOnly {slot w} (holds : holdOf s.threads t = some ⟨w, .victim key⟩) :
      PageChange s t key (some ⟨slot, some w⟩) (some ⟨slot, none⟩)

theorem pageChange_submit {choice : Nat} {call : Call Key} {pc : cfg.Pc}
    {request : Request Key} (owned : RecordsOwned cfg s)
    (allowed : uncontested cfg s (.thread t choice) = true) (thread : s.threads t = ⟨call, pc⟩)
    (submits : Submits call pc request) (key : Key) :
    request.apply (latestPages s.shared.log) key = latestPages s.shared.log key ∨
      PageChange s t key (latestPages s.shared.log key)
        (request.apply (latestPages s.shared.log) key) := by
  cases submits with
  | insert slot wmeta =>
    obtain ⟨_, sameMode⟩ := uncontested_insert thread allowed
    cases present : latestPages s.shared.log call.key with
    | none =>
      simp only [Request.apply, present]
      by_cases same : key = call.key
      · subst same
        rw [update_self, present]
        exact .inr (.inserted (by rw [thread]) (by rw [thread]))
      · rw [update_of_ne same]
        exact .inl rfl
    | some page =>
      left
      have mode := sameMode page present
      cases wmeta with
      | none =>
        have readOnly : page.wmeta = none := by simpa using mode
        simp only [Request.apply, present, true_or, if_true]
        by_cases same : key = call.key
        · subst same
          rw [update_self, present, ← readOnly]
        · rw [update_of_ne same]
      | some w =>
        have readWrite : page.wmeta ≠ none := by
          intro none
          simp [none] at mode
        simp [Request.apply, present, readWrite]
  | reclaim purpose w victim =>
    have holds : holdOf s.threads t = some ⟨w, .victim victim⟩ := by
      rw [holdOf, thread]
      rfl
    have named : (latestPages s.shared.log).record victim = some w :=
      (owned.held t _ holds).2.2.2
    obtain ⟨⟨slot, wmeta⟩, present, record⟩ := Option.bind_eq_some_iff.mp named
    simp only at record
    subst record
    simp only [Request.apply, present]
    by_cases same : key = victim
    · subst same
      rw [update_self, present]
      exact .inr (.toReadOnly holds)
    · rw [update_of_ne same]
      exact .inl rfl
  | switchRW w =>
    cases present : latestPages s.shared.log call.key with
    | none =>
      left
      simp only [Request.apply, present]
    | some page =>
      by_cases readOnly : page.wmeta = none
      · simp only [Request.apply, present, readOnly, if_true]
        by_cases same : key = call.key
        · subst same
          rw [update_self, present]
          have page_eq : page = ⟨page.slot, none⟩ := by rw [← readOnly]
          rw [page_eq]
          exact .inr (.toReadWrite (by rw [thread]) (by rw [thread]))
        · rw [update_of_ne same]
          exact .inl rfl
      · left
        simp only [Request.apply, present, if_neg readOnly]
  | wrapAround w => exact .inl rfl

/-- **Page steps.** A step leaves the page of a key alone, or it is one of the three
changes by the thread that takes it. -/
theorem page_step (owned : RecordsOwned cfg s) (allowed : uncontested cfg s e = true)
    (taken : step cfg s e = some s') (key : Key) :
    latestPages s'.shared.log key = latestPages s.shared.log key ∨
      ∃ t choice, e = .thread t choice ∧
        PageChange s t key (latestPages s.shared.log key) (latestPages s'.shared.log key) := by
  rcases log_step taken with same | ⟨t, choice, request, rfl, submits, grown⟩
  · exact .inl (by rw [same])
  · rw [grown, latestPages_append]
    rcases pageChange_submit owned allowed rfl submits key with same | changed
    · exact .inl same
    · exact .inr ⟨t, choice, rfl, changed⟩

theorem page_kept_of_held {key : Key} {slot w : Nat} {inSection : Bool} (owned : RecordsOwned cfg s)
    (allowed : uncontested cfg s e = true) (taken : step cfg s e = some s')
    (holds : holdOf s.threads t = some ⟨w, .entry inSection⟩)
    (present : latestPages s.shared.log key = some ⟨slot, some w⟩) :
    latestPages s'.shared.log key = some ⟨slot, some w⟩ := by
  rcases page_step owned allowed taken key with same | ⟨t', choice, rfl, changed⟩
  · rw [same, present]
  · rw [present] at changed
    generalize latestPages s'.shared.log key = after at changed
    cases changed with
    | toReadOnly victim =>
      -- the reclaiming thread would hold the same record
      obtain rfl := owned.unique t t' _ _ holds victim rfl
      simp [holds] at victim

end

end Megalon.Protocol
