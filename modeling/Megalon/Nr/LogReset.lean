import Megalon.Foundations.Observation
import Megalon.Nr.LogOwn

/-!
Contract: `Log::reset` (`node-replication/src/log.rs`) and what the callers of the log can see
of it.

Owns: the log with `register` and the lookups, what its callers see, and for which logs a reset
one looks like a new one.

Does not own: the accesses of `append` and `exec`.

A replica calls the log with a token it got from `register`. `alivef` and `lmasks`, which `reset`
also sets, are not used with `scr`. As for a new log, what it stores in the entries has reached
memory before the log is used again.
-/

namespace Megalon.Nr.Log

open Function Foundations

/-! ### The log with its registrations -/

/-- `MAX_REPLICAS_PER_LOG`. -/
def maxReplicasPerLog : Nat := 16

/-- The log and its counter `next`, with the value of `next` that each `find_min_tail` has
loaded. -/
structure Site (Op : Type) where
  log : State Op
  next : Nat
  loadedNext : Nat → Option Nat

inductive Request (Op : Type) where
  | register
  | append (r : Nat) (ops : List Op)
  | exec (r : Nat)
  | access (r : Nat)
  | prefetch (host line : Nat)
  | evict (host line : Nat)
  | getCtail
  | isReplicaSyncedForReads (r ctail : Nat)

/-- What the callers see: their calls, what these return, and each call of the closure. -/
inductive Answer (Op : Type) where
  | registered (token : Option Nat)
  | appendCalled (r : Nat) (ops : List Op)
  | appendReturned (r : Nat) (result : AppendResult)
  | execCalled (r : Nat)
  | execReturned (r : Nat)
  | executes (r : Nat) (call : Op × Bool)
  | panicked (r : Nat) (reason : Panic)
  | ctail (value : Nat)
  | synced (r ctail : Nat) (value : Bool)

/-- The replicas registered when `next` had this value. -/
def Geometry.withNext (g : Geometry) (next : Nat) : Geometry :=
  { g with
    replicas := max 1 (next - 1)
    registered := Nat.lt_of_lt_of_le Nat.one_pos (Nat.le_max_left ..) }

section

variable {Op : Type} (g : Geometry)

/-- What an access of replica `r` shows. -/
def shown (s s' : State Op) (r : Nat) : Option (Answer Op) :=
  if (s.executed r).length < (s'.executed r).length then
    (s'.executed r).getLast?.map fun call => .executes r call
  else
    match s'.pc r with
    | .returned result => some (.appendReturned r result)
    | .idle => some (.execReturned r)
    | .panicked reason => some (.panicked r reason)
    | _ => none

def Pc.scans : Pc Op → Bool
  | .minTailNext .. => true
  | _ => false

/-- One access. `find_min_tail` loads `next` before the local tails. -/
def Site.access (s : Site Op) (r : Nat) : Option (Site Op × Option (Answer Op)) :=
  match s.log.pc r, s.loadedNext r with
  | .minTailFirst _, none =>
    some ({ s with loadedNext := update s.loadedNext r (some s.next) }, none)
  | _, loaded =>
    (stepReplica (g.withNext (loaded.getD s.next)) s.log r).map fun log =>
      ({ s with
          log := log
          loadedNext := if (log.pc r).scans then s.loadedNext
            else update s.loadedNext r none },
        shown s.log log r)

def Site.serve (s : Site Op) : Request Op → Option (Site Op × Option (Answer Op))
  | .register =>
    if maxReplicasPerLog < s.next then some (s, some (.registered none))
    else some ({ s with next := s.next + 1 }, some (.registered (some s.next)))
  | .append r ops =>
    if r + 1 < s.next then
      (step (g.withNext s.next) s.log (.append r ops)).map fun log =>
        ({ s with log := log }, some (.appendCalled r ops))
    else none
  | .exec r =>
    if r + 1 < s.next then
      (step (g.withNext s.next) s.log (.exec r)).map fun log =>
        ({ s with log := log }, some (.execCalled r))
    else none
  | .access r => if r + 1 < s.next then s.access g r else none
  | .prefetch h a => some ({ s with log := { s.log with slog := s.log.slog.fill h a } }, none)
  | .evict h a => some ({ s with log := { s.log with slog := s.log.slog.flush h a } }, none)
  | .getCtail => some (s, some (.ctail s.log.ctail))
  | .isReplicaSyncedForReads r ctail =>
    if r + 1 < s.next then some (s, some (.synced r ctail (decide (ctail ≤ s.log.ltails r))))
    else none

def service (Op : Type) : Service (Site Op) (Request Op) (Answer Op) where
  serve := Site.serve g

def fresh : Site Op where
  log := initial
  next := 1
  loadedNext _ := none

/-- `Log::reset` of a log that no one is calling. -/
def reset (s : State Op) : Site Op where
  log :=
    { s with
      head := 0
      tail := 0
      ltails := fun _ => 0
      pc := fun _ => .idle
      appended := []
      executed := fun _ => [] }
  next := 1
  loadedNext _ := none

end

/-! ### A log that nothing was appended to -/

section

variable {Op : Type} {g : Geometry} {s s' : State Op}

/-- Default entries, in memory and in the lines some caches have loaded. -/
structure Untouched (slog : Memory Nat Nat (Entry Op)) : Prop where
  memory : slog.memory = fun _ => ⟨none, 0⟩
  lines : ∀ {h a line}, slog.cache h a = some line → line = ⟨⟨none, 0⟩, false⟩
  few : ∃ touched : List (Nat × Nat), ∀ h a, (h, a) ∉ touched → slog.cache h a = none

variable {slog : Memory Nat Nat (Entry Op)}

theorem Untouched.fill (untouched : Untouched slog) (h a : Nat) : Untouched (slog.fill h a) := by
  obtain ⟨touched, empty⟩ := untouched.few
  refine ⟨by rw [Memory.memory_fill, untouched.memory], fun {k b line} cached => ?_,
    (h, a) :: touched, fun k b outside => ?_⟩
  · rcases cache_of_fill cached with before | rfl
    · exact untouched.lines before
    · rw [untouched.memory]
  · rw [List.mem_cons, not_or, Prod.mk.injEq] at outside
    rw [Memory.cache_fill_of_ne slog outside.1]
    exact empty k b outside.2

theorem Untouched.flush (untouched : Untouched slog) (h a : Nat) : Untouched (slog.flush h a) := by
  obtain ⟨touched, empty⟩ := untouched.few
  have clean : ∀ line, slog.cache h a = some line → line.dirty = false := by
    intro line cached
    rw [untouched.lines cached]
  refine ⟨by rw [Memory.memory_flush_of_clean clean, untouched.memory],
    fun cached => untouched.lines (cache_of_flush cached), touched, fun k b outside => ?_⟩
  refine Option.eq_none_iff_forall_ne_some.mpr fun line cached => ?_
  simpa [empty k b outside] using cache_of_flush cached

theorem slog_of_empty {r : Nat} (inv : TailInv g s.tails s.pc)
    (taken : stepReplica g s r = some s') (empty : s'.tail = 0) :
    s.tail = 0 ∧ s'.slog = s.slog := by
  have holds := inv.loaded r
  have order : s.commitTail ≤ s.tail := inv.bounds.commitTail_le_tail
  have below : ∀ {start n}, (s.pc r).span = some (start, n) → start + n ≤ s.tail :=
    fun span => inv.pending.le_tail span
  unfold stepReplica at taken
  split at taken
  case h_6 frame tail advance at_ =>
    split at taken
    · rename_i won
      cases taken
      have nothing : tail + frame.ops.length = 0 := empty
      exact ⟨by omega, rfl⟩
    · cases taken
      exact ⟨empty, rfl⟩
  case h_7 frame tail advance i at_ =>
    cases taken
    rw [at_] at holds below
    have inside : i < frame.ops.length := holds
    have reserved : tail + frame.ops.length ≤ s.tail := below rfl
    have nothing : s.tail = 0 := empty
    omega
  case h_8 frame tail advance i at_ =>
    cases taken
    rw [at_] at holds below
    have inside : i < frame.ops.length := holds
    have reserved : tail + frame.ops.length ≤ s.tail := below rfl
    have nothing : s.tail = 0 := empty
    omega
  case h_14 caller ltail gtail i at_ =>
    rw [at_] at holds
    obtain ⟨-, -, -, published⟩ := holds
    have covered : gtail ≤ s.commitTail := published
    split at taken
    · cases taken
      have nothing : s.tail = 0 := empty
      omega
    · cases taken
      exact ⟨empty, rfl⟩
  case h_15 caller gtail i at_ =>
    rw [at_] at holds
    obtain ⟨-, -, published⟩ := holds
    have covered : gtail ≤ s.commitTail := published
    split at taken
    · simp only at taken
      split at taken
      · cases taken
        have nothing : s.tail = 0 := empty
        omega
      · cases taken
        have nothing : s.tail = 0 := empty
        omega
    · cases taken
      exact ⟨empty, rfl⟩
  all_goals
    repeat' split at taken
    all_goals
      cases taken
      try exact ⟨empty, rfl⟩

theorem untouched_initial : Untouched (initial : State Op).slog :=
  ⟨rfl, fun cached => (nomatch cached), [], fun _ _ _ => rfl⟩

theorem untouched_of_reachable (reached : (system g Op).Reachable s) (empty : s.tail = 0) :
    Untouched s.slog := by
  have both : TailInv g s.tails s.pc ∧ (s.tail = 0 → Untouched s.slog) := by
    refine reached.invariant
      (P := fun s => TailInv g s.tails s.pc ∧ (s.tail = 0 → Untouched s.slog)) ?_ ?_
    · rintro s rfl
      exact ⟨tailInv_initial, fun _ => untouched_initial⟩
    · rintro s e s' ⟨tails, untouched⟩ stepped
      have taken : step g s e = some s' := stepped
      refine ⟨tailInv_step tails taken, fun empty => ?_⟩
      cases stepForm_of_step taken with
      | append | exec => exact untouched empty
      | access _ taken =>
        obtain ⟨before, same⟩ := slog_of_empty tails taken empty
        rw [same]
        exact untouched before
      | prefetch => exact (untouched empty).fill _ _
      | evict => exact (untouched empty).flush _ _
  exact both.2 empty

theorem tail_le_commitTail (reached : (system g Op).Reachable s)
    (quiet : ∀ r, (s.pc r).free = true) : s.tail ≤ s.commitTail := by
  have own := ownInv_of_reachable reached
  have length := (replayInv_of_reachable reached).length_eq
  by_contra beyond
  have inside : s.commitTail < s.appended.length := by omega
  obtain ⟨⟨op, r⟩, found⟩ : ∃ entry, s.appended[s.commitTail]? = some entry :=
    ⟨_, List.getElem?_eq_getElem inside⟩
  have published := own.below_commitTail found (span_of_free (quiet r))
  omega

/-! ### From one such log to another -/

def Site.withSlog (s : Site Op) (slog : Memory Nat Nat (Entry Op)) : Site Op :=
  { s with log := { s.log with slog := slog } }

theorem Untouched.eq_of_cache {slog' : Memory Nat Nat (Entry Op)} (first : Untouched slog)
    (second : Untouched slog') (same : ∀ h a, slog.cache h a = slog'.cache h a) : slog = slog' := by
  have memory := first.memory.trans second.memory.symm
  have cache : slog.cache = slog'.cache := funext fun h => funext fun a => same h a
  cases slog
  cases slog'
  cases memory
  cases cache
  rfl

/-- One change of the memory after another, at each of the lines. -/
def changeAll (change : Memory Nat Nat (Entry Op) → Nat → Nat → Memory Nat Nat (Entry Op))
    (lines : List (Nat × Nat)) (slog : Memory Nat Nat (Entry Op)) : Memory Nat Nat (Entry Op) :=
  lines.foldl (fun slog line => change slog line.1 line.2) slog

variable {change : Memory Nat Nat (Entry Op) → Nat → Nat → Memory Nat Nat (Entry Op)}

theorem untouched_changeAll (kept : ∀ {slog}, Untouched slog → ∀ h a, Untouched (change slog h a))
    (lines : List (Nat × Nat)) (untouched : Untouched slog) :
    Untouched (changeAll change lines slog) := by
  induction lines generalizing slog with
  | nil => exact untouched
  | cons line rest ih => exact ih (kept untouched line.1 line.2)

theorem cache_flushes (lines : List (Nat × Nat)) (slog : Memory Nat Nat (Entry Op)) (h a : Nat) :
    (changeAll Memory.flush lines slog).cache h a =
      if (h, a) ∈ lines then none else slog.cache h a := by
  induction lines generalizing slog with
  | nil => simp [changeAll]
  | cons line rest ih =>
    refine (ih _).trans ?_
    by_cases here : h = line.1 ∧ a = line.2
    · obtain ⟨rfl, rfl⟩ := here
      simp
    · have other : (h, a) ≠ line := by
        rintro rfl
        exact here ⟨rfl, rfl⟩
      rw [Memory.cache_flush_of_ne slog here]
      simp [other]

theorem cache_fills (lines : List (Nat × Nat)) (untouched : Untouched slog) (h a : Nat) :
    (changeAll Memory.fill lines slog).cache h a =
      if (h, a) ∈ lines then some ⟨⟨none, 0⟩, false⟩ else slog.cache h a := by
  induction lines generalizing slog with
  | nil => simp [changeAll]
  | cons line rest ih =>
    refine (ih (untouched.fill line.1 line.2)).trans ?_
    by_cases here : h = line.1 ∧ a = line.2
    · obtain ⟨rfl, rfl⟩ := here
      have loaded := (untouched.fill line.1 line.2).lines (Memory.cache_fill_same slog ..)
      rw [Memory.cache_fill_same, loaded]
      simp
    · have other : (h, a) ≠ line := by
        rintro rfl
        exact here ⟨rfl, rfl⟩
      rw [Memory.cache_fill_of_ne slog here]
      simp [other]

variable (change) in
theorem silently_changeAll (site : Site Op) (lines : List (Nat × Nat))
    (request : Nat → Nat → Request Op)
    (served : ∀ slog h a, (service g Op).serve (site.withSlog slog) (request h a) =
      some (site.withSlog (change slog h a), none)) (slog : Memory Nat Nat (Entry Op)) :
    (service g Op).Silently (site.withSlog slog) (site.withSlog (changeAll change lines slog)) := by
  induction lines generalizing slog with
  | nil => exact .refl _
  | cons line rest ih => exact .cons (served slog line.1 line.2) (ih _)

theorem indistinguishable_withSlog (site : Site Op) (untouched : Untouched slog) :
    (service g Op).Indistinguishable (site.withSlog slog)
      (site.withSlog (initial : State Op).slog) := by
  obtain ⟨touched, empty⟩ := untouched.few
  let cached := touched.filter fun line => (slog.cache line.1 line.2).isSome
  have flushed : changeAll Memory.flush touched slog = (initial : State Op).slog := by
    refine (untouched_changeAll .flush touched untouched).eq_of_cache untouched_initial
      fun h a => ?_
    rw [cache_flushes]
    split
    · rfl
    · rename_i outside
      exact empty h a outside
  have filled : changeAll Memory.fill cached (initial : State Op).slog = slog := by
    refine (untouched_changeAll .fill cached untouched_initial).eq_of_cache untouched fun h a => ?_
    rw [cache_fills cached untouched_initial]
    cases present : slog.cache h a with
    | none =>
      have absent : (h, a) ∉ cached := by simp [cached, present]
      rw [if_neg absent]
      rfl
    | some line =>
      have member : (h, a) ∈ cached := by
        have inside : (h, a) ∈ touched := by
          by_contra outside
          rw [empty h a outside] at present
          cases present
        simp [cached, inside, present]
      rw [if_pos member, untouched.lines present]
  have there := silently_changeAll (g := g) Memory.flush site touched .evict (fun _ _ _ => rfl)
    slog
  have back := silently_changeAll (g := g) Memory.fill site cached .prefetch (fun _ _ _ => rfl)
    (initial : State Op).slog
  rw [flushed] at there
  rw [filled] at back
  exact Service.indistinguishable_of_silently there back

theorem reset_eq (reached : (system g Op).Reachable s) (unpublished : s.commitTail = 0) :
    reset s = fresh.withSlog s.slog := by
  have completed : s.ctail ≤ s.commitTail :=
    (tailInv_of_reachable reached).bounds.ctail_le_commitTail
  have none : s.ctail = 0 := by omega
  simp [reset, fresh, Site.withSlog, initial, unpublished, none]

theorem indistinguishable_of_unpublished (reached : (system g Op).Reachable s)
    (quiet : ∀ r, (s.pc r).free = true) (unpublished : s.commitTail = 0) :
    (service g Op).Indistinguishable (reset s) fresh := by
  have below := tail_le_commitTail reached quiet
  rw [reset_eq reached unpublished]
  exact indistinguishable_withSlog fresh (untouched_of_reachable reached (by omega))

end

/-! ### A log that was used -/

section

variable {Op : Type} {g : Geometry} {published : Nat} {s s' : Site Op}

/-- The first replica registers, calls `exec`, and finds nothing to replay. -/
def nothingToReplay : List (Answer Op) := [.registered (some 1), .execCalled 0, .execReturned 0]

/-- Inside the `exec` of a replica that has to replay all `published` entries and has replayed
none. -/
def Pc.Replays (published : Nat) : Pc Op → Prop
  | .execLtail .replica => True
  | .execGtail .replica ltail => ltail = 0
  | .execHead .replica ltail gtail | .execFlush .replica ltail gtail _ =>
    ltail = 0 ∧ gtail = published
  | .execEntry .replica gtail i => gtail = published ∧ i = 0
  | _ => False

/-- After the first answers of `nothingToReplay`, with entries published before. -/
structure Stage (published k : Nat) (s : Site Op) : Prop where
  commitTail : s.log.commitTail = published
  head : s.log.head = 0
  ltails : s.log.ltails 0 = 0
  place : k = 0 ∧ s.next = 1 ∧ s.log.pc 0 = .idle ∨ k = 1 ∧ s.next = 2 ∧ s.log.pc 0 = .idle ∨
    k = 2 ∧ s.next = 2 ∧ (s.log.pc 0).Replays published

theorem Stage.next_le {k : Nat} (stage : Stage published k s) : s.next ≤ 2 := by
  rcases stage.place with ⟨-, next, -⟩ | ⟨-, next, -⟩ | ⟨-, next, -⟩ <;> omega

theorem Pc.replays_cases {pc : Pc Op} (replays : pc.Replays published) :
    pc = .execLtail .replica ∨ pc = .execGtail .replica 0 ∨
      pc = .execHead .replica 0 published ∨ (∃ i, pc = .execFlush .replica 0 published i) ∨
      pc = .execEntry .replica published 0 := by
  unfold Pc.Replays at replays
  split at replays
  · exact .inl rfl
  · subst replays
    exact .inr (.inl rfl)
  · obtain ⟨rfl, rfl⟩ := replays
    exact .inr (.inr (.inl rfl))
  · obtain ⟨rfl, rfl⟩ := replays
    exact .inr (.inr (.inr (.inl ⟨_, rfl⟩)))
  · obtain ⟨rfl, rfl⟩ := replays
    exact .inr (.inr (.inr (.inr rfl)))
  · exact replays.elim

theorem access_eq {r : Nat} (apart : ∀ caller, s.log.pc r ≠ .minTailFirst caller) :
    s.access g r = (stepReplica (g.withNext ((s.loadedNext r).getD s.next)) s.log r).map fun log =>
      ({ s with
          log := log
          loadedNext := if (log.pc r).scans then s.loadedNext
            else update s.loadedNext r none },
        shown s.log log r) := by
  rw [Site.access]
  split
  · rename_i caller at_ _
    exact absurd at_ (apart caller)
  · rfl

variable {log : State Op}

theorem shown_of_executed {log' : State Op} {r : Nat} {call : Op × Bool}
    (executed : log'.executed = update log.executed r (log.executed r ++ [call])) :
    shown log log' r = some (.executes r call) := by
  simp [shown, executed]

theorem Stage.inExec (stage : Stage published 2 s) :
    s.next = 2 ∧ (s.log.pc 0).Replays published := by
  rcases stage.place with ⟨later, -⟩ | ⟨later, -⟩ | ⟨-, next, replays⟩
  · cases later
  · cases later
  · exact ⟨next, replays⟩

theorem Stage.goes {loadedNext : Nat → Option Nat} (stage : Stage published 2 s)
    (commitTail : log.commitTail = s.log.commitTail) (head : log.head = s.log.head)
    (ltails : log.ltails = s.log.ltails) (executed : log.executed = s.log.executed)
    (replays : (log.pc 0).Replays published) :
    shown s.log log 0 = none ∧
      Stage published 2 { s with log := log, loadedNext := loadedNext } := by
  refine ⟨?_, commitTail.trans stage.commitTail, head.trans stage.head, ?_,
    .inr (.inr ⟨rfl, stage.inExec.1, replays⟩)⟩
  · rw [shown, executed, if_neg (Nat.lt_irrefl _)]
    rcases Pc.replays_cases replays with at_ | at_ | at_ | ⟨i, at_⟩ | at_ <;> rw [at_]
  · rw [ltails]
    exact stage.ltails

theorem Stage.access {answer : Option (Answer Op)} (stage : Stage published 2 s)
    (positive : 0 < published) (taken : s.access g 0 = some (s', answer)) :
    answer = none ∧ Stage published 2 s' ∨
      ∃ shown, answer = some shown ∧ shown ≠ .execReturned 0 := by
  have replays := stage.inExec.2
  have nonzero : 0 ≠ s.log.commitTail := by
    have same := stage.commitTail
    omega
  rw [access_eq (by
    intro caller at_
    rw [at_] at replays
    exact replays), Option.map_eq_some_iff] at taken
  obtain ⟨log, stepped, moved⟩ := taken
  obtain ⟨rfl, rfl⟩ := Prod.mk.inj moved
  rcases Pc.replays_cases replays with at_ | at_ | at_ | ⟨i, at_⟩ | at_
  · simp only [stepReplica, at_, Option.some.injEq] at stepped
    subst stepped
    exact .inl (stage.goes rfl rfl rfl rfl (by rw [goto_pc_same]; exact stage.ltails))
  · simp only [stepReplica, at_, if_neg nonzero, Option.some.injEq] at stepped
    subst stepped
    exact .inl (stage.goes rfl rfl rfl rfl
      (by rw [goto_pc_same]; exact ⟨rfl, stage.commitTail⟩))
  · have inside : ¬(published < 0 ∨ 0 < s.log.head) := by
      rw [stage.head]
      omega
    simp only [stepReplica, at_, if_neg inside, Option.some.injEq] at stepped
    subst stepped
    exact .inl (stage.goes rfl rfl rfl rfl (by rw [goto_pc_same]; exact ⟨rfl, rfl⟩))
  · simp only [stepReplica, at_] at stepped
    split at stepped <;> cases stepped
    · exact .inl (stage.goes rfl rfl rfl rfl (by rw [goto_pc_same]; exact ⟨rfl, rfl⟩))
    · exact .inl (stage.goes rfl rfl rfl rfl (by rw [goto_pc_same]; exact ⟨rfl, rfl⟩))
  · simp only [stepReplica, at_, if_pos positive] at stepped
    split at stepped <;> cases stepped
    · -- the closure is called with the first entry
      exact .inr ⟨_, shown_of_executed rfl, (nomatch ·)⟩
    · refine .inr ⟨.panicked 0 .emptyEntry, ?_, (nomatch ·)⟩
      simp [shown, State.goto]

theorem Stage.serve {k : Nat} {request : Request Op} {answer : Option (Answer Op)}
    (stage : Stage published k s) (positive : 0 < published)
    (served : s.serve g request = some (s', answer)) :
    answer = none ∧ Stage published k s' ∨
      ∃ shown, answer = some shown ∧
        (nothingToReplay[k]? = some shown → Stage published (k + 1) s') := by
  have few := stage.next_le
  have unregistered : ∀ r, r + 1 < s.next → r = 0 ∧ 1 < s.next := by
    intro r below
    omega
  cases request with
  | register =>
    have room : ¬maxReplicasPerLog < s.next := by
      rw [maxReplicasPerLog]
      omega
    simp only [Site.serve, if_neg room, Option.some.injEq, Prod.mk.injEq] at served
    obtain ⟨rfl, rfl⟩ := served
    refine .inr ⟨_, rfl, fun expected => ?_⟩
    rcases stage.place with ⟨rfl, next, idle⟩ | ⟨rfl, next, idle⟩ | ⟨rfl, next, replays⟩
    · exact ⟨stage.commitTail, stage.head, stage.ltails,
        .inr (.inl ⟨rfl, by rw [next], idle⟩)⟩
    · cases expected
    · cases expected
  | append r ops =>
    simp only [Site.serve] at served
    split at served
    · obtain ⟨log, -, moved⟩ := Option.map_eq_some_iff.mp served
      obtain ⟨rfl, rfl⟩ := Prod.mk.inj moved
      refine .inr ⟨_, rfl, fun expected => ?_⟩
      rcases stage.place with ⟨rfl, -⟩ | ⟨rfl, -⟩ | ⟨rfl, -⟩ <;> cases expected
    · cases served
  | exec r =>
    simp only [Site.serve] at served
    split at served
    · rename_i below
      obtain ⟨rfl, more⟩ := unregistered r below
      obtain ⟨log, stepped, moved⟩ := Option.map_eq_some_iff.mp served
      obtain ⟨rfl, rfl⟩ := Prod.mk.inj moved
      refine .inr ⟨_, rfl, fun expected => ?_⟩
      rcases stage.place with ⟨rfl, -⟩ | ⟨rfl, next, -⟩ | ⟨rfl, -⟩
      · cases expected
      · simp only [step] at stepped
        split at stepped <;> cases stepped
        refine ⟨stage.commitTail, stage.head, stage.ltails, .inr (.inr ⟨rfl, next, ?_⟩)⟩
        rw [goto_pc_same]
        trivial
      · cases expected
    · cases served
  | access r =>
    simp only [Site.serve] at served
    split at served
    · rename_i below
      obtain ⟨rfl, more⟩ := unregistered r below
      rcases stage.place with ⟨rfl, next, -⟩ | ⟨rfl, -, idle⟩ | ⟨rfl, -⟩
      · omega
      · rw [access_eq (by simp [idle])] at served
        simp [stepReplica, idle] at served
      · rcases stage.access positive served with silent | ⟨shown, rfl, other⟩
        · exact .inl silent
        · refine .inr ⟨shown, rfl, fun expected => ?_⟩
          cases expected
          exact absurd rfl other
    · cases served
  | prefetch h a =>
    cases served
    exact .inl ⟨rfl, stage.commitTail, stage.head, stage.ltails, stage.place⟩
  | evict h a =>
    cases served
    exact .inl ⟨rfl, stage.commitTail, stage.head, stage.ltails, stage.place⟩
  | getCtail =>
    cases served
    refine .inr ⟨_, rfl, fun expected => ?_⟩
    rcases stage.place with ⟨rfl, -⟩ | ⟨rfl, -⟩ | ⟨rfl, -⟩ <;> cases expected
  | isReplicaSyncedForReads r ctail =>
    simp only [Site.serve] at served
    split at served
    · cases served
      refine .inr ⟨_, rfl, fun expected => ?_⟩
      rcases stage.place with ⟨rfl, -⟩ | ⟨rfl, -⟩ | ⟨rfl, -⟩ <;> cases expected
    · cases served

theorem not_shows_reset (used : 0 < log.commitTail) :
    ¬(service g Op).Shows (reset log) nothingToReplay := by
  refine @Service.not_shows_of_stages _ _ _ (service g Op) (reset log) _ (Stage log.commitTail)
    ?_ ?_ ?_ ?_
  · intro k s request s' stage served
    rcases stage.serve used served with ⟨-, kept⟩ | ⟨shown, impossible, -⟩
    · exact kept
    · cases impossible
  · intro k s request s' answer stage served expected
    rcases stage.serve used served with ⟨impossible, -⟩ | ⟨shown, same, next⟩
    · cases impossible
    · cases same
      exact next expected
  · intro k s stage
    have length : (nothingToReplay : List (Answer Op)).length = 3 := rfl
    rcases stage.place with ⟨rfl, -⟩ | ⟨rfl, -⟩ | ⟨rfl, -⟩ <;> omega
  · exact ⟨rfl, rfl, rfl, .inl ⟨rfl, rfl, rfl⟩⟩

theorem shows_fresh : (service g Op).Shows fresh nothingToReplay := by
  have observed : (service g Op).observe fresh [.register, .exec 0, .access 0, .access 0] =
      some nothingToReplay := rfl
  exact .of_observe observed

end

/-- **When a reset log is like a new one.** `reset` leaves `commit_tail` and `ctail` as they were,
so nothing must ever have been published. -/
theorem reset_indistinguishable_iff {Op : Type} (g : Geometry) {s : State Op}
    (reached : (system g Op).Reachable s) (quiet : ∀ r, (s.pc r).free = true) :
    (service g Op).Indistinguishable (reset s) fresh ↔ s.commitTail = 0 := by
  constructor
  · intro same
    by_contra used
    exact not_shows_reset (Nat.pos_of_ne_zero used) ((same nothingToReplay).mpr shows_fresh)
  · exact indistinguishable_of_unpublished reached quiet

/-! ### Two replicas -/

theorem quiet_of_both {s : State Nat} (reached : (system twoReplicas Nat).Reachable s)
    (first : (s.pc 0).free = true) (second : (s.pc 1).free = true) (r : Nat) :
    (s.pc r).free = true := by
  by_cases registered : r < twoReplicas.replicas
  · have two : r = 0 ∨ r = 1 := by
      have bound : r < 2 := registered
      omega
    rcases two with rfl | rfl
    · exact first
    · exact second
  · rw [((replayInv_of_reachable reached).unregistered r (Nat.le_of_not_lt registered)).1]
    rfl

/-- A log that was only executed. -/
theorem reset_indistinguishable_executed :
    ∃ s : State Nat, (system twoReplicas Nat).Reachable s ∧
      (service twoReplicas Nat).Indistinguishable (reset s) fresh := by
  obtain ⟨s, reached, holds⟩ := System.exists_reachable_of_run (system twoReplicas Nat) rfl
    [.exec 0, .access 0, .access 0]
    (fun s => (s.pc 0).free && (s.pc 1).free && decide (s.commitTail = 0)) (by decide)
  simp only [Bool.and_eq_true, decide_eq_true_iff] at holds
  have quiet := quiet_of_both reached holds.1.1 holds.1.2
  exact ⟨s, reached, (reset_indistinguishable_iff twoReplicas reached quiet).mpr holds.2⟩

/-- One operation was appended and replayed by both replicas. After the reset the next replica
that registers would replay it again. -/
theorem reset_not_indistinguishable_appended :
    ∃ s : State Nat, (system twoReplicas Nat).Reachable s ∧ (∀ r, (s.pc r).free = true) ∧
      s.ltails 0 = 1 ∧ s.ltails 1 = 1 ∧
      ¬(service twoReplicas Nat).Indistinguishable (reset s) fresh := by
  obtain ⟨s, reached, holds⟩ := System.exists_reachable_of_run (system twoReplicas Nat) rfl
    (appendThenExec ++ [.exec 0] ++ List.replicate 9 (.access 0))
    (fun s => (s.pc 0).free && (s.pc 1).free &&
      decide (s.ltails 0 = 1 ∧ s.ltails 1 = 1 ∧ s.commitTail = 1)) (by decide +kernel)
  simp only [Bool.and_eq_true, decide_eq_true_iff] at holds
  obtain ⟨⟨first, second⟩, replayed, replayed', published⟩ := holds
  refine ⟨s, reached, quiet_of_both reached first second, replayed, replayed', fun same => ?_⟩
  exact not_shows_reset (by omega) ((same nothingToReplay).mpr shows_fresh)

end Megalon.Nr.Log
