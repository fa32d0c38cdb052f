import Megalon.Foundations.History
import Megalon.Protocol.ExclusiveWriter

/-!
Contract: when the write of a `Put` or a `Write` takes effect, and what the caller is
told.

Owns: the history of calls of a run, the step at which a write takes effect, the
condition under which a page that is created with data is created by its writer, and
that along such runs a call is acknowledged if and only if it has taken effect.

Does not own: the bytes of the pages.
-/

namespace Megalon.Protocol

open Function Core Foundations Index

/-- Where a call stands: no call, not in effect, in effect, or a program counter that
calls of its kind do not reach. -/
inductive Stage where
  | out
  | pending
  | done
  | impossible
  deriving DecidableEq

section

variable {Key Mem : Type} [BlockKey Key] (cfg : Config Key Mem)

def Pc.stage (call : Call Key) : cfg.Pc → Stage
  | .idle | .returned _ _ => .out
  | .readSeqBegin _ _ | .readLocalSeq _ _ _ | .readForget _ _ | .readFlush _ _ | .readCopy _ _ _
  | .readNotified _ _ _ | .readRetry _ _ _ | .readRemember _ _ | .iterateLock _ _ _ =>
    if call.isWrite then .impossible else .pending
  | .recordCheck purpose _ | .recordScan purpose _ _ | .recordBlock purpose _
  | .sampleVictim purpose _ _ | .lockVictim purpose _ | .victimBlock purpose _
  | .victimSwitch purpose _ _ | .victimWait purpose _ _ _ | .victimRecycle purpose _ _
  | .victimUnlock purpose _ =>
    if call.isWrite && purpose.reclaims then .impossible else .pending
  | .createWait _ _ _ error =>
    if call.carries cfg then if error = .noError then .done else .impossible else .pending
  | .createRecycleTwice _ _ | .createRecycle _ _ | .createRecycleNode _ =>
    if call.carries cfg then .impossible else .pending
  | .createSeqEnd _ => if call.carries cfg then .done else .pending
  | .writeSeqBegin _ _ | .writeNotified _ _ | .writeAbort _ _ | .writeCopy _ _ _
  | .writeFlush _ _ _ | .writeSeqEnd _ _ => if call.isWrite then .pending else .impossible
  | .writeWrap _ | .writeWrapWait _ _ | .writeRemember _ _ =>
    if call.isWrite then .done else .impossible
  | _ => .pending

theorem isWrite_of_carries {call : Call Key} (carries : call.carries cfg = true) :
    call.isWrite = true := by
  unfold Call.carries at carries
  split at carries
  · simp [Call.isWrite, *]
  · simp [Call.isWrite, *]
  · cases carries

end

section

variable {Key Mem : Type} [BlockKey Key] (cfg : Config Key Mem)

/-- The step at which a write takes effect: the end of a write section, or the insertion
of a page that was filled with its data. -/
def Pc.effectPoint (call : Call Key) (absent : Bool) : cfg.Pc → Bool
  | .writeSeqEnd _ _ => true
  | .createInsert _ _ => call.carries cfg && absent
  | _ => false

def effectPoint (s : cfg.State) (t : Nat) : Bool :=
  (s.threads t).pc.effectPoint cfg (s.threads t).call
    (latest cfg.nodes s.shared.log (s.threads t).call.key).isNone

/-- A page that is inserted with data has no entry yet, and `Put` gives data for its
beginning. -/
def createsOwnPage (s : cfg.State) : Event Key → Bool
  | .thread t _ =>
    match (s.threads t).pc with
    | .createInsert _ _ => !(s.threads t).call.carries cfg ||
        ((latest cfg.nodes s.shared.log (s.threads t).call.key).isNone &&
          (s.threads t).call.data.isSome && (s.threads t).call.offset == 0)
    | _ => true
  | _ => true

/-- What a step of a thread does to the stage of its call. -/
inductive StageStep (call : Call Key) (effect : Bool) : Stage → cfg.Pc → Prop
  | stays {stage pc} (same : pc.stage cfg call = stage)
      (none : effect = false) : StageStep call effect stage pc
  | takesEffect {pc} (done : pc.stage cfg call = .done)
      (now : effect = true) : StageStep call effect .pending pc
  | refuses {n bytes} (nothing : call.isWrite = true → n = 0)
      (none : effect = false) : StageStep call effect .pending (.returned n bytes)
  | acknowledges {bytes} (writes : call.isWrite = true) (none : effect = false) :
      StageStep call effect .done (.returned (call.bytesWrite cfg) bytes)

variable {cfg} {call : Call Key}

theorem bytesWrite_of_carries
    (inside : call.isWrite = true → call.offset + call.count ≤ cfg.slotSize)
    (carries : call.carries cfg = true) : call.bytesWrite cfg = call.count := by
  have := inside (isWrite_of_carries cfg carries)
  unfold Call.bytesWrite
  omega

variable {s : cfg.State} {pc : cfg.Pc}

theorem stage_move {t choice : Nat} {pc' : cfg.Pc} {act : Act Key}
    {shared : cfg.Shared} {reply : act.Reply cfg.nodes} (thread : s.threads t = ⟨call, pc⟩)
    (inside : call.isWrite = true → call.offset + call.count ≤ cfg.slotSize)
    (allowed : uncontested cfg s (.thread t choice) = true)
    (alone : createsOwnPage cfg s (.thread t choice) = true)
    (move : Move cfg t call choice pc act reply pc')
    (acted : perform cfg t s.shared act = some (shared, reply))
    (possible : pc.stage cfg call ≠ .impossible) :
    StageStep cfg call (effectPoint cfg s t) (pc.stage cfg call) pc' := by
  have point : effectPoint cfg s t =
      pc.effectPoint cfg call (latest cfg.nodes s.shared.log call.key).isNone := by
    rw [effectPoint, thread]
  rw [point]
  cases move with
  | createInsert =>
    simp only [Pc.effectPoint, Pc.stage]
    cases carries : call.carries cfg with
    | false => exact .stays (by simp [Pc.stage, carries]) rfl
    | true =>
      simp only [createsOwnPage, thread, carries, Bool.not_true, Bool.false_or,
        Bool.and_eq_true] at alone
      obtain ⟨⟨absent, _⟩, _⟩ := alone
      refine .takesEffect ?_ (by rw [absent]; rfl)
      obtain ⟨_, _, answers⟩ := perform_submit acted
      obtain ⟨notNull, _⟩ := uncontested_insert thread allowed
      have missing : latestPages s.shared.log call.key = none := by
        simpa [latest_eq, PageMap.toDirectory] using absent
      have inserted := answers.inserted _ _ _ rfl
      simp only at inserted
      simp [Pc.stage, carries, inserted, insertError, missing, notNull]
  | @createDone slot index error _ _ own =>
    have before : (Pc.createWait slot none index error).stage cfg call = .done := by
      simp_all [Pc.stage]
    rw [before, ← bytesWrite_of_carries inside own]
    exact .acknowledges (isWrite_of_carries cfg own) rfl
  | @sequencedDone w _ own =>
    have before : (Pc.createSeqEnd w).stage cfg call = .done := by simp [Pc.stage, own]
    rw [before, ← bytesWrite_of_carries inside own]
    exact .acknowledges (isWrite_of_carries cfg own) rfl
  | recycledDone own => simp [Pc.stage, own] at possible
  | createLost lost | createThrows lost =>
    rcases lost with rfl | rfl <;> exact .stays (by simp_all [Pc.stage]) rfl
  | createKept => cases carries : call.carries cfg <;> exact .stays (by simp_all [Pc.stage]) rfl
  | createRefused | readNothing => exact .refuses (fun _ => rfl) rfl
  | readValid | readCached | readRemember | iterated =>
    have reads : call.isWrite = false := by simpa [Pc.stage] using possible
    simp only [Pc.stage, reads, Bool.false_eq_true, if_false]
    exact .refuses (by simp [reads]) rfl
  | reclaimedLast =>
    have reads : call.isWrite = false := by simpa [Pc.stage, Purpose.reclaims] using possible
    simp only [Pc.stage, reads, Bool.false_and, Bool.false_eq_true, if_false]
    exact .refuses (by simp [reads]) rfl
  | writeWraps | writeSeqEnd =>
    have writes : call.isWrite = true := by simpa [Pc.stage] using possible
    simp only [Pc.stage, writes, if_true]
    exact .takesEffect (by simp [Pc.stage, writes]) rfl
  | writeRemember =>
    have writes : call.isWrite = true := by simpa [Pc.stage] using possible
    simp only [Pc.stage, writes, if_true]
    exact .acknowledges writes rfl
  | _ =>
    first
      | exact .stays rfl rfl
      | exact .stays (by simp_all [Pc.stage, Purpose.reclaims]) rfl

/-! ### The history of a run -/

variable (cfg)

def Call.acked (call : Call Key) (n : Nat) : Bool := call.isWrite && decide (0 < n)

def Thread.responds {nodes : Nat} (t : Nat) (thread : Thread Key nodes) : List (Label (Call Key)) :=
  match thread.pc with
  | .returned n _ => [.respond t (thread.call.acked n)]
  | _ => []

def effectOf (s : cfg.State) : Event Key → List (Call Key)
  | .thread t _ =>
    if effectPoint cfg s t && decide (0 < (s.threads t).call.bytesWrite cfg) then
      [(s.threads t).call]
    else []
  | _ => []

def labels (s : cfg.State) : Event Key → List (Label (Call Key))
  | .start t call => .invoke t call :: Thread.responds t ⟨call, call.entryPc cfg⟩
  | .thread t choice =>
    (effectOf cfg s (.thread t choice)).map (fun _ => .commit t) ++
      match step cfg s (.thread t choice) with
      | some s' => (s'.threads t).responds t
      | none => []
  | _ => []

def history (trace : cfg.Trace) : List (Label (Call Key)) :=
  trace.flatMap fun (s, e) => labels cfg s e

def effects (trace : cfg.Trace) : List (Call Key) :=
  trace.flatMap fun (s, e) => effectOf cfg s e

def carefulWrites (s : cfg.State) (e : Event Key) : Bool :=
  orderly cfg s e && createsOwnPage cfg s e

/-! ### A call is acknowledged if and only if it has taken effect -/

/-- The progress of a call agrees with its program counter. A write of no bytes has no
effect. -/
def Matches (progress : Progress (Call Key)) (thread : cfg.Thread) : Prop :=
  match thread.pc.stage cfg thread.call with
  | .out => progress = .idle
  | .pending => ∃ start, progress = .pending start thread.call
  | .done => ∃ start, progress =
      if 0 < thread.call.bytesWrite cfg then .done start thread.call
      else .pending start thread.call
  | .impossible => False

def InRange (thread : cfg.Thread) : Prop :=
  thread.call.isWrite = true → thread.pc.ready = true ∨ thread.pc = .crashed ∨
    thread.call.offset + thread.call.count ≤ cfg.slotSize

structure Tracked (past : List (Label (Call Key))) (tracker : Tracker (Call Key))
    (s : cfg.State) : Prop where
  tracks : Tracks past tracker
  agrees : ∀ t, Matches cfg (tracker.progress t) (s.threads t)
  inRange : ∀ t, InRange cfg (s.threads t)

variable {cfg} {thread : cfg.Thread}

theorem Matches.of_pending {progress : Progress (Call Key)} (agrees : Matches cfg progress thread)
    (stage : thread.pc.stage cfg thread.call = .pending) :
    ∃ start, progress = .pending start thread.call := by
  rwa [Matches, stage] at agrees

theorem Matches.pending (start : Nat) (stage : pc.stage cfg call = .pending) :
    Matches cfg (.pending start call) ⟨call, pc⟩ := by
  rw [Matches, stage]
  exact ⟨start, rfl⟩

theorem Matches.out (stage : pc.stage cfg call = .out) : Matches cfg .idle ⟨call, pc⟩ := by
  rw [Matches, stage]

theorem Matches.done (start : Nat) (stage : pc.stage cfg call = .done) :
    Matches cfg (if 0 < call.bytesWrite cfg then .done start call else .pending start call)
      ⟨call, pc⟩ := by
  rw [Matches, stage]
  exact ⟨start, rfl⟩

theorem matches_update {tracker : Tracker (Call Key)} {threads : Nat → cfg.Thread}
    (t : Nat) {progress : Progress (Call Key)}
    (agrees : ∀ t', Matches cfg (tracker.progress t') (threads t'))
    (mine : Matches cfg progress thread) (t' : Nat) :
    Matches cfg ((tracker.set t progress).progress t') (update threads t thread t') := by
  by_cases same : t' = t
  · subst same
    simpa [Tracker.set] using mine
  · simpa [Tracker.set, same] using agrees t'

theorem stage_out_iff_ready (ready : pc.ready = true) : pc.stage cfg call = .out := by
  cases pc <;> first
    | rfl
    | cases ready

theorem responds_of_stage {t : Nat} (busy : thread.pc.stage cfg thread.call ≠ .out) :
    thread.responds t = [] := by
  unfold Thread.responds
  split
  · rename_i returned
    rw [returned] at busy
    exact absurd rfl busy
  · rfl

variable (cfg) in
theorem stage_entryPc (call : Call Key) :
    (call.entryPc cfg).stage cfg call = .pending ∨ call.isWrite = false ∧
      ∃ n bytes, call.entryPc cfg = .returned n bytes := by
  unfold Call.entryPc
  cases kind : call.kind with
  | sampleReclaim =>
    have reads : call.isWrite = false := by simp [Call.isWrite, kind]
    simp only
    split
    · exact .inr ⟨reads, _, _, rfl⟩
    · exact .inl (by simp [Pc.stage, reads])
  | iterativeReclaim => exact .inl (by simp [Pc.stage, Call.isWrite, kind])
  | _ =>
    simp only
    split <;> exact .inl rfl

theorem inRange_entryPc (call : Call Key) : InRange cfg ⟨call, call.entryPc cfg⟩ := by
  intro writes
  unfold Call.entryPc
  cases kind : call.kind with
  | sampleReclaim | iterativeReclaim => simp [Call.isWrite, kind] at writes
  | _ =>
    simp only
    split
    · exact .inr (.inr ‹_›)
    · exact .inr (.inl rfl)

section

variable {past : List (Label (Call Key))} {tracker : Tracker (Call Key)}
  {s : cfg.State} {t : Nat}

theorem Tracked.start (tracked : Tracked cfg past tracker s) (call : Call Key)
    (ready : (s.threads t).pc.ready = true) :
    ∃ tracker', tracker'.order = tracker.order ∧
      Tracked cfg (past ++ labels cfg s (.start t call)) tracker'
        ⟨s.shared, update s.threads t ⟨call, call.entryPc cfg⟩⟩ := by
  have idle : tracker.progress t = .idle := by
    have agrees := tracked.agrees t
    rwa [Matches, stage_out_iff_ready ready] at agrees
  have invoked := tracked.tracks.invoke t call idle
  have inRange : ∀ t', InRange cfg
      (update s.threads t ⟨call, call.entryPc cfg⟩ t') := by
    intro t'
    by_cases same : t' = t
    · subst same
      simpa using inRange_entryPc call
    · simpa [same] using tracked.inRange t'
  rcases stage_entryPc cfg call with pending | ⟨reads, n, bytes, returns⟩
  · refine ⟨tracker.set t (.pending past.length call), rfl, ?_,
      matches_update t tracked.agrees (.pending _ pending), inRange⟩
    rw [labels, responds_of_stage (by rw [pending]; simp)]
    exact invoked
  · have refused := invoked.refuse (t := t) (update_self _ _ _)
    rw [Tracker.set_set] at refused
    refine ⟨tracker.set t .idle, rfl, ?_,
      matches_update t tracked.agrees (.out (by rw [returns]; rfl)), inRange⟩
    simpa [labels, Thread.responds, returns, Call.acked, reads] using refused

theorem Tracked.unnoticed (tracked : Tracked cfg past tracker s) {shared : cfg.Shared}
    {thread : cfg.Thread} (mine : Matches cfg (tracker.progress t) thread)
    (inRange : ∀ t', InRange cfg (update s.threads t thread t')) :
    Tracked cfg past tracker ⟨shared, update s.threads t thread⟩ := by
  refine ⟨tracked.tracks, ?_, inRange⟩
  have agrees := matches_update t tracked.agrees mine
  rwa [tracker.set_self] at agrees

theorem inRange_update (pc : cfg.Pc) (inRange : ∀ t', InRange cfg (s.threads t'))
    (moves : (s.threads t).pc.ready = false) (alive : (s.threads t).pc ≠ .crashed) (t' : Nat) :
    InRange cfg (update s.threads t ⟨(s.threads t).call, pc⟩ t') := by
  by_cases same : t' = t
  · subst same
    rw [update_self]
    intro writes
    rcases inRange t' writes with ready | crashed | inside
    · simp [moves] at ready
    · exact absurd crashed alive
    · exact .inr (.inr inside)
  · simpa [same] using inRange t'

variable {choice : Nat}

theorem next_ready {call : Call Key} {pc : cfg.Pc} {instr : Instr Key cfg.nodes}
    (fetched : next cfg t call choice pc = some instr) : pc.ready = false ∧ pc ≠ .crashed := by
  cases pc with
  | idle | returned | crashed | localCopy => cases fetched
  | _ => exact ⟨rfl, nofun⟩

theorem stage_ne_out {call : Call Key} {pc : cfg.Pc} {instr : Instr Key cfg.nodes}
    (fetched : next cfg t call choice pc = some instr) : pc.stage cfg call ≠ .out := by
  cases pc with
  | idle | returned => cases fetched
  | _ =>
    simp only [Pc.stage]
    repeat' split
    all_goals nofun

variable {s' : cfg.State}

variable (tracked : Tracked cfg past tracker s)

include tracked

theorem Tracked.stageStep (allowed : carefulWrites cfg s (.thread t choice) = true)
    (taken : step cfg s (.thread t choice) = some s') :
    StageStep cfg (s.threads t).call (effectPoint cfg s t)
      ((s.threads t).pc.stage cfg (s.threads t).call) (s'.threads t).pc := by
  rw [carefulWrites, orderly, Bool.and_eq_true, Bool.and_eq_true] at allowed
  obtain ⟨instr, shared, reply, fetched, acted, rfl⟩ := step_thread taken
  obtain ⟨moves, alive⟩ := next_ready fetched
  have possible : (s.threads t).pc.stage cfg (s.threads t).call ≠ .impossible := by
    intro impossible
    have agrees := tracked.agrees t
    rw [Matches, impossible] at agrees
    exact agrees
  have inside : (s.threads t).call.isWrite = true →
      (s.threads t).call.offset + (s.threads t).call.count ≤ cfg.slotSize := by
    intro writes
    rcases tracked.inRange t writes with ready | crashed | inside
    · simp [moves] at ready
    · exact absurd crashed alive
    · exact inside
  simp only [update_self]
  exact stage_move rfl inside allowed.1.1 allowed.2 (move_of_next fetched reply) acted possible

theorem Tracked.advance (allowed : carefulWrites cfg s (.thread t choice) = true)
    (taken : step cfg s (.thread t choice) = some s') :
    ∃ tracker', tracker'.order.map Prod.snd =
        tracker.order.map Prod.snd ++ effectOf cfg s (.thread t choice) ∧
      Tracked cfg (past ++ labels cfg s (.thread t choice)) tracker' s' := by
  have responses : labels cfg s (.thread t choice) =
      (effectOf cfg s (.thread t choice)).map (fun _ => .commit t) ++
        (s'.threads t).responds t := by
    rw [labels, taken]
  have advanced := tracked.stageStep allowed taken
  have agrees := tracked.agrees t
  obtain ⟨instr, shared, reply, fetched, acted, rfl⟩ := step_thread taken
  obtain ⟨moves, alive⟩ := next_ready fetched
  have inRange := fun pc : cfg.Pc => inRange_update pc tracked.inRange moves alive
  rw [responses]
  simp only [update_self] at advanced ⊢
  generalize instr.resume reply = pc at advanced
  generalize before : (s.threads t).pc.stage cfg (s.threads t).call = stage at advanced
  cases advanced with
  | stays same none =>
    have busy : pc.stage cfg (s.threads t).call ≠ .out := by
      rw [same, ← before]
      exact stage_ne_out fetched
    have mine : Matches cfg (tracker.progress t) ⟨(s.threads t).call, pc⟩ := by
      rw [Matches, before] at agrees
      rwa [Matches, same]
    refine ⟨tracker, by simp [effectOf, none], ?_⟩
    rw [responds_of_stage busy]
    simpa [effectOf, none] using tracked.unnoticed mine (inRange pc)
  | takesEffect done now =>
    obtain ⟨start, progress⟩ := agrees.of_pending before
    have mine := Matches.done start done
    rw [responds_of_stage (by rw [done]; simp), List.append_nil]
    by_cases some : 0 < (s.threads t).call.bytesWrite cfg
    · rw [if_pos some] at mine
      refine ⟨tracker.commit t start (s.threads t).call, ?_, ?_,
        matches_update t tracked.agrees mine, inRange pc⟩
      · simp [effectOf, now, some, Tracker.commit]
      · simpa [effectOf, now, some] using tracked.tracks.commit progress
    · rw [if_neg some, ← progress] at mine
      refine ⟨tracker, by simp [effectOf, some], ?_⟩
      simpa [effectOf, some] using tracked.unnoticed mine (inRange pc)
  | @refuses n bytes nothing none =>
    obtain ⟨start, progress⟩ := agrees.of_pending before
    have acked : (s.threads t).call.acked n = false := by
      cases writes : (s.threads t).call.isWrite with
      | false => simp [Call.acked, writes]
      | true => simp [Call.acked, nothing writes]
    refine ⟨tracker.set t .idle, by simp [effectOf, none, Tracker.set], ?_,
      matches_update t tracked.agrees (.out rfl), inRange _⟩
    simpa [effectOf, none, Thread.responds, acked] using tracked.tracks.refuse progress
  | acknowledges writes none =>
    rw [Matches, before] at agrees
    obtain ⟨start, progress⟩ := agrees
    refine ⟨tracker.set t .idle, by simp [effectOf, none, Tracker.set], ?_,
      matches_update t tracked.agrees (.out rfl), inRange _⟩
    by_cases some : 0 < (s.threads t).call.bytesWrite cfg
    · rw [if_pos some] at progress
      simpa [effectOf, none, Thread.responds, Call.acked, writes, some] using
        tracked.tracks.acknowledge progress
    · rw [if_neg some] at progress
      simpa [effectOf, none, Thread.responds, Call.acked, writes, some] using
        tracked.tracks.refuse progress

theorem Tracked.step {e : Event Key}
    (allowed : carefulWrites cfg s e = true) (taken : step cfg s e = some s') :
    ∃ tracker', tracker'.order.map Prod.snd =
        tracker.order.map Prod.snd ++ effectOf cfg s e ∧
      Tracked cfg (past ++ labels cfg s e) tracker' s' := by
  cases e with
  | start t call =>
    obtain ⟨ready, rfl⟩ := step_start taken
    obtain ⟨tracker', order, after⟩ := tracked.start call ready
    exact ⟨tracker', by simp [order, effectOf], after⟩
  | thread t choice => exact tracked.advance allowed taken
  | replay r =>
    obtain ⟨_, _, _, rfl⟩ := step_replay taken
    exact ⟨tracker, by simp [effectOf],
      by simpa [labels] using ⟨tracked.tracks, tracked.agrees, tracked.inRange⟩⟩
  | sync r =>
    obtain ⟨_, _, _, rfl⟩ := step_sync taken
    exact ⟨tracker, by simp [effectOf],
      by simpa [labels] using ⟨tracked.tracks, tracked.agrees, tracked.inRange⟩⟩
  | complete r =>
    obtain ⟨_, rfl⟩ := step_complete taken
    exact ⟨tracker, by simp [effectOf],
      by simpa [labels] using ⟨tracked.tracks, tracked.agrees, tracked.inRange⟩⟩

end

theorem tracked_initial (start : Initial cfg s) : Tracked cfg [] ⟨fun _ => .idle, []⟩ s where
  tracks := .nil
  agrees := fun t => by rw [Matches, start.threads t]; rfl
  inRange := fun t _ => .inl (by rw [start.threads t]; rfl)

/-- **Effects and acknowledgements.** Along a careful run the order in which writes take
effect tracks the history. -/
theorem tracked_of_segment {s₀ : cfg.State} {trace : cfg.Trace} (start : Initial cfg s₀)
    (run : (system cfg).Segment (fun s e => carefulWrites cfg s e = true) s₀ trace s) :
    ∃ tracker, tracker.order.map Prod.snd = effects cfg trace ∧
      Tracked cfg (history cfg trace) tracker s := by
  induction run with
  | refl => exact ⟨_, rfl, tracked_initial start⟩
  | snoc before meets taken ih =>
    obtain ⟨tracker, order, tracked⟩ := ih
    obtain ⟨tracker', order', tracked'⟩ := tracked.step meets taken
    refine ⟨tracker', ?_, ?_⟩
    · rw [order', order, effects, effects, List.flatMap_append, List.flatMap_singleton]
    · rwa [history, List.flatMap_append, List.flatMap_singleton]

end

end Megalon.Protocol
