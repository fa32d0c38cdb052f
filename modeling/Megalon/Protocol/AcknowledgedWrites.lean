import Megalon.Protocol.PageContents

/-!
Contract: acknowledged writes take effect.

Owns: that along careful runs that store only to current lines a `Put` or `Write` that
returns a positive count has copied its bytes into the slot of its key during the call, and
that the pages at the end are their initial contents with the acknowledged writes applied
in an order that respects real time; and the run in which a creator that loses its
insertion is told success.

Does not own: which flushes keep the lines current.
-/

namespace Megalon.Protocol

open Function Core Foundations Index

section

variable {Key Mem : Type} [BlockKey Key] {cfg : Config Key Mem}

/-! ### Bytes are copied from a buffer -/

def Sourced (s : cfg.State) : Prop :=
  ∀ t, 0 < (s.threads t).pc.copied cfg (s.threads t).call → (s.threads t).call.data.isSome = true

theorem copied_move {t choice : Nat} {call : Call Key} {pc pc' : cfg.Pc} {act : Act Key}
    {reply : act.Reply cfg.nodes} (move : Move cfg t call choice pc act reply pc')
    (copied : 0 < pc'.copied cfg call) : 0 < pc.copied cfg call ∨ call.data.isSome = true := by
  cases move with
  | writeByte _ data => exact .inr (by rw [data]; rfl)
  | writeCopied whole =>
    left
    simp only [Pc.copied] at copied ⊢
    omega
  | writeFlush | writeFlushed => exact .inl copied
  | writeValid => simp [Pc.copied] at copied
  | _ => exact absurd copied (Nat.lt_irrefl 0)

theorem sourced_step {s s' : cfg.State} {e : Event Key} (before : Sourced s)
    (taken : step cfg s e = some s') : Sourced s' := by
  refine forall_threads_step (P := fun _ thread => 0 < thread.pc.copied cfg thread.call →
    thread.call.data.isSome = true) taken (fun t _ => before t) ?_ ?_
  · intro _ call copied
    simp only [Call.entryPc] at copied
    repeat' split at copied
    all_goals exact absurd copied (Nat.lt_irrefl 0)
  · exact fun _ _ move _ copied => (copied_move move copied).elim (before _) id

/-! ### The pages along a run -/

def slotOf {nodes : Nat} (s : State Key Mem nodes) (key : Key) : Option Nat :=
  (latest nodes s.shared.log key).bind fun entry => (entry.cnArray sharedCacheNode).cnIdx

theorem slotOf_eq {nodes : Nat} (s : State Key Mem nodes) (key : Key) :
    slotOf s key = (latestPages s.shared.log).slot key := by
  rw [slotOf, latest_eq, PageMap.toDirectory, PageMap.slot]
  cases latestPages s.shared.log key <;> rfl

variable (cfg) in
/-- The content of the slot of a key right after the step that gave the key its entry. -/
def InitialContent (contents : Mem → Pages) (trace : cfg.Trace)
    (key : Key) (slot : Nat) (base : Nat → UInt8) : Prop :=
  ∃ u e u', (u, e) ∈ trace ∧ step cfg u e = some u' ∧ latest cfg.nodes u.shared.log key = none ∧
    slotOf u' key = some slot ∧ contents u'.shared.pages slot = base

variable (cfg) in
structure PagesWritten (contents : Mem → Pages)
    (trace : cfg.Trace) (s : cfg.State) : Prop where
  sourced : Sourced s
  filled : SlotsFilled cfg contents s
  absent : ∀ key, latestPages s.shared.log key = none →
    ∀ call ∈ effects cfg trace, call.key ≠ key
  pages : ∀ key slot, slotOf s key = some slot → ∃ base,
    InitialContent cfg contents trace key slot base ∧
      PageAt cfg contents (effects cfg trace) base key slot s

variable {trace : cfg.Trace}

theorem InitialContent.mono {contents : Mem → Pages} {more : cfg.Trace} {key : Key} {slot : Nat}
    {base : Nat → UInt8} (initial : InitialContent cfg contents trace key slot base) :
    InitialContent cfg contents (trace ++ more) key slot base := by
  obtain ⟨u, e, u', member, rest⟩ := initial
  exact ⟨u, e, u', List.mem_append_left _ member, rest⟩

section

variable {view : cfg.memory.OneContent} {trace : cfg.Trace}
  {s s' : cfg.State} {e : Event Key}

theorem effect_cases {call : Call Key} (effect : call ∈ effectOf cfg s e) :
    ∃ t choice, e = .thread t choice ∧ call = (s.threads t).call ∧
      0 < call.bytesWrite cfg ∧
      ((∃ slot w, (s.threads t).pc = .writeSeqEnd slot w) ∨
        ∃ slot wmeta, (s.threads t).pc = .createInsert slot wmeta ∧ call.carries cfg = true ∧
          latestPages s.shared.log call.key = none) := by
  cases e with
  | thread t choice =>
    simp only [effectOf] at effect
    split at effect
    · rename_i now
      obtain rfl := List.mem_singleton.mp effect
      rw [Bool.and_eq_true, effectPoint, decide_eq_true_eq] at now
      refine ⟨t, choice, rfl, rfl, now.2, ?_⟩
      have point := now.1
      cases counter : (s.threads t).pc with
      | writeSeqEnd slot w => exact .inl ⟨slot, w, rfl⟩
      | createInsert slot wmeta =>
        simp only [counter, Pc.effectPoint, Bool.and_eq_true] at point
        exact .inr ⟨slot, wmeta, rfl, point.1,
          by simpa [latest_eq, PageMap.toDirectory] using point.2⟩
      | _ => simp [counter, Pc.effectPoint] at point
    · cases effect
  | _ => cases effect

theorem slot_of_insert {t choice slot : Nat} {wmeta : Option Nat}
    (taken : step cfg s (.thread t choice) = some s')
    (counter : (s.threads t).pc = .createInsert slot wmeta)
    (absent : latestPages s.shared.log (s.threads t).call.key = none) :
    (latestPages s'.shared.log).slot (s.threads t).call.key = some slot := by
  obtain ⟨instr, shared, reply, fetched, acted, rfl⟩ := step_thread taken
  rw [counter] at fetched
  cases fetched
  obtain ⟨rfl, _⟩ := perform_submit acted
  simp [latestPages_append, Request.apply, absent, PageMap.slot]

theorem copied_of_effect {call : Call Key} (steps : CurrentStep view s e)
    (holds : Orderly cfg s) (written : PagesWritten cfg view.contents trace s)
    (alone : createsOwnPage cfg s e = true) (taken : step cfg s e = some s')
    (effect : call ∈ effectOf cfg s e) :
    ∃ slot buffer, slotOf s' call.key = some slot ∧ call.data = some buffer ∧
      ∀ j, j < call.bytesWrite cfg →
        view.contents s'.shared.pages slot (call.offset + j) = buffer j := by
  obtain ⟨t, choice, rfl, rfl, positive, point⟩ := effect_cases effect
  rcases point with ⟨slot, w, counter⟩ | ⟨slot, wmeta, counter, carries, absent⟩
  · have writing : (s.threads t).pc.writeSection = some (slot, w) := by rw [counter]; rfl
    have known := PageMap.slot_of_some (holds.writers t slot w writing)
    obtain ⟨base, _, page⟩ := written.pages _ slot (by rw [slotOf_eq, known])
    obtain ⟨buffer, data⟩ := Option.isSome_iff_exists.mp
      (written.sourced t (by rw [counter]; exact positive))
    refine ⟨slot, buffer, by rw [slotOf_eq, slot_step_mono taken known], data,
      fun j inside => ?_⟩
    have same : view.contents s'.shared.pages slot = view.contents s.shared.pages slot :=
      contents_of_not_copiesInto steps holds.slots known (by simp [copiesInto, counter]) taken
    rw [same, page.writing t w writing, counter]
    exact overlay_apply data inside _
  · simp only [createsOwnPage, counter, carries, Bool.not_true, Bool.false_or, Bool.and_eq_true,
      beq_iff_eq] at alone
    obtain ⟨⟨_, given⟩, offset⟩ := alone
    obtain ⟨buffer, data⟩ := Option.isSome_iff_exists.mp given
    refine ⟨slot, buffer, by rw [slotOf_eq, slot_of_insert taken counter absent], data,
      fun j inside => ?_⟩
    obtain ⟨instr, shared, reply, fetched, acted, rfl⟩ := step_thread taken
    rw [counter] at fetched
    cases fetched
    have same := congrArg view.contents ((perform_frame acted).pages rfl)
    have covered : j < (s.threads t).call.count := by
      rw [Call.bytesWrite] at inside
      omega
    have present := content_of_carries (t := t) carries data covered
    have bound := (List.getElem?_eq_some_iff.mp present).1
    rw [same, offset, Nat.zero_add]
    exact written.filled t slot _ (by rw [counter]; rfl) j (buffer j) bound present

theorem pagesWritten_step (steps : CurrentStep view s e) (holds : Orderly cfg s)
    (holds' : Orderly cfg s') (alone : createsOwnPage cfg s e = true)
    (taken : step cfg s e = some s') (before : PagesWritten cfg view.contents trace s) :
    PagesWritten cfg view.contents (trace ++ [(s, e)]) s' := by
  have grown : effects cfg (trace ++ [(s, e)]) = effects cfg trace ++ effectOf cfg s e := by
    rw [effects, List.flatMap_append, List.flatMap_singleton, effects]
  refine ⟨sourced_step before.sourced taken, slotsFilled_step steps holds taken before.filled,
    fun key missing call member => ?_, fun key slot known => ?_⟩
  · rw [grown, List.mem_append] at member
    rcases member with earlier | now
    · refine before.absent key ?_ call earlier
      by_contra present
      obtain ⟨page, found⟩ := Option.ne_none_iff_exists'.mp present
      have kept := slot_step_mono taken (PageMap.slot_of_some found)
      simp [PageMap.slot, missing] at kept
    · rintro rfl
      obtain ⟨slot, _, known, _⟩ := copied_of_effect steps holds before alone taken now
      rw [slotOf_eq] at known
      simp [PageMap.slot, missing] at known
  · rw [grown]
    rcases slot_step taken key with
      same | ⟨t, choice, slot', wmeta, rfl, rfl, counter, missing, inserted⟩
    · rw [slotOf_eq, same, ← slotOf_eq] at known
      obtain ⟨base, initial, page⟩ := before.pages key slot known
      rw [slotOf_eq] at known
      exact ⟨base, initial.mono, pageAt_step steps holds holds' taken known page⟩
    · have here := known
      rw [slotOf_eq, PageMap.slot_of_some inserted, Option.some.injEq] at here
      subst here
      refine ⟨_, ⟨s, _, s', by simp, taken, ?_, known, rfl⟩,
        pageAt_insert holds before.filled alone taken counter
          (before.absent _ missing)⟩
      rw [latest_eq, PageMap.toDirectory, missing, Option.map_none]

end

/-- Pages are created by their writers, and nobody stores to an old line. -/
def currentWrites (view : cfg.memory.OneContent) (s : cfg.State) (e : Event Key) : Prop :=
  carefulWrites cfg s e = true ∧ storesCurrent view s e

theorem pagesWritten_of_segment {view : cfg.memory.OneContent} {s₀ s : cfg.State}
    (start : Initial cfg s₀) (run : (system cfg).Segment (currentWrites view) s₀ trace s) :
    view.sound s.shared.pages ∧ Orderly cfg s ∧ PagesWritten cfg view.contents trace s := by
  induction run with
  | refl =>
    have none : latestPages s₀.shared.log = fun _ => Option.none := by
      rw [start.log]
      rfl
    refine ⟨view.initial _ start.pages, orderly_initial s₀ start, ?_, ?_, fun _ _ _ member => ?_,
      fun key slot known => ?_⟩
    · intro t copied
      rw [start.threads t] at copied
      exact absurd copied (Nat.lt_irrefl 0)
    · intro t slot n filled
      rw [start.threads t] at filled
      cases filled
    · cases member
    · rw [slotOf_eq, none] at known
      cases known
  | @snoc u u' e trace before meets taken ih =>
    obtain ⟨sound, holds, written⟩ := ih
    obtain ⟨careful, current⟩ := meets
    rw [carefulWrites, Bool.and_eq_true] at careful
    have holds' := orderly_step u e u' holds careful.1 taken
    exact ⟨(contents_step ⟨sound, current⟩ taken).1, holds',
      pagesWritten_step ⟨sound, current⟩ holds holds' careful.2 taken written⟩

/-! ### During a call -/

variable (cfg) in
/-- At some moment of the steps `during`, or after them, the first `n` bytes of the call
are in the slot of its key. -/
def CopiedDuring (contents : Mem → Pages) (call : Call Key) (n : Nat)
    (during : cfg.Trace) (s : cfg.State) : Prop :=
  ∃ u slot buffer, (u = s ∨ ∃ e, (u, e) ∈ during) ∧ slotOf u call.key = some slot ∧
    call.data = some buffer ∧
    ∀ j, j < n → contents u.shared.pages slot (call.offset + j) = buffer j

variable (cfg) in
/-- How far the call that thread `t` started before the steps `during` has come. -/
structure CallCopied (contents : Mem → Pages) (t : Nat) (call : Call Key)
    (during : cfg.Trace) (s : cfg.State) : Prop where
  same : (s.threads t).call = call
  done : (s.threads t).pc.stage cfg call = .done → 0 < call.bytesWrite cfg →
    CopiedDuring cfg contents call (call.bytesWrite cfg) during s
  returned : ∀ n bytes, (s.threads t).pc = .returned n bytes → call.isWrite = true → 0 < n →
    CopiedDuring cfg contents call n during s

section

variable {view : cfg.memory.OneContent} {contents : Mem → Pages} {t : Nat} {call : Call Key}
  {s s' : cfg.State}
  {trace during : cfg.Trace} {e : Event Key}

theorem CopiedDuring.snoc {n : Nat} (before : CopiedDuring cfg contents call n during s) :
    CopiedDuring cfg contents call n (during ++ [(s, e)]) s' := by
  obtain ⟨u, slot, buffer, moment, rest⟩ := before
  refine ⟨u, slot, buffer, .inr ?_, rest⟩
  rcases moment with rfl | ⟨e', member⟩
  · exact ⟨e, by simp⟩
  · exact ⟨e', List.mem_append_left _ member⟩

theorem callCopied_start {shared : cfg.Shared} {threads : Nat → cfg.Thread} :
    CallCopied cfg contents t call []
      ⟨shared, update threads t ⟨call, call.entryPc cfg⟩⟩ := by
  refine ⟨by simp, fun done => ?_, fun n bytes returned writes => ?_⟩
  · simp only [update_self] at done
    rcases stage_entryPc cfg call with pending | ⟨_, n, bytes, returns⟩
    · simp [pending] at done
    · simp [returns, Pc.stage] at done
  · simp only [update_self] at returned
    rcases stage_entryPc cfg call with pending | ⟨reads, _⟩
    · simp [returned, Pc.stage] at pending
    · simp [reads] at writes

theorem CallCopied.frame (before : CallCopied cfg contents t call during s)
    (thread : s'.threads t = s.threads t) :
    CallCopied cfg contents t call (during ++ [(s, e)]) s' := by
  refine ⟨by rw [thread, before.same], fun done positive => ?_,
    fun n bytes returned writes positive => ?_⟩
  · rw [thread] at done
    exact (before.done done positive).snoc
  · rw [thread] at returned
    exact (before.returned n bytes returned writes positive).snoc

theorem CallCopied.advance {choice : Nat} {past : List (Label (Call Key))}
    {tracker : Tracker (Call Key)} (steps : CurrentStep view s (.thread t choice))
    (holds : Orderly cfg s) (written : PagesWritten cfg view.contents trace s)
    (tracked : Tracked cfg past tracker s) (allowed : carefulWrites cfg s (.thread t choice) = true)
    (taken : step cfg s (.thread t choice) = some s')
    (before : CallCopied cfg view.contents t call during s) :
    CallCopied cfg view.contents t call (during ++ [(s, .thread t choice)]) s' := by
  have alone : createsOwnPage cfg s (.thread t choice) = true := by
    rw [carefulWrites, Bool.and_eq_true] at allowed
    exact allowed.2
  obtain rfl := before.same
  have same : (s'.threads t).call = (s.threads t).call := by
    refine call_of_step taken fun ready => ?_
    obtain ⟨instr, shared, reply, fetched, acted, rfl⟩ := step_thread taken
    rw [(next_ready fetched).1] at ready
    cases ready
  have advanced := tracked.stageStep allowed taken
  generalize stage : (s.threads t).pc.stage cfg (s.threads t).call = stage₀ at advanced
  generalize counter : (s'.threads t).pc = pc at advanced
  refine ⟨same, fun done positive => ?_, fun n bytes returned writes positive => ?_⟩
  · rw [counter] at done
    cases advanced with
    | stays kept none => exact (before.done (stage.trans (kept.symm.trans done)) positive).snoc
    | takesEffect _ now =>
      have effect : (s.threads t).call ∈ effectOf cfg s (.thread t choice) := by
        simp [effectOf, now, positive]
      obtain ⟨slot, buffer, rest⟩ := copied_of_effect steps holds written alone taken effect
      exact ⟨s', slot, buffer, .inl rfl, rest⟩
    | refuses => cases done
    | acknowledges => cases done
  · rw [counter] at returned
    subst returned
    cases advanced with
    | stays kept none =>
      obtain ⟨instr, shared, reply, fetched, acted, rfl⟩ := step_thread taken
      exact absurd (stage.trans kept.symm) (stage_ne_out fetched)
    | takesEffect done _ => cases done
    | refuses nothing _ =>
      rw [nothing writes] at positive
      exact absurd positive (Nat.lt_irrefl 0)
    | acknowledges _ none => exact (before.done stage positive).snoc

theorem CallCopied.step {past : List (Label (Call Key))} {tracker : Tracker (Call Key)}
    (steps : CurrentStep view s e) (holds : Orderly cfg s)
    (written : PagesWritten cfg view.contents trace s) (tracked : Tracked cfg past tracker s)
    (allowed : carefulWrites cfg s e = true) (taken : step cfg s e = some s')
    (running : ∀ call', e ≠ .start t call')
    (before : CallCopied cfg view.contents t call during s) :
    CallCopied cfg view.contents t call (during ++ [(s, e)]) s' := by
  cases stepForm_of_step taken with
  | @start t' call' _ =>
    have other : t ≠ t' := by
      rintro rfl
      exact running call' rfl
    exact before.frame (update_of_ne other _ _)
  | @thread t' choice =>
    by_cases same : t' = t
    · subst same
      exact before.advance steps holds written tracked allowed taken
    · exact before.frame (update_of_ne (Ne.symm same) _ _)
  | replica => exact before.frame rfl

theorem callCopied_of_segment {s₀ u₀ : cfg.State} (start : Initial cfg s₀)
    (run : (system cfg).Segment (currentWrites view) s₀ trace s) {first : cfg.Trace}
    (around : trace = first ++ (u₀, .start t call) :: during)
    (running : ∀ u e, (u, e) ∈ during → ∀ call', e ≠ .start t call') :
    CallCopied cfg view.contents t call during s := by
  -- the induction is on the run; its last step is the start itself or a step of the call
  induction run generalizing during with
  | refl => simp at around
  | @snoc u u' e trace before meets taken ih =>
    rcases List.eq_nil_or_concat during with rfl | ⟨during', last, rfl⟩
    · obtain ⟨_, same⟩ := List.append_inj' around rfl
      obtain ⟨rfl, rfl⟩ := Prod.mk.inj (List.cons.inj same).1
      obtain ⟨_, rfl⟩ := step_start taken
      exact callCopied_start
    · rw [List.concat_eq_append] at around running ⊢
      rw [← List.cons_append, ← List.append_assoc] at around
      obtain ⟨earlier, same⟩ := List.append_inj' around rfl
      obtain rfl := (List.cons.inj same).1
      obtain ⟨sound, holds, written⟩ := pagesWritten_of_segment start before
      obtain ⟨tracker, _, tracked⟩ :=
        tracked_of_segment start (before.mono fun _ _ meets => meets.1)
      have during := ih earlier fun v e' member =>
        running v e' (List.mem_append_left _ member)
      exact during.step ⟨sound, meets.2⟩ holds written tracked meets.1 taken (running u e (by simp))

end

/-! ### Acknowledged writes take effect -/

variable (cfg) in
/-- A `Put` or `Write` that has returned a positive count copied its bytes into the slot
of its key during the call; and when all calls have returned, the page of each key is its
initial content with the acknowledged writes applied in an order that respects real
time. -/
structure AcknowledgedWrites (contents : Mem → Pages)
    (trace : cfg.Trace) (s : cfg.State) : Prop where
  copied : ∀ t call first u₀ during n bytes, trace = first ++ (u₀, .start t call) :: during →
    (∀ u e, (u, e) ∈ during → ∀ call', e ≠ .start t call') →
    (s.threads t).pc = .returned n bytes → call.isWrite = true → 0 < n →
    CopiedDuring cfg contents call n during s
  applied : (∀ t, (s.threads t).pc.ready = true) → ∃ order,
    Linearizes (history cfg trace) order ∧ ∀ key slot, slotOf s key = some slot → ∃ base,
      InitialContent cfg contents trace key slot base ∧
        contents s.shared.pages slot = applyWrites cfg key (order.map Prod.snd) base

/-- **Acknowledged writes.** In every run in which a page that is created with data is
created by its writer and bytes are stored only to current lines. -/
theorem acknowledged_writes (view : cfg.memory.OneContent) {s₀ s : cfg.State}
    {trace : cfg.Trace} (start : Initial cfg s₀)
    (run : (system cfg).Segment (currentWrites view) s₀ trace s) :
    AcknowledgedWrites cfg view.contents trace s := by
  refine ⟨fun t call first u₀ during n bytes around running returned writes positive => ?_,
    fun ready => ?_⟩
  · exact (callCopied_of_segment start run around running).returned n bytes returned
      writes positive
  · obtain ⟨tracker, order, tracked⟩ :=
      tracked_of_segment start (run.mono fun _ _ meets => meets.1)
    obtain ⟨_, _, written⟩ := pagesWritten_of_segment start run
    have idle : ∀ t, tracker.progress t = .idle := by
      intro t
      have agrees := tracked.agrees t
      rwa [Matches, stage_out_iff_ready (ready t)] at agrees
    refine ⟨tracker.order, linearizes_of_tracks tracked.tracks idle, fun key slot known => ?_⟩
    obtain ⟨base, initial, page⟩ := written.pages key slot known
    refine ⟨base, initial, ?_⟩
    rw [order]
    refine page.resting fun t w writes => ?_
    have resting := ready t
    cases counter : (s.threads t).pc <;> simp_all [Pc.writeSection, Pc.ready]

end

/-! ### Two runs -/

section

/-- Thread 0 puts two bytes on a new page. When it is about to insert it, thread 1 puts
one byte on the same page and returns; then thread 0 goes on and returns 2. -/
def racingPuts : List (Event BlockId) :=
  steps 13 0 0 ++ [.start 1 (putCall 1 9)] ++ steps 12 1 1 ++ catchUp 1 1 ++ steps 2 1 1 ++
    steps 1 0 0 ++ catchUp 2 0 ++ steps 4 0 0

def Event.starts (t : Nat) : Event BlockId → Bool
  | .start t' _ => t' == t
  | _ => false

def secondLost (s : State BlockId Pages twoPool.nodes) : Bool :=
  (slotOf s pageKey).all fun slot => s.shared.pages slot 1 != 7

/-- The loser of the insertion is told that its bytes are written. -/
theorem write_lost_racingPuts :
    ∃ trace s, (system twoPool).Segment (fun _ _ => True) twoStart trace s ∧
      ¬ AcknowledgedWrites twoPool id trace s := by
  obtain ⟨trace, s, run, evaluated⟩ := System.exists_segment_of_trace
    (.of_sound (system twoPool) (fun _ _ => true) fun _ _ _ => trivial) initial_twoStart
    (.start 0 (putCall 2 7)) racingPuts
    (fun trace s => (s.threads 0).pc.result == some (2, []) && secondLost s &&
      trace.all fun moment => secondLost moment.1 && !moment.2.starts 0)
    (by decide +kernel)
  simp only [Bool.and_eq_true, List.all_eq_true, Prod.forall, Bool.not_eq_true'] at evaluated
  obtain ⟨⟨returns, lost⟩, during⟩ := evaluated
  refine ⟨_, s, run, fun acknowledged => ?_⟩
  obtain ⟨u, slot, buffer, moment, known, data, copied⟩ := acknowledged.copied 0 (putCall 2 7) []
    twoStart trace 2 [] rfl
    (fun u e member call' same => by simpa [same, Event.starts] using (during u e member).2)
    (eq_returned (beq_iff_eq.mp returns)) rfl Nat.two_pos
  have lost' : secondLost u = true := by
    rcases moment with rfl | ⟨e, member⟩
    · exact lost
    · exact (during u e member).1
  obtain rfl := Option.some.inj data
  have second := copied 1 Nat.one_lt_two
  simp only [secondLost] at lost'
  rw [show slotOf u pageKey = some slot from known, Option.all_some, bne_iff_ne] at lost'
  exact lost' second

/-- Thread 0 puts a new page. When thread 1 on the other host has copied one of the two bytes it
puts on the page, thread 0 is about to put one there, too. -/
def overlappingPuts : List (Event BlockId) :=
  List.flatten
    [steps 14 0 0, catchUp 1 0, steps 2 0 0, catchUp 1 1,
      [.start 1 (putCall 2 9), .start 0 (putCall 1 5)], steps 6 1 0, steps 3 0 0, steps 7 1 0,
      steps 8 0 0]

/-- Two overlapping `Put`s behind private caches. -/
theorem acknowledged_writes_overlappingPuts :
    ∃ trace s, (system cachedPool).Segment (currentWrites cachedView) cachedStart trace s ∧
      ((s.threads 0).pc.result = some (1, []) ∧ (s.threads 1).pc.result = some (2, [])) ∧
      AcknowledgedWrites cachedPool cachedView.contents trace s := by
  have tests : System.Tests (system cachedPool) (fun _ => True)
      (fun s e => carefulWrites cachedPool s e && currentTest s e) (currentWrites cachedView) := by
    refine .of_sound _ _ fun s e passes => ?_
    rw [Bool.and_eq_true] at passes
    exact ⟨passes.1, (current_of_currentTest passes.2).1⟩
  obtain ⟨trace, s, run, returns⟩ := System.exists_segment_of_trace tests initial_cachedStart
    (.start 0 (putCall 2 7)) overlappingPuts
    (fun _ s => decide ((s.threads 0).pc.result = some (1, []) ∧
      (s.threads 1).pc.result = some (2, []))) (by decide +kernel)
  exact ⟨_, s, run, of_decide_eq_true returns,
    acknowledged_writes cachedView initial_cachedStart run⟩

end

end Megalon.Protocol
