import Megalon.Protocol.AnchoredReads
import Megalon.Protocol.LocalCounts

/-!
Contract: what happens when the 30-bit sequence of a record returns to 0: the thread
that ended the section appends `DummyLog` for the key of the record, and a host that
still has a count from before replays it, with a flush of the page, before the count can
match.

Owns: which counts are older than the last wrap of their record, which hosts have
replayed a flush since, and the condition on replay positions under which every wrap is
announced and no old count matches unflushed.

Does not own: counts that survive the reallocation of a record.
-/

namespace Megalon.Protocol

open Function Core Foundations Index

/-- The record on which the thread is about to call `WSeqEnd`. -/
def Pc.endsSection {Key : Type} {nodes : Nat} : Pc Key nodes → Option Nat
  | .createSeqEnd w | .switchSeqEnd w | .writeAbort _ w | .writeSeqEnd _ w => some w
  | _ => none

section

variable {Key Mem : Type} [BlockKey Key] (cfg : Config Key Mem)

/-- The event is a `WSeqEnd` that returns the sequence of `w` to 0. -/
def wraps (w : Nat) (s : cfg.State) : Event Key → Bool
  | .thread t _ => (s.threads t).pc.endsSection == some w &&
      (writeSeqlockEnd (s.shared.word w)).seq == 0
  | _ => false

/-- A wrap: the page of the section, and the length of the log. -/
structure Wrap (Key : Type) where
  key : Key
  slot : Nat
  position : Nat

def sectionWrap (s : cfg.State) : Event Key → Option (Wrap Key)
  | .thread t _ => (s.threads t).pc.writeSection.map fun page =>
      ⟨(s.threads t).call.key, page.1, s.shared.log.length⟩
  | _ => none

/-- The host that replays an entry of another host, and the slot it flushes. -/
def replayFlushes (s : cfg.State) : Event Key → Option (Fin cfg.nodes × Nat)
  | .replay r =>
    if inside : r < cfg.nodes then
      s.shared.log[s.shared.applied ⟨r, inside⟩]?.bind fun entry =>
        if cfg.replica entry.thread = ⟨r, inside⟩ then none
        else (replaySlot cfg.nodes s.shared.log (s.shared.applied ⟨r, inside⟩)).map fun slot =>
          (⟨r, inside⟩, slot)
    else none
  | _ => none

/-- `last w` is the last wrap of `w`. The count host `h` keeps for `w` is from before that wrap if
`old h w`, the one thread `t` has in hand if `inHand t`; `flushed h w` if `h` has replayed a flush
of the page since. -/
structure WrapState where
  base : cfg.State
  last : Nat → Option (Wrap Key)
  old : Fin cfg.nodes → Nat → Bool
  inHand : Nat → Bool
  flushed : Fin cfg.nodes → Nat → Bool

variable {cfg}

def trackLast (s : WrapState cfg) (e : Event Key) : Nat → Option (Wrap Key) :=
  fun w => if wraps cfg w s.base e then sectionWrap cfg s.base e else s.last w

/-- The event is a step of a thread with an old count in hand. -/
def WrapState.storesOld (s : WrapState cfg) : Event Key → Bool
  | .thread t _ => s.inHand t
  | _ => false

/-- A wrap makes every count old; the allocation of a record makes none so. -/
def trackOld (s : WrapState cfg) (e : Event Key) : Fin cfg.nodes → Nat → Bool :=
  fun h w =>
    if storesCount cfg s.base e = some (h, w) then s.storesOld e
    else (s.old h w || wraps cfg w s.base e) && !allocates cfg w s.base e

def trackInHand (s : WrapState cfg) (e : Event Key) : Nat → Bool :=
  fun t => match (s.base.threads t).pc.carries with
    | some (w, _) => (s.inHand t || wraps cfg w s.base e) && !allocates cfg w s.base e
    | none => false

def trackFlushed (s : WrapState cfg) (e : Event Key) : Fin cfg.nodes → Nat → Bool :=
  fun h w =>
    if wraps cfg w s.base e then false
    else s.flushed h w || (s.last w).any fun wrap =>
      replayFlushes cfg s.base e = some (h, wrap.slot)

variable (cfg)

def wrapSystem : System (WrapState cfg) (Event Key) where
  init := fun s => Initial cfg s.base ∧ (∀ w, s.last w = none) ∧ (∀ h w, s.old h w = false) ∧
    ∀ t, s.inHand t = false
  step := fun s e =>
    (step cfg s.base e).map fun base =>
      ⟨base, trackLast s e, trackOld s e, trackInHand s e, trackFlushed s e⟩

/-- Host `h` is past a `DummyLog` that another host has appended since the last wrap of `w`. -/
def Announced (s : WrapState cfg) (h : Fin cfg.nodes) (w : Nat) : Prop :=
  ∃ wrap p t, s.last w = some wrap ∧ wrap.position ≤ p ∧ p < s.base.shared.applied h ∧
    s.base.shared.log[p]? = some ⟨.seqCountWrapAround wrap.key, t⟩ ∧ cfg.replica t ≠ h

/-- An abandoned section does not wrap; when a section does, nobody has count 0; no section
begins while a host that is not past the announcement has a count from before the last wrap, or a
thread of it has; and `try_sync`, which does not flush, comes upon no `DummyLog`. -/
def settlesWraps (s : WrapState cfg) : Event Key → Prop
  | .thread t _ =>
    match (s.base.threads t).pc with
    | .writeAbort _ w => (writeSeqlockEnd (s.base.shared.word w)).seq ≠ 0
    | .writeSeqEnd _ w => (writeSeqlockEnd (s.base.shared.word w)).seq = 0 →
        (∀ h, s.base.shared.localSeq h w ≠ some 0) ∧
          ∀ t', (s.base.threads t').pc.carries ≠ some (w, 0)
    | .writeSeqBegin _ w =>
      (∀ h, s.base.shared.localSeq h w ≠ none → s.old h w = true → Announced cfg s h w) ∧
        ∀ t' seq, (s.base.threads t').pc.carries = some (w, seq) → s.inHand t' = true →
          Announced cfg s (cfg.replica t') w
    | _ => True
  | .sync r => ∀ (inside : r < cfg.nodes) (key : Key) (t : Nat),
      s.base.shared.log[s.base.shared.applied ⟨r, inside⟩]? ≠ some ⟨.seqCountWrapAround key, t⟩
  | _ => True

def orderlyWraps (s : WrapState cfg) (e : Event Key) : Prop :=
  orderly cfg s.base e = true ∧ settlesWraps cfg s e

/-- Whatever others do in between, the next step of thread `t` appends `DummyLog` for the key
that has record `w`. -/
def Announces (t w : Nat) (s : cfg.State) : Prop :=
  ∃ key, recordOf s key = some w ∧
    ∀ u choice, u.threads t = s.threads t → ∃ u', step cfg u (.thread t choice) = some u' ∧
      u'.shared.log = u.shared.log ++ [⟨.seqCountWrapAround key, t⟩]

/-- A host that keeps the current sequence of a record has taken it after the last wrap, or has
replayed a flush of the page since. -/
def OldCountsFlushed (s : WrapState cfg) : Prop :=
  ∀ h w seq, s.base.shared.localSeq h w = some seq → (s.base.shared.word w).seq = seq →
    s.old h w = true → s.flushed h w = true

/-! ### Records that are being bound -/

omit [BlockKey Key] in
def Pc.reserves {nodes : Nat} : Pc Key nodes → Option Nat
  | .recordBlock _ w | .createFill _ (some w) _ | .createFlush _ (some w) _
  | .createInsert _ (some w) | .createWait _ (some w) _ _ | .createSeqEnd w | .switchSubmit w
  | .switchWait w _ _ | .switchSeqEnd w => some w
  | _ => none

variable {cfg} {w : Nat}

theorem hold_of_reserves (call : Call Key) {pc : cfg.Pc} (reserves : pc.reserves = some w) :
    ∃ status, pc.hold call = some ⟨w, status⟩ := by
  cases pc with
  | createFill slot wmeta i | createFlush slot wmeta line | createInsert slot wmeta =>
    cases wmeta <;> cases reserves
    exact ⟨_, rfl⟩
  | createWait slot wmeta index error =>
    cases wmeta <;> cases reserves
    cases error <;> exact ⟨_, rfl⟩
  | switchWait w' index error =>
    cases reserves
    cases error <;> exact ⟨_, rfl⟩
  | recordBlock | createSeqEnd | switchSubmit | switchSeqEnd =>
    cases reserves
    exact ⟨_, rfl⟩
  | _ => cases reserves

theorem reserves_perform {t choice : Nat} {call : Call Key} {pc pc' : cfg.Pc}
    {act : Act Key} {s shared : cfg.Shared} {reply : act.Reply cfg.nodes}
    (move : Move cfg t call choice pc act reply pc')
    (acted : perform cfg t s act = some (shared, reply)) (reserves : pc'.reserves = some w) :
    (pc.reserves = some w ∧ shared.word = s.word) ∨ shared.word w = tryAllocateSeqlock := by
  cases move with
  | recordFound =>
    simp only [perform] at acted
    split at acted <;> cases acted
    cases reserves
    right
    simp [Shared.setWord]
  | recordCreates | recordSwitches =>
    cases acted
    exact .inl ⟨reserves, rfl⟩
  | @createFill _ wmeta | @createFilled _ wmeta | @createFlush _ wmeta | @createFlushed _ wmeta =>
    cases wmeta <;> cases reserves
    exact .inl ⟨rfl, (perform_quiet rfl acted).2.1⟩
  | @createInsert _ wmeta =>
    obtain ⟨rfl, _⟩ := perform_submit acted
    cases wmeta <;> cases reserves
    exact .inl ⟨rfl, rfl⟩
  | switchSubmit =>
    obtain ⟨rfl, _⟩ := perform_submit acted
    exact .inl ⟨reserves, rfl⟩
  | createKept | switchMade => exact .inl ⟨reserves, (perform_quiet rfl acted).2.1⟩
  | _ => cases reserves

/-! ### The invariant -/

variable (cfg) in
/-- Whoever has a count from before the last wrap has replayed a flush, or nobody has written
since the wrap and the count is not 0. -/
structure WrapInv (s : WrapState cfg) : Prop where
  orderly : Orderly cfg s.base
  applied : AppliedInside cfg s.base
  bound : ∀ t w, (s.base.threads t).pc.reserves = some w → (s.base.shared.word w).seq = 1
  last : ∀ w wrap, s.last w = some wrap → wrap.position ≤ s.base.shared.log.length ∧
    (pagesAt s.base.shared.log wrap.position).slot wrap.key = some wrap.slot
  flushed : ∀ h w, Announced cfg s h w → s.flushed h w = true
  stored : ∀ h w seq, s.base.shared.localSeq h w = some seq → s.old h w = true →
    s.flushed h w = true ∨ (s.base.shared.word w).seq = 0 ∧ seq ≠ 0
  carried : ∀ t w seq, (s.base.threads t).pc.carries = some (w, seq) → s.inHand t = true →
    s.flushed (cfg.replica t) w = true ∨ (s.base.shared.word w).seq = 0 ∧ seq ≠ 0

theorem wrapInv_initial (s : WrapState cfg) (start : (wrapSystem cfg).init s) : WrapInv cfg s where
  orderly := orderly_initial s.base start.1
  applied := appliedInside_initial s.base start.1
  bound := fun t w reserves => by
    rw [start.1.threads t] at reserves
    cases reserves
  last := fun w wrap present => by simp [start.2.1] at present
  flushed := by
    rintro h w ⟨wrap, _, _, present, _⟩
    simp [start.2.1] at present
  stored := fun h w seq _ old => by simp [start.2.2.1] at old
  carried := fun t w seq _ old => by simp [start.2.2.2] at old

section

variable {s : WrapState cfg} {e : Event Key} {base : cfg.State} {t w : Nat}

theorem bound_step (inv : WrapInv cfg s) (allowed : uncontested cfg s.base e = true)
    (taken : step cfg s.base e = some base) (reserves : (base.threads t).pc.reserves = some w) :
    (base.shared.word w).seq = 1 := by
  refine forall_threads_step (P := fun _ thread => ∀ w, thread.pc.reserves = some w →
    (base.shared.word w).seq = 1) taken ?_ ?_ ?_ t w reserves
  · intro t other w before
    obtain ⟨status, holds⟩ := hold_of_reserves (s.base.threads t).call before
    rw [word_kept_of_held inv.orderly.records allowed taken holds other]
    exact inv.bound t w before
  · intro _ call w reserves
    unfold Call.entryPc at reserves
    repeat' split at reserves
    all_goals cases reserves
  · rintro t choice act reply _ pc' _ rfl move acted w reserves
    rcases reserves_perform move acted reserves with ⟨before, kept⟩ | allocated
    · rw [kept]
      exact inv.bound t w before
    · rw [allocated]
      exact seq_tryAllocateSeqlock

/-- `CreateEntry` and `SwitchRW` end the section of the allocation, which does not wrap, and an
abandoned section must not. -/
theorem writeSeqEnd_of_wraps (inv : WrapInv cfg s) (allowed : settlesWraps cfg s e)
    (wrapping : wraps cfg w s.base e = true) :
    ∃ t choice slot, e = .thread t choice ∧ (s.base.threads t).pc = .writeSeqEnd slot w ∧
      (writeSeqlockEnd (s.base.shared.word w)).seq = 0 := by
  cases e with
  | thread t choice =>
    simp only [wraps, Bool.and_eq_true, beq_iff_eq] at wrapping
    obtain ⟨ends, zero⟩ := wrapping
    have notFirst : (s.base.threads t).pc.reserves ≠ some w := by
      intro reserves
      simp [seq_writeSeqlockEnd, inv.bound t w reserves] at zero
    cases counter : (s.base.threads t).pc with
    | writeSeqEnd slot w' =>
      rw [counter] at ends
      cases ends
      exact ⟨t, choice, slot, rfl, counter, zero⟩
    | writeAbort slot w' =>
      rw [counter] at ends
      cases ends
      simp only [settlesWraps, counter] at allowed
      exact absurd zero allowed
    | createSeqEnd w' | switchSeqEnd w' =>
      rw [counter] at ends notFirst
      cases ends
      exact absurd rfl notFirst
    | _ =>
      rw [counter] at ends
      cases ends
  | _ => cases wrapping

theorem seq_of_wraps (inv : WrapInv cfg s) (allowed : settlesWraps cfg s e)
    (taken : step cfg s.base e = some base) (wrapping : wraps cfg w s.base e = true) :
    (base.shared.word w).seq = 0 := by
  obtain ⟨t, choice, slot, rfl, counter, zero⟩ := writeSeqEnd_of_wraps inv allowed wrapping
  obtain ⟨instr, shared, reply, fetched, acted, rfl⟩ := step_thread taken
  rw [counter] at fetched
  cases fetched
  cases acted
  simpa [Shared.setWord] using zero

variable {seq : Nat}

theorem settled_step (inv : WrapInv cfg s) (allowed : uncontested cfg s.base e = true)
    (taken : step cfg s.base e = some base) {h : Fin cfg.nodes}
    (wrapless : wraps cfg w s.base e = false) (used : allocates cfg w s.base e = false)
    (begins : beginsSection cfg w s.base e = true → s.flushed h w = true)
    (before : s.flushed h w = true ∨ (s.base.shared.word w).seq = 0 ∧ seq ≠ 0) :
    trackFlushed s e h w = true ∨ (base.shared.word w).seq = 0 ∧ seq ≠ 0 := by
  have records := inv.orderly.records
  by_cases clean : s.flushed h w = true
  · left
    simp [trackFlushed, wrapless, clean]
  obtain ⟨zero, nonzero⟩ := before.resolve_left clean
  refine .inr ⟨?_, nonzero⟩
  rcases word_step records allowed taken w with kept | ⟨t, choice, rfl, changed⟩
  · rwa [kept]
  generalize base.shared.word w = after at changed
  cases changed with
  | allocated at_scan inside this free =>
    rw [allocates_of_free records at_scan inside this free] at used
    cases used
  | begun at_begin inUse _ => exact absurd (begins (by simp [beginsSection, at_begin, inUse])) clean
  | lockedOnly => rwa [seq_writeSeqlockOnly]
  | ended holds =>
    have parity := records.parity t _ holds
    simp [HoldStatus.odd, zero] at parity
  | freed holds _ =>
    rw [seq_freeSeqlockWithLock, zero]
    rfl

/-! ### The announcement is replayed with a flush -/

theorem last_step (inv : WrapInv cfg s) (allowed : settlesWraps cfg s e)
    (taken : step cfg s.base e = some base) {wrap : Wrap Key}
    (present : trackLast s e w = some wrap) : wrap.position ≤ base.shared.log.length ∧
      (pagesAt base.shared.log wrap.position).slot wrap.key = some wrap.slot := by
  obtain ⟨more, log⟩ := log_step_append taken
  have known : wrap.position ≤ s.base.shared.log.length ∧
      (pagesAt s.base.shared.log wrap.position).slot wrap.key = some wrap.slot := by
    rw [trackLast] at present
    split at present
    · rename_i wrapping
      obtain ⟨t, choice, slot, rfl, counter, _⟩ := writeSeqEnd_of_wraps inv allowed wrapping
      simp only [sectionWrap, counter, Pc.writeSection, Option.map_some, Option.some.injEq]
        at present
      subst present
      have own := inv.orderly.writers t slot w (by rw [counter]; rfl)
      exact ⟨Nat.le_refl _, PageMap.slot_of_some own⟩
    · exact inv.last w wrap present
  rw [log, List.length_append, pagesAt_append more known.1]
  exact ⟨known.1.trans (Nat.le_add_right ..), known.2⟩

/-- The replay of a `DummyLog` of another host flushes the page of its key. -/
theorem replayFlushes_announcement {wrap : Wrap Key} {h : Fin cfg.nodes} (inv : WrapInv cfg s)
    (last : s.last w = some wrap) (after : wrap.position ≤ s.base.shared.applied h)
    (present : s.base.shared.log[s.base.shared.applied h]? =
      some ⟨.seqCountWrapAround wrap.key, t⟩) (other : cfg.replica t ≠ h) :
    replayFlushes cfg s.base (.replay h) = some (h, wrap.slot) := by
  have slot := slot_pagesAt_mono after (inv.last w wrap last).2
  simp only [replayFlushes, h.isLt, dif_pos, present, Option.bind_some, other, if_false,
    replaySlot_eq cfg.nodes present, Request.reports, slot, Option.map_some]

theorem flushed_step (inv : WrapInv cfg s) (allowed : settlesWraps cfg s e)
    (taken : step cfg s.base e = some base) {h : Fin cfg.nodes}
    (announced : Announced cfg ⟨base, trackLast s e, trackOld s e, trackInHand s e,
      trackFlushed s e⟩ h w) : trackFlushed s e h w = true := by
  obtain ⟨wrap, p, t, last, after, replayed, present, other⟩ := announced
  have inside := inv.applied h
  obtain ⟨more, log⟩ := log_step_append taken
  simp only [trackLast] at last replayed present
  by_cases wrapping : wraps cfg w s.base e = true
  · -- nobody can be past an announcement that is still to come
    obtain ⟨t', choice, slot, rfl, counter, _⟩ := writeSeqEnd_of_wraps inv allowed wrapping
    rw [if_pos wrapping, sectionWrap, counter] at last
    cases last
    rcases applied_step taken h with same | ⟨replays | syncs, _⟩
    · simp only at after
      omega
    · cases replays
    · cases syncs
  rw [if_neg wrapping] at last
  have old : p < s.base.shared.applied h → trackFlushed s e h w = true := by
    intro before
    rw [log, List.getElem?_append_left (by omega)] at present
    have flushed := inv.flushed h w ⟨wrap, p, t, last, after, before, present, other⟩
    simp [trackFlushed, wrapping, flushed]
  rcases applied_step taken h with same | ⟨replays, next, room⟩
  · exact old (by omega)
  rcases Nat.lt_or_eq_of_le (by omega : p ≤ s.base.shared.applied h) with before | rfl
  · exact old before
  rw [log, List.getElem?_append_left room] at present
  rcases replays with rfl | rfl
  · simp [trackFlushed, wrapping, last,
      replayFlushes_announcement inv last after present other]
  · exact absurd present (allowed h.isLt wrap.key t)

theorem announced_of_begins (allowed : settlesWraps cfg s e)
    (begins : beginsSection cfg w s.base e = true) :
    (∀ h, s.base.shared.localSeq h w ≠ none → s.old h w = true → Announced cfg s h w) ∧
      ∀ t seq, (s.base.threads t).pc.carries = some (w, seq) → s.inHand t = true →
        Announced cfg s (cfg.replica t) w := by
  cases e with
  | thread t choice =>
    simp only [beginsSection] at begins
    split at begins
    · rename_i slot w' counter
      simp only [Bool.and_eq_true, beq_iff_eq] at begins
      obtain ⟨rfl, _⟩ := begins
      simpa only [settlesWraps, counter] using allowed
    · cases begins
  | _ => cases begins

variable (inv : WrapInv cfg s)

include inv

theorem nonzero_of_wraps (allowed : settlesWraps cfg s e)
    (wrapping : wraps cfg w s.base e = true) :
    (∀ h, s.base.shared.localSeq h w ≠ some 0) ∧
      ∀ t, (s.base.threads t).pc.carries ≠ some (w, 0) := by
  obtain ⟨t, choice, slot, rfl, counter, zero⟩ := writeSeqEnd_of_wraps inv allowed wrapping
  simp only [settlesWraps, counter] at allowed
  exact allowed zero

theorem carried_settled (allowed : orderlyWraps cfg s e)
    (taken : step cfg s.base e = some base)
    (carries : (s.base.threads t).pc.carries = some (w, seq)) (old : trackInHand s e t = true) :
    trackFlushed s e (cfg.replica t) w = true ∨ (base.shared.word w).seq = 0 ∧ seq ≠ 0 := by
  simp only [trackInHand, carries, Bool.and_eq_true, Bool.or_eq_true, Bool.not_eq_true'] at old
  obtain ⟨old, used⟩ := old
  by_cases wrapping : wraps cfg w s.base e = true
  · refine .inr ⟨seq_of_wraps inv allowed.2 taken wrapping, ?_⟩
    rintro rfl
    exact (nonzero_of_wraps inv allowed.2 wrapping).2 t carries
  · have before := old.resolve_right wrapping
    exact settled_step inv (uncontested_of_orderly allowed.1) taken
      (eq_false_of_ne_true wrapping) used
      (fun begins => inv.flushed _ _
        ((announced_of_begins allowed.2 begins).2 t seq carries before))
      (inv.carried t w seq carries before)

theorem carries_of_trackInHand (taken : step cfg s.base e = some base)
    {count : Nat × Nat} (carries : (base.threads t).pc.carries = some count)
    (old : trackInHand s e t = true) : (s.base.threads t).pc.carries = some count := by
  by_cases own : ∃ choice, e = .thread t choice
  · obtain ⟨choice, rfl⟩ := own
    obtain ⟨_, _, _, _, move, acted, rfl⟩ := step_move taken
    simp only [update_self] at carries
    rcases takes_or_carries inv.orderly.records move acted carries with before | ⟨new, _⟩
    · exact before
    · simp [trackInHand, new] at old
  · exact carries_other taken (fun choice now => own ⟨choice, now⟩) carries

theorem stored_settled (allowed : orderlyWraps cfg s e)
    (taken : step cfg s.base e = some base) {h : Fin cfg.nodes}
    (stored : base.shared.localSeq h w = some seq) (old : trackOld s e h w = true) :
    trackFlushed s e h w = true ∨ (base.shared.word w).seq = 0 ∧ seq ≠ 0 := by
  rcases localSeq_step taken stored with ⟨before, other⟩ | ⟨t, choice, rfl, now, carries⟩
  · simp only [trackOld, if_neg other, Bool.and_eq_true, Bool.or_eq_true,
      Bool.not_eq_true'] at old
    obtain ⟨old, used⟩ := old
    by_cases wrapping : wraps cfg w s.base e = true
    · refine .inr ⟨seq_of_wraps inv allowed.2 taken wrapping, ?_⟩
      rintro rfl
      exact (nonzero_of_wraps inv allowed.2 wrapping).1 h before
    · have before_ := old.resolve_right wrapping
      exact settled_step inv (uncontested_of_orderly allowed.1) taken
        (eq_false_of_ne_true wrapping) used
        (fun begins => inv.flushed _ _
          ((announced_of_begins allowed.2 begins).1 h (by simp [before]) before_))
        (inv.stored h w seq before before_)
  · -- the thread puts down the count it had in hand
    have here : h = cfg.replica t ∧ wraps cfg w s.base (.thread t choice) = false ∧
        allocates cfg w s.base (.thread t choice) = false := by
      simp only [storesCount] at now
      split at now
      all_goals cases now
      all_goals
        rename_i counter
        simp [wraps, allocates, counter, Pc.endsSection]
    obtain ⟨rfl, wrapless, used⟩ := here
    rw [trackOld, if_pos now] at old
    refine carried_settled inv allowed taken carries ?_
    simp only [WrapState.storesOld] at old
    simp [trackInHand, carries, old, used]

end

theorem wrapInv_step (s : WrapState cfg) (e : Event Key) (s' : WrapState cfg)
    (inv : WrapInv cfg s) (allowed : orderlyWraps cfg s e)
    (taken : (wrapSystem cfg).step s e = some s') : WrapInv cfg s' := by
  obtain ⟨base, stepped, rfl⟩ := Option.map_eq_some_iff.mp taken
  exact
    { orderly := orderly_step s.base e base inv.orderly allowed.1 stepped
      applied := appliedInside_step s.base e base inv.applied stepped
      last := fun w wrap => last_step inv allowed.2 stepped
      flushed := fun h w => flushed_step inv allowed.2 stepped
      bound := fun t w => bound_step inv (uncontested_of_orderly allowed.1) stepped
      stored := fun h w seq => stored_settled inv allowed stepped
      carried := fun t w seq carries old =>
        carried_settled inv allowed stepped (carries_of_trackInHand inv stepped carries old) old }

theorem announces_of_wraps {s : WrapState cfg} (inv : WrapInv cfg s) {t choice : Nat}
    {base : cfg.State} (allowed : orderlyWraps cfg s (.thread t choice))
    (taken : step cfg s.base (.thread t choice) = some base)
    (wrapping : wraps cfg w s.base (.thread t choice) = true) : Announces cfg t w base := by
  obtain ⟨_, _, slot, same, counter, zero⟩ := writeSeqEnd_of_wraps inv allowed.2 wrapping
  cases same
  have own := inv.orderly.writers t slot w (by rw [counter]; rfl)
  obtain ⟨instr, shared, reply, fetched, acted, rfl⟩ := step_thread taken
  rw [counter] at fetched
  cases fetched
  cases acted
  refine ⟨(s.base.threads t).call.key, ?_, fun u choice' same => ?_⟩
  · rw [recordOf_eq]
    exact PageMap.record_of_some own
  · simp only [update_self, zero, if_true] at same
    obtain ⟨response, submitted⟩ :=
      perform_submit_some t u.shared (.seqCountWrapAround (s.base.threads t).call.key)
    exact ⟨_, step_of_perform (by rw [same]; rfl) submitted, rfl⟩

/-- **Wraps are announced** in orderly runs whose wraps are settled before the next section:
the thread that returns a sequence to 0 appends `DummyLog`, and no count from before matches on
a host that has not replayed a flush. -/
theorem wraps_announced {s : WrapState cfg}
    (reached : (wrapSystem cfg).ReachableWhere (orderlyWraps cfg) s) :
    (∀ t choice w s', orderlyWraps cfg s (.thread t choice) →
      (wrapSystem cfg).step s (.thread t choice) = some s' →
      wraps cfg w s.base (.thread t choice) = true → Announces cfg t w s'.base) ∧
    OldCountsFlushed cfg s := by
  have inv : WrapInv cfg s := reached.invariant wrapInv_initial wrapInv_step
  refine ⟨fun t choice w s' allowed taken wrapping => ?_, fun h w seq stored current old => ?_⟩
  · obtain ⟨base, stepped, rfl⟩ := Option.map_eq_some_iff.mp taken
    exact announces_of_wraps inv allowed stepped wrapping
  · rcases inv.stored h w seq stored old with flushed | ⟨zero, nonzero⟩
    · exact flushed
    · exact absurd (current.symm.trans zero) nonzero

end

/-! ### A run of `2 ^ 29` sections -/

section

theorem endsSection_of_carries {Key : Type} {nodes : Nat} {pc : Pc Key nodes} {count : Nat × Nat}
    (carries : pc.carries = some count) : pc.endsSection = none := by
  cases pc <;> first
    | rfl
    | cases carries

def Pc.guarded {Key : Type} {nodes : Nat} : Pc Key nodes → Bool
  | .createInsert _ _ | .switchSubmit _ | .createRecycle _ _ | .writeSeqBegin _ _
  | .writeAbort _ _ | .writeSeqEnd _ _ => true
  | _ => false

theorem orderlyWraps_of_unguarded {s : WrapState onePool} {t choice : Nat}
    (free : (s.base.threads t).pc.guarded = false) : orderlyWraps onePool s (.thread t choice) := by
  cases counter : (s.base.threads t).pc with
  | createInsert | switchSubmit | createRecycle | writeSeqBegin | writeAbort | writeSeqEnd =>
    rw [counter] at free
    cases free
  | _ => simp [orderlyWraps, orderly, uncontested, locksOwnRecord, settlesWraps, counter]

def wrapStart : WrapState onePool :=
  ⟨start, fun _ => none, fun _ _ => false, fun _ => false, fun _ _ => false⟩

theorem initial_wrapStart : (wrapSystem onePool).init wrapStart :=
  ⟨initial_start, fun _ => rfl, fun _ _ => rfl, fun _ => rfl⟩

/-- Thread 0 is about to write the page again; thread 1 on the other host reclaims its record,
makes the page writable with the same record and writes it. -/
def recordRebound : List (Event BlockId) :=
  List.flatten
    [putAgain, catchUp 1 1, [.start 1 ⟨.iterativeReclaim, pageKey, none, 1, 0⟩], steps 3 1 0,
      catchUp 1 1, steps 3 1 0, [.start 1 (putCall 1 9)], steps 7 1 0, catchUp 1 1, steps 2 1 0,
      catchUp 2 0, steps 11 1 0]

def wraplessTest (s : WrapState onePool) (e : Event BlockId) : Bool :=
  e.within 2 && orderly onePool s.base e && match e with
    | .thread t _ =>
      match (s.base.threads t).pc with
      | .writeAbort _ w | .writeSeqEnd _ w => (writeSeqlockEnd (s.base.shared.word w)).seq != 0
      | .writeSeqBegin _ w =>
        ((List.finRange 2).all fun h => !s.old h w) && (List.range 2).all fun t => !s.inHand t
      | _ => true
    | .sync _ => false
    | _ => true

theorem wraplessTest_sound :
    System.Tests (wrapSystem onePool) (fun s => OthersIdle 2 s.base) wraplessTest
      (orderlyWraps onePool) where
  initial := fun s begins => othersIdle_initial 2 s.base begins.1
  kept := fun s e s' idle passes taken => by
    obtain ⟨base, stepped, rfl⟩ := Option.map_eq_some_iff.mp taken
    simp only [wraplessTest, Bool.and_eq_true] at passes
    exact othersIdle_step idle passes.1.1 stepped
  sound := fun s e idle passes => by
    simp only [wraplessTest, Bool.and_eq_true] at passes
    obtain ⟨⟨_, meets⟩, checked⟩ := passes
    refine ⟨meets, ?_⟩
    cases e with
    | thread t choice =>
      simp only [settlesWraps]
      cases counter : (s.base.threads t).pc with
      | writeAbort slot w => simpa [counter] using checked
      | writeSeqEnd slot w =>
        intro zero
        simp [counter, zero] at checked
      | writeSeqBegin slot w =>
        simp only [counter, Bool.and_eq_true, List.all_eq_true, Bool.not_eq_true'] at checked
        refine ⟨fun h _ old => ?_, fun t' seq carries old => ?_⟩
        · simp [checked.1 h (List.mem_finRange h)] at old
        · rcases Nat.lt_or_ge t' 2 with inside | beyond
          · simp [checked.2 t' (List.mem_range.mpr inside)] at old
          · rw [idle t' beyond] at carries
            cases carries
      | _ => trivial
    | sync => cases checked
    | _ => trivial

/-- Thread 0 waits to write the page with its notification gone, and thread 1 is in a `Put` of
the page; all counts are from after the last wrap. -/
structure Parked (pc : Pc BlockId onePool.nodes) (word : SeqWord) (notif : Option Nat)
    (s : WrapState onePool) : Prop where
  reached : (wrapSystem onePool).ReachableWhere (orderlyWraps onePool) s
  waits : (s.base.threads 0).pc = .writeSeqBegin 0 0 ∧ (s.base.threads 0).call.key = pageKey
  writer : (s.base.threads 1).pc = pc ∧
    (pc.ready = false → (s.base.threads 1).call = putCall 1 9)
  idle : OthersIdle 2 s.base
  notifs : s.base.shared.changeNotif 0 = none ∧ s.base.shared.changeNotif 1 = notif
  word : s.base.shared.word 0 = word
  owner : s.base.shared.blockId 0 = pageKey
  tails : s.base.shared.ctail = 3 ∧ s.base.shared.ltail (onePool.replica 1) = 3 ∧
    s.base.shared.applied (onePool.replica 1) = 3
  page : pagesAt s.base.shared.log 3 pageKey = some ⟨0, some 0⟩
  counts : ∀ h, s.base.shared.localSeq h 0 ≠ some 0
  recent : (∀ h, s.old h 0 = false) ∧ s.inHand 1 = false

namespace Parked

variable {pc : Pc BlockId onePool.nodes} {word : SeqWord} {notif : Option Nat}
  {s : WrapState onePool}

theorem carries_other (here : Parked pc word notif s) {t : Nat} (other : t ≠ 1) :
    (s.base.threads t).pc.carries = none := by
  rcases Nat.lt_or_ge t 2 with inside | beyond
  · obtain rfl : t = 0 := by omega
    rw [here.waits.1]
    rfl
  · rw [here.idle t beyond]
    rfl

variable {shared : Shared BlockId Pages onePool.nodes}

theorem advance (here : Parked pc word notif s) {instr : Instr BlockId onePool.nodes}
    {reply : instr.act.Reply onePool.nodes}
    (fetched : next onePool 1 (putCall 1 9) 0 pc = some instr)
    (acted : perform onePool 1 s.base.shared instr.act = some (shared, reply))
    (allowed : orderlyWraps onePool s (.thread 1 0))
    (wrapless : pc.endsSection = some 0 → (writeSeqlockEnd word).seq ≠ 0)
    (silent : shared.log = s.base.shared.log ∧ shared.blockId = s.base.shared.blockId)
    (counts : ∀ h, shared.localSeq h 0 ≠ some 0) :
    ∃ s', Parked (instr.resume reply) (shared.word 0) (shared.changeNotif 1) s' := by
  have frame := perform_frame acted
  have busy : pc.ready = false := by
    cases pc <;> first
      | rfl
      | cases fetched
  have stepped : step onePool s.base (.thread 1 0) = _ :=
    step_of_perform (by rw [here.writer.1, here.writer.2 busy]; exact fetched) acted
  have quiet : wraps onePool 0 s.base (.thread 1 0) = false := by
    simp only [wraps, here.writer.1, here.word]
    by_cases ends : pc.endsSection = some 0
    · rw [beq_eq_false_iff_ne.mpr (wrapless ends), Bool.and_false]
    · rw [beq_eq_false_iff_ne.mpr ends, Bool.false_and]
  refine ⟨_, ⟨here.reached.step allowed (Option.map_eq_some_iff.mpr ⟨_, stepped, rfl⟩), ?_, ?_,
    othersIdle_step here.idle (by decide) stepped, ?_, rfl, ?_, ?_, ?_, counts, ?_⟩⟩
  · simpa using here.waits
  · simp [here.writer.2 busy]
  · exact ⟨(frame.changeNotif 0 (.inl (by decide))).trans here.notifs.1, rfl⟩
  · simpa [silent.2] using here.owner
  · simpa [frame.ctail, frame.ltail, frame.applied] using here.tails
  · simpa [silent.1] using here.page
  · constructor
    · intro h
      simp only [trackOld, here.recent.1 h, quiet, Bool.or_self, Bool.false_and]
      split
      · exact here.recent.2
      · rfl
    · simp only [trackInHand, here.writer.1]
      split
      · rename_i carries
        simp [wraps, here.writer.1, endsSection_of_carries carries, here.recent.2]
      · rfl

theorem advanceQuiet (here : Parked pc word notif s) {instr : Instr BlockId onePool.nodes}
    {reply : instr.act.Reply onePool.nodes}
    (fetched : next onePool 1 (putCall 1 9) 0 pc = some instr)
    (acted : perform onePool 1 s.base.shared instr.act = some (shared, reply))
    (free : pc.guarded = false) (unended : pc.endsSection = none) (quiet : instr.act.quiet = true)
    (uncounted : instr.act.onLocalSeq = false) :
    ∃ s', Parked (instr.resume reply) word (shared.changeNotif 1) s' := by
  obtain ⟨log, words, blockId⟩ := perform_quiet quiet acted
  have counts : ∀ h, shared.localSeq h 0 ≠ some 0 := by
    rw [(perform_frame acted).localSeq uncounted]
    exact here.counts
  have advanced := here.advance fetched acted
    (orderlyWraps_of_unguarded (by rw [here.writer.1]; exact free))
    (fun ends => by simp [unended] at ends) ⟨log, blockId⟩ counts
  rwa [words, here.word] at advanced

theorem starts (here : Parked (.returned 1 []) word notif s) :
    ∃ s', Parked .anchorCtail word notif s' := by
  have stepped : step onePool s.base (.start 1 (putCall 1 9)) =
      some ⟨s.base.shared, update s.base.threads 1 ⟨putCall 1 9, .anchorCtail⟩⟩ := by
    simp only [step, here.writer.1]
    rfl
  have allowed : orderlyWraps onePool s (.start 1 (putCall 1 9)) := ⟨rfl, trivial⟩
  refine ⟨_, ⟨here.reached.step allowed (Option.map_eq_some_iff.mpr ⟨_, stepped, rfl⟩), ?_,
    ?_, othersIdle_step here.idle (by decide) stepped, here.notifs, here.word, here.owner,
    here.tails, here.page, here.counts, ?_⟩⟩
  · simpa using here.waits
  · simp
  · simpa [trackOld, trackInHand, storesCount, wraps, allocates, here.writer.1, Pc.carries] using
      here.recent.1

theorem anchors (here : Parked .anchorCtail word notif s) :
    ∃ s', Parked (.writeSeqBegin 0 0) word (some 0) s' := by
  obtain ⟨s₁, at₁⟩ : ∃ s₁, Parked (.anchorLookup 3) word notif s₁ := by
    simpa only [here.tails, here.notifs] using here.advanceQuiet rfl rfl rfl rfl rfl rfl
  have found : perform onePool 1 s₁.base.shared (.lookup pageKey 3) =
      some (s₁.base.shared, some (cxlEntry 0 (some 0))) := by
    simp only [perform, at₁.tails, Nat.le_refl, and_self, if_true, stateAt_eq,
      PageMap.toDirectory_some _ at₁.page]
  obtain ⟨s₂, at₂⟩ : ∃ s₂, Parked (.anchorStore (some (cxlEntry 0 (some 0)))) word notif s₂ := by
    simpa only [at₁.notifs] using at₁.advanceQuiet rfl found rfl rfl rfl rfl
  exact at₂.advanceQuiet rfl rfl rfl rfl rfl rfl

theorem writes (here : Parked (.writeSeqBegin 0 0) word (some 0) s) (used : word.isFree = false)
    (unlocked : word.isLocked = false) :
    ∃ s', Parked (.writeSeqEnd 0 0) (writeSeqlockBegin word) none s' := by
  obtain ⟨s₁, at₁⟩ :
      ∃ s₁, Parked (.writeNotified 0 0) (writeSeqlockBegin word) (some 0) s₁ := by
    have locked : perform onePool 1 s.base.shared (.wSeqBegin 0) =
        some (s.base.shared.setWord 0 (writeSeqlockBegin word), true) := by
      simp [perform, acquire, here.word, used, unlocked]
    have allowed : orderlyWraps onePool s (.thread 1 0) := by
      refine ⟨by simp [orderly, uncontested, locksOwnRecord, here.writer.1, here.writer.2 rfl,
        here.owner, putCall], ?_⟩
      simp only [settlesWraps, here.writer.1]
      refine ⟨fun h _ old => by simp [here.recent.1 h] at old, fun t seq carries old => ?_⟩
      by_cases other : t = 1
      · subst other
        simp [here.recent.2] at old
      · simp [here.carries_other other] at carries
    simpa [Shared.setWord, here.notifs] using here.advance rfl locked allowed
      (fun ends => by cases ends) ⟨rfl, rfl⟩ here.counts
  obtain ⟨s₂, at₂⟩ : ∃ s₂, Parked (.writeCopy 0 0 0) (writeSeqlockBegin word) none s₂ := by
    simpa [at₁.notifs] using at₁.advanceQuiet rfl rfl rfl rfl rfl rfl
  obtain ⟨s₃, at₃⟩ : ∃ s₃, Parked (.writeCopy 0 0 1) (writeSeqlockBegin word) none s₃ := by
    simpa only [at₂.notifs] using at₂.advanceQuiet rfl rfl rfl rfl rfl rfl
  obtain ⟨s₄, at₄⟩ : ∃ s₄, Parked (.writeFlush 0 0 0) (writeSeqlockBegin word) none s₄ := by
    have advanced := at₃.advanceQuiet rfl rfl rfl rfl rfl rfl
    rw [at₃.notifs.2] at advanced
    exact advanced
  obtain ⟨s₅, at₅⟩ : ∃ s₅, Parked (.writeFlush 0 0 1) (writeSeqlockBegin word) none s₅ := by
    simpa only [at₄.notifs] using at₄.advanceQuiet rfl rfl rfl rfl rfl rfl
  simpa only [at₅.notifs] using at₅.advanceQuiet rfl rfl rfl rfl rfl rfl

theorem ends (here : Parked (.writeSeqEnd 0 0) word none s)
    (wrapless : (writeSeqlockEnd word).seq ≠ 0) :
    ∃ s', Parked (.returned 1 []) (writeSeqlockEnd word) none s' := by
  have allowed : orderlyWraps onePool s (.thread 1 0) := by
    refine ⟨by simp [orderly, uncontested, locksOwnRecord, here.writer.1], ?_⟩
    simp only [settlesWraps, here.writer.1, here.word]
    exact fun zero => absurd zero wrapless
  obtain ⟨s₁, at₁⟩ : ∃ s₁, Parked (.writeRemember 0 (writeSeqlockEnd word).seq)
      (writeSeqlockEnd word) none s₁ := by
    have ended : perform onePool 1 s.base.shared (.wSeqEnd 0) =
        some (s.base.shared.setWord 0 (writeSeqlockEnd word), (writeSeqlockEnd word).seq) := by
      simp only [perform, here.word]
    have advanced := here.advance rfl ended allowed (fun _ => wrapless) ⟨rfl, rfl⟩ here.counts
    simpa only [Shared.setWord, update_self, here.notifs, if_neg wrapless] using advanced
  have allowed₁ : orderlyWraps onePool s₁ (.thread 1 0) :=
    orderlyWraps_of_unguarded (by rw [at₁.writer.1]; rfl)
  have counts : ∀ h, update s₁.base.shared.localSeq (onePool.replica 1)
      (update (s₁.base.shared.localSeq (onePool.replica 1)) 0
        (some (writeSeqlockEnd word).seq)) h 0 ≠ some 0 := by
    intro h stored
    rcases localSeq_update stored with ⟨_, _, same⟩ | ⟨_, before⟩
    · exact wrapless (Option.some.inj same)
    · exact at₁.counts h before
  have advanced := at₁.advance rfl rfl allowed₁ (fun ends => by cases ends) ⟨rfl, rfl⟩ counts
  simp only [at₁.notifs, at₁.word] at advanced
  exact advanced

end Parked

/-- What is left to evaluate of `Parked`. -/
def restsAtFour (s : WrapState onePool) : Bool :=
  (match (s.base.threads 0).pc with
    | .writeSeqBegin slot w => slot == 0 && w == 0
    | _ => false) &&
  (match (s.base.threads 1).pc with
    | .returned result bytes => result == 1 && bytes == []
    | _ => false) &&
  decide ((s.base.threads 0).call.key = pageKey ∧ s.base.shared.changeNotif 0 = none ∧
    s.base.shared.changeNotif 1 = none ∧ s.base.shared.word 0 = 4 ∧
    s.base.shared.blockId 0 = pageKey ∧ s.base.shared.ctail = 3 ∧
    s.base.shared.ltail (onePool.replica 1) = 3 ∧ s.base.shared.applied (onePool.replica 1) = 3 ∧
    pagesAt s.base.shared.log 3 pageKey = some ⟨0, some 0⟩ ∧ s.inHand 1 = false) &&
  (List.finRange 2).all fun h => s.base.shared.localSeq h 0 != some 0 && !s.old h 0

theorem parked_recordRebound : ∃ s, Parked (.returned 1 []) 4 none s := by
  have evaluated : ((wrapSystem onePool).runWhere wraplessTest wrapStart recordRebound).any
      restsAtFour = true := by decide +kernel
  obtain ⟨s, executed, rests⟩ := (Option.any_eq_true _ _).mp evaluated
  obtain ⟨reached, idle⟩ := System.reachableWhere_of_runWhere wraplessTest_sound
    (.initial initial_wrapStart) (wraplessTest_sound.initial _ initial_wrapStart) _ executed
  simp only [restsAtFour, Bool.and_eq_true, decide_eq_true_eq, List.all_eq_true, bne_iff_ne,
    Bool.not_eq_true'] at rests
  obtain ⟨⟨⟨waits, returned⟩, key, notif, notif', word, owner, ctail, ltail, applied, page,
    inHand⟩, hosts⟩ := rests
  refine ⟨s, reached, ⟨?_, key⟩, ⟨?_, fun busy => by cases busy⟩, idle, ⟨notif, notif'⟩, word,
    owner, ⟨ctail, ltail, applied⟩, page, fun h => (hosts h (List.mem_finRange h)).1,
    fun h => (hosts h (List.mem_finRange h)).2, inHand⟩
  · split at waits
    · rename_i counter
      simp only [Bool.and_eq_true, beq_iff_eq] at waits
      rw [counter, waits.1, waits.2]
    · cases waits
  · split at returned
    · rename_i counter
      simp only [Bool.and_eq_true, beq_iff_eq] at returned
      rw [counter, returned.1, returned.2]
    · cases returned

/-- **Many sections.** The sequence gets to every even value from 4 on. -/
theorem parked_at (n : Nat) (small : 4 + 2 * n < 2 ^ 30) :
    ∃ s word, Parked (.returned 1 []) word none s ∧ word.isFree = false ∧
      word.isLocked = false ∧ word.seq = 4 + 2 * n := by
  induction n with
  | zero =>
    obtain ⟨s, rests⟩ := parked_recordRebound
    exact ⟨s, 4, rests, by decide, by decide, by decide⟩
  | succ n ih =>
    obtain ⟨s₀, word, at₀, used, unlocked, seq⟩ := ih (by omega)
    obtain ⟨s₁, at₁⟩ := at₀.starts
    obtain ⟨s₂, at₂⟩ := at₁.anchors
    obtain ⟨s₃, at₃⟩ := at₂.writes used unlocked
    have next : (writeSeqlockEnd (writeSeqlockBegin word)).seq = 4 + 2 * (n + 1) := by
      rw [seq_writeSeqlockEnd, seq_writeSeqlockBegin, seq]
      omega
    obtain ⟨s₄, at₄⟩ := at₃.ends (by omega)
    exact ⟨s₄, _, at₄, isFree_writeSeqlockEnd _, isLocked_writeSeqlockEnd _, next⟩

theorem abandons_of_parked {s : WrapState onePool} {word : SeqWord}
    (here : Parked (.returned 1 []) word none s) (used : word.isFree = false)
    (unlocked : word.isLocked = false) :
    ∃ s', (wrapSystem onePool).ReachableWhere (orderlyWraps onePool) s' ∧
      (s'.base.threads 0).pc = .writeAbort 0 0 ∧
      s'.base.shared.word 0 = writeSeqlockBegin word := by
  have locked : perform onePool 0 s.base.shared (.wSeqBegin 0) =
      some (s.base.shared.setWord 0 (writeSeqlockBegin word), true) := by
    simp [perform, acquire, here.word, used, unlocked]
  have begins : step onePool s.base (.thread 0 0) = _ :=
    step_of_perform (by rw [here.waits.1]; rfl) locked
  have allowed : orderlyWraps onePool s (.thread 0 0) := by
    refine ⟨by simp [orderly, uncontested, locksOwnRecord, here.waits, here.owner], ?_⟩
    simp only [settlesWraps, here.waits.1]
    refine ⟨fun h _ old => by simp [here.recent.1 h] at old, fun t seq carries old => ?_⟩
    by_cases other : t = 1
    · subst other
      simp [here.recent.2] at old
    · simp [here.carries_other other] at carries
  obtain ⟨s₁, reached, counter, notif, odd⟩ :
      ∃ s₁, (wrapSystem onePool).ReachableWhere (orderlyWraps onePool) s₁ ∧
        (s₁.base.threads 0).pc = .writeNotified 0 0 ∧ s₁.base.shared.changeNotif 0 = none ∧
        s₁.base.shared.word 0 = writeSeqlockBegin word :=
    ⟨_, here.reached.step allowed (Option.map_eq_some_iff.mpr ⟨_, begins, rfl⟩), by simp,
      here.notifs.1, by simp [Shared.setWord]⟩
  have checks : step onePool s₁.base (.thread 0 0) = _ :=
    step_of_perform (by rw [counter]; rfl) rfl
  refine ⟨_, reached.step (orderlyWraps_of_unguarded (by rw [counter]; rfl))
    (Option.map_eq_some_iff.mpr ⟨_, checks, rfl⟩), ?_, odd⟩
  simp [notif]

/-- The section that thread 0 abandons ends at 0, and thread 0 looks the page up again. -/
theorem wrap_unannounced_abandoned :
    ∃ s s', (wrapSystem onePool).ReachableWhere (orderlyWraps onePool) s ∧
      orderly onePool s.base (.thread 0 0) = true ∧
      (wrapSystem onePool).step s (.thread 0 0) = some s' ∧
      wraps onePool 0 s.base (.thread 0 0) = true ∧ ¬ Announces onePool 0 0 s'.base := by
  obtain ⟨s₀, word, rests, used, unlocked, seq⟩ := parked_at (2 ^ 29 - 3) (by decide)
  obtain ⟨s, reached, counter, odd⟩ := abandons_of_parked rests used unlocked
  have ended : step onePool s.base (.thread 0 0) = _ :=
    step_of_perform (by rw [counter]; rfl) rfl
  refine ⟨s, _, reached, by simp [orderly, uncontested, locksOwnRecord, counter],
    Option.map_eq_some_iff.mpr ⟨_, ended, rfl⟩, ?_, ?_⟩
  · simp only [wraps, counter, Pc.endsSection, odd, seq_writeSeqlockEnd, seq_writeSeqlockBegin, seq]
    rfl
  · rintro ⟨key, _, announced⟩
    obtain ⟨u, stepped, appended⟩ := announced _ 0 rfl
    have looked : step onePool _ (.thread 0 0) = some u := stepped
    obtain ⟨instr, shared, reply, fetched, acted, rfl⟩ := step_thread looked
    simp only [update_self] at fetched
    cases fetched
    cases acted
    simp [Shared.setWord] at appended

/-- The section that thread 1 completes ends at 0, and thread 1 announces it. -/
theorem wraps_announced_completed :
    ∃ s s', (wrapSystem onePool).ReachableWhere (orderlyWraps onePool) s ∧
      (wrapSystem onePool).step s (.thread 1 0) = some s' ∧
      wraps onePool 0 s.base (.thread 1 0) = true ∧ Announces onePool 1 0 s'.base ∧
      OldCountsFlushed onePool s := by
  obtain ⟨s₀, word, at₀, used, unlocked, seq⟩ := parked_at (2 ^ 29 - 3) (by decide)
  obtain ⟨s₁, at₁⟩ := at₀.starts
  obtain ⟨s₂, at₂⟩ := at₁.anchors
  obtain ⟨s, here⟩ := at₂.writes used unlocked
  have ended : step onePool s.base (.thread 1 0) = _ :=
    step_of_perform (by rw [here.writer.1]; rfl) rfl
  have wrapping : wraps onePool 0 s.base (.thread 1 0) = true := by
    simp only [wraps, here.writer.1, Pc.endsSection, here.word, seq_writeSeqlockEnd,
      seq_writeSeqlockBegin, seq]
    rfl
  have allowed : orderlyWraps onePool s (.thread 1 0) := by
    refine ⟨by simp [orderly, uncontested, locksOwnRecord, here.writer.1], ?_⟩
    simp only [settlesWraps, here.writer.1]
    refine fun _ => ⟨here.counts, fun t carries => ?_⟩
    by_cases other : t = 1
    · subst other
      rw [here.writer.1] at carries
      cases carries
    · simp [here.carries_other other] at carries
  have taken : (wrapSystem onePool).step s (.thread 1 0) = some _ :=
    Option.map_eq_some_iff.mpr ⟨_, ended, rfl⟩
  obtain ⟨announced, flushed⟩ := wraps_announced here.reached
  exact ⟨s, _, here.reached, taken, wrapping, announced 1 0 0 _ allowed taken wrapping, flushed⟩

end

end Megalon.Protocol
