import Megalon.Protocol.PageData

/-!
Contract: reads in read-only mode are atomic: no `WriteToCXL` copies into the slot
between the lookup of a read and the check of its notification.

Owns: the span of such a read, the condition under which the notification reaches the
reader before a writer copies, and that the bytes read are those of one page version as
long as the accesses are to lines that are current for their hosts.

Does not own: reads in read-write mode, and which flushes keep the lines current.
-/

namespace Megalon.Protocol

open Function Core Foundations Index

/-! ### Reports of the log -/

section

variable {Key : Type} [BlockKey Key]

theorem Request.reports_of_switch {pages : PageMap Key} {request : Request Key} {key : Key}
    {slot slot' w : Nat} (readOnly : pages key = some ⟨slot, none⟩)
    (readWrite : request.apply pages key = some ⟨slot', some w⟩) :
    request.reports pages = some slot := by
  have here : request.key = key := by
    by_contra other
    simp [request.apply_of_ne pages (Ne.symm other), readOnly] at readWrite
  subst here
  cases request with
  | checkAndInsert other new wmeta =>
    have found : pages other = some ⟨slot, none⟩ := readOnly
    simp [Request.reports, found]
  | switchToReadOnly other =>
    have found : pages other = some ⟨slot, none⟩ := readOnly
    simp [Request.apply, Request.key, found] at readWrite
  | invalidateSwitchToRWShared other new =>
    have found : pages other = some ⟨slot, none⟩ := readOnly
    simp [Request.reports, found]
  | seqCountWrapAround other => simp [Request.apply, readOnly] at readWrite

/-- Between a prefix of the log where a page is read-only and one where it has a record,
its slot is reported. -/
theorem exists_report (nodes : Nat) {log : List (LogEntry Key)} {key : Key} {slot w n m : Nat}
    (le : n ≤ m) (inside : m ≤ log.length) (readOnly : pagesAt log n key = some ⟨slot, none⟩)
    (readWrite : pagesAt log m key = some ⟨slot, some w⟩) :
    ∃ i, n ≤ i ∧ i < m ∧ replaySlot nodes log i = some slot := by
  induction m, le using Nat.le_induction generalizing w with
  | base => simp [readOnly] at readWrite
  | succ m le ih =>
    have present : log[m]? = some log[m] := List.getElem?_eq_getElem (by omega)
    have known : (pagesAt log m).slot key = some slot :=
      slot_pagesAt_mono le (by rw [PageMap.slot_of_some readOnly])
    rw [PageMap.slot, Option.map_eq_some_iff] at known
    obtain ⟨⟨slot', wmeta⟩, page, rfl⟩ := known
    cases wmeta with
    | none =>
      -- entry `m` is the one that gives the page its record
      rw [pagesAt_succ present] at readWrite
      refine ⟨m, le, Nat.lt_succ_self m, ?_⟩
      rw [replaySlot_eq nodes present, Request.reports_of_switch page readWrite]
    | some w' =>
      obtain ⟨i, lower, upper, reports⟩ := ih (by omega) page
      exact ⟨i, lower, by omega, reports⟩

theorem replaySlot_append (nodes : Nat) {log : List (LogEntry Key)} (more : List (LogEntry Key))
    {i : Nat} (inside : i < log.length) :
    replaySlot nodes (log ++ more) i = replaySlot nodes log i := by
  have present : log[i]? = some log[i] := List.getElem?_eq_getElem inside
  have longer : (log ++ more)[i]? = some log[i] := by
    rw [List.getElem?_append_left inside, present]
  rw [replaySlot_eq nodes longer, replaySlot_eq nodes present, pagesAt_append more inside.le]

end

section

variable {Key Mem : Type} [BlockKey Key] (cfg : Config Key Mem)

/-- The slot of a read in read-only mode, from the lookup to the check. -/
def Thread.readOnlyRead {nodes : Nat} (thread : Thread Key nodes) : Option Nat :=
  match thread.pc with
  | .anchorStore (some entry) =>
    if (thread.call.kind = .read ∨ thread.call.kind = .get) ∧ entry.wmetaIdx = none then
      (entry.cnArray sharedCacheNode).cnIdx
    else none
  | .readCopy slot none _ | .readNotified slot none _ => some slot
  | _ => none

/-- When a writer copies into a slot, the replica of every reader of the slot has
replayed all entries that report it; they are replayed by `combine`, and not while the
reader is between its lookup and the store of its anchor. -/
def notifiesReaders (s : cfg.State) : Event Key → Prop
  | .thread t choice => ∀ slot, copiesInto cfg slot s (.thread t choice) = true → ∀ t' i,
      (s.threads t').readOnlyRead = some slot → s.shared.applied (cfg.replica t') ≤ i →
        replaySlot cfg.nodes s.shared.log i ≠ some slot
  | .replay r => ∀ t' entry, (cfg.replica t').val = r → (s.threads t').pc = .anchorStore entry →
      ∀ slot, (s.threads t').readOnlyRead = some slot →
        replaySlot cfg.nodes s.shared.log (s.shared.applied (cfg.replica t')) ≠ some slot
  | .sync r => ∀ t' slot, (cfg.replica t').val = r → (s.threads t').readOnlyRead = some slot →
      replaySlot cfg.nodes s.shared.log (s.shared.applied (cfg.replica t')) ≠ some slot
  | _ => True

def orderlyNotices (s : cfg.State) (e : Event Key) : Prop :=
  orderly cfg s e = true ∧ notifiesReaders cfg s e

variable {cfg} in
/-- A byte that a read in read-only mode loads is current for the host of the reader. -/
def readsCurrent (view : cfg.memory.OneContent) (s : cfg.State) : Event Key → Prop
  | .thread t _ => ∀ slot bytes, (s.threads t).pc = .readCopy slot none bytes →
      bytes.length < (s.threads t).call.bytesRead cfg →
        view.current s.shared.pages (cfg.replica t) slot ((s.threads t).call.offset + bytes.length)
  | _ => True

variable {cfg} in
/-- The readers are notified, and nobody stores to or reads a page through an old line. -/
def currentNotices (view : cfg.memory.OneContent) (s : cfg.State) (e : Event Key) : Prop :=
  orderlyNotices cfg s e ∧ storesCurrent view s e ∧ readsCurrent view s e

/-- Thread `t` finds a read-only entry, copies, and finds its notification intact;
`trace` is what happens between the lookup and the check. -/
structure AnchoredRead (allowed : cfg.State → Event Key → Prop)
    (s₀ s₁ : cfg.State) (trace : cfg.Trace)
    (s₂ : cfg.State) (t slot : Nat) (bytes : List UInt8) : Prop where
  at_start : ∃ ctail, (s₀.threads t).pc = .anchorLookup ctail
  looks : ∃ choice, allowed s₀ (.thread t choice) ∧ step cfg s₀ (.thread t choice) = some s₁
  found : (s₁.threads t).readOnlyRead = some slot
  during : (system cfg).Segment allowed s₁ trace s₂
  inside : ∀ u e, (u, e) ∈ trace → (u.threads t).readOnlyRead = some slot
  at_end : (s₂.threads t).pc = .readNotified slot none bytes
  accepted : (s₂.shared.changeNotif t).isSome = true

/-! ### Replay positions -/

def AppliedInside (s : cfg.State) : Prop :=
  ∀ r, s.shared.applied r ≤ s.shared.log.length

variable {cfg}

theorem appliedInside_initial (s : cfg.State) (start : Initial cfg s) : AppliedInside cfg s := by
  intro r
  rw [start.applied r]
  exact Nat.zero_le _

variable {s : cfg.State} {e : Event Key}

theorem applied_step {s' : cfg.State} (taken : step cfg s e = some s') (r : Fin cfg.nodes) :
    s'.shared.applied r = s.shared.applied r ∨
      ((e = .replay r ∨ e = .sync r) ∧ s'.shared.applied r = s.shared.applied r + 1 ∧
        s.shared.applied r < s.shared.log.length) := by
  cases e with
  | start t call =>
    obtain ⟨_, rfl⟩ := step_start taken
    exact .inl rfl
  | thread t choice =>
    obtain ⟨instr, shared, reply, fetched, acted, rfl⟩ := step_thread taken
    exact .inl (by rw [(perform_frame acted).applied])
  | replay r' =>
    obtain ⟨inside, entry, present, rfl⟩ := step_replay taken
    by_cases same : r = ⟨r', inside⟩
    · subst same
      exact .inr ⟨.inl rfl, by simp [replayEntry],
        (List.getElem?_eq_some_iff.mp present).1⟩
    · exact .inl (by simp [replayEntry, same])
  | sync r' =>
    obtain ⟨inside, entry, present, rfl⟩ := step_sync taken
    by_cases same : r = ⟨r', inside⟩
    · subst same
      exact .inr ⟨.inr rfl, by simp [syncEntry], (List.getElem?_eq_some_iff.mp present).1⟩
    · exact .inl (by simp [syncEntry, same])
  | complete r' =>
    obtain ⟨_, rfl⟩ := step_complete taken
    exact .inl rfl

theorem log_step_append {s' : cfg.State} (taken : step cfg s e = some s') :
    ∃ more, s'.shared.log = s.shared.log ++ more := by
  rcases log_step taken with same | ⟨t, choice, request, _, _, grown⟩
  · exact ⟨[], by simp [same]⟩
  · exact ⟨_, grown⟩

theorem appliedInside_step (s : cfg.State) (e : Event Key)
    (s' : cfg.State) (inside : AppliedInside cfg s)
    (taken : step cfg s e = some s') : AppliedInside cfg s' := by
  intro r
  have before := inside r
  obtain ⟨more, log⟩ := log_step_append taken
  rw [log, List.length_append]
  rcases applied_step taken r with same | ⟨_, next, room⟩ <;> omega

/-! ### A read meets no writer -/

variable (cfg)

def Pc.anchoring {nodes : Nat} : Pc Key nodes → Bool
  | .anchorStore _ => true
  | _ => false

/-- No entry that replica `r` has replayed from position `n` on reports the slot. -/
def Unreported (slot n : Nat) (r : Fin cfg.nodes) (s : cfg.Shared) : Prop :=
  ∀ i, n ≤ i → i < s.applied r → replaySlot cfg.nodes s.log i ≠ some slot

/-- What holds in a state of a read of `key` that was looked up at position `n`. -/
structure AnchoredInvariant (t slot : Nat) (key : Key) (n : Nat)
    (u : cfg.State) : Prop where
  mine : (u.threads t).call.key = key
  past : n ≤ u.shared.applied (cfg.replica t)
  readOnly : pagesAt u.shared.log n key = some ⟨slot, none⟩
  stored : (u.threads t).readOnlyRead = some slot → (u.threads t).pc.anchoring = false →
    u.shared.changeNotif t = none ∨ u.shared.changeNotif t = some slot
  noticed : (u.threads t).readOnlyRead = some slot →
    Unreported cfg slot n (cfg.replica t) u.shared ∨
      ((u.threads t).pc.anchoring = false ∧ u.shared.changeNotif t = none)

variable {cfg} {slot n : Nat}

theorem unreported_append {s s' : cfg.Shared} {r : Fin cfg.nodes}
    {more : List (LogEntry Key)} (inside : s.applied r ≤ s.log.length)
    (log : s'.log = s.log ++ more) (applied : s'.applied r = s.applied r)
    (before : Unreported cfg slot n r s) : Unreported cfg slot n r s' := by
  intro i lower upper
  rw [applied] at upper
  rw [log, replaySlot_append cfg.nodes more (by omega)]
  exact before i lower upper

theorem unreported_succ {s s' : cfg.Shared} {r : Fin cfg.nodes}
    (before : Unreported cfg slot n r s) (log : s'.log = s.log)
    (applied : s'.applied r = s.applied r + 1)
    (other : replaySlot cfg.nodes s.log (s.applied r) ≠ some slot) :
    Unreported cfg slot n r s' := by
  intro i lower upper
  rw [log]
  rcases Nat.lt_succ_iff_lt_or_eq.mp (applied ▸ upper) with earlier | rfl
  · exact before i lower earlier
  · exact other

variable {t : Nat}

theorem call_of_readOnlyRead {u u' : cfg.State} (taken : step cfg u e = some u')
    (inside : (u.threads t).readOnlyRead = some slot) :
    (u'.threads t).call = (u.threads t).call := by
  refine call_of_step taken fun ready => ?_
  cases counter : (u.threads t).pc <;> simp_all [Pc.ready, Thread.readOnlyRead]

section

variable {u u' : cfg.State} {t slot n : Nat} {key : Key}

theorem AnchoredInvariant.frame (before : AnchoredInvariant cfg t slot key n u)
    (inside : AppliedInside cfg u) {more : List (LogEntry Key)}
    (log : u'.shared.log = u.shared.log ++ more) (thread : u'.threads t = u.threads t)
    (applied : u'.shared.applied (cfg.replica t) = u.shared.applied (cfg.replica t))
    (changeNotif : u'.shared.changeNotif t = u.shared.changeNotif t) :
    AnchoredInvariant cfg t slot key n u' where
  mine := by rw [thread, before.mine]
  past := by rw [applied]; exact before.past
  readOnly := by
    rw [log, pagesAt_append more (before.past.trans (inside _))]
    exact before.readOnly
  stored := by rw [thread, changeNotif]; exact before.stored
  noticed := by
    rw [thread, changeNotif]
    intro reads
    exact (before.noticed reads).imp_left (unreported_append (inside _) log applied)

/-- `combine` on the replica of the reader: an entry that reports the slot clears the
notification. -/
theorem AnchoredInvariant.replay (before : AnchoredInvariant cfg t slot key n u)
    (reading : (u.threads t).readOnlyRead = some slot) {entry : LogEntry Key}
    (allowed : notifiesReaders cfg u (.replay (cfg.replica t))) :
    AnchoredInvariant cfg t slot key n
      ⟨replayEntry cfg u.shared (cfg.replica t) entry, u.threads⟩ where
  mine := before.mine
  past := by
    have := before.past
    simp only [replayEntry, update_self]
    omega
  readOnly := before.readOnly
  stored := fun _ past => by
    simp only [replayEntry, clearNotif]
    split
    · exact .inl rfl
    · exact before.stored reading past
  noticed := fun _ => by
    by_cases reports :
      replaySlot cfg.nodes u.shared.log (u.shared.applied (cfg.replica t)) = some slot
    · right
      have past : (u.threads t).pc.anchoring = false := by
        cases counter : (u.threads t).pc with
        | anchorStore entry => exact absurd reports (allowed t entry rfl counter slot reading)
        | _ => rfl
      refine ⟨past, ?_⟩
      simp only [replayEntry, clearNotif, reports, true_and]
      split
      · rfl
      · exact (before.stored reading past).resolve_right ‹_›
    · rcases before.noticed reading with unreported | ⟨past, cleared⟩
      · exact .inl (unreported_succ unreported rfl (by simp [replayEntry]) reports)
      · exact .inr ⟨past, by simp [replayEntry, clearNotif, cleared]⟩

theorem changeNotif_of_reading {t choice slot : Nat} {call : Call Key} {pc pc' : cfg.Pc}
    {act : Act Key} {reply : act.Reply cfg.nodes} {s s' : cfg.Shared}
    (move : Move cfg t call choice pc act reply pc')
    (acted : perform cfg t s act = some (s', reply))
    (reading : (⟨call, pc⟩ : cfg.Thread).readOnlyRead = some slot)
    (after : (⟨call, pc'⟩ : cfg.Thread).readOnlyRead = some slot) :
    pc.anchoring = true ∧ s'.changeNotif t = some slot ∨
      pc.anchoring = false ∧ pc'.anchoring = false ∧ s'.changeNotif t = s.changeNotif t := by
  cases move with
  | readUntracked _ page _ =>
    cases acted
    exact .inl ⟨rfl, (update_self _ _ _).trans (page.trans after)⟩
  | readByte | readCopied =>
    exact .inr ⟨rfl, rfl, (perform_frame acted).changeNotif t (.inr rfl)⟩
  | _ =>
    -- every other move leaves the read or was outside it
    first
      | cases after
      | cases reading

theorem AnchoredInvariant.advance (before : AnchoredInvariant cfg t slot key n u)
    (reading : (u.threads t).readOnlyRead = some slot) {choice : Nat}
    (taken : step cfg u (.thread t choice) = some u')
    (inside : AppliedInside cfg u) : AnchoredInvariant cfg t slot key n u' := by
  obtain ⟨more, log⟩ := log_step_append taken
  obtain ⟨instr, shared, reply, fetched, acted, rfl⟩ := step_thread taken
  have move := move_of_next fetched reply
  have frame := perform_frame acted
  have unreported : Unreported cfg slot n (cfg.replica t) u.shared →
      Unreported cfg slot n (cfg.replica t) shared :=
    unreported_append (inside _) log (by rw [frame.applied])
  have after := changeNotif_of_reading move acted reading
  refine ⟨by simp [before.mine], by simp only [frame.applied]; exact before.past, ?_, ?_, ?_⟩
  · rw [log, pagesAt_append more (before.past.trans (inside _))]
    exact before.readOnly
  · simp only [update_self]
    intro reads past
    rcases after reads with ⟨_, stored⟩ | ⟨past', _, same⟩
    · exact .inr stored
    · rw [same]
      exact before.stored reading past'
  · simp only [update_self]
    intro reads
    rcases before.noticed reading with none | ⟨past, cleared⟩
    · exact .inl (unreported none)
    · rcases after reads with ⟨anchoring, _⟩ | ⟨_, past', same⟩
      · simp [past] at anchoring
      · exact .inr ⟨past', same.trans cleared⟩

variable {e : Event Key}

theorem anchoredInvariant_step (inside : AppliedInside cfg u) (allowed : notifiesReaders cfg u e)
    (taken : step cfg u e = some u') (reading : (u.threads t).readOnlyRead = some slot)
    (before : AnchoredInvariant cfg t slot key n u) : AnchoredInvariant cfg t slot key n u' := by
  obtain ⟨more, log⟩ := log_step_append taken
  cases e with
  | start t' call =>
    obtain ⟨ready, rfl⟩ := step_start taken
    have different : t ≠ t' := by
      rintro rfl
      cases counter : (u.threads t).pc <;> simp_all [Pc.ready, Thread.readOnlyRead]
    exact before.frame inside log (by simp [different]) rfl rfl
  | thread t' choice =>
    by_cases same : t = t'
    · subst same
      exact before.advance reading taken inside
    · obtain ⟨instr, shared, reply, _, acted, rfl⟩ := step_thread taken
      have frame := perform_frame acted
      exact before.frame inside log (by simp [same]) (by rw [frame.applied])
        (frame.changeNotif t (.inl same))
  | replay r =>
    obtain ⟨bound, entry, _, rfl⟩ := step_replay taken
    by_cases same : cfg.replica t = ⟨r, bound⟩
    · rw [← same]
      exact before.replay reading (by rw [same]; exact allowed)
    · exact before.frame inside log rfl (by simp [replayEntry, same])
        (by simp [replayEntry, clearNotif, same])
  | sync r =>
    obtain ⟨bound, entry, _, rfl⟩ := step_sync taken
    by_cases same : cfg.replica t = ⟨r, bound⟩
    · have other := allowed t slot (by rw [same]) reading
      rw [← same]
      refine ⟨before.mine, ?_, before.readOnly, before.stored, fun _ => ?_⟩
      · have := before.past
        simp only [syncEntry, update_self]
        omega
      · rcases before.noticed reading with none | noticed
        · exact .inl (unreported_succ none rfl (by simp [syncEntry]) other)
        · exact .inr noticed
    · exact before.frame inside log rfl (by simp [syncEntry, same]) rfl
  | complete r =>
    obtain ⟨_, rfl⟩ := step_complete taken
    exact before.frame inside log rfl rfl rfl

/-- A copy into the slot of a reader: its replica has replayed the entry that gave the
page its record. -/
theorem reported_of_copiesInto (holds : Orderly cfg u) (inside : AppliedInside cfg u)
    (allowed : notifiesReaders cfg u e) (reading : (u.threads t).readOnlyRead = some slot)
    (before : AnchoredInvariant cfg t slot key n u) (copies : copiesInto cfg slot u e = true) :
    ¬ Unreported cfg slot n (cfg.replica t) u.shared := by
  cases e with
  | thread t' choice =>
    have delivered := allowed slot copies t
    simp only [copiesInto] at copies
    split at copies
    · rename_i slot' w i counter
      rw [Bool.and_eq_true, beq_iff_eq] at copies
      obtain ⟨rfl, _⟩ := copies
      have written := holds.writers t' slot' w (by rw [counter]; rfl)
      have known := slot_latest_of_pagesAt (PageMap.slot_of_some before.readOnly)
      obtain rfl := holds.slots.distinct _ key slot' (PageMap.slot_of_some written) known
      obtain ⟨i, lower, _, reports⟩ := exists_report cfg.nodes
        (before.past.trans (inside _)) le_rfl before.readOnly written
      intro unreported
      rcases Nat.lt_or_ge i (u.shared.applied (cfg.replica t)) with replayed | pending
      · exact unreported i lower replayed reports
      · exact delivered i reading pending reports
    · cases copies
  | _ => cases copies

theorem unreported_of_step {r : Fin cfg.nodes} (inside : AppliedInside cfg u)
    (taken : step cfg u e = some u') (after : Unreported cfg slot n r u'.shared) :
    Unreported cfg slot n r u.shared := by
  intro i lower upper
  obtain ⟨more, log⟩ := log_step_append taken
  have bound := inside r
  have later : i < u'.shared.applied r := by
    rcases applied_step taken r with same | ⟨_, next, _⟩ <;> omega
  rw [← replaySlot_append cfg.nodes more (by omega), ← log]
  exact after i lower later

end

theorem appliedInside_of_reachable {allowed : cfg.State → Event Key → Prop}
    (reached : (system cfg).ReachableWhere allowed s) : AppliedInside cfg s :=
  reached.reachable.invariant appliedInside_initial appliedInside_step

theorem orderly_of_orderlyNotices (reached : (system cfg).ReachableWhere (orderlyNotices cfg) s) :
    Orderly cfg s :=
  orderly_of_reachable (reached.mono fun _ _ meets => meets.1)

/-- Along a read: the invariant, and every copy into the slot has been reported to the
replica of the reader. -/
theorem anchored_segment {s₁ s₂ : cfg.State} {trace : cfg.Trace} {key : Key}
    (reached : (system cfg).ReachableWhere (orderlyNotices cfg) s₁)
    (start : AnchoredInvariant cfg t slot key n s₁)
    (during : (system cfg).Segment (orderlyNotices cfg) s₁ trace s₂)
    (inside : ∀ u e, (u, e) ∈ trace → (u.threads t).readOnlyRead = some slot) :
    AnchoredInvariant cfg t slot key n s₂ ∧
      (Unreported cfg slot n (cfg.replica t) s₂.shared →
        ∀ u e, (u, e) ∈ trace → copiesInto cfg slot u e = false) := by
  induction during with
  | refl => exact ⟨start, fun _ u e member => by simp at member⟩
  | @snoc s' s'' e trace before meets taken ih =>
    obtain ⟨read, quiet⟩ := ih fun u e member => inside u e (by simp [member])
    have reading := inside s' e (by simp)
    have reached' := before.reachableWhere reached
    have applied := appliedInside_of_reachable reached'
    refine ⟨anchoredInvariant_step applied meets.2 taken reading read, ?_⟩
    intro unreported u e' member
    have earlier := unreported_of_step applied taken unreported
    rcases List.mem_append.mp member with before | last
    · exact quiet earlier u e' before
    · obtain ⟨rfl, rfl⟩ := Prod.mk.inj (List.mem_singleton.mp last)
      by_contra copies
      exact reported_of_copiesInto (orderly_of_orderlyNotices reached') applied meets.2 reading
        read (eq_true_of_ne_false copies) earlier

theorem anchoredInvariant_start {s₀ s₁ : cfg.State} {choice ctail : Nat}
    (at_start : (s₀.threads t).pc = .anchorLookup ctail)
    (taken : step cfg s₀ (.thread t choice) = some s₁)
    (found : (s₁.threads t).readOnlyRead = some slot) :
    AnchoredInvariant cfg t slot (s₀.threads t).call.key
      (s₀.shared.applied (cfg.replica t)) s₁ := by
  obtain ⟨instr, shared, reply, fetched, acted, rfl⟩ := step_thread taken
  rw [at_start] at fetched
  cases fetched
  simp only [perform] at acted
  split at acted
  · cases acted
    have page : pagesAt s₀.shared.log (s₀.shared.applied (cfg.replica t))
        (s₀.threads t).call.key = some ⟨slot, none⟩ := by
      simp only [update_self, stateAt_eq] at found
      cases present : pagesAt s₀.shared.log (s₀.shared.applied (cfg.replica t))
          (s₀.threads t).call.key with
      | none => simp [PageMap.toDirectory, present, Thread.readOnlyRead] at found
      | some page =>
        simp only [PageMap.toDirectory_some cfg.nodes present, Thread.readOnlyRead,
          wmetaIdx_cxlEntry, cnArray_cxlEntry_zero] at found
        obtain ⟨⟨_, mode⟩, same⟩ := Option.ite_none_right_eq_some.mp found
        rw [← Option.some.inj same, ← mode]
    refine ⟨by simp, Nat.le_refl _, page, fun _ past => ?_, fun _ => .inl ?_⟩
    · simp [Pc.anchoring] at past
    · intro i lower upper
      exact absurd upper (Nat.not_lt.mpr lower)
  · cases acted

/-! ### One page version -/

def Pc.bytes {nodes : Nat} : Pc Key nodes → List UInt8
  | .readCopy _ _ bytes | .readNotified _ _ bytes | .readRetry _ _ bytes => bytes
  | _ => []

theorem copyOf_succ (buffer : Nat → UInt8) (n : Nat) :
    copyOf buffer (n + 1) = copyOf buffer n ++ [buffer n] := by
  simp [copyOf, List.range_succ]

section

variable {view : cfg.memory.OneContent} {u u' : cfg.State} {t slot : Nat}

theorem bytes_move {choice : Nat} {call : Call Key} {pc pc' : cfg.Pc} {act : Act Key}
    {reply : act.Reply cfg.nodes} {s s' : cfg.Shared} (sound : view.sound s.pages)
    (current : ∀ bytes, pc = .readCopy slot none bytes → bytes.length < call.bytesRead cfg →
      view.current s.pages (cfg.replica t) slot (call.offset + bytes.length))
    (move : Move cfg t call choice pc act reply pc')
    (acted : perform cfg t s act = some (s', reply))
    (reading : (⟨call, pc⟩ : cfg.Thread).readOnlyRead = some slot)
    (reads : (⟨call, pc'⟩ : cfg.Thread).readOnlyRead = some slot) :
    pc'.bytes = pc.bytes ∨
      pc'.bytes = pc.bytes ++ [view.contents s.pages slot (call.offset + pc.bytes.length)] := by
  cases move with
  | @readByte _ guard bytes _ left =>
    cases guard with
    | none =>
      cases reading
      cases acted
      right
      simp only [Pc.bytes, view.seen _ _ _ _ sound (current bytes rfl left)]
    | some guard => cases reading
  | _ =>
    first
      | exact .inl rfl
      | cases reads

theorem bytes_step {e : Event Key} (sound : view.sound u.shared.pages)
    (current : readsCurrent view u e) (taken : step cfg u e = some u')
    (reading : (u.threads t).readOnlyRead = some slot)
    (reads : (u'.threads t).readOnlyRead = some slot) :
    (u'.threads t).pc.bytes = (u.threads t).pc.bytes ∨
      (u'.threads t).pc.bytes = (u.threads t).pc.bytes ++
        [view.contents u.shared.pages slot
          ((u.threads t).call.offset + (u.threads t).pc.bytes.length)] := by
  cases stepForm_of_step taken with
  | @start t' call ready =>
    have different : t ≠ t' := by
      rintro rfl
      cases counter : (u.threads t).pc <;> simp_all [Pc.ready, Thread.readOnlyRead]
    exact .inl (by simp [different])
  | @thread t' _ _ _ _ _ move acted =>
    by_cases same : t = t'
    · subst same
      simp only [update_self] at reads ⊢
      exact bytes_move sound (current slot) move acted reading reads
    · exact .inl (by simp [same])
  | replica => exact .inl rfl

theorem version_segment {s₁ s₂ : cfg.State} {trace : cfg.Trace}
    (reached : (system cfg).ReachableWhere (currentNotices view) s₁)
    (during : (system cfg).Segment (currentNotices view) s₁ trace s₂)
    (known : (latestPages s₁.shared.log).slot (s₁.threads t).call.key = some slot)
    (start : (s₁.threads t).pc.bytes = [])
    (inside : ∀ u e, (u, e) ∈ trace → (u.threads t).readOnlyRead = some slot)
    (quiet : ∀ u e, (u, e) ∈ trace → copiesInto cfg slot u e = false)
    (reads : (s₂.threads t).readOnlyRead = some slot) :
    (latestPages s₂.shared.log).slot (s₁.threads t).call.key = some slot ∧
      (s₂.threads t).call = (s₁.threads t).call ∧
      view.contents s₂.shared.pages slot = view.contents s₁.shared.pages slot ∧
      (s₂.threads t).pc.bytes = copyOf
        (fun j => view.contents s₁.shared.pages slot ((s₁.threads t).call.offset + j))
        (s₂.threads t).pc.bytes.length := by
  induction during with
  | refl => exact ⟨known, rfl, rfl, by rw [start]; rfl⟩
  | @snoc s' s'' e trace before meets taken ih =>
    have reading := inside s' e (by simp)
    obtain ⟨known', call, page, bytes⟩ := ih
      (fun u e member => inside u e (by simp [member]))
      (fun u e member => quiet u e (by simp [member])) reading
    have reached' := before.reachableWhere reached
    have holds := orderly_of_orderlyNotices (reached'.mono fun _ _ meets => meets.1)
    have sound := sound_of_reachable (fun _ _ meets => meets.2.1) reached'
    refine ⟨slot_step_mono taken known', (call_of_readOnlyRead taken reading).trans call, ?_, ?_⟩
    · rw [← page]
      exact contents_of_not_copiesInto ⟨sound, meets.2.1⟩ holds.slots known'
        (quiet s' e (by simp)) taken
    · rcases bytes_step sound meets.2.2 taken reading reads with same | more
      · rw [same, ← bytes]
      · rw [more, List.length_append, List.length_singleton, copyOf_succ, ← bytes, call, page]

end

/-- From the lookup to the check that accepts the read nobody copies into the slot, whatever the
hosts have cached. -/
theorem not_copiesInto_of_read {s₀ s₁ s₂ : cfg.State}
    {trace : cfg.Trace} {t slot : Nat} {bytes : List UInt8}
    (reached : (system cfg).ReachableWhere (orderlyNotices cfg) s₀)
    (read : AnchoredRead cfg (orderlyNotices cfg) s₀ s₁ trace s₂ t slot bytes) :
    ∀ u e, (u, e) ∈ trace → copiesInto cfg slot u e = false := by
  obtain ⟨⟨ctail, at_start⟩, ⟨choice, allowed, taken⟩, found, during, inside, at_end, accepted⟩ :=
    read
  have start := anchoredInvariant_start at_start taken found
  obtain ⟨final, quiet⟩ := anchored_segment (reached.step allowed taken) start during inside
  refine quiet ?_
  rcases final.noticed (by rw [Thread.readOnlyRead, at_end]) with none | ⟨_, cleared⟩
  · exact none
  · simp [cleared] at accepted

/-- **Reads in read-only mode are atomic.** No `WriteToCXL` stores into the slot between
the lookup and the check that accepts the read, and the bytes are those the page had at the
lookup. -/
theorem read_only_read_atomic (view : cfg.memory.OneContent) {s₀ s₁ s₂ : cfg.State}
    {trace : cfg.Trace} {t slot : Nat} {bytes : List UInt8}
    (reached : (system cfg).ReachableWhere (currentNotices view) s₀)
    (read : AnchoredRead cfg (currentNotices view) s₀ s₁ trace s₂ t slot bytes) :
    (∀ u e, (u, e) ∈ trace → copiesInto cfg slot u e = false) ∧
      bytes = copyOf
        (fun j => view.contents s₁.shared.pages slot ((s₁.threads t).call.offset + j))
        bytes.length := by
  obtain ⟨⟨ctail, at_start⟩, ⟨choice, allowed, taken⟩, found, during, inside, at_end, accepted⟩ :=
    read
  have quiet := not_copiesInto_of_read (reached.mono fun _ _ meets => meets.1)
    ⟨⟨ctail, at_start⟩, ⟨choice, allowed.1, taken⟩, found, during.mono fun _ _ meets => meets.1,
      inside, at_end, accepted⟩
  have start := anchoredInvariant_start at_start taken found
  have known := slot_latest_of_pagesAt (PageMap.slot_of_some start.readOnly)
  rw [← start.mine] at known
  have fresh : (s₁.threads t).pc.bytes = [] := by
    obtain ⟨instr, shared, reply, fetched, _, rfl⟩ := step_thread taken
    rw [at_start] at fetched
    cases fetched
    simp [Pc.bytes]
  have version := (version_segment (reached.step allowed taken) during known fresh inside quiet
    (by rw [Thread.readOnlyRead, at_end])).2.2.2
  rw [at_end] at version
  exact ⟨quiet, version⟩

end

/-! ### Two runs -/

section

noncomputable def cachedView : cachedPool.memory.OneContent := cachedContent (Fin 2) 1

/-- No host but `h` has modified the line, and `h` has no unmodified copy of it. -/
def untouched (m : CachedPages (Fin 2)) (h : Fin 2) (a : Nat × Nat) : Bool :=
  (m.cache h a).all Line.dirty &&
    (List.finRange 2).all fun k => k == h || (m.cache k a).all fun line => !line.dirty

theorem upToDate_of_untouched {m : CachedPages (Fin 2)} {h : Fin 2} {a : Nat × Nat}
    (passes : untouched m h a = true) : m.UpToDate h a := by
  rw [untouched, Bool.and_eq_true] at passes
  refine ⟨fun k v present => ?_, fun v present => ?_⟩
  · by_contra other
    have clean := List.all_eq_true.mp passes.2 k (List.mem_finRange k)
    simp [other, present] at clean
  · simp [present] at passes

/-- The byte that a thread is about to store, or to load in a read without a record. -/
def accesses (s : State BlockId (CachedPages (Fin 2)) cachedPool.nodes) (t : Nat) :
    Option (Nat × Nat) :=
  match (s.threads t).pc with
  | .writeCopy slot _ i => some (slot, (s.threads t).call.offset + i)
  | .createFill slot _ i => some (slot, i)
  | .readCopy slot none bytes => some (slot, (s.threads t).call.offset + bytes.length)
  | _ => none

def currentTest (s : State BlockId (CachedPages (Fin 2)) cachedPool.nodes) : Event BlockId → Bool
  | .thread t _ => (accesses s t).all fun (slot, i) =>
      untouched s.shared.pages (cachedPool.replica t) (slot, i / 1)
  | _ => true

theorem current_of_currentTest {s : State BlockId (CachedPages (Fin 2)) cachedPool.nodes}
    {e : Event BlockId} (passes : currentTest s e = true) :
    storesCurrent cachedView s e ∧
      readsCurrent cachedView s e := by
  cases e with
  | thread t choice =>
    have current : ∀ slot i, accesses s t = some (slot, i) →
        cachedView.current s.shared.pages (cachedPool.replica t) slot i := by
      intro slot i access
      rw [currentTest, access] at passes
      exact upToDate_of_untouched passes
    refine ⟨fun slot i value stores => current slot i ?_, fun slot bytes counter _ =>
      current slot _ (by rw [accesses, counter])⟩
    generalize counter : (s.threads t).pc = pc at stores
    cases stores <;> rw [accesses, counter]
  | _ => exact ⟨trivial, trivial⟩

def currentNoticesTest (s : State BlockId (CachedPages (Fin 2)) cachedPool.nodes)
    (e : Event BlockId) : Bool :=
  e.within 2 && orderly cachedPool s e && currentTest s e && match e with
    | .thread t _ =>
      match (s.threads t).pc with
      | .writeCopy _ _ _ => (List.range 2).all fun t' => (s.threads t').readOnlyRead == none
      | _ => true
    | .replay r => (List.range 2).all fun t' =>
      cachedPool.replica t' != r || (s.threads t').readOnlyRead == none
    | .sync _ => false
    | _ => true

theorem currentNoticesTest_sound :
    System.Tests (system cachedPool) (OthersIdle 2) currentNoticesTest
      (currentNotices cachedView) where
  initial := othersIdle_initial 2
  kept := fun s e s' idle passes taken => by
    simp only [currentNoticesTest, Bool.and_eq_true] at passes
    exact othersIdle_step idle passes.1.1.1 taken
  sound := fun s e idle passes => by
    simp only [currentNoticesTest, Bool.and_eq_true] at passes
    obtain ⟨⟨⟨_, meets⟩, current⟩, checked⟩ := passes
    refine ⟨⟨meets, ?_⟩, current_of_currentTest current⟩
    have beyond : ∀ t slot, (s.threads t).readOnlyRead = some slot → t ∈ List.range 2 := by
      intro t slot reading
      by_contra outside
      rw [Thread.readOnlyRead, idle t (Nat.le_of_not_lt (mt List.mem_range.mpr outside))] at reading
      cases reading
    cases e with
    | thread t choice =>
      intro slot copies t' i reading
      simp only [copiesInto] at copies
      split at copies
      · rename_i counter
        simp only [counter] at checked
        have none := List.all_eq_true.mp checked t' (beyond t' slot reading)
        simp [reading] at none
      · cases copies
    | replay r =>
      intro t' entry here _ slot reading
      have none := List.all_eq_true.mp checked t' (beyond t' slot reading)
      simp [reading, here] at none
    | sync r => cases checked
    | _ => trivial

/-- Thread 0 admits a page with a `Read` and is about to look it up again. -/
def admitThenLookup : List (Event BlockId) :=
  [.start 0 (readCall .read 2)] ++ steps 7 0 0 ++ catchUp 1 0 ++ steps 2 0 0

/-- Thread 1 on the other host switches the page to read-write mode and writes it. -/
def switchAndWrite : List (Event BlockId) :=
  [.start 1 (putCall 2 9)] ++ catchUp 1 1 ++ steps 7 1 0 ++ catchUp 1 1 ++ steps 9 1 0

variable {Mem : Type} {cfg : Config BlockId Mem}

/-- Thread 0 reads `bytes` from slot 0. -/
def readsPage (bytes : List UInt8) (s₀ s₁ : State BlockId Mem cfg.nodes)
    (trace : List (State BlockId Mem cfg.nodes × Event BlockId))
    (s₂ : State BlockId Mem cfg.nodes) : Bool :=
  (match (s₀.threads 0).pc with
    | .anchorLookup _ => true
    | _ => false) &&
  (s₁.threads 0).readOnlyRead == some 0 &&
  (trace.all fun (u, _) => (u.threads 0).readOnlyRead == some 0) &&
  (match (s₂.threads 0).pc with
    | .readNotified slot none bytes' => slot == 0 && bytes' == bytes
    | _ => false) &&
  (s₂.shared.changeNotif 0).isSome

theorem anchoredRead_of_readsPage
    {allowed : State BlockId Mem cfg.nodes → Event BlockId → Prop} {bytes : List UInt8}
    {s₀ s₁ s₂ : State BlockId Mem cfg.nodes} {choice : Nat}
    {trace : List (State BlockId Mem cfg.nodes × Event BlockId)}
    (meets : allowed s₀ (.thread 0 choice))
    (taken : (system cfg).step s₀ (.thread 0 choice) = some s₁)
    (during : (system cfg).Segment allowed s₁ trace s₂)
    (reads : readsPage bytes s₀ s₁ trace s₂ = true) :
    AnchoredRead cfg allowed s₀ s₁ trace s₂ 0 0 bytes := by
  simp only [readsPage, Bool.and_eq_true, beq_iff_eq] at reads
  obtain ⟨⟨⟨⟨at_start, found⟩, inside⟩, at_end⟩, accepted⟩ := reads
  refine ⟨?_, ⟨choice, meets, taken⟩, found, during, ?_, ?_, accepted⟩
  · split at at_start
    · exact ⟨_, ‹_›⟩
    · cases at_start
  · intro u e member
    exact beq_iff_eq.mp (List.all_eq_true.mp inside (u, e) member)
  · split at at_end
    · rename_i slot bytes' counter
      simp only [Bool.and_eq_true, beq_iff_eq] at at_end
      obtain ⟨rfl, rfl⟩ := at_end
      exact counter
    · cases at_end

/-- The replica of the reader has not replayed the switch: the read is accepted with one
byte from before the write and one from after it. -/
theorem read_torn_switchAndWrite :
    ∃ s₀ s₁ trace s₂, (system onePool).Reachable s₀ ∧
      AnchoredRead onePool (fun _ _ => True) s₀ s₁ trace s₂ 0 0 [0, 9] ∧
      ∃ u e, (u, e) ∈ trace ∧ copiesInto onePool 0 u e = true := by
  obtain ⟨s₀, s₁, trace, s₂, reached, meets, taken, during, evaluated⟩ :=
    System.exists_segment_of_runThenTrace
      (.of_sound (system onePool) (fun _ _ => true) fun _ _ _ => trivial) initial_start
      admitThenLookup (.thread 0 0) (steps 2 0 0 ++ switchAndWrite ++ steps 2 0 0)
      (fun s₀ s₁ trace s₂ => readsPage [0, 9] s₀ s₁ trace s₂ &&
        trace.any fun (u, e) => copiesInto onePool 0 u e)
      (by decide +kernel)
  rw [Bool.and_eq_true, List.any_eq_true] at evaluated
  obtain ⟨reads, ⟨u, e⟩, member, copies⟩ := evaluated
  exact ⟨s₀, s₁, trace, s₂, reached, anchoredRead_of_readsPage meets taken during reads, u, e,
    member, copies⟩

/-- Thread 1 puts a page and gives its record back; thread 0 on the other host is about to look
the page up. -/
def reclaimThenLookup : List (Event BlockId) :=
  List.flatten
    [[.start 1 (putCall 2 9)], steps 14 1 0, catchUp 1 1, steps 2 1 0,
      [.start 1 ⟨.iterativeReclaim, pageKey, none, 1, 0⟩], steps 3 1 0, catchUp 1 1, steps 3 1 0,
      catchUp 2 0, [.start 0 (readCall .read 2)], steps 1 0 0]

/-- Between the two bytes that thread 0 reads, thread 1 makes the page writable again. -/
def switchDuringRead : List (Event BlockId) :=
  List.flatten
    [steps 2 0 0, [.start 1 (putCall 2 5)], steps 7 1 0, catchUp 1 1, steps 2 1 0, steps 2 0 0]

/-- The read of a page that has a record again when it is accepted, behind private caches. -/
theorem read_only_read_atomic_switchDuringRead :
    ∃ s₀ s₁ trace s₂, (system cachedPool).ReachableWhere (currentNotices cachedView) s₀ ∧
      AnchoredRead cachedPool (currentNotices cachedView) s₀ s₁ trace s₂ 0 0 [9, 9] ∧
      latestPages s₂.shared.log pageKey = some ⟨0, some 0⟩ ∧
      ∀ u e, (u, e) ∈ trace → copiesInto cachedPool 0 u e = false := by
  obtain ⟨s₀, s₁, trace, s₂, reached, meets, taken, during, evaluated⟩ :=
    System.exists_segment_of_runThenTrace currentNoticesTest_sound initial_cachedStart
      reclaimThenLookup (.thread 0 0) switchDuringRead
      (fun s₀ s₁ trace s₂ => readsPage [9, 9] s₀ s₁ trace s₂ &&
        decide (latestPages s₂.shared.log pageKey = some ⟨0, some 0⟩)) (by decide +kernel)
  rw [Bool.and_eq_true, decide_eq_true_eq] at evaluated
  have read := anchoredRead_of_readsPage meets taken during evaluated.1
  exact ⟨s₀, s₁, trace, s₂, reached, read, evaluated.2,
    (read_only_read_atomic cachedView reached read).1⟩

end

end Megalon.Protocol
