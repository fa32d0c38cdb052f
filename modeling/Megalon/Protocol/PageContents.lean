import Megalon.Protocol.CallStages
import Megalon.Protocol.SequencedReads
import Megalon.Protocol.AnchoredReads

/-!
Contract: the bytes of a page are its initial bytes with the writes applied that have
taken effect, in that order, as long as nobody stores to a line that is not current.

Owns: the effect of a write on a page, the part of it that is visible while it is
copied, the filling of new slots, and the invariant of careful runs.

Does not own: which calls are acknowledged.
-/

namespace Megalon.Protocol

open Function Core Foundations Index

/-! ### Writes to a page -/

section

variable {Key : Type} (call : Call Key)

/-- A page after the first `n` bytes of a write. -/
def Call.overlay (n : Nat) (page : Nat → UInt8) : Nat → UInt8 :=
  match call.data with
  | some buffer => fun x =>
    if call.offset ≤ x ∧ x < call.offset + n then buffer (x - call.offset) else page x
  | none => page

@[simp]
theorem overlay_zero (page : Nat → UInt8) : call.overlay 0 page = page := by
  unfold Call.overlay
  split
  · funext x
    rw [if_neg (by omega)]
  · rfl

variable {call} {buffer : Nat → UInt8}

variable (data : call.data = some buffer)

include data

theorem overlay_succ (n : Nat) (page : Nat → UInt8) :
    call.overlay (n + 1) page =
      update (call.overlay n page) (call.offset + n) (buffer n) := by
  funext x
  simp only [Call.overlay, data]
  by_cases here : x = call.offset + n
  · subst here
    rw [update_self, if_pos (by omega), Nat.add_sub_cancel_left]
  · rw [update_of_ne here]
    by_cases inside : call.offset ≤ x ∧ x < call.offset + n
    · rw [if_pos inside, if_pos (by omega)]
    · rw [if_neg inside, if_neg (by omega)]

theorem overlay_eq_self {n : Nat} {page : Nat → UInt8}
    (written : ∀ j, j < n → page (call.offset + j) = buffer j) : call.overlay n page = page := by
  funext x
  simp only [Call.overlay, data]
  split
  · rename_i inside
    obtain ⟨j, rfl⟩ := Nat.exists_eq_add_of_le inside.1
    rw [Nat.add_sub_cancel_left, written j (by omega)]
  · rfl

theorem overlay_apply {n j : Nat} (inside : j < n)
    (page : Nat → UInt8) : call.overlay n page (call.offset + j) = buffer j := by
  simp only [Call.overlay, data]
  rw [if_pos (by omega), Nat.add_sub_cancel_left]

end

section

variable {Key Mem : Type} [BlockKey Key] (cfg : Config Key Mem)

/-- A page of `key` after some writes. -/
def applyWrites (key : Key) (writes : List (Call Key)) (base : Nat → UInt8) : Nat → UInt8 :=
  (writes.filter fun call => call.key = key).foldl
    (fun page call => call.overlay (call.bytesWrite cfg) page) base

def Pc.copied (call : Call Key) : cfg.Pc → Nat
  | .writeCopy _ _ i => min i (call.bytesWrite cfg)
  | .writeFlush _ _ _ | .writeSeqEnd _ _ => call.bytesWrite cfg
  | _ => 0

/-- The page of `key` in a slot: what has taken effect, and the bytes a writer has copied
so far. -/
structure PageAt (contents : Mem → Pages) (writes : List (Call Key)) (base : Nat → UInt8)
    (key : Key) (slot : Nat) (s : cfg.State) : Prop where
  writing : ∀ t w, (s.threads t).pc.writeSection = some (slot, w) →
    contents s.shared.pages slot = (s.threads t).call.overlay
      ((s.threads t).pc.copied cfg (s.threads t).call) (applyWrites cfg key writes base)
  resting : NoWriter cfg slot s →
    contents s.shared.pages slot = applyWrites cfg key writes base

variable {cfg}

theorem applyWrites_append_ne {key : Key} {writes more : List (Call Key)} (base : Nat → UInt8)
    (others : ∀ call ∈ more, call.key ≠ key) :
    applyWrites cfg key (writes ++ more) base = applyWrites cfg key writes base := by
  have none : (more.filter fun call => call.key = key) = [] := by
    rw [List.filter_eq_nil_iff]
    intro call member
    simpa using others call member
  rw [applyWrites, List.filter_append, none, List.append_nil, applyWrites]

theorem applyWrites_of_ne {key : Key} {writes : List (Call Key)} (base : Nat → UInt8)
    (others : ∀ call ∈ writes, call.key ≠ key) : applyWrites cfg key writes base = base := by
  rw [← List.nil_append writes, applyWrites_append_ne base others]
  rfl

theorem applyWrites_snoc (writes : List (Call Key)) (call : Call Key) (base : Nat → UInt8) :
    applyWrites cfg call.key (writes ++ [call]) base =
      call.overlay (call.bytesWrite cfg) (applyWrites cfg call.key writes base) := by
  simp [applyWrites, List.filter_append, List.foldl_append]

variable {s : cfg.State} {t slot : Nat}

theorem writer_unique (holds : Orderly cfg s) {t' w w' : Nat}
    (writes : (s.threads t).pc.writeSection = some (slot, w))
    (writes' : (s.threads t').pc.writeSection = some (slot, w')) : t = t' := by
  have page := holds.writers t slot w writes
  have page' := holds.writers t' slot w' writes'
  have same := holds.slots.distinct _ _ slot (PageMap.slot_of_some page)
    (PageMap.slot_of_some page')
  rw [same, page', Option.some.injEq, Page.mk.injEq, Option.some.injEq] at page
  exact holds.records.unique t t' _ _ (hold_of_writeSection _ writes)
    (hold_of_writeSection _ writes') page.2.symm

section

variable {contents : Mem → Pages} {writes more : List (Call Key)} {base : Nat → UInt8}
  {key : Key} {slot : Nat} {s s' : cfg.State} {t : Nat}

theorem PageAt.other (before : PageAt cfg contents writes base key slot s)
    (others : ∀ t', t' ≠ t → s'.threads t' = s.threads t')
    (outside : ∀ w, (s.threads t).pc.writeSection ≠ some (slot, w))
    (stays : ∀ w, (s'.threads t).pc.writeSection ≠ some (slot, w))
    (same : contents s'.shared.pages slot = contents s.shared.pages slot)
    (apart : ∀ call ∈ more, call.key ≠ key) :
    PageAt cfg contents (writes ++ more) base key slot s' := by
  refine ⟨fun t' w section' => ?_, fun quiet => ?_⟩
  · have different : t' ≠ t := by
      rintro rfl
      exact stays w section'
    rw [others t' different] at section' ⊢
    rw [same, applyWrites_append_ne base apart]
    exact before.writing t' w section'
  · rw [same, applyWrites_append_ne base apart]
    refine before.resting fun t' w section' => ?_
    by_cases different : t' = t
    · subst different
      exact outside w section'
    · rw [← others t' different] at section'
      exact quiet t' w section'

variable (others : ∀ t', t' ≠ t → s'.threads t' = s.threads t')

include others

variable (alone : ∀ t' w, (s.threads t').pc.writeSection = some (slot, w) → t' = t)

include alone

theorem PageAt.mine {w : Nat} (stays : (s'.threads t).pc.writeSection = some (slot, w))
    (copied : contents s'.shared.pages slot = (s'.threads t).call.overlay
      ((s'.threads t).pc.copied cfg (s'.threads t).call) (applyWrites cfg key writes base)) :
    PageAt cfg contents writes base key slot s' := by
  refine ⟨fun t' w' section' => ?_, fun quiet => absurd stays (quiet t w)⟩
  by_cases same : t' = t
  · subst same
    exact copied
  · rw [others t' same] at section'
    exact absurd (alone t' w' section') same

theorem PageAt.leave (leaves : (s'.threads t).pc.writeSection = none)
    (written : contents s'.shared.pages slot = applyWrites cfg key writes base) :
    PageAt cfg contents writes base key slot s' := by
  refine ⟨fun t' w' section' => ?_, fun _ => written⟩
  by_cases same : t' = t
  · subst same
    simp [leaves] at section'
  · rw [others t' same] at section'
    exact absurd (alone t' w' section') same

end

/-! ### New slots -/

variable (cfg)

def Pc.filled (t : Nat) (call : Call Key) : cfg.Pc → Option (Nat × Nat)
  | .createFill slot _ i => some (slot, i)
  | .createFlush slot _ _ | .createInsert slot _ => some (slot, (call.content cfg t).1.length)
  | _ => none

def SlotsFilled (contents : Mem → Pages) (s : cfg.State) : Prop :=
  ∀ t slot n, (s.threads t).pc.filled cfg t (s.threads t).call = some (slot, n) → ∀ x value,
    x < n → ((s.threads t).call.content cfg t).1[x]? = some value →
      contents s.shared.pages slot x = value

variable {cfg} {n : Nat}

theorem slotHeld_of_filled {call : Call Key} {pc : cfg.Pc}
    (filled : pc.filled cfg t call = some (slot, n)) : pc.slotHeld = some slot := by
  cases pc <;> simp_all [Pc.filled, Pc.slotHeld]

/-- How a thread comes to have filled `n` bytes of a slot. -/
inductive Fills (t : Nat) (call : Call Key) (slot n : Nat) :
    cfg.Pc → Act Key → Prop
  | nothing {pc act}
      (empty : ∀ x, x < n → (call.content cfg t).1[x]? = none) : Fills t call slot n pc act
  | kept {pc act m}
      (before : pc.filled cfg t call = some (slot, m))
      (enough : ∀ x, m ≤ x → (call.content cfg t).1[x]? = none)
      (other : ∀ slot i value, act ≠ .storeByte slot i value) : Fills t call slot n pc act
  | stored {wmeta i value}
      (present : (call.content cfg t).1[i]? = some value) (last : n = i + 1) :
      Fills t call slot n (.createFill slot wmeta i) (.storeByte slot i value)

theorem fills_of_move {choice : Nat} {call : Call Key} {pc pc' : cfg.Pc} {act : Act Key}
    {reply : act.Reply cfg.nodes} (move : Move cfg t call choice pc act reply pc')
    (filled : pc'.filled cfg t call = some (slot, n)) : Fills t call slot n pc act := by
  cases move with
  | createFill byte =>
    cases filled
    exact .stored byte rfl
  | createFilled done =>
    cases filled
    refine .kept rfl (fun x beyond => ?_) (by simp)
    rw [List.getElem?_eq_none_iff] at done ⊢
    omega
  | createFlush | createFlushed =>
    cases filled
    exact .kept rfl (fun x beyond => List.getElem?_eq_none beyond) (by simp)
  | createEmpty kind data =>
    -- `Put` without data fills nothing
    exact .nothing fun x _ => by simp [Call.content, kind, data]
  | createFetched | recordCreates =>
    cases filled
    exact .nothing fun x inside => absurd inside (Nat.not_lt_zero x)
  | _ => cases filled

variable {view : cfg.memory.OneContent}

theorem contents_of_held {s' : cfg.State} {e : Event Key}
    (steps : CurrentStep view s e) (holds : Orderly cfg s)
    (held : (s.threads t).pc.slotHeld = some slot)
    (taken : step cfg s e = some s') (others : ∀ choice, e ≠ .thread t choice) :
    view.contents s'.shared.pages slot = view.contents s.shared.pages slot := by
  rcases (contents_step steps taken).2 with
    same | ⟨t', choice, slot', i, value, rfl, stores, set⟩
  · rw [same]
  have different : slot ≠ slot' := by
    rintro rfl
    generalize counter : (s.threads t').pc = pc at stores
    cases stores with
    | copy _ w =>
      have named := holds.writers t' slot w (by rw [counter]; rfl)
      exact (holds.slots.held t slot held).2 _ (PageMap.slot_of_some named)
    | fill =>
      obtain rfl := holds.slots.unique t t' slot held (by rw [counter]; rfl)
      exact others choice rfl
  rw [set, Pages.set, update_of_ne different]

theorem filled_own {choice : Nat} {act : Act Key} (steps : CurrentStep view s (.thread t choice))
    {pc' : cfg.Pc} {shared : cfg.Shared} {reply : act.Reply cfg.nodes}
    (before : SlotsFilled cfg view.contents s)
    (move : Move cfg t (s.threads t).call choice (s.threads t).pc act reply pc')
    (acted : perform cfg t s.shared act = some (shared, reply))
    (filled : pc'.filled cfg t (s.threads t).call = some (slot, n)) (x : Nat) (value : UInt8)
    (inside : x < n) (present : ((s.threads t).call.content cfg t).1[x]? = some value) :
    view.contents shared.pages slot x = value := by
  have fills := fills_of_move move filled
  have changed := (steps.move move acted).2
  clear move acted
  generalize counter : (s.threads t).pc = pc at fills
  cases fills with
  | nothing empty => simp [empty x inside] at present
  | @kept _ _ m filled enough other =>
    have earlier : x < m := by
      by_contra beyond
      simp [enough x (Nat.not_lt.mp beyond)] at present
    rcases changed with ⟨same, _⟩ | ⟨slot', i, value', stores, _⟩
    · rw [same]
      exact before t slot m (by rw [counter]; exact filled) x value earlier present
    · exact absurd stores (other slot' i value')
  | @stored wmeta i value' found last =>
    have done := before t slot i (by rw [counter]; rfl) x value
    rcases changed with ⟨_, never⟩ | ⟨slot', i', value'', stores, set⟩
    · exact absurd rfl (never slot i value')
    · cases stores
      rw [set]
      by_cases here : x = i
      · subst here
        rw [Pages.set_same]
        exact Option.some.inj (found.symm.trans present)
      · rw [Pages.set_of_ne _ _ (by omega)]
        exact done (by omega) present

theorem slotsFilled_step {s' : cfg.State} {e : Event Key}
    (steps : CurrentStep view s e) (holds : Orderly cfg s) (taken : step cfg s e = some s')
    (before : SlotsFilled cfg view.contents s) : SlotsFilled cfg view.contents s' := by
  refine forall_threads_step (P := fun t thread => ∀ slot n,
    thread.pc.filled cfg t thread.call = some (slot, n) → ∀ x value, x < n →
      (thread.call.content cfg t).1[x]? = some value → view.contents s'.shared.pages slot x = value)
    taken ?_ ?_ ?_
  · intro t others slot n filled x value inside present
    rw [contents_of_held steps holds (slotHeld_of_filled filled) taken others]
    exact before t slot n filled x value inside present
  · intro t call slot n filled
    simp only [Call.entryPc] at filled
    repeat' split at filled
    all_goals cases filled
  · rintro t choice act reply _ pc' rfl rfl move acted slot n filled
    exact filled_own steps before move acted filled

/-! ### Steps on the page of a key -/

section

variable {view : cfg.memory.OneContent} {contents : Mem → Pages} {writes : List (Call Key)}
  {base : Nat → UInt8}
  {key : Key} {slot : Nat} {s s' : cfg.State}

theorem PageAt.frame (before : PageAt cfg contents writes base key slot s)
    (threads : s'.threads = s.threads)
    (same : contents s'.shared.pages slot = contents s.shared.pages slot) :
    PageAt cfg contents writes base key slot s' := by
  refine ⟨fun t w section' => ?_, fun quiet => ?_⟩
  · rw [threads] at section' ⊢
    rw [same]
    exact before.writing t w section'
  · rw [same]
    refine before.resting fun t w section' => ?_
    rw [← threads] at section'
    exact quiet t w section'

variable {t : Nat}

theorem copiesInto_of_outside (choice : Nat)
    (outside : ∀ w, (s.threads t).pc.writeSection ≠ some (slot, w)) :
    copiesInto cfg slot s (.thread t choice) = false := by
  simp only [copiesInto]
  split
  · rename_i slot' w i counter
    have other : slot' ≠ slot := by
      rintro rfl
      exact outside w (by rw [counter]; rfl)
    simp [other]
  · rfl

variable {e : Event Key}

theorem copiesInto_other (other : ∀ t choice, e ≠ .thread t choice) :
    copiesInto cfg slot s e = false := by
  cases e with
  | thread t choice => exact absurd rfl (other t choice)
  | _ => rfl

theorem effectOf_other (other : ∀ t choice, e ≠ .thread t choice) : effectOf cfg s e = [] := by
  cases e with
  | thread t choice => exact absurd rfl (other t choice)
  | _ => rfl

theorem effectOf_writing {w : Nat} (choice : Nat)
    (writing : (s.threads t).pc.writeSection = some (slot, w))
    (inside : (s.threads t).pc ≠ .writeSeqEnd slot w) : effectOf cfg s (.thread t choice) = [] := by
  have none : effectPoint cfg s t = false := by
    rw [effectPoint]
    cases counter : (s.threads t).pc <;> simp_all [Pc.effectPoint, Pc.writeSection]
  simp [effectOf, none]

theorem pageAt_writer {choice w : Nat} {act : Act Key} {pc' : cfg.Pc}
    {shared : cfg.Shared} {reply : act.Reply cfg.nodes}
    (steps : CurrentStep view s (.thread t choice)) (holds : Orderly cfg s)
    (move : Move cfg t (s.threads t).call choice (s.threads t).pc act reply pc')
    (acted : perform cfg t s.shared act = some (shared, reply))
    (writing : (s.threads t).pc.writeSection = some (slot, w))
    (before : PageAt cfg view.contents writes base (s.threads t).call.key slot s) :
    PageAt cfg view.contents (writes ++ effectOf cfg s (.thread t choice)) base
      (s.threads t).call.key slot
      ⟨shared, update s.threads t ⟨(s.threads t).call, pc'⟩⟩ := by
  have page := before.writing t w writing
  have changed := (steps.move move acted).2
  have alone : ∀ t' w', (s.threads t').pc.writeSection = some (slot, w') → t' = t :=
    fun t' w' writing' => writer_unique holds writing' writing
  have others : ∀ t', t' ≠ t →
      update s.threads t ⟨(s.threads t).call, pc'⟩ t' = s.threads t' :=
    fun t' different => update_of_ne different _ _
  have none := effectOf_writing choice writing
  generalize counter : (s.threads t).pc = pc at move writing page none
  cases move with
  | writeByte left data =>
    cases writing
    rw [none (by simp), List.append_nil]
    obtain ⟨slot', x, value, stores, set⟩ := changed.resolve_left fun kept => kept.2 _ _ _ rfl
    cases stores
    refine .mine others alone (w := w) (by simp [Pc.writeSection]) ?_
    simp only [Pc.copied, Nat.min_eq_left left.le] at page
    simp only [set, Pages.set, update_self, Pc.copied, Nat.min_eq_left left,
      overlay_succ data, page]
  | writeCopied full =>
    cases writing
    rw [none (by simp), List.append_nil]
    obtain ⟨same, _⟩ := changed.resolve_right (by rintro ⟨_, _, _, ⟨⟩, _⟩)
    refine .mine others alone (w := w) (by simp [Pc.writeSection]) ?_
    simpa [same, Pc.copied, Nat.min_eq_right (Nat.not_lt.mp full)] using page
  | writeValid | writeNotified | writeFlush | writeFlushed =>
    cases writing
    rw [none (by simp), List.append_nil]
    obtain ⟨same, _⟩ := changed.resolve_right (by rintro ⟨_, _, _, ⟨⟩, _⟩)
    refine .mine others alone (w := w) (by simp [Pc.writeSection]) ?_
    simpa [same, Pc.copied] using page
  | writeAbort =>
    cases writing
    rw [none (by simp), List.append_nil]
    obtain ⟨same, _⟩ := changed.resolve_right (by rintro ⟨_, _, _, ⟨⟩, _⟩)
    refine .leave others alone (by simp [Pc.writeSection]) ?_
    simpa [same, Pc.copied] using page
  | writeWraps | writeSeqEnd =>
    cases writing
    obtain ⟨same, _⟩ := changed.resolve_right (by rintro ⟨_, _, _, ⟨⟩, _⟩)
    refine .leave others alone (by simp [Pc.writeSection]) ?_
    simp only [same, page, Pc.copied]
    by_cases some : 0 < (s.threads t).call.bytesWrite cfg
    · have now : effectOf cfg s (.thread t choice) = [(s.threads t).call] := by
        simp [effectOf, effectPoint, counter, Pc.effectPoint, some]
      rw [now, applyWrites_snoc]
    · have none : effectOf cfg s (.thread t choice) = [] := by simp [effectOf, some]
      rw [none, List.append_nil, Nat.eq_zero_of_not_pos some, overlay_zero]
  | _ => cases writing

/-- A write takes effect on the page of its own key: a writer has the slot, and a page
that is created had none. -/
theorem key_of_effect (choice : Nat) (holds : Orderly cfg s)
    (known : (latestPages s.shared.log).slot key = some slot)
    (outside : ∀ w, (s.threads t).pc.writeSection ≠ some (slot, w)) :
    ∀ call ∈ effectOf cfg s (.thread t choice), call.key ≠ key := by
  intro call member same
  simp only [effectOf] at member
  split at member
  · rename_i effect
    obtain rfl := List.mem_singleton.mp member
    rw [Bool.and_eq_true, effectPoint] at effect
    have point := effect.1
    cases counter : (s.threads t).pc with
    | writeSeqEnd slot' w =>
      have named := holds.writers t slot' w (by rw [counter]; rfl)
      rw [same] at named
      rw [PageMap.slot_of_some named, Option.some.injEq] at known
      subst known
      exact outside w (by rw [counter]; rfl)
    | createInsert slot' wmeta =>
      simp only [counter, Pc.effectPoint, Bool.and_eq_true, same] at point
      have absent : latestPages s.shared.log key = none := by
        simpa [latest_eq, PageMap.toDirectory] using point.2
      simp [PageMap.slot, absent] at known
    | _ => simp [counter, Pc.effectPoint] at point
  · cases member

theorem pageAt_step (steps : CurrentStep view s e) (holds : Orderly cfg s)
    (holds' : Orderly cfg s') (taken : step cfg s e = some s')
    (known : (latestPages s.shared.log).slot key = some slot)
    (before : PageAt cfg view.contents writes base key slot s) :
    PageAt cfg view.contents (writes ++ effectOf cfg s e) base key slot s' := by
  cases stepForm_of_step taken with
  | @start t call ready =>
    refine before.other (t := t) (fun t' different => update_of_ne different _ _)
      (fun w => ?_) (fun w => ?_) rfl (fun _ member => by cases member)
    · cases counter : (s.threads t).pc <;> simp_all [Pc.ready, Pc.writeSection]
    · simp only [update_self, Call.entryPc]
      repeat' split
      all_goals simp [Pc.writeSection]
  | @thread t choice _ _ shared pc' move acted =>
    by_cases inside : ∃ w, (s.threads t).pc.writeSection = some (slot, w)
    · obtain ⟨w, writing⟩ := inside
      have named := holds.writers t slot w writing
      obtain rfl := holds.slots.distinct key _ slot known (PageMap.slot_of_some named)
      exact pageAt_writer steps holds move acted writing before
    have outside : ∀ w, (s.threads t).pc.writeSection ≠ some (slot, w) :=
      fun w writing => inside ⟨w, writing⟩
    have same := contents_of_not_copiesInto steps holds.slots known
      (copiesInto_of_outside choice outside) taken
    have apart := key_of_effect choice holds known outside
    have others : ∀ t', t' ≠ t →
        update s.threads t ⟨(s.threads t).call, pc'⟩ t' = s.threads t' :=
      fun t' different => update_of_ne different _ _
    by_cases enters : ∃ w, pc'.writeSection = some (slot, w)
    · obtain ⟨w, writing⟩ := enters
      have alone : ∀ t' w', (s.threads t').pc.writeSection = some (slot, w') → t' = t := by
        intro t' w' writing'
        by_contra different
        rw [← others t' different] at writing'
        have mine : (update s.threads t ⟨(s.threads t).call, pc'⟩ t).pc.writeSection =
            some (slot, w) := by rwa [update_self]
        exact different (writer_unique holds' writing' mine)
      have quiet : NoWriter cfg slot s := by
        intro t' w' writing'
        obtain rfl := alone t' w' writing'
        exact outside w' writing'
      have fresh : pc'.copied cfg (s.threads t).call = 0 := by
        rcases writeSection_move move writing with ⟨before, _⟩ | begins
        · exact absurd before (outside w)
        · rw [begins] at move
          cases move <;> rfl
      refine .mine (t := t) others alone (w := w) (by simpa using writing) ?_
      simp only [update_self, fresh, overlay_zero]
      rw [applyWrites_append_ne base apart]
      exact same.trans (before.resting quiet)
    · refine before.other (t := t) others outside (fun w writing => enters ⟨w, ?_⟩) same apart
      simpa using writing
  | replica other =>
    have same := contents_of_not_copiesInto steps holds.slots known (copiesInto_other other)
      taken
    rw [effectOf_other other, List.append_nil]
    exact before.frame rfl same

theorem content_of_carries {j : Nat} {call : Call Key} {buffer : Nat → UInt8}
    (carries : call.carries cfg = true) (data : call.data = some buffer) (inside : j < call.count) :
    (call.content cfg t).1[j]? = some (buffer j) := by
  unfold Call.carries at carries
  split at carries
  · rename_i kind
    simp [Call.content, kind, data, copyOf, inside]
  · rename_i kind
    have full : call.count = cfg.slotSize := by
      by_contra other
      simp [Call.toWrite, other] at carries
    have buffered : call.toWrite cfg = some buffer := by rw [Call.toWrite, if_pos full, data]
    simp [Call.content, kind, buffered, copyOf, ← full, inside]
  · cases carries

theorem pageAt_insert {choice : Nat} {wmeta : Option Nat} (holds : Orderly cfg s)
    (filled : SlotsFilled cfg view.contents s)
    (alone : createsOwnPage cfg s (.thread t choice) = true)
    (taken : step cfg s (.thread t choice) = some s')
    (counter : (s.threads t).pc = .createInsert slot wmeta)
    (fresh : ∀ call ∈ writes, call.key ≠ (s.threads t).call.key) :
    PageAt cfg view.contents (writes ++ effectOf cfg s (.thread t choice))
      (view.contents s'.shared.pages slot) (s.threads t).call.key slot s' := by
  have held : (s.threads t).pc.slotHeld = some slot := by rw [counter]; rfl
  have quiet : NoWriter cfg slot s := fun t' w writing =>
    (holds.slots.held t slot held).2 _ (PageMap.slot_of_some (holds.writers t' slot w writing))
  obtain ⟨instr, shared, reply, fetched, acted, rfl⟩ := step_thread taken
  rw [counter] at fetched
  cases fetched
  have same := congrArg view.contents ((perform_frame acted).pages rfl)
  have none : applyWrites cfg (s.threads t).call.key writes (view.contents shared.pages slot) =
      view.contents shared.pages slot := applyWrites_of_ne _ fresh
  refine ⟨fun t' w writing => ?_, fun _ => ?_⟩
  · by_cases mine : t' = t
    · subst mine
      simp [Pc.writeSection] at writing
    · exact absurd (by simpa [mine] using writing) (quiet t' w)
  · simp only [effectOf]
    split
    · rename_i effect
      rw [Bool.and_eq_true] at effect
      have carries : (s.threads t).call.carries cfg = true := by
        have point := effect.1
        simp only [effectPoint, counter, Pc.effectPoint, Bool.and_eq_true] at point
        exact point.1
      simp only [createsOwnPage, counter, carries, Bool.not_true, Bool.false_or,
        Bool.and_eq_true, beq_iff_eq] at alone
      obtain ⟨⟨_, some⟩, offset⟩ := alone
      obtain ⟨buffer, data⟩ := Option.isSome_iff_exists.mp some
      rw [applyWrites_snoc, none, overlay_eq_self data]
      intro j inside
      rw [same, offset, Nat.zero_add]
      have covered : j < (s.threads t).call.count := by
        rw [Call.bytesWrite] at inside
        omega
      have present := content_of_carries (t := t) carries data covered
      have bound := (List.getElem?_eq_some_iff.mp present).1
      exact filled t slot _ (by rw [counter]; rfl) j (buffer j) bound present
    · rw [List.append_nil, none]

end

end

end Megalon.Protocol
