import Megalon.Protocol.CacheNodes
import Megalon.Protocol.SequencedReads

/-!
Contract: when the sequence count a host keeps for a record says that the page has not
been written since.

Owns: the write sections on a record since its allocation, the pages written since a
host stored its count, and the condition under which no old count equals the sequence
of a record again.

Does not own: what a host has in its cache.
-/

namespace Megalon.Protocol

open Function Core Foundations Index

/-- The record and the count a thread has in hand to store for its host. -/
def Pc.carries {Key : Type} {nodes : Nat} : Pc Key nodes → Option (Nat × Nat)
  | .readLocalSeq _ w seq => some (w, seq)
  | .readCopy _ (some guard) _ | .readNotified _ (some guard) _ | .readRetry _ guard _
  | .readRemember guard _ => some (guard.wmeta, guard.seqcount)
  | .writeWrap w | .writeWrapWait w _ => some (w, 0)
  | .writeRemember w seq => some (w, seq)
  | _ => none

section

variable {Key Mem : Type} [BlockKey Key] (cfg : Config Key Mem)

/-- `sections w` are the write sections on `w` since its allocation, without the one of the
allocation itself; `written h w key` tells whether the page of `key` has been written since
host `h` stored its count for `w`. -/
structure CountState where
  base : cfg.State
  sections : Nat → Nat
  written : Fin cfg.nodes → Nat → Key → Bool

/-- The event is a `TryAllocateLock` that takes record `w`. -/
def allocates (w : Nat) (s : cfg.State) : Event Key → Bool
  | .thread t _ =>
    match (s.threads t).pc with
    | .recordScan _ start i => decide (i < cfg.poolLen) && (i + start) % cfg.poolLen == w &&
        (s.shared.word w).isFree && !(s.shared.word w).isLocked
    | _ => false
  | _ => false

def countSections (s : cfg.State) (sections : Nat → Nat) (e : Event Key) : Nat → Nat :=
  fun w =>
    if allocates cfg w s e then 0
    else if beginsSection cfg w s e then sections w + 1
    else sections w

def storesCount (s : cfg.State) : Event Key → Option (Fin cfg.nodes × Nat)
  | .thread t _ =>
    match (s.threads t).pc with
    | .readRemember guard _ => some (cfg.replica t, guard.wmeta)
    | .writeRemember w _ => some (cfg.replica t, w)
    | _ => none
  | _ => none

/-- The key whose page the event writes: a byte of `CopyFromUserBufferCXL`, or the insertion
of a new page. -/
def writesPage (s : cfg.State) : Event Key → Option Key
  | .thread t _ =>
    match (s.threads t).pc with
    | .writeCopy _ _ i =>
      if i < (s.threads t).call.bytesWrite cfg then some (s.threads t).call.key else none
    | .createInsert _ _ =>
      if (latest cfg.nodes s.shared.log (s.threads t).call.key).isNone then
        some (s.threads t).call.key
      else none
    | _ => none
  | _ => none

def trackWrites (s : cfg.State) (written : Fin cfg.nodes → Nat → Key → Bool)
    (e : Event Key) : Fin cfg.nodes → Nat → Key → Bool :=
  fun h w key =>
    if storesCount cfg s e = some (h, w) then false
    else if writesPage cfg s e = some key then true
    else written h w key

def countSystem : System (CountState cfg) (Event Key) where
  init := fun s => Initial cfg s.base ∧ ∀ w, s.sections w = 0
  step := fun s e =>
    (step cfg s.base e).map fun base =>
      ⟨base, countSections cfg s.base s.sections e, trackWrites cfg s.base s.written e⟩

/-- A record is allocated only while no host keeps a count for it and no thread has one in
hand, and then has fewer than `2 ^ 29` write sections. -/
def CountsFresh (s : CountState cfg) (e : Event Key) : Prop :=
  (∀ w, allocates cfg w s.base e = true → (∀ h, s.base.shared.localSeq h w = none) ∧
    ∀ t seq, (s.base.threads t).pc.carries ≠ some (w, seq)) ∧
  ∀ w, countSections cfg s.base s.sections e w < 2 ^ 29

/-- If a host keeps the current sequence of a record, the page of the key that has the record
has not been written since the host stored it. -/
def CountsSound (s : CountState cfg) : Prop :=
  ∀ h w seq key, s.base.shared.localSeq h w = some seq → (s.base.shared.word w).seq = seq →
    recordOf s.base key = some w → s.written h w key = false

/-! ### Counts of sections -/

/-- `seq` was the sequence of a record after some of its `sections` sections had ended; the
last one is open if the sequence is odd now. -/
def TakenAt (sections now seq k : Nat) : Prop :=
  k + now % 2 ≤ sections ∧ seq = (2 + 2 * k) % 2 ^ 30

def Numbered (sections now : Nat) : Prop :=
  (now + now % 2) % 2 ^ 30 = (2 + 2 * sections) % 2 ^ 30

theorem TakenAt.eq {sections now k : Nat} (taken : TakenAt sections now now k)
    (numbered : Numbered sections now) (few : sections < 2 ^ 29) : k = sections := by
  obtain ⟨inside, value⟩ := taken
  unfold Numbered at numbered
  omega

theorem takenAt_of_numbered {sections now : Nat} (numbered : Numbered sections now)
    (even : now % 2 = 0) (inside : now < 2 ^ 30) : TakenAt sections now now sections := by
  unfold Numbered at numbered
  refine ⟨by omega, ?_⟩
  omega

variable {cfg} {s : cfg.State} {t w : Nat}

theorem allocates_of_free {choice start i : Nat} {purpose : Purpose} (records : RecordsOwned cfg s)
    (at_scan : (s.threads t).pc = .recordScan purpose start i) (inside : i < cfg.poolLen)
    (this : (i + start) % cfg.poolLen = w) (free : (s.shared.word w).isFree = true) :
    allocates cfg w s (.thread t choice) = true := by
  have unlocked : (s.shared.word w).isLocked = false := by
    by_contra locked
    simp [records.used w (eq_true_of_ne_false locked)] at free
  simp [allocates, at_scan, inside, this, free, unlocked]

variable {s' : cfg.State} {e : Event Key}

theorem sections_step (sections : Nat → Nat) (records : RecordsOwned cfg s)
    (allowed : uncontested cfg s e = true) (taken : step cfg s e = some s')
    (used : (s'.shared.word w).isFree = false) :
    (allocates cfg w s e = true ∧ (s'.shared.word w).seq = 1) ∨
    (allocates cfg w s e = false ∧ (s.shared.word w).isFree = false ∧
      sections w ≤ countSections cfg s sections e w ∧
      (∀ k, k + (s.shared.word w).seq % 2 ≤ sections w →
        k + (s'.shared.word w).seq % 2 ≤ countSections cfg s sections e w) ∧
      (Numbered (sections w) (s.shared.word w).seq →
        Numbered (countSections cfg s sections e w) (s'.shared.word w).seq)) := by
  by_cases allocated : allocates cfg w s e = true
  · left
    refine ⟨allocated, ?_⟩
    cases e with
    | thread t choice =>
      obtain ⟨instr, shared, reply, fetched, acted, rfl⟩ := step_thread taken
      simp only [allocates] at allocated
      split at allocated
      · rename_i purpose start i counter
        simp only [Bool.and_eq_true, decide_eq_true_eq, beq_iff_eq] at allocated
        obtain ⟨⟨⟨inside, rfl⟩, free⟩, unlocked⟩ := allocated
        rw [counter] at fetched
        simp only [next, if_pos inside] at fetched
        cases fetched
        simp only [perform, free, unlocked, Bool.and_self, if_true] at acted
        cases acted
        simp [Shared.setWord]
      · cases allocated
    | _ => cases allocated
  right
  rw [Bool.not_eq_true] at allocated
  refine ⟨allocated, ?_⟩
  by_cases begins : beginsSection cfg w s e = true
  · obtain ⟨unlocked, begun⟩ := word_of_beginsSection begins taken
    have even := records.even w unlocked
    have bounded := SeqWord.seq_lt (s.shared.word w)
    have inUse : (s.shared.word w).isFree = false := by
      cases e with
      | thread t choice =>
        simp only [beginsSection] at begins
        split at begins
        · rw [Bool.and_eq_true, Bool.not_eq_true'] at begins
          exact begins.2
        · cases begins
      | _ => cases begins
    simp only [countSections, allocated, begins, if_true, Bool.false_eq_true, if_false, begun,
      seq_writeSeqlockBegin, Numbered]
    refine ⟨inUse, by omega, fun k before => by omega, fun before => by omega⟩
  have same : countSections cfg s sections e w = sections w := by
    simp [countSections, allocated, begins]
  rw [same]
  rcases word_step records allowed taken w with kept | ⟨t, choice, rfl, changed⟩
  · rw [kept] at used ⊢
    exact ⟨used, Nat.le_refl _, fun _ => id, id⟩
  generalize s'.shared.word w = after at changed used ⊢
  cases changed with
  | allocated at_scan inside this free =>
    rw [allocates_of_free records at_scan inside this free] at allocated
    cases allocated
  | begun at_begin inUse _ => simp [beginsSection, at_begin, inUse] at begins
  | lockedOnly inUse _ =>
    rw [seq_writeSeqlockOnly]
    exact ⟨inUse, Nat.le_refl _, fun _ => id, id⟩
  | ended holds =>
    have parity := records.parity t _ holds
    have bounded := SeqWord.seq_lt (s.shared.word w)
    simp only [HoldStatus.odd, if_true] at parity
    rw [seq_writeSeqlockEnd]
    unfold Numbered
    exact ⟨(records.held t _ holds).2.1, Nat.le_refl _, fun k before => by omega,
      fun before => by omega⟩
  | freed holds _ => simp at used

/-! ### Counts in hand -/

variable {seq : Nat}

/-- A thread takes a count from the word of the record, in `read_seq_start` or with `WSeqEnd`,
and keeps it. -/
theorem takes_or_carries {choice : Nat} {act : Act Key} {pc' : cfg.Pc}
    {shared : cfg.Shared} {reply : act.Reply cfg.nodes} (records : RecordsOwned cfg s)
    (move : Move cfg t (s.threads t).call choice (s.threads t).pc act reply pc')
    (acted : perform cfg t s.shared act = some (shared, reply))
    (carries : pc'.carries = some (w, seq)) :
    (s.threads t).pc.carries = some (w, seq) ∨
      ((s.threads t).pc.carries = none ∧ (shared.word w).seq = seq ∧
        (shared.word w).seq % 2 = 0) := by
  generalize counter : (s.threads t).pc = pc at move ⊢
  cases move with
  | readSeqBegin =>
    simp only [perform] at acted
    split at acted <;> cases acted
    rename_i ready
    cases carries
    exact .inr ⟨rfl, rfl, (readSeqlockReady_iff _).mp ready⟩
  | @writeWraps _ w' | @writeSeqEnd _ w' =>
    have parity := records.parity t ⟨w', .entry true⟩ (by rw [holdOf, counter]; rfl)
    obtain ⟨rfl, value⟩ := perform_wSeqEnd acted
    cases carries
    simp only [HoldStatus.odd, if_true] at parity
    right
    simp only [Shared.setWord, update_self]
    refine ⟨rfl, value.symm, ?_⟩
    rw [seq_writeSeqlockEnd]
    omega
  | @readByte _ guard | @readCopied _ guard =>
    cases guard with
    | none => cases carries
    | some guard => exact .inl carries
  | _ =>
    first
      | exact .inl carries
      | cases carries

theorem carries_other {count : Nat × Nat} (taken : step cfg s e = some s')
    (other : ∀ choice, e ≠ .thread t choice) (carries : (s'.threads t).pc.carries = some count) :
    (s.threads t).pc.carries = some count := by
  rcases threads_of_step taken t with same | ⟨call, _, _, entered⟩ | ⟨choice, now, _⟩
  · rwa [← same]
  · rw [entered] at carries
    unfold Call.entryPc at carries
    repeat' split at carries
    all_goals cases carries
  · exact absurd now (other choice)

/-! ### Counts of hosts -/

theorem storesCount_other (other : ∀ t choice, e ≠ .thread t choice) :
    storesCount cfg s e = none := by
  cases e with
  | thread t choice => exact absurd rfl (other t choice)
  | _ => rfl

theorem localSeq_update {counts : Fin cfg.nodes → Nat → Option Nat} {h h' : Fin cfg.nodes}
    {w' : Nat} {value : Option Nat}
    (stored : update counts h' (update (counts h') w' value) h w = some seq) :
    (h' = h ∧ w' = w ∧ value = some seq) ∨ (¬(h' = h ∧ w' = w) ∧ counts h w = some seq) := by
  by_cases sameHost : h = h'
  · subst sameHost
    by_cases sameRecord : w = w'
    · subst sameRecord
      exact .inl ⟨rfl, rfl, by simpa using stored⟩
    · exact .inr ⟨fun both => sameRecord both.2.symm, by simpa [sameRecord] using stored⟩
  · exact .inr ⟨fun both => sameHost both.1.symm, by simpa [sameHost] using stored⟩

theorem localSeq_step (taken : step cfg s e = some s') {h : Fin cfg.nodes}
    (stored : s'.shared.localSeq h w = some seq) :
    (s.shared.localSeq h w = some seq ∧ storesCount cfg s e ≠ some (h, w)) ∨
      ∃ t choice, e = .thread t choice ∧ storesCount cfg s e = some (h, w) ∧
        (s.threads t).pc.carries = some (w, seq) := by
  cases stepForm_of_step taken with
  | start => exact .inl ⟨stored, by simp [storesCount]⟩
  | replica other => exact .inl ⟨stored, by simp [storesCount_other other]⟩
  | @thread t choice act _ _ _ move acted =>
    generalize counter : (s.threads t).pc = pc at move
    by_cases stores : act.onLocalSeq = true
    · cases move with
      | readForget =>
        cases acted
        rcases localSeq_update stored with ⟨_, _, value⟩ | ⟨_, before⟩
        · cases value
        · exact .inl ⟨before, by simp [storesCount, counter]⟩
      | readRemember | writeRemember =>
        cases acted
        simp only [storesCount, counter, ne_eq, Option.some.injEq, Prod.mk.injEq]
        rcases localSeq_update stored with ⟨rfl, rfl, value⟩ | ⟨different, before⟩
        · exact .inr ⟨t, choice, rfl, ⟨rfl, rfl⟩, by
            rw [counter, Pc.carries, ← Option.some.inj value]⟩
        · exact .inl ⟨before, different⟩
      | _ => cases stores
    · rw [Bool.not_eq_true] at stores
      rw [(perform_frame acted).localSeq stores] at stored
      refine .inl ⟨stored, fun now => ?_⟩
      simp only [storesCount, counter] at now
      cases move with
      | readRemember | writeRemember => cases stores
      | _ => cases now

/-! ### The invariant -/

variable (cfg) in
/-- Every count of a record in use, in hand or stored, was its sequence after some section
since its allocation; and an earlier section than the last one if the page was written
since. -/
structure CountInv (s : CountState cfg) : Prop where
  orderly : Orderly cfg s.base
  few : ∀ w, (s.base.shared.word w).isFree = false → s.sections w < 2 ^ 29
  numbered : ∀ w, (s.base.shared.word w).isFree = false →
    Numbered (s.sections w) (s.base.shared.word w).seq
  carried : ∀ t w seq, (s.base.threads t).pc.carries = some (w, seq) →
    (s.base.shared.word w).isFree = false →
    ∃ k, TakenAt (s.sections w) (s.base.shared.word w).seq seq k
  stored : ∀ h w seq, s.base.shared.localSeq h w = some seq →
    (s.base.shared.word w).isFree = false →
    ∃ k, TakenAt (s.sections w) (s.base.shared.word w).seq seq k ∧
      ∀ key, (latestPages s.base.shared.log).record key = some w → s.written h w key = true →
        k < s.sections w

theorem countInv_initial (s : CountState cfg) (start : (countSystem cfg).init s) :
    CountInv cfg s where
  orderly := orderly_initial s.base start.1
  few := fun w used => by simp [start.1.word w] at used
  numbered := fun w used => by simp [start.1.word w] at used
  carried := fun t w seq carries => by
    rw [start.1.threads t] at carries
    cases carries
  stored := fun h w seq stored => by simp [start.1.localSeq h w] at stored

section

variable {s : CountState cfg} {e : Event Key} {base : cfg.State} {w : Nat}

theorem carried_step (inv : CountInv cfg s) (allowed : orderly cfg s.base e = true)
    (fresh : CountsFresh cfg s e) (taken : step cfg s.base e = some base) {t seq : Nat}
    (numbered : Numbered (countSections cfg s.base s.sections e w) (base.shared.word w).seq)
    (carries : (base.threads t).pc.carries = some (w, seq))
    (used : (base.shared.word w).isFree = false) :
    ∃ k, TakenAt (countSections cfg s.base s.sections e w) (base.shared.word w).seq seq k := by
  rw [orderly, Bool.and_eq_true] at allowed
  have kept : (s.base.threads t).pc.carries = some (w, seq) →
      ∃ k, TakenAt (countSections cfg s.base s.sections e w) (base.shared.word w).seq seq k := by
    intro before
    rcases sections_step s.sections inv.orderly.records allowed.1 taken used with
      ⟨allocated, _⟩ | ⟨_, inUse, _, mono, _⟩
    · exact absurd before ((fresh.1 w allocated).2 t seq)
    · obtain ⟨k, inside, value⟩ := inv.carried t w seq before inUse
      exact ⟨k, mono k inside, value⟩
  by_cases own : ∃ choice, e = .thread t choice
  · obtain ⟨choice, rfl⟩ := own
    obtain ⟨_, _, _, _, move, acted, rfl⟩ := step_move taken
    simp only [update_self] at carries
    rcases takes_or_carries inv.orderly.records move acted carries with
      before | ⟨_, value, even⟩
    · exact kept before
    · subst value
      exact ⟨_, takenAt_of_numbered numbered even (SeqWord.seq_lt _)⟩
  · exact kept (carries_other taken (fun choice now => own ⟨choice, now⟩) carries)

theorem odd_of_change (inv : CountInv cfg s) (allowed : orderly cfg s.base e = true)
    (taken : step cfg s.base e = some base) {key : Key}
    (names : (latestPages base.shared.log).record key = some w)
    (changes : (latestPages s.base.shared.log).record key ≠ some w ∨
      writesPage cfg s.base e = some key) : (s.base.shared.word w).seq % 2 = 1 := by
  have orderlyStep := allowed
  rw [orderly, Bool.and_eq_true] at allowed
  have records := inv.orderly.records
  rcases page_step records allowed.1 taken key with same | ⟨t, choice, rfl, changed⟩
  · have before : (latestPages s.base.shared.log).record key = some w := by
      rwa [PageMap.record, ← same]
    have writes := changes.resolve_left fun different => different before
    cases e with
    | thread t choice =>
      simp only [writesPage] at writes
      split at writes
      · rename_i slot w' i counter
        split at writes <;> cases writes
        have section_ : (s.base.threads t).pc.writeSection = some (slot, w') := by
          rw [counter]
          rfl
        have own := inv.orderly.writers t slot w' section_
        rw [PageMap.record_of_some own] at before
        obtain rfl := Option.some.inj before
        have parity := records.parity t _ (hold_of_writeSection _ section_)
        simpa [HoldStatus.odd] using parity
      · split at writes <;> cases writes
        rename_i absent
        have missing : latestPages s.base.shared.log (s.base.threads t).call.key = none := by
          simpa [latest_eq, PageMap.toDirectory] using absent
        simp [PageMap.record, missing] at before
      · cases writes
    | _ => cases writes
  · generalize before : latestPages s.base.shared.log key = page at changed
    generalize after : latestPages base.shared.log key = page' at changed
    cases changed with
    | inserted mine at_insert =>
      rw [PageMap.record_of_some after] at names
      cases names
      have parity := records.parity t ⟨w, .reserved (s.base.threads t).call.key⟩ (by
        rw [holdOf, at_insert]
        rfl)
      simpa [HoldStatus.odd] using parity
    | toReadWrite mine at_switch =>
      rw [PageMap.record_of_some after] at names
      cases names
      have parity := records.parity t ⟨w, .reserved (s.base.threads t).call.key⟩ (by
        rw [holdOf, at_switch]
        rfl)
      simpa [HoldStatus.odd] using parity
    | toReadOnly holds =>
      rw [PageMap.record_of_some after] at names
      cases names

theorem stored_step (inv : CountInv cfg s) (allowed : orderly cfg s.base e = true)
    (fresh : CountsFresh cfg s e) (taken : step cfg s.base e = some base) {h : Fin cfg.nodes}
    {seq : Nat} (stored : base.shared.localSeq h w = some seq)
    (used : (base.shared.word w).isFree = false) :
    ∃ k, TakenAt (countSections cfg s.base s.sections e w) (base.shared.word w).seq seq k ∧
      ∀ key, (latestPages base.shared.log).record key = some w →
        trackWrites cfg s.base s.written e h w key = true →
        k < countSections cfg s.base s.sections e w := by
  have uncontestedStep : uncontested cfg s.base e = true := by
    rw [orderly, Bool.and_eq_true] at allowed
    exact allowed.1
  rcases sections_step s.sections inv.orderly.records uncontestedStep taken used with
    ⟨allocated, _⟩ | ⟨_, inUse, more, mono, _⟩
  · -- nobody has a count of a record that is allocated
    rcases localSeq_step taken stored with ⟨before, _⟩ | ⟨t, choice, _, _, carries⟩
    · simp [(fresh.1 w allocated).1 h] at before
    · exact absurd carries ((fresh.1 w allocated).2 t seq)
  rcases localSeq_step taken stored with ⟨before, other⟩ | ⟨t, choice, _, now, carries⟩
  · obtain ⟨k, ⟨inside, value⟩, earlier⟩ := inv.stored h w seq before inUse
    refine ⟨k, ⟨mono k inside, value⟩, fun key names written => ?_⟩
    by_cases changes : (latestPages s.base.shared.log).record key ≠ some w ∨
        writesPage cfg s.base e = some key
    · have odd := odd_of_change inv allowed taken names changes
      omega
    · obtain ⟨named, silent⟩ := not_or.mp changes
      rw [trackWrites, if_neg other, if_neg silent] at written
      exact Nat.lt_of_lt_of_le (earlier key (not_not.mp named) written) more
  · obtain ⟨k, inside, value⟩ := inv.carried t w seq carries inUse
    refine ⟨k, ⟨mono k inside, value⟩, fun key _ written => ?_⟩
    rw [trackWrites, if_pos now] at written
    cases written

end

theorem countInv_step (s : CountState cfg) (e : Event Key) (s' : CountState cfg)
    (inv : CountInv cfg s) (allowed : orderly cfg s.base e = true ∧ CountsFresh cfg s e)
    (taken : (countSystem cfg).step s e = some s') : CountInv cfg s' := by
  obtain ⟨base, stepped, rfl⟩ := Option.map_eq_some_iff.mp taken
  obtain ⟨allowed, fresh⟩ := allowed
  have uncontestedStep : uncontested cfg s.base e = true := by
    rw [orderly, Bool.and_eq_true] at allowed
    exact allowed.1
  have numbered : ∀ w, (base.shared.word w).isFree = false →
      Numbered (countSections cfg s.base s.sections e w) (base.shared.word w).seq := by
    intro w used
    rcases sections_step s.sections inv.orderly.records uncontestedStep stepped used with
      ⟨allocated, first⟩ | ⟨_, inUse, _, _, goesOn⟩
    · rw [first, countSections, if_pos allocated]
      rfl
    · exact goesOn (inv.numbered w inUse)
  exact
    { orderly := orderly_step s.base e base inv.orderly allowed stepped
      few := fun w _ => fresh.2 w
      numbered := numbered
      carried := fun t w seq carries used =>
        carried_step inv allowed fresh stepped (numbered w used) carries used
      stored := fun h w seq stored used => stored_step inv allowed fresh stepped stored used }

/-- **Old counts never match** in orderly runs whose records are allocated without counts
from their last use. -/
theorem counts_sound {s : CountState cfg}
    (reached : (countSystem cfg).ReachableWhere
      (fun s e => orderly cfg s.base e = true ∧ CountsFresh cfg s e) s) : CountsSound cfg s := by
  have inv : CountInv cfg s := reached.invariant countInv_initial countInv_step
  intro h w seq key stored current names
  rw [recordOf_eq] at names
  have used := (inv.orderly.records.named key w names).2.1
  obtain ⟨k, taken, earlier⟩ := inv.stored h w seq stored used
  subst current
  have last := taken.eq (inv.numbered w used) (inv.few w used)
  by_contra written
  have before := earlier key names (eq_true_of_ne_false written)
  omega

end

/-! ### A record that is used again -/

section

def countStart : CountState onePool := ⟨start, fun _ => 0, fun _ _ _ => false⟩

theorem initial_countStart : (countSystem onePool).init countStart := ⟨initial_start, fun _ => rfl⟩

/-- Thread 0 puts a page twice, and thread 1 on the other host gets it. -/
def putsThenGet : List (Event BlockId) :=
  List.flatten
    [putAgain, steps 8 0 0, catchUp 1 1, [.start 1 (readCall .get 1)], steps 10 1 0]

def recordReused : List (Event BlockId) :=
  List.flatten
    [putsThenGet, [.start 0 ⟨.iterativeReclaim, pageKey, none, 1, 0⟩], steps 3 0 0, catchUp 1 0,
      steps 3 0 0, [.start 0 { putCall 1 5 with key := otherKey }], steps 12 0 1, catchUp 1 0,
      steps 2 0 0, [.start 0 { putCall 1 6 with key := otherKey }], steps 11 0 0]

def FewSections (s : CountState onePool) (e : Event BlockId) : Prop :=
  orderly onePool s.base e = true ∧ ∀ w, countSections onePool s.base s.sections e w < 2 ^ 29

def onFirstRecord (s : CountState onePool) : Prop :=
  OthersIdle 2 s.base ∧ ∀ w, w ≠ 0 → s.sections w = 0

def fewTest (s : CountState onePool) (e : Event BlockId) : Bool :=
  e.within 2 && orderly onePool s.base e &&
    decide (countSections onePool s.base s.sections e 0 < 2 ^ 29) && match e with
    | .thread t _ =>
      match (s.base.threads t).pc with
      | .writeSeqBegin _ w => w == 0
      | _ => true
    | _ => true

theorem countSections_other {s : CountState onePool} {e : Event BlockId} (few : fewTest s e = true)
    (first : onFirstRecord s) {w : Nat} (other : w ≠ 0) :
    countSections onePool s.base s.sections e w = 0 := by
  simp only [fewTest, Bool.and_eq_true] at few
  have silent : beginsSection onePool w s.base e = false := by
    cases e with
    | thread t choice =>
      simp only [beginsSection]
      split
      · rename_i slot w' counter
        have here : w' = 0 := by simpa [counter] using few.2
        simp [here, other.symm]
      · rfl
    | _ => rfl
  simp only [countSections, silent, Bool.false_eq_true, if_false, first.2 w other, ite_self]

theorem fewTest_sound : System.Tests (countSystem onePool) onFirstRecord fewTest FewSections where
  initial := fun s begins => ⟨othersIdle_initial 2 s.base begins.1, fun w _ => begins.2 w⟩
  kept := fun s e s' first passes taken => by
    obtain ⟨base, stepped, rfl⟩ := Option.map_eq_some_iff.mp taken
    refine ⟨?_, fun w other => countSections_other passes first other⟩
    simp only [fewTest, Bool.and_eq_true] at passes
    exact othersIdle_step first.1 passes.1.1.1 stepped
  sound := fun s e first passes => by
    have few := passes
    simp only [fewTest, Bool.and_eq_true, decide_eq_true_eq] at passes
    refine ⟨passes.1.1.2, fun w => ?_⟩
    by_cases here : w = 0
    · exact here ▸ passes.1.2
    · rw [countSections_other few first here]
      decide

def freshTest (s : CountState onePool) (e : Event BlockId) : Bool :=
  fewTest s e && (!allocates onePool 0 s.base e ||
    ((List.finRange 2).all fun h => s.base.shared.localSeq h 0 == none) &&
      (List.range 2).all fun t => (s.base.threads t).pc.carries == none)

theorem freshTest_sound :
    System.Tests (countSystem onePool) onFirstRecord freshTest
      fun s e => orderly onePool s.base e = true ∧ CountsFresh onePool s e where
  initial := fewTest_sound.initial
  kept := fun s e s' first passes => by
    rw [freshTest, Bool.and_eq_true] at passes
    exact fewTest_sound.kept s e s' first passes.1
  sound := fun s e first passes => by
    rw [freshTest, Bool.and_eq_true] at passes
    obtain ⟨few, clean⟩ := passes
    obtain ⟨allowed, bounded⟩ := fewTest_sound.sound s e first few
    refine ⟨allowed, fun w allocated => ?_, bounded⟩
    obtain rfl : w = 0 := by
      cases e with
      | thread t choice =>
        simp only [allocates] at allocated
        split at allocated
        · simp only [Bool.and_eq_true, beq_iff_eq] at allocated
          rw [← allocated.1.1.2]
          exact Nat.mod_one _
        · cases allocated
      | _ => cases allocated
    rw [allocated, Bool.not_true, Bool.false_or, Bool.and_eq_true, List.all_eq_true,
      List.all_eq_true] at clean
    refine ⟨fun h => beq_iff_eq.mp (clean.1 h (List.mem_finRange h)), fun t seq carries => ?_⟩
    rcases Nat.lt_or_ge t 2 with inside | beyond
    · simp [beq_iff_eq.mp (clean.2 t (List.mem_range.mpr inside))] at carries
    · rw [first.1 t beyond] at carries
      cases carries

/-- Host 1 keeps count 4 from the first page when the record has sequence 4 for the other. -/
theorem count_matches_recordReused :
    ∃ s, (countSystem onePool).ReachableWhere FewSections s ∧ ¬ CountsSound onePool s := by
  obtain ⟨s, reached, matches_⟩ := System.exists_reachableWhere_of_run fewTest_sound
    initial_countStart recordReused
    (fun s => decide (s.base.shared.localSeq (Fin.last 1) 0 = some 4 ∧
      (s.base.shared.word 0).seq = 4 ∧ recordOf s.base otherKey = some 0 ∧
      s.written (Fin.last 1) 0 otherKey = true)) (by decide +kernel)
  obtain ⟨stored, current, names, written⟩ := of_decide_eq_true matches_
  refine ⟨s, reached, fun sound => ?_⟩
  rw [sound _ 0 4 otherKey stored current names] at written
  cases written

/-- Before the record is reclaimed, the count says that the first page is unchanged. -/
theorem counts_sound_putsThenGet :
    ∃ s, (countSystem onePool).ReachableWhere
        (fun s e => orderly onePool s.base e = true ∧ CountsFresh onePool s e) s ∧
      (s.base.shared.localSeq (Fin.last 1) 0 = some 4 ∧ (s.base.shared.word 0).seq = 4 ∧
        recordOf s.base pageKey = some 0) ∧ CountsSound onePool s := by
  obtain ⟨s, reached, matches_⟩ := System.exists_reachableWhere_of_run freshTest_sound
    initial_countStart putsThenGet
    (fun s => decide (s.base.shared.localSeq (Fin.last 1) 0 = some 4 ∧
      (s.base.shared.word 0).seq = 4 ∧ recordOf s.base pageKey = some 0)) (by decide +kernel)
  exact ⟨s, reached, of_decide_eq_true matches_, counts_sound reached⟩

end

end Megalon.Protocol
