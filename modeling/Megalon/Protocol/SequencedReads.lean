import Megalon.Protocol.RecordSteps

/-!
Contract: reads in read-write mode are atomic: no write section on the slot overlaps a
copy that `read_seq_end` accepts.

Owns: the section of a read, the condition under which the sequence of a record counts
the write sections on a page, and the count along a read.

Does not own: reads in read-only mode, and the caches of the hosts.
-/

namespace Megalon.Protocol

open Core Foundations Index

/-- Slot, record and sequence of a read, from the load in `read_seq_start` to the check
in `read_seq_end`. -/
def Pc.readSection {Key : Type} {nodes : Nat} : Pc Key nodes → Option (Nat × Nat × Nat)
  | .readLocalSeq slot w seq => some (slot, w, seq)
  | .readCopy slot (some guard) _ | .readNotified slot (some guard) _
  | .readRetry slot guard _ => some (slot, guard.wmeta, guard.seqcount)
  | _ => none

section

variable {Key Mem : Type} [BlockKey Key] (cfg : Config Key Mem)

/-- A read starts on the record its key has; and while it lasts nobody allocates that
record, and nobody gives the key another record. -/
def keepsReads (s : cfg.State) : Event Key → Prop
  | .thread t _ =>
    match (s.threads t).pc with
    | .readSeqBegin _ w => recordOf s (s.threads t).call.key = some w
    | .recordScan _ start i => i < cfg.poolLen →
        (s.shared.word ((i + start) % cfg.poolLen)).isFree = true → ∀ t' slot seq,
          (s.threads t').pc.readSection ≠ some (slot, (i + start) % cfg.poolLen, seq)
    | .switchSubmit _ => recordOf s (s.threads t).call.key = none → ∀ t',
        (s.threads t').call.key = (s.threads t).call.key → (s.threads t').pc.readSection = none
    | _ => True
  | _ => True

def orderlyReads (s : cfg.State) (e : Event Key) : Prop :=
  orderly cfg s e = true ∧ keepsReads cfg s e

/-- Thread `t` loads sequence `seq` of record `w` in `read_seq_start`, copies, and finds
the same sequence in `read_seq_end`; `trace` is what happens between the two. -/
structure AcceptedRead (allowed : cfg.State → Event Key → Prop)
    (s₀ s₁ : cfg.State) (trace : cfg.Trace)
    (s₂ : cfg.State) (t slot w seq : Nat) : Prop where
  at_start : (s₀.threads t).pc = .readSeqBegin slot w
  loads : ∃ choice, allowed s₀ (.thread t choice) ∧ step cfg s₀ (.thread t choice) = some s₁
  loaded : (s₁.threads t).pc = .readLocalSeq slot w seq
  during : (system cfg).Segment allowed s₁ trace s₂
  inside : ∀ u e, (u, e) ∈ trace → (u.threads t).pc.readSection = some (slot, w, seq)
  at_end : ∃ cached bytes, (s₂.threads t).pc = .readRetry slot ⟨w, seq, cached⟩ bytes
  accepted : readSeqlockRetry (s₂.shared.word w) seq = false

/-- The event is a `WSeqBegin` that starts a write section on record `w`. -/
def beginsSection (w : Nat) (u : cfg.State) : Event Key → Bool
  | .thread t _ =>
    match (u.threads t).pc with
    | .writeSeqBegin _ w' => w' == w && !(u.shared.word w).isFree
    | _ => false
  | _ => false

/-- The write sections on `w` that start along a trace. -/
def sections (w : Nat) (trace : cfg.Trace) : Nat :=
  trace.countP fun (u, e) => beginsSection cfg w u e

/-! ### The sequence counts the sections -/

/-- `value` is the sequence after `n` sections that started at `seq`, the last of which
may still be open. -/
def Counted (seq n value : Nat) : Prop :=
  (value + value % 2) % 2 ^ 30 = (seq + 2 * n) % 2 ^ 30 ∧ value % 2 ≤ n

/-- What holds in a state of a read of `key` after `n` write sections have started. -/
structure ReadInvariant (t slot w seq : Nat) (key : Key) (n : Nat)
    (u : cfg.State) : Prop where
  mine : (u.threads t).call.key = key
  page : ∃ wmeta, latestPages u.shared.log key = some ⟨slot, wmeta⟩ ∧
    (wmeta = some w ∨ wmeta = none)
  word : (u.shared.word w).isFree = true ∨ Counted seq n (u.shared.word w).seq

variable {cfg} {u u' : cfg.State} {e : Event Key} {w : Nat}

theorem word_of_beginsSection (begins : beginsSection cfg w u e = true)
    (taken : step cfg u e = some u') :
    (u.shared.word w).isLocked = false ∧
      u'.shared.word w = writeSeqlockBegin (u.shared.word w) := by
  cases e with
  | thread t choice =>
    obtain ⟨instr, shared, reply, fetched, acted, rfl⟩ := step_thread taken
    simp only [beginsSection] at begins
    split at begins
    · rename_i slot w' counter
      rw [Bool.and_eq_true, beq_iff_eq, Bool.not_eq_true'] at begins
      obtain ⟨rfl, used⟩ := begins
      rw [counter] at fetched
      cases fetched
      simp only [perform, acquire, used, Bool.false_eq_true, if_false] at acted
      split at acted
      · cases acted
      · rename_i unlocked
        cases acted
        exact ⟨eq_false_of_ne_true unlocked, by simp [Shared.setWord]⟩
    · cases begins
  | _ => cases begins

variable {t slot seq : Nat}

theorem free_readInvariant (records : RecordsOwned cfg u) (allowed : orderlyReads cfg u e)
    (taken : step cfg u e = some u') (inside : (u.threads t).pc.readSection = some (slot, w, seq))
    (free : (u.shared.word w).isFree = true) : (u'.shared.word w).isFree = true := by
  obtain ⟨allowed, keeps⟩ := allowed
  rw [orderly, Bool.and_eq_true] at allowed
  rcases word_step records allowed.1 taken w with same | ⟨t', choice, rfl, changed⟩
  · rwa [same]
  generalize u'.shared.word w = after at changed ⊢
  cases changed with
  | allocated at_scan fits this _ =>
    simp only [keepsReads, at_scan] at keeps
    subst this
    exact absurd inside (keeps fits free t slot seq)
  | begun _ used _ => simp [free] at used
  | lockedOnly used _ => simp [free] at used
  | ended holds => exact absurd rfl (records.not_held_of_free free holds)
  | freed holds _ => exact isFree_freeSeqlockWithLock _

theorem word_readInvariant {n : Nat} (records : RecordsOwned cfg u) (allowed : orderlyReads cfg u e)
    (taken : step cfg u e = some u') (inside : (u.threads t).pc.readSection = some (slot, w, seq))
    (before : (u.shared.word w).isFree = true ∨ Counted seq n (u.shared.word w).seq) :
    (u'.shared.word w).isFree = true ∨
      Counted seq (n + if beginsSection cfg w u e then 1 else 0) (u'.shared.word w).seq := by
  by_cases free : (u.shared.word w).isFree = true
  · exact .inl (free_readInvariant records allowed taken inside free)
  obtain ⟨counted, odd⟩ := before.resolve_left free
  have allowed := allowed.1
  rw [orderly, Bool.and_eq_true] at allowed
  by_cases begins : beginsSection cfg w u e = true
  · obtain ⟨unlocked, begun⟩ := word_of_beginsSection begins taken
    have even := records.even w unlocked
    right
    rw [if_pos begins, begun, seq_writeSeqlockBegin]
    constructor <;> omega
  rw [if_neg begins, Nat.add_zero]
  rcases word_step records allowed.1 taken w with same | ⟨t', choice, rfl, changed⟩
  · rw [same]
    exact .inr ⟨counted, odd⟩
  generalize u'.shared.word w = after at changed ⊢
  cases changed with
  | allocated _ _ _ wasFree => exact absurd wasFree free
  | begun at_begin used _ => simp [beginsSection, at_begin, used] at begins
  | lockedOnly used unlocked =>
    rw [seq_writeSeqlockOnly]
    exact .inr ⟨counted, odd⟩
  | ended holds =>
    have parity := records.parity t' _ holds
    simp only [HoldStatus.odd, if_true] at parity
    right
    rw [seq_writeSeqlockEnd]
    constructor <;> omega
  | freed holds _ => exact .inl (isFree_freeSeqlockWithLock _)

theorem call_of_readSection (taken : step cfg u e = some u')
    (inside : (u.threads t).pc.readSection = some (slot, w, seq)) :
    (u'.threads t).call = (u.threads t).call := by
  refine call_of_step taken fun ready => ?_
  cases counter : (u.threads t).pc <;> simp_all [Pc.ready, Pc.readSection]

theorem page_readInvariant (records : RecordsOwned cfg u) (allowed : orderlyReads cfg u e)
    (taken : step cfg u e = some u') (inside : (u.threads t).pc.readSection = some (slot, w, seq))
    {wmeta : Option Nat}
    (page : latestPages u.shared.log (u.threads t).call.key = some ⟨slot, wmeta⟩)
    (known : wmeta = some w ∨ wmeta = none) :
    ∃ wmeta, latestPages u'.shared.log (u.threads t).call.key = some ⟨slot, wmeta⟩ ∧
      (wmeta = some w ∨ wmeta = none) := by
  obtain ⟨allowed, keeps⟩ := allowed
  rw [orderly, Bool.and_eq_true] at allowed
  rcases page_step records allowed.1 taken (u.threads t).call.key with
    same | ⟨t', choice, rfl, changed⟩
  · exact ⟨wmeta, same.trans page, known⟩
  rw [page] at changed
  generalize latestPages u'.shared.log (u.threads t).call.key = after at changed ⊢
  cases changed with
  | toReadWrite mine at_switch =>
    simp only [keepsReads, at_switch, mine] at keeps
    have readOnly : recordOf u (u.threads t).call.key = none := by
      rw [recordOf_eq, PageMap.record_of_some page]
    simp [keeps readOnly t rfl] at inside
  | toReadOnly holds => exact ⟨none, rfl, .inr rfl⟩

variable {key : Key}

theorem readInvariant_step {n : Nat} (records : RecordsOwned cfg u) (allowed : orderlyReads cfg u e)
    (taken : step cfg u e = some u') (inside : (u.threads t).pc.readSection = some (slot, w, seq))
    (before : ReadInvariant cfg t slot w seq key n u) :
    ReadInvariant cfg t slot w seq key (n + if beginsSection cfg w u e then 1 else 0) u' := by
  obtain ⟨rfl, ⟨wmeta, page, known⟩, word⟩ := before
  exact ⟨by rw [call_of_readSection taken inside],
    page_readInvariant records allowed taken inside page known,
    word_readInvariant records allowed taken inside word⟩

theorem noWriter_of_readInvariant (holds : Orderly cfg u)
    (read : ReadInvariant cfg t slot w seq key 0 u) (used : (u.shared.word w).isFree = false) :
    NoWriter cfg slot u := by
  obtain ⟨records, slots, _, writers⟩ := holds
  intro t' w' writes
  have written := writers t' slot w' writes
  obtain ⟨wmeta, page, known⟩ := read.page
  obtain rfl := slots.distinct _ key slot (PageMap.slot_of_some written) (PageMap.slot_of_some page)
  rw [written, Option.some.injEq, Page.mk.injEq] at page
  obtain ⟨_, rfl⟩ := page
  rcases known with named | none
  · -- the writer has made the sequence odd
    obtain rfl := Option.some.inj named
    have odd := records.parity t' _ (hold_of_writeSection _ writes)
    rcases read.word with free | ⟨_, closed⟩
    · simp [used] at free
    · simp only [HoldStatus.odd, if_true] at odd
      omega
  · cases none

theorem read_segment {s₁ s₂ : cfg.State} {trace : cfg.Trace}
    (reached : (system cfg).ReachableWhere (orderlyReads cfg) s₁)
    (start : ReadInvariant cfg t slot w seq key 0 s₁)
    (during : (system cfg).Segment (orderlyReads cfg) s₁ trace s₂)
    (inside : ∀ u e, (u, e) ∈ trace → (u.threads t).pc.readSection = some (slot, w, seq)) :
    ReadInvariant cfg t slot w seq key (sections cfg w trace) s₂ ∧
      (sections cfg w trace = 0 → (s₂.shared.word w).isFree = false →
        ∀ u e, (u, e) ∈ trace → NoWriter cfg slot u) := by
  induction during with
  | refl => exact ⟨start, fun _ _ u e member => by simp at member⟩
  | @snoc s' s'' e trace before meets taken ih =>
    obtain ⟨read, quiet⟩ := ih fun u e member => inside u e (by simp [member])
    have reading := inside s' e (by simp)
    have holds : Orderly cfg s' :=
      orderly_of_reachable ((before.reachableWhere reached).mono fun _ _ meets => meets.1)
    have counted : sections cfg w (trace ++ [(s', e)]) =
        sections cfg w trace + if beginsSection cfg w s' e then 1 else 0 := by
      simp [sections, List.countP_append, List.countP_singleton]
    rw [counted]
    have after := readInvariant_step holds.records meets taken reading read
    refine ⟨after, fun none used u e' member => ?_⟩
    have none' : sections cfg w trace = 0 := by omega
    have used' : (s'.shared.word w).isFree = false := by
      by_contra free
      simp [free_readInvariant holds.records meets taken reading (eq_true_of_ne_false free)]
        at used
    rcases List.mem_append.mp member with earlier | last
    · exact quiet none' used' u e' earlier
    · obtain ⟨rfl, rfl⟩ := Prod.mk.inj (List.mem_singleton.mp last)
      exact noWriter_of_readInvariant holds (none' ▸ read) used'

theorem readInvariant_start {s₀ s₁ : cfg.State} {choice : Nat}
    (holds : Orderly cfg s₀) (allowed : orderlyReads cfg s₀ (.thread t choice))
    (at_start : (s₀.threads t).pc = .readSeqBegin slot w)
    (taken : step cfg s₀ (.thread t choice) = some s₁)
    (loaded : (s₁.threads t).pc = .readLocalSeq slot w seq) :
    ReadInvariant cfg t slot w seq (s₀.threads t).call.key 0 s₁ ∧ seq % 2 = 0 ∧
      seq < 2 ^ 30 := by
  have named : recordOf s₀ (s₀.threads t).call.key = some w := by
    simpa [keepsReads, at_start] using allowed.2
  have known := holds.targets t slot (by rw [at_start]; rfl)
  rw [recordOf_eq] at named
  obtain ⟨page, present, names⟩ := Option.bind_eq_some_iff.mp named
  rw [PageMap.slot_of_some present, Option.some.injEq] at known
  obtain ⟨instr, shared, reply, fetched, acted, rfl⟩ := step_thread taken
  rw [at_start] at fetched
  cases fetched
  simp only [perform] at acted
  split at acted
  · rename_i ready
    cases acted
    simp only [Function.update_self, Pc.readLocalSeq.injEq] at loaded
    obtain ⟨_, _, rfl⟩ := loaded
    have even := (readSeqlockReady_iff _).mp ready
    have bounded := SeqWord.seq_lt (s₀.shared.word w)
    refine ⟨⟨by simp, ⟨some w, ?_, .inl rfl⟩, .inr ⟨?_, ?_⟩⟩, even, bounded⟩
    · rw [present, ← known, ← names]
    all_goals simp only; omega
  · cases acted

/-- **Reads in read-write mode are atomic.** Between the load of the sequence and the
check that accepts the read, no thread is in a write section on the slot. -/
theorem read_write_read_atomic {s₀ s₁ s₂ : cfg.State} {trace : cfg.Trace} {t slot w seq : Nat}
    (reached : (system cfg).ReachableWhere (orderlyReads cfg) s₀)
    (read : AcceptedRead cfg (orderlyReads cfg) s₀ s₁ trace s₂ t slot w seq)
    (few : sections cfg w trace < 2 ^ 29) :
    NoWriter cfg slot s₂ ∧ ∀ u e, (u, e) ∈ trace → NoWriter cfg slot u := by
  obtain ⟨at_start, ⟨choice, allowed, taken⟩, loaded, during, inside, _, accepted⟩ := read
  have orderlyRun : ∀ u, (system cfg).ReachableWhere (orderlyReads cfg) u → Orderly cfg u :=
    fun u reached => orderly_of_reachable (reached.mono fun _ _ meets => meets.1)
  obtain ⟨start, even, bounded⟩ :=
    readInvariant_start (orderlyRun s₀ reached) allowed at_start taken loaded
  have reached₁ := reached.step allowed taken
  obtain ⟨final, quiet⟩ := read_segment reached₁ start during inside
  rw [readSeqlockRetry, Bool.or_eq_false_iff, decide_eq_false_iff_not, not_not] at accepted
  obtain ⟨same, used⟩ := accepted
  have none : sections cfg w trace = 0 := by
    rcases final.word with free | ⟨counted, _⟩
    · simp [used] at free
    · rw [← same] at counted
      omega
  exact ⟨noWriter_of_readInvariant (orderlyRun s₂ (during.reachableWhere reached₁))
    (none ▸ final) used, quiet none used⟩

end

/-! ### Two runs -/

section

def orderlyReadsTest (s : State BlockId Pages twoPool.nodes) (e : Event BlockId) : Bool :=
  e.within 2 && orderly twoPool s e && match e with
    | .thread t _ =>
      match (s.threads t).pc with
      | .readSeqBegin _ w => recordOf s (s.threads t).call.key == some w
      | .recordScan _ _ _ | .switchSubmit _ =>
        (List.range 2).all fun t' => (s.threads t').pc.readSection == none
      | _ => true
    | _ => true

theorem readSection_none {s : State BlockId Pages twoPool.nodes} (idle : OthersIdle 2 s)
    (none : ((List.range 2).all fun t => (s.threads t).pc.readSection == none) = true) (t : Nat) :
    (s.threads t).pc.readSection = .none := by
  rcases Nat.lt_or_ge t 2 with inside | beyond
  · exact beq_iff_eq.mp (List.all_eq_true.mp none t (List.mem_range.mpr inside))
  · rw [idle t beyond]
    rfl

theorem orderlyReadsTest_sound :
    System.Tests (system twoPool) (OthersIdle 2) orderlyReadsTest (orderlyReads twoPool) where
  initial := othersIdle_initial 2
  kept := fun s e s' idle passes taken => by
    simp only [orderlyReadsTest, Bool.and_eq_true] at passes
    exact othersIdle_step idle passes.1.1 taken
  sound := fun s e idle passes => by
    simp only [orderlyReadsTest, Bool.and_eq_true] at passes
    refine ⟨passes.1.2, ?_⟩
    cases e with
    | thread t choice =>
      have checked := passes.2
      simp only [keepsReads]
      split <;> simp_all [readSection_none idle]
    | _ => trivial

def putThenLookup : List (Event BlockId) :=
  putAlone ++ [.start 0 (readCall .get 1)] ++ steps 3 0 0

/-- Then thread 1 reclaims record 0, uses it for another page, gives the page record 1
and starts to write it. -/
def writeUnderOther : List (Event BlockId) :=
  putThenLookup ++ [.start 1 ⟨.iterativeReclaim, pageKey, none, 1, 0⟩] ++ steps 3 1 1 ++
    catchUp 2 1 ++ steps 3 1 0 ++
  [.start 1 { putCall 1 5 with key := otherKey }] ++ steps 4 1 1 ++ steps 8 1 0 ++
    catchUp 1 1 ++ steps 2 1 1 ++
  [.start 1 (putCall 1 9)] ++ steps 7 1 1 ++ catchUp 1 1 ++ steps 7 1 1

def readsFirst (s₀ s₁ : State BlockId Pages twoPool.nodes)
    (trace : List (State BlockId Pages twoPool.nodes × Event BlockId))
    (s₂ : State BlockId Pages twoPool.nodes) : Bool :=
  (match (s₀.threads 0).pc with
    | .readSeqBegin slot w => slot == 0 && w == 0
    | _ => false) &&
  (match (s₁.threads 0).pc with
    | .readLocalSeq slot w seq => slot == 0 && w == 0 && seq == 2
    | _ => false) &&
  (trace.all fun (u, _) => (u.threads 0).pc.readSection == some (0, 0, 2)) &&
  (match (s₂.threads 0).pc with
    | .readRetry slot guard _ => slot == 0 && guard.wmeta == 0 && guard.seqcount == 2
    | _ => false) &&
  !readSeqlockRetry (s₂.shared.word 0) 2

theorem acceptedRead_of_readsFirst
    {allowed : State BlockId Pages twoPool.nodes → Event BlockId → Prop}
    {s₀ s₁ s₂ : State BlockId Pages twoPool.nodes} {choice : Nat}
    {trace : List (State BlockId Pages twoPool.nodes × Event BlockId)}
    (meets : allowed s₀ (.thread 0 choice))
    (taken : (system twoPool).step s₀ (.thread 0 choice) = some s₁)
    (during : (system twoPool).Segment allowed s₁ trace s₂)
    (reads : readsFirst s₀ s₁ trace s₂ = true) :
    AcceptedRead twoPool allowed s₀ s₁ trace s₂ 0 0 0 2 := by
  simp only [readsFirst, Bool.and_eq_true, Bool.not_eq_true'] at reads
  obtain ⟨⟨⟨⟨at_start, loaded⟩, inside⟩, at_end⟩, accepted⟩ := reads
  refine ⟨?_, ⟨choice, meets, taken⟩, ?_, during, ?_, ?_, accepted⟩
  · split at at_start <;> simp_all
  · split at loaded <;> simp_all
  · intro u e member
    exact beq_iff_eq.mp (List.all_eq_true.mp inside (u, e) member)
  · split at at_end
    · rename_i slot guard bytes counter
      simp only [Bool.and_eq_true, beq_iff_eq] at at_end
      obtain ⟨⟨rfl, record⟩, seq⟩ := at_end
      exact ⟨guard.cached, bytes, by rw [counter, ← record, ← seq]⟩
    · cases at_end

/-- Record 0 has the sequence thread 0 has seen again, now for another page, while
thread 1 writes the page under record 1. -/
theorem read_overlaps_writeUnderOther :
    ∃ s₀ s₁ trace s₂, (system twoPool).Reachable s₀ ∧
      AcceptedRead twoPool (fun _ _ => True) s₀ s₁ trace s₂ 0 0 0 2 ∧
      sections twoPool 0 trace < 2 ^ 29 ∧ ∃ u e, (u, e) ∈ trace ∧ ¬ NoWriter twoPool 0 u := by
  obtain ⟨s₀, s₁, trace, s₂, reached, meets, taken, during, evaluated⟩ :=
    System.exists_segment_of_runThenTrace
      (.of_sound (system twoPool) (fun _ _ => true) fun _ _ _ => trivial) initial_twoStart
      writeUnderOther (.thread 0 0) (steps 4 0 0)
      (fun s₀ s₁ trace s₂ => readsFirst s₀ s₁ trace s₂ && sections twoPool 0 trace == 0
        && trace.any fun (u, _) => (u.threads 1).pc.writeSection == some (0, 1))
      (by decide +kernel)
  simp only [Bool.and_eq_true, beq_iff_eq, List.any_eq_true] at evaluated
  obtain ⟨⟨reads, none⟩, ⟨u, e⟩, member, writes⟩ := evaluated
  exact ⟨s₀, s₁, trace, s₂, reached, acceptedRead_of_readsFirst meets taken during reads,
    by simp [none], u, e, member, fun quiet => quiet 1 1 writes⟩

/-- While thread 0 reads, thread 1 on the other host gets ready to write the page. -/
def readBesideWriter : List (Event BlockId) :=
  List.flatten [steps 2 0 0, [.start 1 (putCall 1 9)], steps 3 1 0, steps 2 0 0]

/-- The read is accepted before the writer has the lock. -/
theorem read_write_read_atomic_besideWriter :
    ∃ s₀ s₁ trace s₂, (system twoPool).ReachableWhere (orderlyReads twoPool) s₀ ∧
      AcceptedRead twoPool (orderlyReads twoPool) s₀ s₁ trace s₂ 0 0 0 2 ∧
      beginsSection twoPool 0 s₂ (.thread 1 0) = true ∧
      sections twoPool 0 trace < 2 ^ 29 ∧ ∀ u e, (u, e) ∈ trace → NoWriter twoPool 0 u := by
  obtain ⟨s₀, s₁, trace, s₂, reached, meets, taken, during, evaluated⟩ :=
    System.exists_segment_of_runThenTrace orderlyReadsTest_sound initial_twoStart
      (putThenLookup ++ catchUp 1 1) (.thread 0 0) readBesideWriter
      (fun s₀ s₁ trace s₂ => readsFirst s₀ s₁ trace s₂ && sections twoPool 0 trace == 0 &&
        beginsSection twoPool 0 s₂ (.thread 1 0))
      (by decide +kernel)
  simp only [Bool.and_eq_true, beq_iff_eq] at evaluated
  obtain ⟨⟨reads, none⟩, begins⟩ := evaluated
  have read := acceptedRead_of_readsFirst meets taken during reads
  have few : sections twoPool 0 trace < 2 ^ 29 := by simp [none]
  exact ⟨s₀, s₁, trace, s₂, reached, read, begins, few,
    (read_write_read_atomic reached read few).2⟩

end

end Megalon.Protocol
