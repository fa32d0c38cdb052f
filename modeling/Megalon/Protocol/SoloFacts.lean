import Megalon.Protocol.SoloRuns

/-!
Contract: what a thread that runs alone knows at each program counter, and how far it still
has to go.

Owns: the facts a call collects on its way and its rank, that the replicas leave both alone, and
that every step of the thread keeps the facts and lowers the rank.

Does not own: what the calls return.
-/

namespace Megalon.Protocol

open Core Index

section

variable {Key Mem : Type} [BlockKey Key] (cfg : Config Key Mem) (t : Nat)
  (call : Call Key) (s : cfg.Shared)

/-- The page of the key of the call, in log order. -/
abbrev pageOf : Option Page := latestPages s.log call.key

/-- A `Read` finds its page, or `Admit` has a slot for it. -/
def Admits : Prop :=
  call.kind = .read → pageOf cfg call s = none →
    call.fetchFails cfg t = false ∧ ∃ slot, slot < cfg.numPages ∧ s.freeBit slot = true

/-- The replica of the thread has the whole log, and the notification is for the slot. -/
def Anchored (slot : Nat) : Prop :=
  s.applied (cfg.replica t) = s.log.length ∧ s.changeNotif t = some slot

def Purpose.Needs (page : Option Page) : Purpose → Prop
  | .create _ => page = none
  | .switchRW => ∃ slot, page = some ⟨slot, none⟩
  | _ => False

variable {page : Option Page} in
theorem Purpose.Needs.unrecorded {purpose : Purpose} (needs : purpose.Needs page) :
    page.bind Page.wmeta = none := by
  cases purpose with
  | create => rw [show page = none from needs]; rfl
  | switchRW =>
    obtain ⟨slot, rfl⟩ := needs
    rfl
  | _ => exact needs.elim

def Unchanged (guard : Option SeqGuard) : Prop :=
  ∀ g, guard = some g → readSeqlockRetry (s.word g.wmeta) g.seqcount = false

def Allocated (candidates : List (Nat × Nat)) : Prop :=
  ∀ candidate ∈ candidates, (s.word candidate.1).isFree = false

def Pc.Knows : cfg.Pc → Prop
  | .anchorCtail => Admits cfg t call s
  | .anchorLookup ctail => Admits cfg t call s ∧ ctail = s.log.length
  | .anchorStore entry => Admits cfg t call s ∧ entry = (pageOf cfg call s).map Page.toEntry ∧
      s.applied (cfg.replica t) = s.log.length
  | .readSeqBegin slot w => Anchored cfg t s slot ∧ pageOf cfg call s = some ⟨slot, some w⟩
  | .writeSeqBegin slot w | .writeNotified slot w => Anchored cfg t s slot ∧
      pageOf cfg call s = some ⟨slot, some w⟩ ∧ call.isWrite = true
  | .readLocalSeq slot w seq => Anchored cfg t s slot ∧
      pageOf cfg call s = some ⟨slot, some w⟩ ∧ readSeqlockRetry (s.word w) seq = false
  | .readForget slot w => pageOf cfg call s = some ⟨slot, some w⟩
  | .readFlush _ _ | .createSeqEnd _ => pageOf cfg call s ≠ none
  | .readCopy slot guard _ | .readNotified slot guard _ => Anchored cfg t s slot ∧
      Unchanged cfg s guard ∧ ∃ wmeta, pageOf cfg call s = some ⟨slot, wmeta⟩
  | .readRetry _ guard _ => Unchanged cfg s (some guard)
  | .createReserve => Admits cfg t call s ∧ pageOf cfg call s = none ∧
      (call.isWrite = false → call.kind = .read)
  | .createFill _ _ _ | .createFlush _ _ _ | .createInsert _ _ => pageOf cfg call s = none
  | .createWait slot wmeta index error => pageOf cfg call s = some ⟨slot, wmeta⟩ ∧
      error = .noError ∧ s.log.length = index + 1
  | .recordCheck purpose hint => purpose.Needs (pageOf cfg call s) ∧
      ∀ w, hint = some w → w < cfg.poolLen
  | .recordScan purpose _ _ | .recordBlock purpose _ | .victimBlock purpose _
  | .victimSwitch purpose _ _ | .victimRecycle purpose _ _ => purpose.Needs (pageOf cfg call s)
  | .sampleVictim purpose _ candidates | .lockVictim purpose candidates =>
    purpose.Needs (pageOf cfg call s) ∧ Allocated cfg s candidates
  | .victimWait purpose _ index _ =>
    purpose.Needs (pageOf cfg call s) ∧ s.log.length = index + 1
  | .switchSubmit _ => ∃ slot, pageOf cfg call s = some ⟨slot, none⟩
  | .switchWait w index error => (∃ slot, pageOf cfg call s = some ⟨slot, some w⟩) ∧
      error = .noError ∧ s.log.length = index + 1
  | .switchSeqEnd w => ∃ slot, pageOf cfg call s = some ⟨slot, some w⟩
  | .writeCopy slot w _ => pageOf cfg call s = some ⟨slot, some w⟩ ∧ call.isWrite = true
  | .writeWrapWait _ index => s.log.length = index + 1
  | .writeFlush _ _ _ | .writeSeqEnd _ _ | .writeWrap _ | .writeRemember _ _ | .readRemember _ _
  | .returned _ _ => True
  | _ => False

/-! ### The rank of a program counter -/

/-- What still has to happen to the page of a call: it has to be inserted, to get a record, or
the host has to forget the sequence it remembers. -/
def missing : Option Page → Nat
  | none => 3
  | some ⟨_, none⟩ => 2
  | some ⟨_, some w⟩ =>
    let remembered := s.localSeq (cfg.replica t) w
    if remembered = none ∨ remembered = some (s.word w).seq then 0 else 1

/-- A call goes back to its lookup only after something of this has happened. -/
def Pc.phase : cfg.Pc → Nat
  | .createWait _ _ _ _ | .createSeqEnd _ => 2
  | .switchWait _ _ _ | .switchSeqEnd _ | .readForget _ _ => 1
  | .readCopy _ _ _ | .readNotified _ _ _ | .readRetry _ _ _ | .readRemember _ _
  | .writeSeqBegin _ _ | .writeNotified _ _ | .writeCopy _ _ _ | .writeFlush _ _ _
  | .writeSeqEnd _ _ | .writeWrap _ | .writeWrapWait _ _ | .writeRemember _ _
  | .returned _ _ => 0
  | _ => missing cfg t s (pageOf cfg call s)

/-- The order in which a phase passes the program counters. A scan that is about to find a free
record is further than one that is not. -/
def Pc.position : cfg.Pc → Nat
  | .createWait _ _ _ _ => 30
  | .createSeqEnd _ => 29
  | .switchWait _ _ _ => 28
  | .switchSeqEnd _ => 27
  | .readFlush _ _ => 26
  | .anchorCtail => 25
  | .anchorLookup _ => 24
  | .anchorStore _ => 23
  | .createReserve => 22
  | .recordCheck _ none => 21
  | .recordScan _ start i =>
    if i < cfg.poolLen ∧ (s.word ((i + start) % cfg.poolLen)).isFree = true then 12 else 20
  | .sampleVictim _ _ _ => 19
  | .lockVictim _ _ => 18
  | .victimBlock _ _ => 17
  | .victimSwitch _ _ _ => 16
  | .victimWait _ _ _ _ => 15
  | .victimRecycle _ _ _ => 14
  | .recordCheck _ (some w) => if (s.word w).isFree then 13 else 21
  | .recordBlock _ _ => 11
  | .createFill _ _ _ => 10
  | .createFlush _ _ _ => 9
  | .createInsert _ _ | .writeSeqBegin _ _ => 8
  | .readSeqBegin _ _ | .switchSubmit _ | .writeNotified _ _ => 7
  | .readLocalSeq _ _ _ | .writeCopy _ _ _ => 6
  | .readForget _ _ | .readCopy _ _ _ | .writeFlush _ _ _ => 5
  | .readNotified _ _ _ | .writeSeqEnd _ _ => 4
  | .readRetry _ _ _ | .writeWrap _ => 3
  | .readRemember _ _ | .writeWrapWait _ _ => 2
  | .writeRemember _ _ => 1
  | _ => 0

def Pc.left : cfg.Pc → Nat
  | .readFlush _ line => cfg.slotSize - line * cfg.lineSize
  | .readCopy _ _ bytes => call.bytesRead cfg - bytes.length
  | .createFill _ _ i => (call.content cfg t).1.length - i
  | .createFlush _ _ line => (call.content cfg t).2 - line * cfg.lineSize
  | .recordScan _ _ i => cfg.poolLen - i
  | .sampleVictim _ left _ => left
  | .writeCopy _ _ i => call.bytesWrite cfg - i
  | .writeFlush _ _ line => call.offset + call.bytesWrite cfg - line * cfg.lineSize
  | _ => 0

def Pc.rank (pc : cfg.Pc) : Nat × Nat × Nat :=
  (pc.phase cfg t call s, pc.position cfg s, pc.left cfg t call)

def Lower : Nat × Nat × Nat → Nat × Nat × Nat → Prop :=
  Prod.Lex (· < ·) (Prod.Lex (· < ·) (· < ·))

end

section

variable {a b : Nat × Nat × Nat}

theorem Lower.phase (phase : a.1 < b.1) : Lower a b := Prod.lex_iff.mpr (.inl phase)

theorem Lower.left (phase : a.1 ≤ b.1) (position : a.2.1 ≤ b.2.1) (left : a.2.2 < b.2.2) :
    Lower a b := by
  rw [Lower, Prod.lex_iff, Prod.lex_iff]
  omega

theorem Lower.position (phase : a.1 ≤ b.1) (position : (a.2.1).blt b.2.1 = true) : Lower a b := by
  have := Nat.le_of_ble_eq_true position
  rw [Lower, Prod.lex_iff, Prod.lex_iff]
  omega

end

section

variable {Key Mem : Type} [BlockKey Key] {cfg : Config Key Mem} {t : Nat}
  {call : Call Key} {pc pc' : cfg.Pc} {s s' : cfg.State} {strict : Prop}

theorem Anchored.unmoved {slot : Nat} (anchored : Anchored cfg t s.shared slot)
    (same : Unmoved s s') : Anchored cfg t s'.shared slot := by
  refine ⟨?_, ?_⟩
  · rw [same.log]
    exact same.applied _ anchored.1
  · rw [same.changeNotif t anchored.1]
    exact anchored.2

theorem knows_unmoved (known : pc.Knows cfg t call s.shared) (same : Unmoved s s') :
    pc.Knows cfg t call s'.shared := by
  cases pc with
  | anchorStore =>
    refine ⟨?_, ?_, ?_⟩
    · simpa only [Admits, pageOf, same.log, same.freeBit] using known.1
    · simpa only [pageOf, same.log] using known.2.1
    · rw [same.log]
      exact same.applied _ known.2.2
  | readSeqBegin | writeSeqBegin | writeNotified =>
    exact ⟨known.1.unmoved same, by rw [pageOf, same.log]; exact known.2⟩
  | readLocalSeq =>
    refine ⟨known.1.unmoved same, ?_⟩
    rw [pageOf, same.log, same.word]
    exact known.2
  | readCopy | readNotified =>
    exact ⟨known.1.unmoved same, by rw [Unchanged, pageOf, same.word, same.log]; exact known.2⟩
  | _ =>
    first
      | exact known
      | simpa only [Pc.Knows, Admits, Unchanged, Allocated, pageOf, same.log, same.word,
          same.freeBit] using known

theorem Solo.uncontested (solo : Solo strict t call pc s) (known : pc.Knows cfg t call s.shared)
    (notNull : call.key ≠ BlockKey.nullBlockId) (choice : Nat) :
    uncontested cfg s (.thread t choice) = true := by
  rw [Protocol.uncontested, solo.thread]
  cases pc with
  | createInsert =>
    have absent : latestPages s.shared.log call.key = none := known
    simp [notNull, latest_eq, PageMap.toDirectory_none absent]
  | switchSubmit => simp [notNull]
  | createRecycle => exact known.elim
  | _ => rfl

/-! ### The lookup -/

theorem afterAnchor_write (writes : call.isWrite = true) (nid : Fin cfg.nodes)
    (page : Option Page) :
    call.afterAnchor cfg nid (page.map Page.toEntry) =
      match page with
      | none => .createReserve
      | some ⟨_, none⟩ => .recordCheck .switchRW none
      | some ⟨slot, some w⟩ => .writeSeqBegin slot w := by
  have write : call.afterAnchor cfg nid (page.map Page.toEntry) =
      afterWriteAnchor cfg nid ((page.map Page.toEntry).getD initEmptyGcdEntry) := by
    simp only [Call.isWrite, Bool.or_eq_true, decide_eq_true_eq] at writes
    rcases writes with kind | kind <;> simp only [Call.afterAnchor, kind]
  rw [write]
  rcases page with _ | ⟨slot, _ | w⟩ <;> simp [afterWriteAnchor, Page.toEntry]

theorem afterAnchor_read (reads : call.isWrite = false) (nid : Fin cfg.nodes) (page : Option Page) :
    call.afterAnchor cfg nid (page.map Page.toEntry) =
      match page with
      | none => if call.kind = .read then .createReserve else .returned 0 []
      | some ⟨slot, none⟩ => .readCopy slot none []
      | some ⟨slot, some w⟩ => .readSeqBegin slot w := by
  have read : call.afterAnchor cfg nid (page.map Page.toEntry) =
      call.afterReadAnchor cfg nid ((page.map Page.toEntry).getD initEmptyGcdEntry) := by
    unfold Call.afterAnchor
    split <;> simp_all [Call.isWrite]
  rw [read]
  rcases page with _ | ⟨slot, _ | w⟩ <;> simp [Call.afterReadAnchor, Page.toEntry]

section

variable {shared : cfg.Shared}

theorem missing_of_needs {purpose : Purpose} {page page' : Option Page}
    (before : purpose.Needs page) (after : purpose.Needs page')
    (s s' : cfg.Shared) : missing cfg t s' page' ≤ missing cfg t s page := by
  cases purpose with
  | create =>
    obtain rfl : page = none := before
    obtain rfl : page' = none := after
    exact le_rfl
  | switchRW =>
    obtain ⟨slot, rfl⟩ := before
    obtain ⟨slot', rfl⟩ := after
    exact le_rfl
  | _ => exact before.elim

theorem missing_le_one (slot w : Nat) : missing cfg t shared (some ⟨slot, some w⟩) ≤ 1 := by
  simp only [missing]
  split <;> omega

theorem missing_le_two {page : Option Page} (present : page ≠ none) :
    missing cfg t shared page ≤ 2 := by
  rcases page with _ | ⟨slot, _ | w⟩
  · exact absurd rfl present
  · exact le_rfl
  · exact (missing_le_one slot w).trans (Nat.le_succ _)

theorem position_recordScan_le (s : cfg.Shared) (purpose : Purpose)
    (start i : Nat) : (Pc.recordScan purpose start i : cfg.Pc).position cfg s ≤ 20 := by
  simp only [Pc.position]
  split <;> omega

end

variable (cfg t call) in
/-- The thread goes on from `pc` to `pc'`: it keeps its facts and lowers its rank, unless it is
disturbed or has to sample again. -/
structure Onward (choice : Nat) (pc : cfg.Pc) (s : cfg.State)
    (pc' : cfg.Pc) (s' : cfg.Shared) : Prop where
  knows : pc'.Knows cfg t call s'
  lower : (undisturbed cfg t choice s = true ∧ ∀ purpose, pc ≠ .lockVictim purpose []) →
    Lower (pc'.rank cfg t call s') (pc.rank cfg t call s.shared)

section

variable {choice : Nat} {shared : cfg.Shared}

theorem Onward.ahead {pc' : cfg.Pc} (knows : pc'.Knows cfg t call shared)
    (phase : pc'.phase cfg t call shared ≤ pc.phase cfg t call s.shared)
    (position : (pc'.position cfg shared).blt (pc.position cfg s.shared) = true) :
    Onward cfg t call choice pc s pc' shared :=
  ⟨knows, fun _ => .position phase position⟩

theorem onward_afterAnchor {entry : Option (GCDEntry cfg.nodes)}
    (known : (Pc.anchorStore entry).Knows cfg t call s.shared)
    (acted : perform cfg t s.shared (.storeAnchor (sharedSlot entry)) = some (shared, ())) :
    Onward cfg t call choice (.anchorStore entry) s
      (call.afterAnchor cfg (cfg.replica t) entry) shared := by
  cases acted
  obtain ⟨admits, rfl, applied⟩ := known
  rcases page : pageOf cfg call s.shared with _ | ⟨slot, wmeta⟩
  · cases writes : call.isWrite with
    | true =>
      rw [afterAnchor_write writes]
      exact .ahead ⟨admits, page, by simp [writes]⟩ le_rfl rfl
    | false =>
      rw [afterAnchor_read writes]
      by_cases kind : call.kind = .read
      · simp only [kind, if_true]
        exact .ahead ⟨admits, page, fun _ => kind⟩ le_rfl rfl
      · simp only [kind, if_false]
        exact .ahead trivial (Nat.zero_le _) rfl
  · have notif := Function.update_self t (some slot) s.shared.changeNotif
    cases writes : call.isWrite with
    | true =>
      rw [afterAnchor_write writes]
      cases wmeta with
      | none => exact .ahead ⟨⟨slot, page⟩, by simp⟩ le_rfl rfl
      | some w =>
        exact .ahead ⟨⟨applied, notif⟩, page, writes⟩ (Nat.zero_le _) rfl
    | false =>
      rw [afterAnchor_read writes]
      cases wmeta with
      | none =>
        exact .ahead ⟨⟨applied, notif⟩, by simp [Unchanged], none, page⟩ (Nat.zero_le _) rfl
      | some w => exact .ahead ⟨⟨applied, notif⟩, page⟩ le_rfl rfl

theorem Admits.of_page (present : pageOf cfg call shared ≠ none) : Admits cfg t call shared :=
  fun _ absent => absurd absent present

theorem perform_await {index : Nat} {reply : (Act.await index : Act Key).Reply cfg.nodes}
    {s : cfg.Shared}
    (acted : perform cfg t s (.await index) = some (shared, reply)) : shared = s := by
  simp only [perform] at acted
  split at acted <;> cases acted
  rfl

theorem acquire_used {w : Nat} {install : SeqWord → SeqWord} {reply : Bool}
    {s : cfg.Shared} (used : (s.word w).isFree = false)
    (acted : acquire cfg s w install = some (shared, reply)) :
    shared = s.setWord w (install (s.word w)) ∧ reply = true := by
  simp only [acquire, used, Bool.false_eq_true, if_false] at acted
  split at acted <;> cases acted
  exact ⟨rfl, rfl⟩

theorem line_left {line bound : Nat} (left : line * cfg.lineSize < bound) :
    bound - (line + 1) * cfg.lineSize < bound - line * cfg.lineSize := by
  have := cfg.lineSize_pos
  rw [Nat.succ_mul]
  omega

/-! ### The moves of each function -/

/-- The function that a program counter is in. -/
inductive Routine where
  | getAnchor
  | readFromCXL
  | createEntry
  | checkReserveWmeta
  | sampleVictim
  | switchRW
  | writeToCXL
  | other

def Pc.routine {nodes : Nat} : Pc Key nodes → Routine
  | .anchorCtail | .anchorLookup _ | .anchorStore _ => .getAnchor
  | .readSeqBegin _ _ | .readLocalSeq _ _ _ | .readForget _ _ | .readFlush _ _ | .readCopy _ _ _
  | .readNotified _ _ _ | .readRetry _ _ _ | .readRemember _ _ => .readFromCXL
  | .createReserve | .createFill _ _ _ | .createFlush _ _ _ | .createInsert _ _
  | .createWait _ _ _ _ | .createRecycleTwice _ _ | .createRecycle _ _ | .createRecycleNode _
  | .createSeqEnd _ => .createEntry
  | .recordCheck _ _ | .recordScan _ _ _ | .recordBlock _ _ => .checkReserveWmeta
  | .sampleVictim _ _ _ | .lockVictim _ _ | .iterateLock _ _ _ | .victimBlock _ _
  | .victimSwitch _ _ _ | .victimWait _ _ _ _ | .victimRecycle _ _ _ | .victimUnlock _ _ =>
    .sampleVictim
  | .switchSubmit _ | .switchWait _ _ _ | .switchRecycle _ | .switchSeqEnd _ => .switchRW
  | .writeSeqBegin _ _ | .writeNotified _ _ | .writeAbort _ _ | .writeCopy _ _ _
  | .writeFlush _ _ _ | .writeSeqEnd _ _ | .writeWrap _ | .writeWrapWait _ _
  | .writeRemember _ _ => .writeToCXL
  | _ => .other

section

variable {act : Act Key} {reply : act.Reply cfg.nodes} (solo : Solo strict t call pc s)
  (known : pc.Knows cfg t call s.shared) (move : Move cfg t call choice pc act reply pc')
  (acted : perform cfg t s.shared act = some (shared, reply))

include known move acted

include solo in
theorem onward_getAnchor (inside : pc.routine = .getAnchor)
    (stored : ∀ entry, pc = .anchorStore entry →
      pc' = call.afterAnchor cfg (cfg.replica t) entry) :
    Onward cfg t call choice pc s pc' shared := by
  cases move with
  | loadCtail =>
    cases acted
    exact .ahead ⟨known, solo.ctail rfl⟩ le_rfl rfl
  | lookup =>
    simp only [perform] at acted
    split at acted <;> cases acted
    rename_i synced
    have applied : s.shared.applied (cfg.replica t) = s.shared.log.length := by
      have := solo.tails.applied (cfg.replica t)
      have := known.2
      omega
    refine .ahead ⟨known.1, ?_, applied⟩ le_rfl rfl
    rw [applied]
    exact congrFun (latest_eq cfg.nodes s.shared.log) call.key
  | anchorCrash | anchorLocal | readMissing | readNothing | readTracked | readUntracked
  | writeMissing | writeReadOnly | writeTracked | writeAgain =>
    rw [stored _ rfl]
    exact onward_afterAnchor known acted
  | _ => cases inside

include solo in
theorem onward_readFromCXL (inside : pc.routine = .readFromCXL) :
    Onward cfg t call choice pc s pc' shared := by
  cases move with
  | readSeqBegin =>
    obtain ⟨anchored, page⟩ := known
    have used := (solo.records.named call.key _ (PageMap.record_of_some page)).2.1
    simp only [perform] at acted
    split at acted <;> cases acted
    exact .ahead ⟨anchored, page, by simpa [readSeqlockRetry] using used⟩ le_rfl rfl
  | readStale remembered stale =>
    obtain ⟨_, page, unchanged⟩ := known
    cases acted
    refine .ahead page ?_ rfl
    simp only [readSeqlockRetry, Bool.or_eq_false_iff, decide_eq_false_iff_not, not_not]
      at unchanged
    simp only [Pc.phase, page, missing]
    rw [if_neg]
    simpa [remembered, ← unchanged.1] using stale
  | readFresh =>
    cases acted
    refine .ahead ⟨known.1, ?_, _, known.2.1⟩ (Nat.zero_le _) rfl
    rintro g ⟨⟩
    exact known.2.2
  | readForget =>
    cases acted
    have page : latestPages s.shared.log call.key = _ := known
    refine ⟨?_, fun _ => .phase ?_⟩
    · simp [Pc.Knows, pageOf, page]
    · simp [Pc.rank, Pc.phase, pageOf, page, missing]
  | readFlush left =>
    cases acted
    exact ⟨known, fun _ => .left le_rfl le_rfl (line_left left)⟩
  | readFlushed =>
    cases acted
    exact .ahead (.of_page known) le_rfl rfl
  | readByte left =>
    cases acted
    refine ⟨known, fun _ => .left le_rfl le_rfl ?_⟩
    simp only [Pc.rank, Pc.left, List.length_append, List.length_singleton]
    omega
  | readCopied =>
    cases acted
    exact .ahead known le_rfl rfl
  | readNotified => simp [perform, known.1.2] at acted
  | readGuarded =>
    simp only [perform, Option.some.injEq, Prod.mk.injEq] at acted
    obtain ⟨rfl, _⟩ := acted
    exact .ahead known.2.1 le_rfl rfl
  | readTorn torn =>
    cases acted
    rw [known _ rfl] at torn
    cases torn
  | readValid | readCached | readWhole | readRemember =>
    exact .ahead trivial (Nat.zero_le _) rfl
  | _ => cases inside

include solo in
theorem onward_createEntry (inside : pc.routine = .createEntry)
    (notNull : call.key ≠ BlockKey.nullBlockId)
    (data : call.isWrite = true → call.data.isSome = true)
    (scan : call.kind = .read → undisturbed cfg t choice s = true) :
    Onward cfg t call choice pc s pc' shared := by
  cases move with
  | createRefused => exact .ahead trivial (Nat.zero_le _) rfl
  | createRetry reads =>
    -- an undisturbed scan finds the free slot
    obtain ⟨_, slot, inside, free⟩ := known.1 (known.2.2 reads) known.2.1
    have scanned := scan (known.2.2 reads)
    simp only [perform] at acted
    split at acted
    · rename_i beyond
      simp [undisturbed, solo.thread, Nat.not_lt.mpr beyond] at scanned
      rw [scanned slot inside] at free
      cases free
    · split at acted <;> cases acted
  | createWritten =>
    obtain ⟨_, _, _, rfl⟩ := perform_reserved acted
    exact .ahead ⟨known.2.1, by simp⟩ le_rfl rfl
  | createEmpty kind none => simp [none, Call.isWrite, kind] at data
  | createCrash reads fails =>
    rw [(known.1 (known.2.2 reads) known.2.1).1] at fails
    cases fails
  | createFetched =>
    obtain ⟨_, _, _, rfl⟩ := perform_reserved acted
    exact .ahead known.2.1 le_rfl rfl
  | createFill byte =>
    cases acted
    refine ⟨known, fun _ => .left le_rfl le_rfl ?_⟩
    have := (List.getElem?_eq_some_iff.mp byte).1
    simp only [Pc.rank, Pc.left]
    omega
  | createFlush left =>
    cases acted
    exact ⟨known, fun _ => .left le_rfl le_rfl (line_left left)⟩
  | createFilled | createFlushed =>
    cases acted
    exact .ahead known le_rfl rfl
  | createInsert =>
    obtain ⟨rfl, index, answers⟩ := perform_submit acted
    have absent : latestPages s.shared.log call.key = none := known
    refine ⟨⟨?_, ?_, by simpa using index.symm⟩, fun _ => .phase ?_⟩
    · simp [pageOf, latestPages_append, Request.apply, absent]
    · rw [answers.inserted _ _ _ rfl, insertError, absent]
      exact if_neg notNull
    · simp [Pc.rank, Pc.phase, absent, missing]
  | createLostBoth | createLostSlot => cases known.2.1
  | createThrows lost | createLost lost => rcases lost with rfl | rfl <;> cases known.2.1
  | createKept =>
    obtain rfl := perform_await acted
    exact .ahead (by simp [Pc.Knows, known.1]) le_rfl rfl
  | createAgain =>
    obtain rfl := perform_await acted
    have present : pageOf cfg call s.shared ≠ none := by simp [known.1]
    exact .ahead (.of_page present) (missing_le_two present) rfl
  | createDone | sequencedDone => exact .ahead trivial (Nat.zero_le _) rfl
  | sequencedAgain =>
    cases acted
    exact .ahead (.of_page known) (missing_le_two known) rfl
  | createRecycleTwice | createRecycle | recycledDone | recycledAgain => exact known.elim
  | _ => cases inside

include solo in
theorem onward_checkReserveWmeta (inside : pc.routine = .checkReserveWmeta) :
    Onward cfg t call choice pc s pc' shared := by
  cases move with
  | recordHint =>
    cases acted
    have small := known.2 _ rfl
    refine .ahead known.1 le_rfl ?_
    simp only [Pc.position, Nat.zero_add, Nat.mod_eq_of_lt small, cfg.poolLen_pos,
      true_and]
    split <;> rfl
  | recordFull =>
    cases acted
    exact .ahead ⟨known.1, by simp [Allocated]⟩ le_rfl rfl
  | recordNone done =>
    cases acted
    refine .ahead ⟨known, by simp [Allocated]⟩ le_rfl ?_
    simp [Pc.position, done]
  | @recordRoom purpose =>
    cases acted
    refine .ahead known.1 le_rfl ?_
    have := position_recordScan_le s.shared purpose choice 0
    simp [Pc.position] at this ⊢
    omega
  | recordFound =>
    simp only [perform] at acted
    split at acted <;> cases acted
    refine .ahead known (missing_of_needs known known _ _) ?_
    simp only [Pc.position]
    split <;> rfl
  | @recordTaken purpose start i left =>
    -- a free record is not locked
    have used : (s.shared.word ((i + start) % cfg.poolLen)).isFree = false := by
      by_contra free
      have unlocked : (s.shared.word ((i + start) % cfg.poolLen)).isLocked = false :=
        eq_false_of_ne_true fun locked => free (solo.records.used _ locked)
      simp [perform, eq_true_of_ne_false free, unlocked] at acted
    simp only [perform, used, Bool.false_and, Bool.false_eq_true, if_false] at acted
    cases acted
    refine ⟨known, fun _ => .left le_rfl ?_ ?_⟩
    · refine (position_recordScan_le s.shared purpose start (i + 1)).trans (Nat.le_of_eq ?_)
      simp [Pc.rank, Pc.position, used]
    · simp only [Pc.rank, Pc.left]
      omega
  | recordCreates =>
    cases acted
    exact .ahead known le_rfl rfl
  | @recordSwitches purpose _ switches =>
    cases acted
    cases purpose with
    | create slot => exact absurd rfl (switches slot)
    | switchRW => exact .ahead known le_rfl rfl
    | _ => exact known.elim
  | _ => cases inside

include solo in
theorem onward_sampleVictim (inside : pc.routine = .sampleVictim) :
    Onward cfg t call choice pc s pc' shared := by
  cases move with
  | sampleFree =>
    cases acted
    exact ⟨known, fun _ => .left le_rfl le_rfl (Nat.lt_succ_self _)⟩
  | sampleTaken taken =>
    cases acted
    refine ⟨⟨known.1, ?_⟩, fun _ => .left le_rfl le_rfl (Nat.lt_succ_self _)⟩
    simp only [Allocated, List.mem_append, List.mem_singleton]
    rintro candidate (old | rfl)
    · exact known.2 candidate old
    · exact taken
  | sampled | victimBlock =>
    cases acted
    exact .ahead known le_rfl rfl
  | noVictimRecord =>
    cases acted
    exact ⟨⟨known.1, by simp⟩, fun sampled => absurd rfl (sampled.2 _)⟩
  | lockVictim chosen =>
    obtain ⟨rfl, _⟩ := acquire_used (known.2 _ (List.mem_of_getElem? chosen)) acted
    exact .ahead known.1 (missing_of_needs known.1 known.1 _ _) rfl
  | lockMissed chosen =>
    cases (acquire_used (known.2 _ (List.mem_of_getElem? chosen)) acted).2
  | @victimSwitch purpose w victim =>
    -- the key of the call has no record, and stays as it is
    have other : call.key ≠ victim := by
      rintro rfl
      have named : (latestPages s.shared.log).record call.key = some w :=
        (solo.records.held t ⟨w, .victim call.key⟩ (by rw [holdOf, solo.thread]; rfl)).2.2.2
      rw [PageMap.record, known.unrecorded] at named
      cases named
    obtain ⟨rfl, index, _⟩ := perform_submit acted
    have needs : purpose.Needs
        (latestPages (s.shared.log ++ [⟨.switchToReadOnly victim, t⟩]) call.key) := by
      rw [latestPages_append, Request.apply_of_ne _ _ other]
      exact known
    exact .ahead ⟨needs, by simpa using index.symm⟩ (missing_of_needs known needs _ _) rfl
  | victimSwitched =>
    obtain rfl := perform_await acted
    exact .ahead known.1 le_rfl rfl
  | @victimKept _ w =>
    exact (solo.records.held t ⟨w, .impossible⟩ (by rw [holdOf, solo.thread]; rfl)).2.2.2.elim
  | @reclaimedRecord purpose _ reclaimed =>
    obtain ⟨small, used, locked, _⟩ :=
      solo.records.held t ⟨reclaimed, .detached⟩ (by rw [holdOf, solo.thread]; rfl)
    obtain rfl := perform_recycleWmeta acted
    have log : (recycle cfg s.shared reclaimed (choice == 0)).log = s.shared.log := by
      unfold recycle
      repeat' split
      all_goals rfl
    have needs : purpose.Needs (latestPages s.shared.log call.key) := known
    rw [← log] at needs
    refine ⟨⟨needs, ?_⟩, fun alone => .position (missing_of_needs known needs _ _) ?_⟩
    · rintro w ⟨⟩
      exact small
    · have swapped : (choice == 0) = true := by simpa [undisturbed, solo.thread] using alone.1
      simp [Pc.rank, Pc.position, recycle, used, locked, swapped, Shared.countRecycled,
        Shared.setWord]
  | noVictimSample | noVictimIterate => exact known.1.elim
  | iterated | iterateLock | iterateMissed | reclaimedLast | reclaimedSample | reclaimedIterate
  | unlockedRecord | unlockedSample | unlockedIterate => exact known.elim
  | _ => cases inside

theorem onward_switchRW (inside : pc.routine = .switchRW)
    (notNull : call.key ≠ BlockKey.nullBlockId) : Onward cfg t call choice pc s pc' shared := by
  cases move with
  | switchSubmit =>
    obtain ⟨slot, readOnly : latestPages s.shared.log call.key = some ⟨slot, none⟩⟩ := known
    obtain ⟨rfl, index, answers⟩ := perform_submit acted
    refine ⟨⟨⟨slot, ?_⟩, ?_, by simpa using index.symm⟩, fun _ => .phase ?_⟩
    · simp [pageOf, latestPages_append, Request.apply, readOnly]
    · rw [answers.switched _ _ rfl, switchError, readOnly]
      exact if_pos ⟨rfl, notNull⟩
    · simp [Pc.rank, Pc.phase, readOnly, missing]
  | switchLost lost => rcases lost with rfl | rfl <;> cases known.2.1
  | switchMade =>
    obtain rfl := perform_await acted
    exact .ahead known.1 le_rfl rfl
  | switchRecycle => exact known.elim
  | switchSeqEnd =>
    cases acted
    obtain ⟨slot, page : latestPages s.shared.log call.key = _⟩ := known
    refine .ahead (.of_page (by simp [pageOf, Shared.setWord, page])) ?_ rfl
    simp only [Pc.phase, Shared.setWord, pageOf, page]
    exact missing_le_one _ _
  | _ => cases inside

include solo in
theorem onward_writeToCXL (inside : pc.routine = .writeToCXL) :
    Onward cfg t call choice pc s pc' shared := by
  cases move with
  | writeSeqBegin =>
    have used := (solo.records.named call.key _ (PageMap.record_of_some known.2.1)).2.1
    obtain ⟨rfl, _⟩ := acquire_used used acted
    exact .ahead known le_rfl rfl
  | writeBusy =>
    have used := (solo.records.named call.key _ (PageMap.record_of_some known.2.1)).2.1
    cases (acquire_used used acted).2
  | writeValid =>
    simp only [perform, Option.some.injEq, Prod.mk.injEq] at acted
    obtain ⟨rfl, _⟩ := acted
    exact .ahead known.2 le_rfl rfl
  | writeNotified => simp [perform, known.1.2] at acted
  | writeAbort => exact known.elim
  | writeByte left =>
    cases acted
    refine ⟨known, fun _ => .left le_rfl le_rfl ?_⟩
    simp only [Pc.rank, Pc.left]
    omega
  | writeFlush left =>
    exact ⟨trivial, fun _ => .left le_rfl le_rfl (line_left left)⟩
  | writeWrap =>
    obtain ⟨rfl, index, _⟩ := perform_submit acted
    exact .ahead (by simpa [Pc.Knows] using index.symm) le_rfl rfl
  | writeCopied | writeFlushed | writeWraps | writeSeqEnd | writeWrapped | writeRemember =>
    exact .ahead trivial le_rfl rfl
  | _ => cases inside

end

theorem stored_of_next {instr : Instr Key cfg.nodes}
    (fetched : next cfg t call choice pc = some instr) (reply : instr.act.Reply cfg.nodes)
    (entry : Option (GCDEntry cfg.nodes)) (stores : pc = .anchorStore entry) :
    instr.resume reply = call.afterAnchor cfg (cfg.replica t) entry := by
  subst stores
  cases fetched
  rfl

/-- **One step of a thread that runs alone.** -/
theorem onward_step {instr : Instr Key cfg.nodes} {reply : instr.act.Reply cfg.nodes}
    (solo : Solo strict t call pc s) (known : pc.Knows cfg t call s.shared)
    (notNull : call.key ≠ BlockKey.nullBlockId)
    (data : call.isWrite = true → call.data.isSome = true)
    (scan : call.kind = .read → undisturbed cfg t choice s = true)
    (fetched : next cfg t call choice pc = some instr)
    (acted : perform cfg t s.shared instr.act = some (shared, reply)) :
    Onward cfg t call choice pc s (instr.resume reply) shared := by
  have move := move_of_next fetched reply
  cases inside : pc.routine with
  | getAnchor =>
    exact onward_getAnchor solo known move acted inside (stored_of_next fetched reply)
  | readFromCXL => exact onward_readFromCXL solo known move acted inside
  | createEntry => exact onward_createEntry solo known move acted inside notNull data scan
  | checkReserveWmeta => exact onward_checkReserveWmeta solo known move acted inside
  | sampleVictim => exact onward_sampleVictim solo known move acted inside
  | switchRW => exact onward_switchRW known move acted inside notNull
  | writeToCXL => exact onward_writeToCXL solo known move acted inside
  | other => cases pc <;> cases inside <;> cases fetched

end

end

end Megalon.Protocol
