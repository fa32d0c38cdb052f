import Megalon.Protocol.PageSteps

/-!
Contract: who owns a slot along runs that insert nothing under the null id: the bitmap, a
thread that fills it, or one key.

Owns: the slot each program counter is about to publish or give back, the slot of the
handle of a read or a write, and the invariants for both.

Does not own: records.
-/

namespace Megalon.Protocol

open Function Core Foundations Index

section

variable {Key : Type} {nodes : Nat}

def Purpose.slot : Purpose → Option Nat
  | .create slot => some slot
  | _ => none

/-- The slot a thread has reserved and has neither published nor given back. -/
def Pc.slotHeld : Pc Key nodes → Option Nat
  | .recordCheck purpose _ | .recordScan purpose _ _ | .recordBlock purpose _
  | .sampleVictim purpose _ _ | .lockVictim purpose _ | .victimBlock purpose _
  | .victimSwitch purpose _ _ | .victimWait purpose _ _ _ | .victimRecycle purpose _ _
  | .victimUnlock purpose _ => purpose.slot
  | .createFill slot _ _ | .createFlush slot _ _ | .createInsert slot _
  | .createRecycleTwice slot _ | .createRecycle slot _ | .createRecycleNode slot => some slot
  | .createWait slot _ _ .slotWmetaUpdateFailed => some slot
  | .createWait slot _ _ .slotUpdateFailed => some slot
  | _ => none

/-- The slot of the handle a read or a write works on. -/
def Pc.target : Pc Key nodes → Option Nat
  | .anchorStore entry => entry.bind fun e => (e.cnArray sharedCacheNode).cnIdx
  | .readSeqBegin slot _ | .readLocalSeq slot _ _ | .readForget slot _ | .readFlush slot _
  | .readCopy slot _ _ | .readNotified slot _ _ | .readRetry slot _ _
  | .writeSeqBegin slot _ | .writeNotified slot _ | .writeAbort slot _ | .writeCopy slot _ _
  | .writeFlush slot _ _ | .writeSeqEnd slot _ => some slot
  | _ => none

end

/-! ### Handles -/

section

variable {Key Mem : Type} [BlockKey Key] {cfg : Config Key Mem}
  {t choice c : Nat} {call : Call Key} {pc pc' : cfg.Pc} {act : Act Key}
  {reply : act.Reply cfg.nodes}

section

variable (move : Move cfg t call choice pc act reply pc')

include move

theorem slotHeld_move
    (notReserve : pc ≠ .createReserve) (held : pc'.slotHeld = some c) : pc.slotHeld = some c := by
  cases move with
  | createInsert =>
    simp only [Pc.slotHeld] at held ⊢
    split at held <;> simp_all
  | createLost lost _ => rcases lost with rfl | rfl <;> exact held
  | _ =>
    first
      | exact held
      | exact absurd rfl notReserve
      | cases held

theorem target_move (notLookup : ∀ ctail, pc ≠ .anchorLookup ctail) (handle : pc'.target = some c) :
    pc.target = some c := by
  cases move with
  | lookup => exact absurd rfl (notLookup _)
  | readTracked _ page _ | readUntracked _ page _ | writeTracked _ page _ =>
    exact page.trans handle
  | _ =>
    first
      | exact handle
      | cases handle

/-- Only `ReserveCacheNode` and `RecycleCacheNode` touch the bitmap. -/
theorem move_onBitmap (touches : act.onBitmap = true) :
    pc = .createReserve ∨ ∃ slot, pc = .createRecycleNode slot := by
  cases move with
  | recycledDone | recycledAgain => exact .inr ⟨_, rfl⟩
  | _ =>
    first
      | exact .inl rfl
      | cases touches

end

/-! ### The slot invariant -/

variable (cfg) in
/-- Published and held slots are reserved, each by one key or one thread. -/
structure SlotsOwned (s : cfg.State) : Prop where
  named : ∀ key c, (latestPages s.shared.log).slot key = some c → s.shared.freeBit c = false
  distinct : ∀ key key' c, (latestPages s.shared.log).slot key = some c →
    (latestPages s.shared.log).slot key' = some c → key = key'
  held : ∀ t c, (s.threads t).pc.slotHeld = some c → s.shared.freeBit c = false ∧
    ∀ key, (latestPages s.shared.log).slot key ≠ some c
  unique : ∀ t t' c, (s.threads t).pc.slotHeld = some c → (s.threads t').pc.slotHeld = some c →
    t = t'

theorem slotsOwned_initial (s : cfg.State) (start : Initial cfg s) : SlotsOwned cfg s where
  named := fun key c present => by
    rw [start.log] at present
    cases present
  distinct := fun key key' c present => by
    rw [start.log] at present
    cases present
  held := fun t c held => by
    rw [start.threads t] at held
    cases held
  unique := fun t t' c held => by
    rw [start.threads t] at held
    cases held

variable {s s' : cfg.State}

theorem SlotsOwned.shrink (owned : SlotsOwned cfg s)
    (slots : ∀ key, (latestPages s'.shared.log).slot key = (latestPages s.shared.log).slot key)
    (freeBit : s'.shared.freeBit = s.shared.freeBit)
    (held : ∀ t c, (s'.threads t).pc.slotHeld = some c → (s.threads t).pc.slotHeld = some c) :
    SlotsOwned cfg s' where
  named := fun key c present => by
    rw [freeBit]
    exact owned.named key c ((slots key).symm.trans present)
  distinct := fun key key' c present present' =>
    owned.distinct key key' c ((slots key).symm.trans present) ((slots key').symm.trans present')
  held := fun t c mine => by
    obtain ⟨reserved, unpublished⟩ := owned.held t c (held t c mine)
    rw [freeBit]
    exact ⟨reserved, fun key present => unpublished key ((slots key).symm.trans present)⟩
  unique := fun t t' c mine other => owned.unique t t' c (held t c mine) (held t' c other)

variable {e : Event Key}

/-- A step leaves the slot of a key, or is the insertion that gives it one. -/
theorem slot_step (taken : step cfg s e = some s') (key : Key) :
    (latestPages s'.shared.log).slot key = (latestPages s.shared.log).slot key ∨
      ∃ t choice slot wmeta, e = .thread t choice ∧ (s.threads t).call.key = key ∧
        (s.threads t).pc = .createInsert slot wmeta ∧ latestPages s.shared.log key = none ∧
        latestPages s'.shared.log key = some ⟨slot, wmeta⟩ := by
  rcases log_step taken with same | ⟨t, choice, request, rfl, submits, grown⟩
  · exact .inl (by rw [same])
  · rw [grown, latestPages_append]
    rcases request.slot_apply_cases (latestPages s.shared.log) key with
      same | ⟨slot, wmeta, rfl, absent, inserted⟩
    · exact .inl same
    · generalize counter : (s.threads t).pc = pc at submits
      generalize mine : (s.threads t).call.key = own at submits
      cases submits
      exact .inr ⟨t, choice, slot, wmeta, rfl, rfl, counter, absent, inserted⟩

variable {t c : Nat} {thread : cfg.Thread}

theorem slotHeld_update {threads : Nat → cfg.Thread} {t' : Nat}
    (held : (update threads t thread t').pc.slotHeld = some c) :
    (t' = t ∧ thread.pc.slotHeld = some c) ∨ (t' ≠ t ∧ (threads t').pc.slotHeld = some c) := by
  by_cases same : t' = t
  · subst same
    exact .inl ⟨rfl, by simpa using held⟩
  · exact .inr ⟨same, by simpa [same] using held⟩

variable {shared : cfg.Shared}

section

variable (owned : SlotsOwned cfg s)

include owned

theorem SlotsOwned.shrinkAt
    (slots : ∀ key, (latestPages shared.log).slot key = (latestPages s.shared.log).slot key)
    (freeBit : shared.freeBit = s.shared.freeBit)
    (mine : ∀ c, thread.pc.slotHeld = some c → (s.threads t).pc.slotHeld = some c) :
    SlotsOwned cfg ⟨shared, update s.threads t thread⟩ := by
  refine owned.shrink slots freeBit fun t' c held => ?_
  rcases slotHeld_update held with ⟨rfl, new⟩ | ⟨_, old⟩
  · exact mine c new
  · exact old

theorem SlotsOwned.reserve (free : s.shared.freeBit c = true)
    (mine : ∀ c', thread.pc.slotHeld = some c' → c' = c) :
    SlotsOwned cfg
      ⟨{ s.shared with freeBit := update s.shared.freeBit c false },
        update s.threads t thread⟩ where
  named := fun key c' present => by
    by_cases same : c' = c
    · simp [same]
    · simpa [same] using owned.named key c' present
  distinct := owned.distinct
  held := fun t' c' held => by
    rcases slotHeld_update held with ⟨_, new⟩ | ⟨_, old⟩
    · obtain rfl := mine c' new
      refine ⟨by simp, fun key present => ?_⟩
      simp [owned.named key c' present] at free
    · obtain ⟨reserved, unpublished⟩ := owned.held t' c' old
      refine ⟨?_, unpublished⟩
      by_cases same : c' = c
      · simp [same]
      · simpa [same] using reserved
  unique := fun t₁ t₂ c' held₁ held₂ => by
    have notOld : ∀ t', (s.threads t').pc.slotHeld ≠ some c := fun t' old => by
      simp [(owned.held t' c old).1] at free
    rcases slotHeld_update held₁ with ⟨rfl, new₁⟩ | ⟨_, old₁⟩ <;>
      rcases slotHeld_update held₂ with ⟨rfl, new₂⟩ | ⟨_, old₂⟩
    · rfl
    · exact absurd (mine c' new₁ ▸ old₂) (notOld t₂)
    · exact absurd (mine c' new₂ ▸ old₁) (notOld t₁)
    · exact owned.unique t₁ t₂ c' old₁ old₂

theorem SlotsOwned.recycle (holds : (s.threads t).pc.slotHeld = some c)
    (after : thread.pc.slotHeld = none) :
    SlotsOwned cfg
      ⟨{ s.shared with freeBit := update s.shared.freeBit c true },
        update s.threads t thread⟩ where
  named := fun key c' present => by
    have different : c' ≠ c := by
      rintro rfl
      exact (owned.held t c' holds).2 key present
    simpa [different] using owned.named key c' present
  distinct := owned.distinct
  held := fun t' c' held => by
    rcases slotHeld_update held with ⟨_, new⟩ | ⟨other, old⟩
    · simp [after] at new
    · obtain ⟨reserved, unpublished⟩ := owned.held t' c' old
      have different : c' ≠ c := by
        rintro rfl
        exact other (owned.unique t' t c' old holds)
      exact ⟨by simpa [different] using reserved, unpublished⟩
  unique := fun t₁ t₂ c' held₁ held₂ => by
    rcases slotHeld_update held₁ with ⟨_, new₁⟩ | ⟨_, old₁⟩
    · simp [after] at new₁
    · rcases slotHeld_update held₂ with ⟨_, new₂⟩ | ⟨_, old₂⟩
      · simp [after] at new₂
      · exact owned.unique t₁ t₂ c' old₁ old₂

/-- A thread hands the slot it holds over to a key. -/
theorem SlotsOwned.publish (key : Key)
    (holds : (s.threads t).pc.slotHeld = some c)
    (new : (latestPages s'.shared.log).slot key = some c) (others : ∀ other, other ≠ key →
      (latestPages s'.shared.log).slot other = (latestPages s.shared.log).slot other)
    (freeBit : s'.shared.freeBit = s.shared.freeBit) (mine : (s'.threads t).pc.slotHeld = none)
    (sameThreads : ∀ t', t' ≠ t → s'.threads t' = s.threads t') : SlotsOwned cfg s' where
  named := fun other c' present => by
    rw [freeBit]
    by_cases same : other = key
    · subst same
      rw [new, Option.some.injEq] at present
      exact present ▸ (owned.held t c holds).1
    · exact owned.named other c' ((others other same).symm.trans present)
  distinct := fun key₁ key₂ c' present₁ present₂ => by
    have notOld := (owned.held t c holds).2
    by_cases same₁ : key₁ = key <;> by_cases same₂ : key₂ = key
    · rw [same₁, same₂]
    · rw [same₁, new] at present₁
      rw [others key₂ same₂, ← present₁] at present₂
      exact absurd present₂ (notOld key₂)
    · rw [same₂, new] at present₂
      rw [others key₁ same₁, ← present₂] at present₁
      exact absurd present₁ (notOld key₁)
    · rw [others key₁ same₁] at present₁
      rw [others key₂ same₂] at present₂
      exact owned.distinct key₁ key₂ c' present₁ present₂
  held := fun t' c' held => by
    have different : t' ≠ t := by
      rintro rfl
      simp [mine] at held
    rw [sameThreads t' different] at held
    obtain ⟨reserved, unpublished⟩ := owned.held t' c' held
    refine ⟨freeBit ▸ reserved, fun other present => ?_⟩
    by_cases same : other = key
    · rw [same, new, Option.some.injEq] at present
      exact different (owned.unique t' t c (present ▸ held) holds)
    · exact unpublished other ((others other same).symm.trans present)
  unique := fun t₁ t₂ c' held₁ held₂ => by
    have different : ∀ t', (s'.threads t').pc.slotHeld = some c' → t' ≠ t := by
      rintro t' held rfl
      simp [mine] at held
    rw [sameThreads t₁ (different t₁ held₁)] at held₁
    rw [sameThreads t₂ (different t₂ held₂)] at held₂
    exact owned.unique t₁ t₂ c' held₁ held₂

end

/-- No insertion is made under the null id, which names no page. -/
def InsertsNamed (s : cfg.State) (e : Event Key) : Prop :=
  ∀ t choice slot wmeta, e = .thread t choice → (s.threads t).pc = .createInsert slot wmeta →
    (s.threads t).call.key ≠ BlockKey.nullBlockId

theorem insertsNamed_of_uncontested (allowed : uncontested cfg s e = true) : InsertsNamed s e := by
  rintro t choice slot wmeta rfl counter
  have thread : s.threads t = ⟨(s.threads t).call, .createInsert slot wmeta⟩ := by rw [← counter]
  exact (uncontested_insert thread allowed).1

theorem slotsOwned_insert (owned : SlotsOwned cfg s) {slot : Nat} {wmeta : Option Nat}
    {reply : Nat × Option (GCDResponse Key cfg.nodes)}
    (counter : (s.threads t).pc = .createInsert slot wmeta)
    (notNull : (s.threads t).call.key ≠ BlockKey.nullBlockId) (acted : perform cfg t s.shared
      (.submit (.checkAndInsert (s.threads t).call.key slot wmeta)) = some (shared, reply)) :
    SlotsOwned cfg ⟨shared, update s.threads t ⟨(s.threads t).call,
      .createWait slot wmeta reply.1 (checkAndInsertCode reply.2)⟩⟩ := by
  have holds : (s.threads t).pc.slotHeld = some slot := by
    rw [counter]
    rfl
  obtain ⟨rfl, _, answers⟩ := perform_submit acted
  rw [answers.inserted _ _ _ rfl]
  cases present : latestPages s.shared.log (s.threads t).call.key with
  | none =>
    have applied : (Request.checkAndInsert (s.threads t).call.key slot wmeta).apply
        (latestPages s.shared.log) =
        update (latestPages s.shared.log) (s.threads t).call.key
          (some ⟨slot, wmeta⟩) := by
      simp only [Request.apply, present]
    refine owned.publish (t := t) (s.threads t).call.key holds ?_ ?_ rfl ?_ ?_
    · simp [latestPages_append, applied, PageMap.slot]
    · intro other different
      simp [latestPages_append, applied, PageMap.slot, different]
    · simp [insertError, present, notNull, Pc.slotHeld]
    · exact fun t' different => by simp [different]
  | some page =>
    refine owned.shrinkAt (fun key => ?_) rfl fun c new => ?_
    · simp only [latestPages_append]
      rcases Request.slot_apply_cases (.checkAndInsert (s.threads t).call.key slot wmeta)
        (latestPages s.shared.log) key with same | ⟨_, _, ⟨⟩, absent, _⟩
      · exact same
      · simp [present] at absent
    · rw [holds]
      simp only [insertError, present] at new
      split at new <;> exact new

theorem slotsOwned_reserve (owned : SlotsOwned cfg s)
    (move : Move cfg t call choice .createReserve act reply pc')
    (acted : perform cfg t s.shared act = some (shared, reply)) :
    SlotsOwned cfg ⟨shared, update s.threads t ⟨call, pc'⟩⟩ := by
  cases move with
  | createRefused | createRetry =>
    obtain rfl := perform_refused acted
    exact owned.shrinkAt (fun _ => rfl) rfl fun c new => nomatch new
  | createCrash =>
    obtain ⟨rfl, _, free, rfl⟩ := perform_reserved acted
    exact owned.reserve free fun c new => nomatch new
  | createWritten | createEmpty | createFetched =>
    obtain ⟨rfl, _, free, rfl⟩ := perform_reserved acted
    exact owned.reserve free fun c new => (Option.some.inj new).symm

/-- **Slots keep one owner** in every step that inserts under a named key. -/
theorem slotsOwned_step (s : cfg.State) (e : Event Key) (s' : cfg.State) (owned : SlotsOwned cfg s)
    (named : InsertsNamed s e) (taken : step cfg s e = some s') : SlotsOwned cfg s' := by
  have slots := slot_step taken
  cases stepForm_of_step taken with
  | start _ =>
    refine owned.shrinkAt (fun _ => rfl) rfl fun c new => ?_
    simp only [Call.entryPc] at new
    repeat' split at new
    all_goals cases new
  | @thread t choice _ _ _ _ move acted =>
    cases counter : (s.threads t).pc with
    | createReserve => exact slotsOwned_reserve owned (counter ▸ move) acted
    | createRecycleNode slot =>
      have holds : (s.threads t).pc.slotHeld = some slot := by rw [counter]; rfl
      rw [counter] at move
      cases move
      all_goals
        cases acted
        split
        · exact owned.recycle holds rfl
        · exact owned.shrinkAt (fun _ => rfl) rfl fun c new => nomatch new
    | createInsert slot wmeta =>
      rw [counter] at move
      cases move
      exact slotsOwned_insert owned counter (named t choice slot wmeta rfl counter) acted
    | _ =>
      refine owned.shrinkAt (fun key => ?_) ?_ fun c new => ?_
      · rcases slots key with same | ⟨t', _, _, _, ⟨⟩, _, at_insert, _⟩
        · exact same
        · simp [counter] at at_insert
      · refine (perform_frame acted).freeBit (eq_false_of_ne_true fun touches => ?_)
        rcases move_onBitmap move touches with reserves | ⟨slot, recycles⟩
        · simp [counter] at reserves
        · simp [counter] at recycles
      · exact slotHeld_move move (by simp [counter]) new
  | replica => exact owned.shrink (fun _ => rfl) rfl fun _ _ held => held

/-! ### Handles in log order -/

/-- The slot of a handle is the one its key has in the latest state of the directory. -/
def TargetsKnown (s : cfg.State) : Prop :=
  ∀ t c, (s.threads t).pc.target = some c →
    (latestPages s.shared.log).slot (s.threads t).call.key = some c

theorem slot_latest_of_pagesAt {log : List (LogEntry Key)} {n : Nat} {key : Key}
    (known : (pagesAt log n).slot key = some c) : (latestPages log).slot key = some c := by
  rcases Nat.le_total n log.length with inside | beyond
  · exact slot_pagesAt_mono inside known
  · rwa [pagesAt, List.take_of_length_le beyond, ← List.take_length (l := log)] at known

theorem slot_step_mono (taken : step cfg s e = some s') {key : Key}
    (known : (latestPages s.shared.log).slot key = some c) :
    (latestPages s'.shared.log).slot key = some c := by
  rcases slot_step taken key with same | ⟨_, _, _, _, _, _, _, absent, _⟩
  · rw [same, known]
  · simp [PageMap.slot, absent] at known

/-- The handle of a call comes from the entry its lookup has returned. -/
theorem target_lookup {ctail : Nat} {before : cfg.Shared}
    (move : Move cfg t call choice (.anchorLookup ctail) act reply pc')
    (acted : perform cfg t before act = some (shared, reply)) (handle : pc'.target = some c) :
    (latestPages before.log).slot call.key = some c := by
  cases move
  simp only [perform] at acted
  split at acted <;> cases acted
  simp only [Pc.target, stateAt_eq, PageMap.toDirectory] at handle
  refine slot_latest_of_pagesAt (n := shared.applied (cfg.replica t)) ?_
  rw [PageMap.slot]
  cases present : pagesAt shared.log (shared.applied (cfg.replica t)) call.key with
  | none => simp [present] at handle
  | some page => simpa [present, Page.toEntry] using handle

theorem targetsKnown_step (s : cfg.State) (e : Event Key)
    (s' : cfg.State) (known : TargetsKnown s) (taken : step cfg s e = some s') :
    TargetsKnown s' := by
  refine forall_threads_step (P := fun _ thread => ∀ c, thread.pc.target = some c →
    (latestPages s'.shared.log).slot thread.call.key = some c) taken ?_ ?_ ?_
  · exact fun t _ c handle => slot_step_mono taken (known t c handle)
  · intro _ call c handle
    simp only [Call.entryPc] at handle
    repeat' split at handle
    all_goals cases handle
  · intro t choice act reply shared pc' _ _ move acted c handle
    refine slot_step_mono taken ?_
    cases counter : (s.threads t).pc with
    | anchorLookup ctail => exact target_lookup (counter ▸ move) acted handle
    | _ => exact known t c (target_move move (by simp [counter]) handle)

theorem targetsKnown_initial (s : cfg.State) (start : Initial cfg s) : TargetsKnown s := by
  intro t c handle
  rw [start.threads t] at handle
  cases handle

end

end Megalon.Protocol
