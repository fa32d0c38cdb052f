import Megalon.Protocol.Machine
import Megalon.Protocol.Ownership
import Megalon.Protocol.PageMap

/-!
Contract: record ownership along runs of the protocol.

Owns: the lock each program counter holds, the condition on racing insertions under
which ownership is kept, and a run that breaks ownership without it.

Does not own: what the holders do to pages.
-/

namespace Megalon.Protocol

open Function Core Foundations Index

section

variable {Key Mem : Type} {nodes : Nat}

/-- The lock a thread holds at a program counter. The second `RecycleWmeta` of the
fall-through in `AdmitWrite` and `CreateEntry` runs without it. -/
def Pc.hold (call : Call Key) : Pc Key nodes → Option (Hold Key)
  | .recordBlock _ w => some ⟨w, .fresh⟩
  | .createFill _ (some w) _ | .createFlush _ (some w) _ | .createInsert _ (some w)
  | .createRecycleTwice _ w | .switchSubmit w | .switchRecycle w =>
    some ⟨w, .reserved call.key⟩
  | .createWait _ (some w) _ error =>
    match error with
    | .slotWmetaUpdateFailed => some ⟨w, .reserved call.key⟩
    | .slotUpdateFailed => some ⟨w, .impossible⟩
    | _ => some ⟨w, .entry true⟩
  | .switchWait w _ error =>
    match error with
    | .slotWmetaUpdateFailed | .entryNoexist => some ⟨w, .reserved call.key⟩
    | _ => some ⟨w, .entry true⟩
  | .createSeqEnd w | .switchSeqEnd w | .writeNotified _ w | .writeAbort _ w
  | .writeCopy _ w _ | .writeFlush _ w _ | .writeSeqEnd _ w => some ⟨w, .entry true⟩
  | .victimBlock _ w => some ⟨w, .entry false⟩
  | .victimSwitch _ w victim => some ⟨w, .victim victim⟩
  | .victimWait _ _ _ (some reclaimed) | .victimRecycle _ _ reclaimed =>
    some ⟨reclaimed, .detached⟩
  | .victimWait _ w _ none | .victimUnlock _ w => some ⟨w, .impossible⟩
  | _ => none

def holdOf (threads : Nat → Thread Key nodes) : Nat → Option (Hold Key) :=
  fun t => (threads t).pc.hold (threads t).call

theorem holdOf_update (threads : Nat → Thread Key nodes) (t : Nat) (thread : Thread Key nodes) :
    holdOf (update threads t thread) =
      setHold (holdOf threads) t (thread.pc.hold thread.call) := by
  funext t'
  by_cases same : t' = t
  · subst same
    simp [holdOf, setHold]
  · simp [holdOf, setHold, same]

theorem setHold_self {hold : Nat → Option (Hold Key)} {t : Nat} {mine : Option (Hold Key)}
    (same : mine = hold t) : setHold hold t mine = hold := by
  rw [setHold, same, update_eq_self]

/-- Accesses that change neither the log nor a record, and after which a thread holds
the lock it held before. -/
def Act.quiet : Act Key → Bool
  | .submit _ | .tryAllocateLock _ | .setBlockId _ _ | .getBlockId _ | .wLockOnly _
  | .wUnlockOnly _ | .wSeqBegin _ | .wSeqEnd _ | .recycleWmeta _ _ => false
  | _ => true

end

section

variable {Key Mem : Type} [BlockKey Key] {cfg : Config Key Mem}

theorem perform_quiet {t : Nat} {s s' : cfg.Shared} {act : Act Key}
    {reply : act.Reply cfg.nodes} (quiet : act.quiet = true)
    (acted : perform cfg t s act = some (s', reply)) :
    s'.log = s.log ∧ s'.word = s.word ∧ s'.blockId = s.blockId := by
  cases act <;> simp only [Act.quiet, Bool.false_eq_true] at quiet <;>
    simp only [perform] at acted
  case lookup | await | rSeqBegin =>
    split at acted <;> cases acted
    exact ⟨rfl, rfl, rfl⟩
  case reserveCacheNode =>
    split at acted
    · cases acted
      exact ⟨rfl, rfl, rfl⟩
    · split at acted <;> cases acted
      exact ⟨rfl, rfl, rfl⟩
  case recycleCacheNode =>
    cases acted
    split <;> exact ⟨rfl, rfl, rfl⟩
  all_goals
    cases acted
    exact ⟨rfl, rfl, rfl⟩

theorem hold_resume_quiet {t choice : Nat} {call : Call Key} {pc pc' : cfg.Pc}
    {act : Act Key} {reply : act.Reply cfg.nodes} (move : Move cfg t call choice pc act reply pc')
    (quiet : act.quiet = true) (possible : ∀ w, pc.hold call ≠ some ⟨w, .impossible⟩) :
    pc'.hold call = pc.hold call := by
  cases move with
  | createLostSlot => exact absurd rfl (possible _)
  | createKept both kept => simp [Pc.hold]
  | switchLost lost => rcases lost with rfl | rfl <;> rfl
  | switchMade both found => simp [Pc.hold]
  | @createFill _ wmeta | @createFilled _ wmeta | @createFlush _ wmeta | @createFlushed _ wmeta =>
    cases wmeta <;> rfl
  | _ =>
    first
      | rfl
      | cases quiet

end

/-! ### The ownership invariant -/

section

variable {Key Mem : Type} [BlockKey Key] (cfg : Config Key Mem)

/-- Racing insertions do not contradict each other: an insertion that finds an entry
carries a record if and only if the entry has one; no key with a record is the null
key; and nobody has taken the record again when `RecycleWmeta` is called a second time
on it. -/
def uncontested (s : cfg.State) : Event Key → Bool
  | .thread t _ =>
    match (s.threads t).pc with
    | .createInsert _ wmeta => (s.threads t).call.key ≠ BlockKey.nullBlockId &&
        (latest cfg.nodes s.shared.log (s.threads t).call.key).all fun entry =>
          entry.wmetaIdx.isSome = wmeta.isSome
    | .switchSubmit _ => (s.threads t).call.key ≠ BlockKey.nullBlockId
    | .createRecycle _ w => !(s.shared.word w).isLocked
    | _ => true
  | _ => true

/-- A `RecycleWmeta` that finds its record locked frees it. -/
def recycles (s : cfg.State) : Event Key → Bool
  | .thread t choice =>
    match (s.threads t).pc with
    | .createRecycleTwice _ w | .createRecycle _ w | .victimRecycle _ _ w | .switchRecycle w =>
      choice == 0 || !(s.shared.word w).isLocked
    | _ => true
  | _ => true

/-- Ownership of the records; with `strict`, of runs in which every `RecycleWmeta` frees. -/
def RecordsIn (strict : Prop) (s : cfg.State) : Prop :=
  Owned strict cfg.poolLen (latestPages s.shared.log).record s.shared.word s.shared.blockId
    (holdOf s.threads)

abbrev RecordsOwned (s : cfg.State) : Prop := RecordsIn cfg False s

variable {cfg} {t : Nat} {s s' : cfg.Shared}

theorem perform_submit {request : Request Key} {reply : (Act.submit request).Reply cfg.nodes}
    (acted : perform cfg t s (.submit request) = some (s', reply)) :
    s' = { s with log := s.log ++ [⟨request, t⟩] } ∧ reply.1 = s.log.length ∧
      Answers (latestPages s.log) request reply.2 := by
  obtain ⟨response, accepted, answers⟩ :=
    dispatchMut_toDirectory cfg.nodes (latestPages s.log) request
  simp only [perform, latest_eq, accepted] at acted
  cases acted
  exact ⟨rfl, rfl, answers⟩

theorem perform_submit_some (t : Nat) (s : cfg.Shared) (request : Request Key) :
    ∃ response, perform cfg t s (.submit request) =
      some ({ s with log := s.log ++ [⟨request, t⟩] }, (s.log.length, response)) := by
  obtain ⟨response, accepted, _⟩ :=
    dispatchMut_toDirectory cfg.nodes (latestPages s.log) request
  refine ⟨response, ?_⟩
  simp only [perform, latest_eq, accepted]

variable {w : Nat}

theorem acquire_cases {install : SeqWord → SeqWord} {reply : Bool}
    (acted : acquire cfg s w install = some (s', reply)) :
    (s' = s ∧ reply = false) ∨ ((s.word w).isFree = false ∧ (s.word w).isLocked = false ∧
      s' = s.setWord w (install (s.word w)) ∧ reply = true) := by
  unfold acquire at acted
  split at acted
  · cases acted
    exact .inl ⟨rfl, rfl⟩
  · split at acted <;> cases acted
    rename_i used unlocked
    exact .inr ⟨eq_false_of_ne_true used, eq_false_of_ne_true unlocked, rfl, rfl⟩

variable {swapped : Bool}

theorem perform_recycleWmeta {reply : (Act.recycleWmeta w swapped : Act Key).Reply cfg.nodes}
    (acted : perform cfg t s (.recycleWmeta w swapped) = some (s', reply)) :
    s' = recycle cfg s w swapped := by
  simp only [perform, Option.some.injEq, Prod.mk.injEq] at acted
  exact acted.1.symm

theorem perform_wSeqEnd {seq : Nat} (acted : perform cfg t s (.wSeqEnd w) = some (s', seq)) :
    s' = s.setWord w (writeSeqlockEnd (s.word w)) ∧ seq = (writeSeqlockEnd (s.word w)).seq := by
  simp only [perform, Option.some.injEq, Prod.mk.injEq] at acted
  exact ⟨acted.1.symm, acted.2.symm⟩

/-- It leaves alone a record that is not locked, or if its compare-exchange fails. -/
theorem recycle_kept (kept : (s.word w).isLocked = false ∨ swapped = false) :
    (recycle cfg s w swapped).log = s.log ∧ (recycle cfg s w swapped).word = s.word ∧
      (recycle cfg s w swapped).blockId = s.blockId := by
  have fails : ((s.word w).isLocked && swapped) = false := by
    rcases kept with unlocked | failed
    · rw [unlocked, Bool.false_and]
    · rw [failed, Bool.and_false]
  cases free : (s.word w).isFree
  · simp only [recycle, free, fails, Bool.false_eq_true, if_false, and_self]
  · simp only [recycle, free, if_true, Shared.countRecycled, and_self]

section

variable {strict : Prop} {s : cfg.State} {t : Nat} {call : Call Key}
  {pc : cfg.Pc} {shared : cfg.Shared}

/-- The state of ownership after thread `t` goes to `pc`. -/
def OwnedAt (strict : Prop) (s : cfg.State) (t : Nat) (call : Call Key)
    (shared : cfg.Shared) (pc : cfg.Pc) : Prop :=
  Owned strict cfg.poolLen (latestPages shared.log).record shared.word shared.blockId
    (setHold (holdOf s.threads) t (pc.hold call))

theorem ownedAt_same (owned : RecordsIn cfg strict s) (log : shared.log = s.shared.log)
    (word : shared.word = s.shared.word) (blockId : shared.blockId = s.shared.blockId)
    (mine : pc.hold call = holdOf s.threads t) : OwnedAt strict s t call shared pc := by
  rw [OwnedAt, setHold_self mine, log, word, blockId]
  exact owned

variable {w choice : Nat}

theorem ownedAt_seqEnd (owned : RecordsIn cfg strict s)
    (holds : holdOf s.threads t = some ⟨w, .entry true⟩) (after : pc.hold call = none) :
    OwnedAt strict s t call (s.shared.setWord w (writeSeqlockEnd (s.shared.word w))) pc := by
  have parity := owned.parity t _ holds
  rw [OwnedAt, after]
  refine owned.unlock holds (by simp) (by simp) ?_
  rw [seq_writeSeqlockEnd]
  simp only [HoldStatus.odd, if_true] at parity
  omega

theorem ownedAt_recycle (owned : RecordsIn cfg strict s) {status : HoldStatus Key}
    (holds : holdOf s.threads t = some ⟨w, status⟩)
    (unnamed : ∀ key, (latestPages s.shared.log).record key ≠ some w) (after : pc.hold call = none)
    (frees : strict → (choice == 0 || !(s.shared.word w).isLocked) = true) :
    OwnedAt strict s t call (recycle cfg s.shared w (choice == 0)) pc := by
  obtain ⟨_, used, set, _⟩ := owned.held t _ holds
  rw [OwnedAt, after]
  by_cases swapped : (choice == 0) = true
  · simp only [recycle, used, set, swapped, Bool.false_eq_true, if_false, if_true, Bool.and_self]
    exact owned.recycle holds unnamed
  · obtain ⟨log, word, blockId⟩ : _ ∧ (recycle cfg s.shared w (choice == 0)).word = _ ∧ _ :=
      recycle_kept (.inr (eq_false_of_ne_true swapped))
    rw [log, word, blockId]
    refine owned.abandon holds unnamed fun strictly => ?_
    simpa [swapped, set] using frees strictly

theorem ownedAt_acquire (owned : RecordsIn cfg strict s) {install : SeqWord → SeqWord}
    {reply : Bool} (inSection : Bool) (none : holdOf s.threads t = none)
    (acted : acquire cfg s.shared w install = some (shared, reply))
    (used : ∀ word : SeqWord, word.isFree = false → (install word).isFree = false)
    (set : ∀ word, (install word).isLocked = true) (parity : ∀ word : SeqWord, word.seq % 2 = 0 →
      (install word).seq % 2 = if inSection then 1 else 0)
    (after : pc.hold call = if reply then some ⟨w, .entry inSection⟩ else Option.none) :
    OwnedAt strict s t call shared pc := by
  rcases acquire_cases acted with ⟨rfl, rfl⟩ | ⟨notFree, unlocked, rfl, rfl⟩
  · exact ownedAt_same owned rfl rfl rfl (by simpa [none] using after)
  · rw [OwnedAt, after, if_pos rfl]
    exact owned.lock inSection notFree unlocked none (used _ notFree) (set _)
      (parity _ (owned.even w unlocked))

variable {slot : Nat}

theorem uncontested_insert {wmeta : Option Nat}
    (thread : s.threads t = ⟨call, .createInsert slot wmeta⟩)
    (allowed : uncontested cfg s (.thread t choice) = true) :
    call.key ≠ BlockKey.nullBlockId ∧ ∀ page, latestPages s.shared.log call.key = some page →
      page.wmeta.isSome = wmeta.isSome := by
  simp only [uncontested, thread, Bool.and_eq_true, decide_eq_true_eq] at allowed
  refine ⟨allowed.1, fun page present => ?_⟩
  have mode := allowed.2
  rw [latest_eq, PageMap.toDirectory_some cfg.nodes present, Option.all_some,
    decide_eq_true_eq] at mode
  exact mode

variable {reply : Nat × Option (GCDResponse Key cfg.nodes)}

variable (owned : RecordsIn cfg strict s)

include owned

theorem ownedAt_insert (thread : s.threads t = ⟨call, .createInsert slot (some w)⟩)
    (allowed : uncontested cfg s (.thread t choice) = true)
    (acted : perform cfg t s.shared (.submit (.checkAndInsert call.key slot (some w))) =
      some (shared, reply)) :
    OwnedAt strict s t call shared
      (.createWait slot (some w) reply.1 (checkAndInsertCode reply.2)) := by
  have holds : holdOf s.threads t = some ⟨w, .reserved call.key⟩ := by
    simp [holdOf, thread, Pc.hold]
  obtain ⟨notNull, sameMode⟩ := uncontested_insert thread allowed
  obtain ⟨rfl, _, answers⟩ := perform_submit acted
  rw [answers.inserted _ _ _ rfl, OwnedAt]
  simp only [latestPages_append]
  cases present : latestPages s.shared.log call.key with
  | none =>
    rw [record_insert_absent slot (some w) present]
    simpa [insertError, present, notNull, Pc.hold] using
      owned.name holds (PageMap.record_of_none present)
  | some page =>
    have mode := sameMode page present
    have readWrite : page.wmeta ≠ none := by
      intro none
      simp [none] at mode
    rw [record_insert_present slot present mode, setHold_self]
    · exact owned
    · simp [insertError, present, readWrite, Pc.hold, holds]

theorem ownedAt_insert_none (thread : s.threads t = ⟨call, .createInsert slot none⟩)
    (allowed : uncontested cfg s (.thread t choice) = true)
    (acted : perform cfg t s.shared (.submit (.checkAndInsert call.key slot none)) =
      some (shared, reply)) :
    OwnedAt strict s t call shared
      (.createWait slot none reply.1 (checkAndInsertCode reply.2)) := by
  have holds : holdOf s.threads t = none := by simp [holdOf, thread, Pc.hold]
  obtain ⟨_, sameMode⟩ := uncontested_insert thread allowed
  obtain ⟨rfl, _, _⟩ := perform_submit acted
  rw [OwnedAt, setHold_self (by simp [Pc.hold, holds])]
  simp only [latestPages_append]
  have kept : ((Request.checkAndInsert call.key slot none).apply
      (latestPages s.shared.log)).record = (latestPages s.shared.log).record := by
    cases present : latestPages s.shared.log call.key with
    | none =>
      rw [record_insert_absent slot none present, ← PageMap.record_of_none present,
        update_eq_self]
    | some page => exact record_insert_present slot present (sameMode page present)
  rw [kept]
  exact owned

theorem ownedAt_switchRW (thread : s.threads t = ⟨call, .switchSubmit w⟩)
    (allowed : uncontested cfg s (.thread t choice) = true)
    (acted : perform cfg t s.shared (.submit (.invalidateSwitchToRWShared call.key w)) =
      some (shared, reply)) :
    OwnedAt strict s t call shared
      (.switchWait w reply.1 (invalidateSwitchToRWSharedCode reply.2)) := by
  have holds : holdOf s.threads t = some ⟨w, .reserved call.key⟩ := by
    simp [holdOf, thread, Pc.hold]
  have notNull : call.key ≠ BlockKey.nullBlockId := by simpa [uncontested, thread] using allowed
  obtain ⟨rfl, _, answers⟩ := perform_submit acted
  rw [answers.switched _ _ rfl, OwnedAt]
  simp only [latestPages_append]
  cases present : latestPages s.shared.log call.key with
  | none =>
    rw [setHold_self (by simp [switchError, present, Pc.hold, holds])]
    simp only [Request.apply, present]
    exact owned
  | some page =>
    by_cases readOnly : page.wmeta = none
    · rw [record_switchToRW_ro w present readOnly]
      simpa [switchError, present, readOnly, notNull, Pc.hold] using
        owned.name holds ((PageMap.record_of_some present).trans readOnly)
    · rw [setHold_self (by simp [switchError, present, readOnly, Pc.hold, holds])]
      simp only [Request.apply, present, if_neg readOnly]
      exact owned

theorem ownedAt_switchToReadOnly {purpose : Purpose} {victim : Key}
    (thread : s.threads t = ⟨call, .victimSwitch purpose w victim⟩)
    (acted : perform cfg t s.shared (.submit (.switchToReadOnly victim)) = some (shared, reply)) :
    OwnedAt strict s t call shared
      (.victimWait purpose w reply.1 (switchToReadOnlyResult reply.2)) := by
  have holds : holdOf s.threads t = some ⟨w, .victim victim⟩ := by
    simp [holdOf, thread, Pc.hold]
  have named : (latestPages s.shared.log).record victim = some w := (owned.held t _ holds).2.2.2
  obtain ⟨rfl, _, answers⟩ := perform_submit acted
  rw [answers.reclaimed _ rfl, named, OwnedAt]
  simp only [latestPages_append, record_switchToReadOnly]
  exact owned.detach holds

theorem ownedAt_perform {act : Act Key}
    {reply : act.Reply cfg.nodes} {pc' : cfg.Pc} (thread : s.threads t = ⟨call, pc⟩)
    (allowed : uncontested cfg s (.thread t choice) = true)
    (frees : strict → recycles cfg s (.thread t choice) = true)
    (move : Move cfg t call choice pc act reply pc')
    (acted : perform cfg t s.shared act = some (shared, reply)) :
    OwnedAt strict s t call shared pc' := by
  have mine : holdOf s.threads t = pc.hold call := by simp [holdOf, thread]
  have possible : ∀ w, pc.hold call ≠ some ⟨w, .impossible⟩ := by
    intro w impossible
    exact (owned.held t _ (mine.trans impossible)).2.2.2
  by_cases quiet : act.quiet = true
  · obtain ⟨log, word, blockId⟩ := perform_quiet quiet acted
    exact ownedAt_same owned log word blockId
      ((hold_resume_quiet move quiet possible).trans mine.symm)
  cases move with
  | recordFound =>
    simp only [perform] at acted
    split at acted <;> cases acted
    rename_i free
    rw [Bool.and_eq_true] at free
    exact owned.allocate (Nat.mod_lt _ cfg.poolLen_pos) free.1 mine
  | recordTaken =>
    simp only [perform] at acted
    split at acted <;> cases acted
    exact ownedAt_same owned rfl rfl rfl mine.symm
  | recordCreates | recordSwitches =>
    cases acted
    exact owned.setBlockId mine call.key
  | lockVictim | lockMissed | iterateLock | iterateMissed =>
    exact ownedAt_acquire owned false mine acted (by simp) (by simp) (by simp) rfl
  | victimBlock =>
    cases acted
    exact owned.getBlockId mine
  | victimSwitch => exact ownedAt_switchToReadOnly owned thread acted
  | reclaimedRecord | reclaimedLast | reclaimedSample | reclaimedIterate =>
    obtain rfl := perform_recycleWmeta acted
    simp only [recycles, thread] at frees
    exact ownedAt_recycle owned mine (owned.held t _ mine).2.2.2 rfl frees
  | unlockedRecord | unlockedSample | unlockedIterate => exact absurd rfl (possible _)
  | @createInsert slot wmeta =>
    cases wmeta with
    | none => exact ownedAt_insert_none owned thread allowed acted
    | some w => exact ownedAt_insert owned thread allowed acted
  | createRecycleTwice | switchRecycle =>
    obtain rfl := perform_recycleWmeta acted
    simp only [recycles, thread] at frees
    exact ownedAt_recycle owned mine (owned.held t _ mine).2.2.2.1 rfl frees
  | @createRecycle slot w =>
    obtain rfl := perform_recycleWmeta acted
    have unlocked : (s.shared.word w).isLocked = false := by
      simpa [uncontested, thread] using allowed
    obtain ⟨log, word, blockId⟩ : _ ∧ (recycle cfg s.shared w (choice == 0)).word = _ ∧ _ :=
      recycle_kept (.inl unlocked)
    exact ownedAt_same owned log word blockId mine.symm
  | switchSubmit => exact ownedAt_switchRW owned thread allowed acted
  | writeSeqBegin | writeBusy =>
    refine ownedAt_acquire owned true mine acted (by simp) (by simp) ?_ rfl
    intro word even
    rw [seq_writeSeqlockBegin, if_pos rfl]
    omega
  | sequencedDone | sequencedAgain | switchSeqEnd | writeAbort | writeWraps | writeSeqEnd =>
    obtain ⟨rfl, _⟩ := perform_wSeqEnd acted
    exact ownedAt_seqEnd owned mine rfl
  | @writeWrap w index response =>
    obtain ⟨rfl, _, _⟩ := perform_submit acted
    have same : (Pc.writeWrapWait w index : cfg.Pc).hold call =
        holdOf s.threads t := mine.symm
    rw [OwnedAt, setHold_self same]
    simp only [latestPages_append, Request.apply]
    exact owned
  | _ => exact absurd rfl quiet

end

variable {strict : Prop}

theorem recordsIn_initial (s : cfg.State) (start : Initial cfg s) : RecordsIn cfg strict s := by
  refine Owned.initial _ start.word ?_ ?_
  · intro key
    rw [start.log]
    rfl
  · intro t
    rw [holdOf, start.threads t]
    rfl

theorem holdOf_start {s : cfg.State} (call : Call Key) (ready : (s.threads t).pc.ready = true) :
    holdOf (update s.threads t ⟨call, call.entryPc cfg⟩) = holdOf s.threads := by
  have before : holdOf s.threads t = none := by
    rw [holdOf]
    cases pc : (s.threads t).pc <;> simp_all [Pc.ready, Pc.hold]
  have after : (call.entryPc cfg).hold call = none := by
    unfold Call.entryPc
    repeat' split
    all_goals rfl
  rw [holdOf_update, setHold_self (after.trans before.symm)]

theorem recordsIn_step {s s' : cfg.State} {e : Event Key}
    (owned : RecordsIn cfg strict s) (allowed : uncontested cfg s e = true)
    (frees : strict → recycles cfg s e = true) (taken : step cfg s e = some s') :
    RecordsIn cfg strict s' := by
  cases stepForm_of_step taken with
  | @start t call ready =>
    rw [RecordsIn, holdOf_start call ready]
    exact owned
  | thread move acted =>
    rw [RecordsIn, holdOf_update]
    exact ownedAt_perform owned rfl allowed frees move acted
  | replica => exact owned

theorem recordsOwned_step (s : cfg.State) (e : Event Key)
    (s' : cfg.State) (owned : RecordsOwned cfg s)
    (allowed : uncontested cfg s e = true) (taken : step cfg s e = some s') : RecordsOwned cfg s' :=
  recordsIn_step owned allowed False.elim taken

theorem recordsOwned_of_reachable {s : cfg.State}
    (reached : (system cfg).ReachableWhere (fun s e => uncontested cfg s e = true) s) :
    RecordsOwned cfg s :=
  reached.invariant recordsIn_initial recordsOwned_step

variable (cfg)

/-- Every record an entry names is in use and has the key of the entry, no two entries
name one record, and a record in use that is not locked is named by one entry. -/
structure RecordOwnership (s : cfg.State) : Prop where
  named : ∀ key entry w, latest cfg.nodes s.shared.log key = some entry →
    entry.wmetaIdx = some w → (s.shared.word w).isFree = false ∧ s.shared.blockId w = key
  distinct : ∀ key key' entry entry' w, latest cfg.nodes s.shared.log key = some entry →
    latest cfg.nodes s.shared.log key' = some entry' → entry.wmetaIdx = some w →
    entry'.wmetaIdx = some w → key = key'
  unlocked : ∀ w, (s.shared.word w).isFree = false → (s.shared.word w).isLocked = false →
    ∃! key, ∃ entry, latest cfg.nodes s.shared.log key = some entry ∧ entry.wmetaIdx = some w

variable {cfg}

def recordOf {nodes : Nat} (s : State Key Mem nodes) (key : Key) : Option Nat :=
  (latest nodes s.shared.log key).bind fun entry => entry.wmetaIdx

theorem recordOf_eq {nodes : Nat} (s : State Key Mem nodes) (key : Key) :
    recordOf s key = (latestPages s.shared.log).record key := by
  rw [recordOf, latest_eq, PageMap.toDirectory, PageMap.record]
  cases latestPages s.shared.log key <;> rfl

theorem record_eq_some_iff {log : List (LogEntry Key)} {key : Key} (nodes : Nat) :
    (latestPages log).record key = some w ↔
      ∃ entry, latest nodes log key = some entry ∧ entry.wmetaIdx = some w := by
  rw [latest_eq, PageMap.toDirectory, PageMap.record]
  cases latestPages log key with
  | none => simp
  | some page => simp [Page.toEntry]

theorem recordOwnership_of_owned {s : cfg.State} (owned : RecordsOwned cfg s) :
    RecordOwnership cfg s where
  named := fun key entry w present names =>
    (owned.named key w ((record_eq_some_iff cfg.nodes).mpr ⟨entry, present, names⟩)).2
  distinct := fun key key' entry entry' w present present' names names' =>
    owned.key_unique ((record_eq_some_iff cfg.nodes).mpr ⟨entry, present, names⟩)
      ((record_eq_some_iff cfg.nodes).mpr ⟨entry', present', names'⟩)
  unlocked := fun w used clear => by
    obtain ⟨key, names⟩ := owned.pooled w used clear
    refine ⟨key, (record_eq_some_iff cfg.nodes).mp names, fun other otherNames => ?_⟩
    exact owned.key_unique ((record_eq_some_iff cfg.nodes).mpr otherNames) names

/-- **Record ownership** holds in every state of a run without contested insertions. -/
theorem record_ownership {s : cfg.State}
    (reached : (system cfg).ReachableWhere (fun s e => uncontested cfg s e = true) s) :
    RecordOwnership cfg s :=
  recordOwnership_of_owned (recordsOwned_of_reachable reached)

end

/-! ### Two runs -/

section

def pageKey : BlockId := ⟨1, 0⟩

def onePool : Config BlockId Pages :=
  twoHosts 1 2 2 Nat.one_pos (coherentMemory (Fin 2))

def otherKey : BlockId := ⟨2, 0⟩

def putCall (count : Nat) (value : UInt8) : Call BlockId :=
  ⟨.put, pageKey, some fun _ => value, count, 0⟩

def readCall (kind : CallKind) (count : Nat) : Call BlockId :=
  ⟨kind, pageKey, none, count, 0⟩

def Pc.result {Key : Type} {nodes : Nat} : Pc Key nodes → Option (Nat × List UInt8)
  | .returned n bytes => some (n, bytes)
  | _ => none

theorem eq_returned {Key : Type} {nodes n : Nat} {bytes : List UInt8} {pc : Pc Key nodes}
    (result : pc.result = some (n, bytes)) : pc = .returned n bytes := by
  cases pc <;> cases result
  rfl

/-- `n` steps of a thread with the same choice. -/
def steps (n t choice : Nat) : List (Event BlockId) := List.replicate n (.thread t choice)

/-- The replay of `n` entries by a replica. -/
def catchUp (n r : Nat) : List (Event BlockId) := List.replicate n (.replay r) ++ [.complete r]

/-- A `Put` of a new page by thread 0. -/
def putAlone : List (Event BlockId) :=
  [.start 0 (putCall 1 7)] ++ steps 12 0 0 ++ catchUp 1 0 ++ steps 2 0 0

/-- A `Read` of the same page by thread 1 is admitted between the reservation of a
record and the insertion by thread 0. -/
def putAgainstRead : List (Event BlockId) :=
  [.start 0 (putCall 1 7)] ++ steps 11 0 0 ++
  [.start 1 (readCall .read 1)] ++ steps 7 1 1 ++ steps 1 0 0 ++ catchUp 2 0 ++ steps 2 0 0

def start : State BlockId Pages onePool.nodes := initialState onePool (fun _ _ => 0) pageKey

theorem initial_start : (system onePool).init start :=
  initial_initialState onePool pageKey trivial

def twoPool : Config BlockId Pages := twoHosts 2 2 2 Nat.two_pos (coherentMemory (Fin 2))

def twoStart : State BlockId Pages twoPool.nodes := initialState twoPool (fun _ _ => 0) pageKey

theorem initial_twoStart : (system twoPool).init twoStart :=
  initial_initialState twoPool pageKey trivial

/-- `onePool` behind private caches. -/
def cachedPool : Config BlockId (CachedPages (Fin 2)) :=
  twoHosts 1 2 2 Nat.one_pos (privateCacheMemory (Fin 2) 1)

def cachedStart : State BlockId (CachedPages (Fin 2)) cachedPool.nodes :=
  initialState cachedPool ⟨fun _ _ => 0, fun _ _ => none⟩ pageKey

theorem initial_cachedStart : (system cachedPool).init cachedStart :=
  initial_initialState cachedPool pageKey fun _ _ => rfl

/-- The losing insertion of thread 0 puts its record into the entry of thread 1, and
thread 0 frees the record. -/
theorem ownership_lost_putAgainstRead :
    ∃ s, (system onePool).Reachable s ∧ ¬ RecordOwnership onePool s := by
  obtain ⟨s, reached, broken⟩ := System.exists_reachable_of_run (system onePool) initial_start
    putAgainstRead (fun s => recordOf s pageKey == some 0 && (s.shared.word 0).isFree)
    (by decide +kernel)
  rw [Bool.and_eq_true, beq_iff_eq] at broken
  refine ⟨s, reached, fun ownership => ?_⟩
  obtain ⟨entry, present, named⟩ := Option.bind_eq_some_iff.mp broken.1
  simp [(ownership.named pageKey entry 0 present named).1] at broken

/-- Two threads put a page each: both reserve a record before one of them inserts. -/
def interleavedPuts : List (Event BlockId) :=
  List.flatten
    [[.start 0 (putCall 1 7), .start 1 { putCall 1 5 with key := otherKey }], steps 4 1 1,
      steps 7 0 0, steps 9 1 0, steps 5 0 0, catchUp 2 0, catchUp 2 1, steps 2 0 0, steps 2 1 1]

/-- Each entry names the record of its own `Put`. -/
theorem record_ownership_interleavedPuts :
    ∃ s, (system twoPool).ReachableWhere (fun s e => uncontested twoPool s e = true) s ∧
      (recordOf s pageKey = some 0 ∧ recordOf s otherKey = some 1) ∧
      RecordOwnership twoPool s := by
  obtain ⟨s, reached, named⟩ := System.exists_reachableWhere_of_run
    (.of_sound (system twoPool) (uncontested twoPool) fun _ _ passes => passes)
    initial_twoStart interleavedPuts
    (fun s => recordOf s pageKey = some 0 ∧ recordOf s otherKey = some 1) (by decide +kernel)
  exact ⟨s, reached, of_decide_eq_true named, record_ownership reached⟩

end

end Megalon.Protocol
