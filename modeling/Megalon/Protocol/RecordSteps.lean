import Megalon.Protocol.ExclusiveWriter

/-!
Contract: what a step can do to the word of a record along runs without contested
insertions.

Owns: the five changes of a word, and that no step makes another one.

Does not own: which words readers accept.
-/

namespace Megalon.Protocol

open Core Foundations Index

section

variable {Key Mem : Type} [BlockKey Key] {cfg : Config Key Mem}

/-- How a step of thread `t` changes the word of record `w`. -/
inductive WordChange (s : cfg.State) (t w : Nat) : SeqWord → Prop
  | allocated {purpose start i}
      (at_scan : (s.threads t).pc = .recordScan purpose start i) (inside : i < cfg.poolLen)
      (this : (i + start) % cfg.poolLen = w) (free : (s.shared.word w).isFree = true) :
      WordChange s t w tryAllocateSeqlock
  | begun {slot} (at_begin : (s.threads t).pc = .writeSeqBegin slot w)
      (used : (s.shared.word w).isFree = false)
      (unlocked : (s.shared.word w).isLocked = false) :
      WordChange s t w (writeSeqlockBegin (s.shared.word w))
  | lockedOnly (used : (s.shared.word w).isFree = false)
      (unlocked : (s.shared.word w).isLocked = false) :
      WordChange s t w (writeSeqlockOnly (s.shared.word w))
  | ended (holds : holdOf s.threads t = some ⟨w, .entry true⟩) :
      WordChange s t w (writeSeqlockEnd (s.shared.word w))
  | freed {status} (holds : holdOf s.threads t = some ⟨w, status⟩)
      (unnamed : ∀ key, (latestPages s.shared.log).record key ≠ some w) :
      WordChange s t w (freeSeqlockWithLock (s.shared.word w))

variable {w : Nat}

theorem word_setWord {s : cfg.Shared} {w' : Nat} {value : SeqWord}
    {changes : SeqWord → Prop} (here : w = w' → changes value) :
    (s.setWord w' value).word w = s.word w ∨ changes ((s.setWord w' value).word w) := by
  by_cases same : w = w'
  · subst same
    right
    simpa [Shared.setWord] using here rfl
  · left
    simp [Shared.setWord, same]

section

variable {s : cfg.State} {t choice : Nat} {shared : cfg.Shared} {w w' : Nat}

theorem word_acquire {install : SeqWord → SeqWord} {reply : Bool}
    (acted : acquire cfg s.shared w' install = some (shared, reply))
    (here : w = w' → (s.shared.word w).isFree = false → (s.shared.word w).isLocked = false →
      WordChange s t w (install (s.shared.word w))) :
    shared.word w = s.shared.word w ∨ WordChange s t w (shared.word w) := by
  rcases acquire_cases acted with ⟨rfl, _⟩ | ⟨used, unlocked, rfl, _⟩
  · exact .inl rfl
  · refine word_setWord ?_
    rintro rfl
    exact here rfl used unlocked

theorem word_recycle {status : HoldStatus Key} (owned : RecordsOwned cfg s)
    (holds : holdOf s.threads t = some ⟨w', status⟩)
    (unnamed : ∀ key, (latestPages s.shared.log).record key ≠ some w') (swapped : Bool) :
    (recycle cfg s.shared w' swapped).word w = s.shared.word w ∨
      WordChange s t w ((recycle cfg s.shared w' swapped).word w) := by
  cases swapped with
  | false => exact .inl (by rw [(recycle_kept (.inr rfl)).2.1])
  | true =>
    obtain ⟨_, used, locked, _⟩ := owned.held t _ holds
    simp only [recycle, used, locked, Bool.false_eq_true, if_false, if_true, Bool.and_self,
      Shared.countRecycled]
    refine word_setWord ?_
    rintro rfl
    exact .freed holds unnamed

theorem word_seqEnd (holds : holdOf s.threads t = some ⟨w', .entry true⟩) :
    (s.shared.setWord w' (writeSeqlockEnd (s.shared.word w'))).word w = s.shared.word w ∨
      WordChange s t w ((s.shared.setWord w' (writeSeqlockEnd (s.shared.word w'))).word w) := by
  refine word_setWord ?_
  rintro rfl
  exact .ended holds

theorem word_perform {call : Call Key} {pc pc' : cfg.Pc} {act : Act Key}
    {reply : act.Reply cfg.nodes} (owned : RecordsOwned cfg s) (thread : s.threads t = ⟨call, pc⟩)
    (allowed : uncontested cfg s (.thread t choice) = true)
    (move : Move cfg t call choice pc act reply pc')
    (acted : perform cfg t s.shared act = some (shared, reply)) (w : Nat) :
    shared.word w = s.shared.word w ∨ WordChange s t w (shared.word w) := by
  have mine : holdOf s.threads t = pc.hold call := by rw [holdOf, thread]
  by_cases quiet : act.quiet = true
  · exact .inl (by rw [(perform_quiet quiet acted).2.1])
  cases move with
  | recordFound left =>
    simp only [perform] at acted
    split at acted <;> cases acted
    rename_i available
    rw [Bool.and_eq_true] at available
    refine word_setWord ?_
    rintro rfl
    exact .allocated (by rw [thread]) left rfl available.1
  | recordTaken =>
    simp only [perform] at acted
    split at acted <;> cases acted
    exact .inl rfl
  | lockVictim | lockMissed | iterateLock | iterateMissed =>
    exact word_acquire acted fun _ => .lockedOnly
  | unlockedRecord | unlockedSample | unlockedIterate =>
    exact absurd (owned.held t _ mine).2.2.2 id
  | reclaimedRecord | reclaimedLast | reclaimedSample | reclaimedIterate =>
    obtain rfl := perform_recycleWmeta acted
    exact word_recycle owned mine (owned.held t _ mine).2.2.2 _
  | createRecycleTwice | switchRecycle =>
    obtain rfl := perform_recycleWmeta acted
    exact word_recycle owned mine (owned.held t _ mine).2.2.2.1 _
  | @createRecycle slot w' =>
    obtain rfl := perform_recycleWmeta acted
    have unlocked : (s.shared.word w').isLocked = false := by
      simpa [uncontested, thread] using allowed
    exact .inl (by rw [(recycle_kept (.inl unlocked)).2.1])
  | writeSeqBegin | writeBusy =>
    refine word_acquire acted ?_
    rintro rfl
    exact .begun (by rw [thread])
  | sequencedDone | sequencedAgain | switchSeqEnd | writeAbort | writeWraps | writeSeqEnd =>
    obtain ⟨rfl, _⟩ := perform_wSeqEnd acted
    exact word_seqEnd mine
  | createInsert | victimSwitch | switchSubmit | writeWrap =>
    obtain ⟨rfl, _, _⟩ := perform_submit acted
    exact .inl rfl
  | recordCreates | recordSwitches | victimBlock =>
    cases acted
    exact .inl rfl
  | _ => exact absurd rfl quiet

end

variable {s s' : cfg.State} {e : Event Key}

/-- **Record steps.** A step leaves the word of a record alone, or it is one of the five
changes by the thread that takes it. -/
theorem word_step (owned : RecordsOwned cfg s) (allowed : uncontested cfg s e = true)
    (taken : step cfg s e = some s') (w : Nat) :
    s'.shared.word w = s.shared.word w ∨
      ∃ t choice, e = .thread t choice ∧ WordChange s t w (s'.shared.word w) := by
  cases stepForm_of_step taken with
  | start | replica => exact .inl rfl
  | @thread t choice _ _ _ _ move acted =>
    rcases word_perform owned rfl allowed move acted w with same | changed
    · exact .inl same
    · exact .inr ⟨t, choice, rfl, changed⟩

/-! ### Keys in records -/

variable {t : Nat}

theorem blockId_perform {s s' : cfg.Shared} {act : Act Key}
    {reply : act.Reply cfg.nodes} (acted : perform cfg t s act = some (s', reply)) (w : Nat) :
    s'.blockId w = s.blockId w ∨ ∃ key, act = .setBlockId w key := by
  by_cases quiet : act.quiet = true
  · exact .inl (by rw [(perform_quiet quiet acted).2.2])
  cases act with
  | setBlockId w' key =>
    cases acted
    by_cases same : w = w'
    · subst same
      exact .inr ⟨key, rfl⟩
    · exact .inl (Function.update_of_ne same _ _)
  | wLockOnly | wSeqBegin =>
    rcases acquire_cases acted with ⟨rfl, _⟩ | ⟨_, _, rfl, _⟩ <;> exact .inl rfl
  | recycleWmeta =>
    obtain rfl := perform_recycleWmeta acted
    left
    unfold recycle
    repeat' split
    all_goals rfl
  | submit | tryAllocateLock =>
    simp only [perform] at acted
    split at acted <;> cases acted <;> exact .inl rfl
  | getBlockId | wUnlockOnly | wSeqEnd =>
    cases acted
    exact .inl rfl
  | _ => exact absurd rfl quiet

theorem recordBlock_of_move {choice : Nat} {key : Key} {call : Call Key} {pc pc' : cfg.Pc}
    {reply : (Act.setBlockId w key).Reply cfg.nodes}
    (move : Move cfg t call choice pc (.setBlockId w key) reply pc') :
    ∃ purpose, pc = .recordBlock purpose w := by
  cases move <;> exact ⟨_, rfl⟩

/-- A step leaves the key in a record alone, or it is the store by the thread that has
just allocated the record. -/
theorem blockId_step (taken : step cfg s e = some s') (w : Nat) :
    s'.shared.blockId w = s.shared.blockId w ∨
      ∃ t choice, e = .thread t choice ∧ holdOf s.threads t = some ⟨w, .fresh⟩ := by
  cases stepForm_of_step taken with
  | start | replica => exact .inl rfl
  | @thread t choice _ _ _ _ move acted =>
    rcases blockId_perform acted w with same | ⟨key, rfl⟩
    · exact .inl same
    · obtain ⟨purpose, counter⟩ := recordBlock_of_move move
      exact .inr ⟨t, choice, rfl, by rw [holdOf, counter]; rfl⟩

theorem word_kept_of_held {status : HoldStatus Key} (records : RecordsOwned cfg s)
    (allowed : uncontested cfg s e = true) (taken : step cfg s e = some s')
    (holds : holdOf s.threads t = some ⟨w, status⟩) (other : ∀ choice, e ≠ .thread t choice) :
    s'.shared.word w = s.shared.word w := by
  obtain ⟨_, inUse, locked, _⟩ := records.held t _ holds
  rcases word_step records allowed taken w with kept | ⟨t', choice, rfl, changed⟩
  · exact kept
  exfalso
  have different : t' ≠ t := by
    rintro rfl
    exact other choice rfl
  generalize s'.shared.word w = after at changed
  cases changed with
  | allocated _ _ _ free => simp [inUse] at free
  | begun _ _ unlocked => simp [locked] at unlocked
  | lockedOnly _ unlocked => simp [locked] at unlocked
  | ended holds' => exact records.other_record holds different holds' rfl
  | freed holds' _ => exact records.other_record holds different holds' rfl

end

end Megalon.Protocol
