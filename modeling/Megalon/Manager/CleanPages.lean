import Megalon.Manager.FlushShared
import Megalon.Protocol.KeyIsolation
import Megalon.Protocol.ModifiedLines
import Megalon.Protocol.RecordSteps

/-!
Contract: when `DoFlushShared` clears a dirty bit, the page is on disk.

Owns: the conditions on the flusher and on the other threads under which this holds, what
the flusher knows of the record and of the page between `flush_seq_start` and the clearing,
and a run in which the flusher writes the lines of an earlier flush again.

Does not own: how many pages a call flushes.

To the other threads the flusher is a thread that locks a record the directory names: its
shadow is a thread of the protocol that has locked a victim and goes no further.
-/

namespace Megalon.Manager

open Function Core Foundations Index Protocol

section

variable {Key : Type}

def FlushPc.holds : FlushPc Key → Option Nat
  | .seqEndLocked guard | .setDirty guard | .unlock guard => some guard.wmeta
  | _ => none

/-- What `flush_seq_start` has found, until the bit is cleared. -/
def FlushPc.guard : FlushPc Key → Option (FlushGuard Key)
  | .localSeq guard | .copy guard _ | .seqEnd guard _ | .pwrite guard _ | .lock guard
  | .seqEndLocked guard | .setDirty guard => some guard
  | _ => none

end

section

variable {Key Mem : Type} [BlockKey Key] {cfg : Config Key Mem}
  (flusher : Flusher cfg)

/-- While the flusher uses a record, nobody allocates it, and no section on it brings its
sequence back to the one the flusher has seen. -/
def keepsFlush (s : FlushState cfg) : Event Key → Bool
  | .thread t _ =>
    match s.pc.guard with
    | none => true
    | some guard =>
      match (s.base.threads t).pc with
      | .recordScan _ start i =>
        !(decide ((i + start) % cfg.poolLen = guard.wmeta) &&
          (s.base.shared.word guard.wmeta).isFree)
      | .writeSeqBegin _ w => !decide (w = guard.wmeta ∧
          ((s.base.shared.word w).seq + 2) % 2 ^ 30 = guard.seqcount)
      | _ => true
  | _ => true

/-- The flusher starts on the slot and the record its key has, its host has no copy of a byte
it loads that differs from the one in memory, and `pwrite` writes the whole page. -/
def copiesMemory (stored : Mem → Pages) (s : FlushState cfg) (written : Nat) : Bool :=
  match s.pc with
  | .seqBegin target w =>
    decide (cxlSlot (latest cfg.nodes s.base.shared.log target.key) = some target.slot) &&
      decide (recordOf s.base target.key = some w)
  | .copy guard bytes =>
    decide (bytes.length < cfg.slotSize →
      (cfg.memory.load s.base.shared.pages (cfg.replica flusher.thread) guard.slot
        bytes.length).1 = stored s.base.shared.pages guard.slot bytes.length)
  | .pwrite _ _ => decide (written = cfg.slotSize)
  | _ => true

def orderlyFlush (stored : Mem → Pages) (s : FlushState cfg) : FlushEvent Key → Bool
  | .others e => orderly cfg s.base e && keepsFlush s e
  | .flush written => copiesMemory flusher stored s written

/-- The slot is the page of the key of the last `pwrite` and of no other one, this `pwrite`
wrote what the slot holds now, and nobody stored into the slot since the copy began. -/
structure CleanOnDisk (stored : Mem → Pages) (s : FlushState cfg) (slot : Nat) : Prop where
  flushed : ∃ key, (∀ other, cxlSlot (latest cfg.nodes s.base.shared.log other) = some slot ↔
      other = key) ∧
    s.pwritten = some (key, copyOf (stored s.base.shared.pages slot) cfg.slotSize)
  unwritten : s.written slot = false

/-! ### The shadow of the flusher -/

def FlushPc.shadow (pc : FlushPc Key) : cfg.Pc :=
  match pc.holds with
  | some w => .victimBlock .switchRW w
  | none => .idle

/-- The protocol with the shadow of the flusher in the place of its thread. -/
def FlushState.shadow (s : FlushState cfg) : cfg.State :=
  ⟨s.base.shared, update s.base.threads flusher.thread
    ⟨(s.base.threads flusher.thread).call, s.pc.shadow⟩⟩

variable {flusher} {t : Nat}

omit [BlockKey Key] in
theorem ofThread_start {t' : Nat} {call : Call Key}
    (other : ofThread t (.start t' call : Event Key) = false) : t' ≠ t := by
  simpa [ofThread] using other

omit [BlockKey Key] in
theorem ofThread_thread {t' choice : Nat}
    (other : ofThread t (.thread t' choice : Event Key) = false) : t' ≠ t := by
  simpa [ofThread] using other

variable {s s' : cfg.State}

theorem stepReplica_update {r : Nat} {change : Fin cfg.nodes → Option cfg.Shared}
    (thread : cfg.Thread) (taken : stepReplica cfg s r change = some s') :
    stepReplica cfg ⟨s.shared, update s.threads t thread⟩ r change =
      some ⟨s'.shared, update s'.threads t thread⟩ := by
  obtain ⟨inside, shared, changed, rfl⟩ := stepReplica_some taken
  simp only [stepReplica, inside, dif_pos, changed, Option.map_some]

variable {e : Event Key}

theorem step_update (thread : cfg.Thread) (other : ofThread t e = false)
    (taken : step cfg s e = some s') :
    step cfg ⟨s.shared, update s.threads t thread⟩ e =
      some ⟨s'.shared, update s'.threads t thread⟩ := by
  cases e with
  | start t' call =>
    have different := ofThread_start other
    obtain ⟨ready, rfl⟩ := step_start taken
    have adds := adds_of_start taken
    simp only [step, update_of_ne different, ready, adds, Bool.and_self, if_true]
    rw [update_comm different]
  | thread t' choice =>
    have different := ofThread_thread other
    obtain ⟨instr, shared, reply, fetched, acted, rfl⟩ := step_thread taken
    have same : update s.threads t thread t' = s.threads t' :=
      update_of_ne different _ _
    rw [← same] at fetched
    rw [step_of_perform (s := ⟨s.shared, update s.threads t thread⟩) fetched acted]
    simp only [same]
    rw [update_comm different]
  | replay | sync | complete =>
    simp only [step] at taken ⊢
    exact stepReplica_update thread taken

theorem thread_kept (other : ofThread t e = false) (taken : step cfg s e = some s') :
    s'.threads t = s.threads t := by
  rcases threads_of_step taken t with same | ⟨call, rfl, _⟩ | ⟨choice, rfl, _⟩
  · exact same
  · exact absurd rfl (ofThread_start other)
  · exact absurd rfl (ofThread_thread other)

variable (flusher) in
/-- What a step of the other threads is to the shadow. -/
structure ShadowStep (s : FlushState cfg) (e : Event Key) (s' : FlushState cfg) : Prop where
  base : step cfg s.base e = some s'.base
  other : ofThread flusher.thread e = false
  taken : step cfg (s.shadow flusher) e = some (s'.shadow flusher)
  pc : s'.pc = s.pc
  pwritten : s'.pwritten = s.pwritten
  written : ∀ slot, s'.written slot = (s.written slot || storesInto cfg s.base e slot)

theorem shadowStep_of_others {s s' : FlushState cfg} (taken : othersStep flusher s e = some s') :
    ShadowStep flusher s e s' := by
  simp only [othersStep] at taken
  split at taken
  · cases taken
  · rename_i other
    have other := eq_false_of_ne_true other
    obtain ⟨base, stepped, rfl⟩ := Option.map_eq_some_iff.mp taken
    refine ⟨stepped, other, ?_, rfl, rfl, fun _ => rfl⟩
    simp only [FlushState.shadow, thread_kept other stepped]
    exact step_update _ other stepped

@[simp]
theorem shared_shadow (s : FlushState cfg) : (s.shadow flusher).shared = s.base.shared := rfl

theorem shadow_thread {s : FlushState cfg} (different : t ≠ flusher.thread) :
    (s.shadow flusher).threads t = s.base.threads t :=
  update_of_ne different _ _

theorem shadow_self (s : FlushState cfg) : (s.shadow flusher).threads flusher.thread =
    ⟨(s.base.threads flusher.thread).call, s.pc.shadow⟩ :=
  update_self ..

theorem orderly_shadow {s : FlushState cfg} (other : ofThread flusher.thread e = false)
    (allowed : orderly cfg s.base e = true) : orderly cfg (s.shadow flusher) e = true := by
  cases e with
  | thread t choice =>
    simpa only [orderly, uncontested, locksOwnRecord, shared_shadow,
      shadow_thread (ofThread_thread other)] using allowed
  | _ => exact allowed

/-! ### The invariant -/

/-- The record is in use, and its sequence is the one the flusher has seen. -/
def Current (guard : FlushGuard Key) (s : FlushState cfg) : Prop :=
  (s.base.shared.word guard.wmeta).isFree = false ∧
    (s.base.shared.word guard.wmeta).seq = guard.seqcount

/-- What the flusher has copied is in the slot, and nobody has stored into it since. -/
def Copied (stored : Mem → Pages) (s : FlushState cfg) : FlushPc Key → Prop
  | .copy guard bytes => s.written guard.slot = false ∧ bytes.length ≤ cfg.slotSize ∧
      bytes = copyOf (stored s.base.shared.pages guard.slot) bytes.length
  | .seqEnd guard bytes | .pwrite guard bytes => s.written guard.slot = false ∧
      bytes = copyOf (stored s.base.shared.pages guard.slot) cfg.slotSize
  | .lock guard | .seqEndLocked guard | .setDirty guard => s.written guard.slot = false ∧
      s.pwritten =
        some (guard.key, copyOf (stored s.base.shared.pages guard.slot) cfg.slotSize)
  | _ => True

/-- What the flusher may rely on as long as the record is current. The last field holds as
long as the key has the record, too. -/
structure Watched (stored : Mem → Pages) (guard : FlushGuard Key) (s : FlushState cfg) :
    Prop where
  slot : (latestPages s.base.shared.log).slot guard.key = some guard.slot
  even : guard.seqcount % 2 = 0
  wrap : (s.base.shared.word guard.wmeta).isFree = false →
    (s.base.shared.word guard.wmeta).seq % 2 = 1 →
      ((s.base.shared.word guard.wmeta).seq + 1) % 2 ^ 30 ≠ guard.seqcount
  key : Current guard s → s.base.shared.blockId guard.wmeta = guard.key
  copied : Current guard s → (latestPages s.base.shared.log).record guard.key = some guard.wmeta →
    Copied stored s s.pc

variable (flusher) in
structure FlushInv (stored : Mem → Pages) (modified : Mem → Fin cfg.nodes → Nat → Nat → Prop)
    (s : FlushState cfg) : Prop where
  orderly : Orderly cfg (s.shadow flusher)
  lines : LinesOwned cfg modified (s.shadow flusher)
  watched : ∀ guard, s.pc.guard = some guard → Watched stored guard s
  checked : ∀ guard, s.pc = .setDirty guard → Current guard s

variable {modified : Mem → Fin cfg.nodes → Nat → Nat → Prop}

theorem flushInv_initial {stored : Mem → Pages}
    (backed : cfg.memory.Backed cfg.lineSize stored modified) {s : FlushState cfg}
    (start : FlushInitial s) : FlushInv flusher stored modified s := by
  have initial : Initial cfg (s.shadow flusher) :=
    { start.base with
      threads := fun t => by
        by_cases same : t = flusher.thread
        · subst same
          simp [FlushState.shadow, FlushPc.shadow, start.pc, FlushPc.holds]
        · rw [shadow_thread same]
          exact start.base.threads t }
  refine ⟨orderly_initial _ initial, linesOwned_initial backed initial, ?_, ?_⟩
  · intro guard watches
    rw [start.pc] at watches
    cases watches
  · intro guard clears
    rw [start.pc] at clears
    cases clears

/-! ### Steps of the other threads -/

section

variable {stored : Mem → Pages} {modified : Mem → Fin cfg.nodes → Nat → Nat → Prop}
  {s s' : FlushState cfg} {e : Event Key} {guard : FlushGuard Key}

theorem not_allocated (shadow : ShadowStep flusher s e s')
    (keeps : keepsFlush s e = true) (watches : s.pc.guard = some guard) {t choice : Nat}
    {purpose : Purpose} {start i : Nat} (taken : e = .thread t choice)
    (at_scan : ((s.shadow flusher).threads t).pc = .recordScan purpose start i)
    (this : (i + start) % cfg.poolLen = guard.wmeta) :
    (s.base.shared.word guard.wmeta).isFree = false := by
  subst taken
  rw [shadow_thread (ofThread_thread shadow.other)] at at_scan
  simpa [keepsFlush, watches, at_scan, this] using keeps

section

variable (inv : FlushInv flusher stored modified s)

include inv

theorem wrap_others (shadow : ShadowStep flusher s e s')
    (allowed : uncontested cfg (s.shadow flusher) e = true) (keeps : keepsFlush s e = true)
    (watches : s.pc.guard = some guard) (used : (s'.base.shared.word guard.wmeta).isFree = false)
    (odd : (s'.base.shared.word guard.wmeta).seq % 2 = 1) :
    ((s'.base.shared.word guard.wmeta).seq + 1) % 2 ^ 30 ≠ guard.seqcount := by
  have wrap := (inv.watched guard watches).wrap
  rcases word_step inv.orderly.records allowed shadow.taken guard.wmeta with
    same | ⟨t, choice, taken, changed⟩
  · rw [shared_shadow, shared_shadow] at same
    rw [same] at used odd ⊢
    exact wrap used odd
  rw [shared_shadow] at changed
  generalize s'.base.shared.word guard.wmeta = after at changed used odd ⊢
  cases changed with
  | allocated at_scan _ this free =>
    have := not_allocated shadow keeps watches taken at_scan this
    exact absurd (this.symm.trans free) (by simp)
  | begun at_begin _ unlocked =>
    subst taken
    rw [shadow_thread (ofThread_thread shadow.other)] at at_begin
    have even := inv.orderly.records.even guard.wmeta unlocked
    have bounded := SeqWord.seq_lt (s.base.shared.word guard.wmeta)
    have keeps : ((s.base.shared.word guard.wmeta).seq + 2) % 2 ^ 30 ≠ guard.seqcount := by
      simpa [keepsFlush, watches, at_begin] using keeps
    rw [shared_shadow] at even ⊢
    rw [seq_writeSeqlockBegin]
    omega
  | lockedOnly notFree _ =>
    rw [seq_writeSeqlockOnly] at odd ⊢
    exact wrap notFree odd
  | ended holds =>
    have parity := inv.orderly.records.parity t _ holds
    simp only [HoldStatus.odd, if_true] at parity
    rw [seq_writeSeqlockEnd] at odd
    omega
  | freed _ _ => simp at used

theorem current_of_others (shadow : ShadowStep flusher s e s')
    (allowed : uncontested cfg (s.shadow flusher) e = true) (keeps : keepsFlush s e = true)
    (watches : s.pc.guard = some guard) (after : Current guard s') : Current guard s := by
  obtain ⟨used, seq⟩ := after
  have watched := inv.watched guard watches
  rcases word_step inv.orderly.records allowed shadow.taken guard.wmeta with
    same | ⟨t, choice, taken, changed⟩
  · rw [shared_shadow, shared_shadow] at same
    exact ⟨by rw [← same, used], by rw [← same, seq]⟩
  rw [shared_shadow] at changed
  have even := watched.even
  generalize s'.base.shared.word guard.wmeta = word at changed used seq
  cases changed with
  | allocated at_scan _ this free =>
    have := not_allocated shadow keeps watches taken at_scan this
    exact absurd (this.symm.trans free) (by simp)
  | begun _ _ unlocked =>
    have before := inv.orderly.records.even guard.wmeta unlocked
    have bounded := SeqWord.seq_lt (s.base.shared.word guard.wmeta)
    rw [shared_shadow] at before seq
    rw [seq_writeSeqlockBegin] at seq
    omega
  | lockedOnly notFree _ =>
    rw [seq_writeSeqlockOnly] at seq
    exact ⟨notFree, seq⟩
  | ended holds =>
    -- the section would have brought the sequence back
    have parity := inv.orderly.records.parity t _ holds
    simp only [HoldStatus.odd, if_true] at parity
    rw [seq_writeSeqlockEnd] at seq
    exact absurd seq (watched.wrap (inv.orderly.records.held t _ holds).2.1 parity)
  | freed _ _ => simp at used

theorem not_odd_of_current (watched : Watched stored guard s) (current : Current guard s) {t : Nat}
    {status : HoldStatus Key} (odd : status.odd = true) :
    holdOf (s.shadow flusher).threads t ≠ some ⟨guard.wmeta, status⟩ := by
  intro holds
  have parity := inv.orderly.records.parity t _ holds
  have even := watched.even
  have seq := current.2
  simp only [odd, if_true, shared_shadow] at parity
  omega

theorem key_others (shadow : ShadowStep flusher s e s') (watched : Watched stored guard s)
    (before : Current guard s) : s'.base.shared.blockId guard.wmeta = guard.key := by
  rcases blockId_step shadow.taken guard.wmeta with same | ⟨t, choice, _, fresh⟩
  · rw [shared_shadow, shared_shadow] at same
    rw [same, watched.key before]
  · exact absurd fresh (not_odd_of_current inv watched before rfl)

theorem record_of_others (shadow : ShadowStep flusher s e s')
    (allowed : uncontested cfg (s.shadow flusher) e = true) (watched : Watched stored guard s)
    (before : Current guard s)
    (after : (latestPages s'.base.shared.log).record guard.key = some guard.wmeta) :
    (latestPages s.base.shared.log).record guard.key = some guard.wmeta := by
  rcases page_step inv.orderly.records allowed shadow.taken guard.key with
    same | ⟨t, choice, _, changed⟩
  · rw [shared_shadow, shared_shadow] at same
    rwa [PageMap.record, same] at after
  rw [shared_shadow, shared_shadow] at changed
  have slot := watched.slot
  rw [PageMap.slot] at slot
  rw [PageMap.record] at after
  generalize latestPages s'.base.shared.log guard.key = page' at changed after
  generalize latestPages s.base.shared.log guard.key = page at changed slot
  cases changed with
  | inserted => cases slot
  | toReadWrite _ at_switch =>
    obtain rfl := Option.some.inj after
    have holds : holdOf (s.shadow flusher).threads t =
        some ⟨guard.wmeta, .reserved ((s.shadow flusher).threads t).call.key⟩ := by
      rw [holdOf, at_switch]
      rfl
    exact absurd holds (not_odd_of_current inv watched before rfl)
  | toReadOnly => cases after

theorem unwritten_of_current (watched : Watched stored guard s) (current : Current guard s)
    (named : (latestPages s.base.shared.log).record guard.key = some guard.wmeta) :
    Unwritten cfg guard.slot (s.shadow flusher) := by
  obtain ⟨_, slots, _, writers⟩ := inv.orderly
  intro t
  refine ⟨fun held => (slots.held t _ held).2 guard.key watched.slot, fun w writes => ?_⟩
  have written := writers t _ w writes
  obtain own := slots.distinct _ guard.key guard.slot (PageMap.slot_of_some written) watched.slot
  rw [own, shared_shadow] at written
  obtain rfl : w = guard.wmeta := by
    simpa [PageMap.record_of_some written] using named
  exact not_odd_of_current inv watched current rfl (hold_of_writeSection _ writes)

end

theorem not_storesInto {slot : Nat} (shadow : ShadowStep flusher s e s')
    (unwritten : Unwritten cfg slot (s.shadow flusher)) : storesInto cfg s.base e slot = false := by
  cases e with
  | thread t choice =>
    obtain ⟨notHeld, notWriting⟩ := unwritten t
    rw [shadow_thread (ofThread_thread shadow.other)] at notHeld notWriting
    simp only [storesInto]
    split
    · rename_i slot' w i counter
      rw [counter] at notWriting
      have other : slot' ≠ slot := by
        rintro rfl
        exact notWriting w rfl
      simp [other]
    · rename_i slot' wmeta i counter
      rw [counter] at notHeld
      have other : slot' ≠ slot := by
        rintro rfl
        exact notHeld rfl
      simp [other]
    · rfl
  | _ => rfl

theorem Copied.transfer {pc : FlushPc Key} (copied : Copied stored s pc)
    (pwritten : s'.pwritten = s.pwritten) (watches : pc.guard = some guard)
    (written : s'.written guard.slot = s.written guard.slot)
    (bytes : stored s'.base.shared.pages guard.slot = stored s.base.shared.pages guard.slot) :
    Copied stored s' pc := by
  cases pc with
  | copy | seqEnd | pwrite | lock | seqEndLocked | setDirty =>
    cases watches
    simpa only [Copied, written, bytes, pwritten] using copied
  | _ => exact copied

theorem watched_others (backed : cfg.memory.Backed cfg.lineSize stored modified)
    (inv : FlushInv flusher stored modified s) (shadow : ShadowStep flusher s e s')
    (allowed : uncontested cfg (s.shadow flusher) e = true) (keeps : keepsFlush s e = true)
    (watches : s.pc.guard = some guard) : Watched stored guard s' := by
  have watched := inv.watched guard watches
  refine ⟨slot_step_mono shadow.base watched.slot, watched.even,
    wrap_others inv shadow allowed keeps watches,
    fun after => key_others inv shadow watched
      (current_of_others inv shadow allowed keeps watches after), fun after named => ?_⟩
  have current := current_of_others inv shadow allowed keeps watches after
  have before := record_of_others inv shadow allowed watched current named
  have unwritten := unwritten_of_current inv watched current before
  have bytes := memory_step backed inv.lines unwritten shadow.taken
  rw [shadow.pc]
  refine (watched.copied current before).transfer shadow.pwritten watches ?_ bytes
  rw [shadow.written, not_storesInto shadow unwritten, Bool.or_false]

theorem hold_shadow (pc : FlushPc Key) (call : Call Key) :
    (pc.shadow : cfg.Pc).hold call = pc.holds.map fun w => ⟨w, .entry false⟩ := by
  unfold FlushPc.shadow
  cases pc.holds <;> rfl

theorem holdOf_shadow (s : FlushState cfg) :
    holdOf (s.shadow flusher).threads flusher.thread =
      s.pc.holds.map fun w => ⟨w, .entry false⟩ := by
  rw [holdOf, shadow_self, hold_shadow]

theorem flushInv_others (backed : cfg.memory.Backed cfg.lineSize stored modified)
    (inv : FlushInv flusher stored modified s) (allowed : orderly cfg s.base e = true)
    (keeps : keepsFlush s e = true) (taken : othersStep flusher s e = some s') :
    FlushInv flusher stored modified s' := by
  have shadow := shadowStep_of_others taken
  have allowed := orderly_shadow shadow.other allowed
  have quiet := uncontested_of_orderly allowed
  refine ⟨orderly_step _ e _ inv.orderly allowed shadow.taken,
    linesOwned_step backed inv.lines shadow.taken, ?_, ?_⟩
  · intro guard watches
    rw [shadow.pc] at watches
    exact watched_others backed inv shadow quiet keeps watches
  · intro guard clears
    rw [shadow.pc] at clears
    have holds : holdOf (s.shadow flusher).threads flusher.thread =
        some ⟨guard.wmeta, .entry false⟩ := by
      rw [holdOf_shadow, clears]
      rfl
    have same := word_kept_of_held inv.orderly.records quiet shadow.taken holds (by
      rintro choice rfl
      exact absurd rfl (ofThread_thread shadow.other))
    rw [shared_shadow, shared_shadow] at same
    simpa only [Current, same] using inv.checked guard clears

end

/-! ### Steps of the flusher -/

section

variable {stored : Mem → Pages} {modified : Mem → Fin cfg.nodes → Nat → Nat → Prop}
  {s s' : FlushState cfg} {guard : FlushGuard Key} {written : Nat}

theorem shadow_eq (threads : s'.base.threads = s.base.threads) (holds : s'.pc.holds = s.pc.holds) :
    (s'.shadow flusher).threads = (s.shadow flusher).threads := by
  simp only [FlushState.shadow, FlushPc.shadow, threads, holds]

theorem modifies_shadow (pc : FlushPc Key) (t : Nat) (call : Call Key) (c line : Nat) :
    ¬(pc.shadow : cfg.Pc).modifies cfg t call c line := by
  unfold FlushPc.shadow
  split <;> exact id

theorem orderly_flush (inv : Orderly cfg (s.shadow flusher))
    (records : RecordsOwned cfg (s'.shadow flusher)) (log : s'.base.shared.log = s.base.shared.log)
    (freeBit : s'.base.shared.freeBit = s.base.shared.freeBit)
    (threads : s'.base.threads = s.base.threads) : Orderly cfg (s'.shadow flusher) := by
  have others : ∀ t, (s'.shadow flusher).threads t = (s.shadow flusher).threads t ∨
      ∃ call, (s'.shadow flusher).threads t = ⟨call, s'.pc.shadow⟩ := by
    intro t
    by_cases same : t = flusher.thread
    · subst same
      exact .inr ⟨_, shadow_self s'⟩
    · exact .inl (by rw [shadow_thread same, shadow_thread same, threads])
  have slotHeld : (s'.pc.shadow : cfg.Pc).slotHeld = none := by
    unfold FlushPc.shadow
    split <;> rfl
  have target : (s'.pc.shadow : cfg.Pc).target = none := by
    unfold FlushPc.shadow
    split <;> rfl
  have writeSection : (s'.pc.shadow : cfg.Pc).writeSection = none := by
    unfold FlushPc.shadow
    split <;> rfl
  refine ⟨records, inv.slots.shrink (fun key => ?_) freeBit fun t c held => ?_,
    fun t c handle => ?_, fun t slot w writes => ?_⟩
  · rw [shared_shadow, shared_shadow, log]
  · rcases others t with same | ⟨call, shadow⟩
    · rwa [same] at held
    · rw [shadow, slotHeld] at held
      cases held
  · rcases others t with same | ⟨call, shadow⟩
    · rw [same] at handle ⊢
      rw [shared_shadow, log]
      exact inv.targets t c handle
    · rw [shadow, target] at handle
      cases handle
  · rcases others t with same | ⟨call, shadow⟩
    · rw [same] at writes ⊢
      rw [shared_shadow, log]
      exact inv.writers t slot w writes
    · rw [shadow, writeSection] at writes
      cases writes

theorem lines_flush (lines : LinesOwned cfg modified (s.shadow flusher))
    (threads : s'.base.threads = s.base.threads)
    (fewer : ∀ h c line, modified s'.base.shared.pages h c line →
      modified s.base.shared.pages h c line) : LinesOwned cfg modified (s'.shadow flusher) := by
  intro h c line after
  obtain ⟨t, host, mine⟩ := lines h c line (fewer h c line after)
  refine ⟨t, host, ?_⟩
  by_cases same : t = flusher.thread
  · subst same
    rw [shadow_self] at mine
    exact absurd mine (modifies_shadow s.pc _ _ c line)
  · rwa [shadow_thread same, threads, ← shadow_thread same]

theorem records_same (records : RecordsOwned cfg (s.shadow flusher))
    (log : s'.base.shared.log = s.base.shared.log) (word : s'.base.shared.word = s.base.shared.word)
    (blockId : s'.base.shared.blockId = s.base.shared.blockId)
    (threads : s'.base.threads = s.base.threads) (holds : s'.pc.holds = s.pc.holds) :
    RecordsOwned cfg (s'.shadow flusher) := by
  rw [RecordsOwned, RecordsIn, shadow_eq threads holds, shared_shadow, log, word, blockId]
  exact records

theorem FlushInv.goes (inv : FlushInv flusher stored modified s) (base : s'.base = s.base)
    (holds : s'.pc.holds = s.pc.holds)
    (watched : ∀ guard, s'.pc.guard = some guard → Watched stored guard s')
    (checked : ∀ guard, s'.pc = .setDirty guard → Current guard s') :
    FlushInv flusher stored modified s' :=
  ⟨orderly_flush inv.orderly
      (records_same inv.orderly.records (by rw [base]) (by rw [base]) (by rw [base])
        (by rw [base]) holds)
      (by rw [base]) (by rw [base]) (by rw [base]),
    lines_flush inv.lines (by rw [base]) (fun h c line after => by rwa [base] at after),
    watched, checked⟩

theorem FlushInv.unguarded (inv : FlushInv flusher stored modified s) (base : s'.base = s.base)
    (holds : s'.pc.holds = s.pc.holds) (guard : s'.pc.guard = none) :
    FlushInv flusher stored modified s' := by
  refine inv.goes base holds (fun _ watches => ?_) fun _ clears => ?_
  · rw [guard] at watches
    cases watches
  · rw [clears] at guard
    cases guard

theorem Watched.goes (watched : Watched stored guard s) (base : s'.base = s.base)
    (copied : Copied stored s s.pc → Copied stored s' s'.pc) : Watched stored guard s' := by
  obtain ⟨slot, even, wrap, key, before⟩ := watched
  have current : Current guard s' → Current guard s := fun after => by rwa [Current, base] at after
  refine ⟨by rwa [base], even, by rwa [base], fun after => ?_, fun after named => ?_⟩
  · rw [base]
    exact key (current after)
  · rw [base] at named
    exact copied (before (current after) named)

theorem access_some {act : Act Key} {resume : act.Reply cfg.nodes → FlushPc Key}
    (taken : s.access flusher act resume = some s') :
    ∃ shared reply, perform cfg flusher.thread s.base.shared act = some (shared, reply) ∧
      s' = { s with base := ⟨shared, s.base.threads⟩, pc := resume reply } := by
  obtain ⟨⟨shared, reply⟩, acted, rfl⟩ := Option.map_eq_some_iff.mp taken
  exact ⟨shared, reply, acted, rfl⟩

theorem flushInv_seqBegin (inv : FlushInv flusher stored modified s) {target : FlushTarget Key}
    {w : Nat} (counter : s.pc = .seqBegin target w)
    (allowed : copiesMemory flusher stored s written = true)
    (taken : flushStep flusher s written = some s') : FlushInv flusher stored modified s' := by
  simp only [flushStep, counter] at taken
  obtain ⟨shared, seq, acted, rfl⟩ := access_some taken
  simp only [perform] at acted
  split at acted
  · rename_i ready
    cases acted
    have even := (readSeqlockReady_iff _).mp ready
    simp only [copiesMemory, counter, Bool.and_eq_true, decide_eq_true_eq] at allowed
    obtain ⟨slot, record⟩ := allowed
    rw [latest, cxlSlot_stateAt] at slot
    rw [recordOf_eq] at record
    refine inv.goes rfl (by simp [counter, FlushPc.holds]) ?_ (by simp)
    rintro guard ⟨⟩
    refine ⟨slot, even, fun _ odd => ?_, fun _ => ?_, fun _ _ => trivial⟩
    · simp only at odd
      omega
    · exact (inv.orderly.records.named target.key w record).2.2
  · cases acted

theorem flushInv_copy (backed : cfg.memory.Backed cfg.lineSize stored modified)
    (inv : FlushInv flusher stored modified s) {bytes : List UInt8}
    (counter : s.pc = .copy guard bytes) (allowed : copiesMemory flusher stored s written = true)
    (taken : flushStep flusher s written = some s') : FlushInv flusher stored modified s' := by
  simp only [flushStep, counter] at taken
  have watched := inv.watched guard (by rw [counter]; rfl)
  split at taken
  · rename_i inside
    have same : (cfg.memory.load s.base.shared.pages (cfg.replica flusher.thread) guard.slot
        bytes.length).1 = stored s.base.shared.pages guard.slot bytes.length := by
      simpa [copiesMemory, counter, inside] using allowed
    obtain ⟨shared, value, acted, rfl⟩ := access_some taken
    cases acted
    refine ⟨orderly_flush inv.orderly (records_same inv.orderly.records rfl rfl rfl rfl
        (by simp [counter, FlushPc.holds])) rfl rfl rfl,
      lines_flush inv.lines rfl fun h c line => backed.modified_load _ _ _ _ _ _ _, ?_, by simp⟩
    rintro guard' ⟨⟩
    refine ⟨watched.slot, watched.even, watched.wrap, watched.key, fun current named => ?_⟩
    obtain ⟨unwritten, _, copied⟩ := counter ▸ watched.copied current named
    refine ⟨unwritten, ?_, ?_⟩
    · simpa [Nat.succ_le_iff] using inside
    · simp only [backed.load, List.length_append, List.length_singleton, copyOf,
        List.range_succ, List.map_append, List.map_singleton, same]
      rw [← copyOf, ← copied]
  · rename_i full
    cases taken
    refine inv.goes rfl (by simp [counter, FlushState.goto, FlushPc.holds]) ?_
      (by simp [FlushState.goto])
    rintro guard' ⟨⟩
    refine watched.goes rfl fun copied => ?_
    rw [counter] at copied
    obtain ⟨unwritten, short, copied⟩ := copied
    have length : bytes.length = cfg.slotSize := by omega
    rw [length] at copied
    exact ⟨unwritten, copied⟩

theorem holdOf_flush (threads : s'.base.threads = s.base.threads) :
    holdOf (s'.shadow flusher).threads = setHold (holdOf (s.shadow flusher).threads)
      flusher.thread (s'.pc.holds.map fun w => ⟨w, .entry false⟩) := by
  simp only [FlushState.shadow, holdOf_update, hold_shadow, threads, setHold,
    update_idem]

theorem records_setWord {w : Nat} {word : SeqWord}
    (base : s'.base = ⟨s.base.shared.setWord w word, s.base.threads⟩)
    (owned : Owned False cfg.poolLen (latestPages s.base.shared.log).record
      (update s.base.shared.word w word) s.base.shared.blockId
      (setHold (holdOf (s.shadow flusher).threads) flusher.thread
        (s'.pc.holds.map fun w => ⟨w, .entry false⟩))) :
    RecordsOwned cfg (s'.shadow flusher) := by
  rw [RecordsOwned, RecordsIn, holdOf_flush (s := s) (by rw [base]), shared_shadow, base]
  exact owned

theorem Watched.setWord (watched : Watched stored guard s) {word : SeqWord}
    (free : word.isFree = (s.base.shared.word guard.wmeta).isFree)
    (seq : word.seq = (s.base.shared.word guard.wmeta).seq)
    (base : s'.base = ⟨s.base.shared.setWord guard.wmeta word, s.base.threads⟩)
    (copied : Copied stored s s.pc → Copied stored s' s'.pc) : Watched stored guard s' := by
  obtain ⟨slot, even, wrap, key, before⟩ := watched
  have now : s'.base.shared.word guard.wmeta = word := by
    rw [base]
    exact update_self ..
  have current : Current guard s' → Current guard s := fun after => by
    rwa [Current, now, free, seq] at after
  refine ⟨by rwa [base], even, by rwa [now, free, seq], fun after => ?_, fun after named => ?_⟩
  · rw [base]
    exact key (current after)
  · rw [base] at named
    exact copied (before (current after) named)

theorem flushInv_lock (inv : FlushInv flusher stored modified s) (counter : s.pc = .lock guard)
    (taken : flushStep flusher s written = some s') : FlushInv flusher stored modified s' := by
  simp only [flushStep, counter] at taken
  have watched := inv.watched guard (by rw [counter]; rfl)
  obtain ⟨shared, locked, acted, rfl⟩ := access_some taken
  rcases acquire_cases acted with ⟨rfl, rfl⟩ | ⟨used, unlocked, rfl, rfl⟩
  · exact inv.unguarded rfl (by simp [counter, FlushPc.holds]) rfl
  have free : holdOf (s.shadow flusher).threads flusher.thread = none := by
    rw [holdOf_shadow, counter]
    rfl
  refine ⟨orderly_flush inv.orderly ?_ rfl rfl rfl, lines_flush inv.lines rfl fun _ _ _ => id,
    ?_, by simp⟩
  · refine records_setWord rfl (inv.orderly.records.lock false used unlocked free
      (by simp [used]) (by simp) ?_)
    rw [seq_writeSeqlockOnly]
    exact inv.orderly.records.even guard.wmeta unlocked
  · rintro guard' ⟨⟩
    exact watched.setWord (by simp) (seq_writeSeqlockOnly _) rfl fun copied => by
      rwa [counter] at copied

theorem flushInv_unlock (inv : FlushInv flusher stored modified s) (counter : s.pc = .unlock guard)
    (taken : flushStep flusher s written = some s') : FlushInv flusher stored modified s' := by
  simp only [flushStep, counter] at taken
  obtain ⟨shared, _, acted, rfl⟩ := access_some taken
  cases acted
  have holds : holdOf (s.shadow flusher).threads flusher.thread =
      some ⟨guard.wmeta, .entry false⟩ := by
    rw [holdOf_shadow, counter]
    rfl
  refine ⟨orderly_flush inv.orderly ?_ rfl rfl rfl, lines_flush inv.lines rfl fun _ _ _ => id,
    fun _ watches => ?_, by simp⟩
  · refine records_setWord rfl (inv.orderly.records.unlock holds ?_ (by simp) ?_)
    · simp
    · rw [seq_writeSequnlockOnly]
      exact inv.orderly.records.parity _ _ holds
  · cases watches

theorem afterGet_unguarded (target : FlushTarget Key) (entry : Option (GCDEntry cfg.nodes)) :
    (afterGet target entry).holds = none ∧ (afterGet target entry).guard = none := by
  unfold afterGet
  repeat' split
  all_goals exact ⟨rfl, rfl⟩

theorem flushInv_flush (backed : cfg.memory.Backed cfg.lineSize stored modified)
    (inv : FlushInv flusher stored modified s)
    (allowed : copiesMemory flusher stored s written = true)
    (taken : flushStep flusher s written = some s') : FlushInv flusher stored modified s' := by
  have watched := inv.watched
  cases counter : s.pc with
  | crashed => simp [flushStep, counter] at taken
  | waiting | node | isDirty =>
    simp only [flushStep, counter] at taken
    repeat' split at taken
    all_goals
      cases taken
      exact inv.unguarded rfl (by simp [counter, FlushState.goto, FlushPc.holds]) rfl
  | getCtail target =>
    simp only [flushStep, counter] at taken
    obtain ⟨shared, ctail, acted, rfl⟩ := access_some taken
    cases acted
    exact inv.unguarded rfl (by simp [counter, FlushPc.holds]) rfl
  | getLookup target ctail =>
    simp only [flushStep, counter] at taken
    obtain ⟨shared, entry, acted, rfl⟩ := access_some taken
    simp only [perform] at acted
    split at acted <;> cases acted
    obtain ⟨holds, guard⟩ := afterGet_unguarded target
      (stateAt cfg.nodes s.base.shared.log (s.base.shared.applied (cfg.replica flusher.thread))
        target.key)
    exact inv.unguarded rfl (by simpa [counter, FlushPc.holds] using holds) guard
  | seqBegin target w => exact flushInv_seqBegin inv counter allowed taken
  | localSeq guard =>
    simp only [flushStep, counter] at taken
    split at taken <;> cases taken
    · exact inv.unguarded rfl (by simp [counter, FlushState.goto, FlushPc.holds]) rfl
    · refine inv.goes rfl (by simp [counter, FlushPc.holds]) ?_ (by simp)
      rintro guard' ⟨⟩
      exact (watched guard (by rw [counter]; rfl)).goes rfl fun _ => ⟨rfl, Nat.zero_le _, rfl⟩
  | copy guard bytes => exact flushInv_copy backed inv counter allowed taken
  | seqEnd guard bytes =>
    simp only [flushStep, counter] at taken
    obtain ⟨shared, word, acted, rfl⟩ := access_some taken
    cases acted
    split
    · exact inv.unguarded rfl (by simp [counter, FlushPc.holds]) rfl
    · refine inv.goes rfl (by simp [counter, FlushPc.holds]) ?_ (by simp)
      rintro guard' ⟨⟩
      exact (watched guard (by rw [counter]; rfl)).goes rfl fun copied => by
        rwa [counter] at copied
  | pwrite guard bytes =>
    simp only [flushStep, counter] at taken
    cases taken
    refine inv.goes rfl (by simp [counter, FlushPc.holds]) ?_ (by simp)
    rintro guard' ⟨⟩
    refine (watched guard (by rw [counter]; rfl)).goes rfl fun copied => ?_
    rw [counter] at copied
    obtain rfl : written = cfg.slotSize := by simpa [copiesMemory, counter] using allowed
    have length : bytes.length = cfg.slotSize := by rw [copied.2, copyOf]; simp
    have whole : bytes.take cfg.slotSize = bytes := List.take_of_length_le length.le
    exact ⟨copied.1, by rw [whole, copied.2]⟩
  | lock guard => exact flushInv_lock inv counter taken
  | seqEndLocked guard =>
    simp only [flushStep, counter] at taken
    obtain ⟨shared, word, acted, rfl⟩ := access_some taken
    cases acted
    split
    · exact inv.unguarded rfl (by simp [counter, FlushPc.holds]) rfl
    · rename_i accepted
      refine inv.goes rfl (by simp [counter, FlushPc.holds]) ?_ ?_
      · rintro guard' ⟨⟩
        exact (watched guard (by rw [counter]; rfl)).goes rfl fun copied => by
          rwa [counter] at copied
      · rintro guard' ⟨⟩
        rw [Bool.not_eq_true, readSeqlockRetry, Bool.or_eq_false_iff, decide_eq_false_iff_not,
          not_not] at accepted
        exact ⟨accepted.2, accepted.1.symm⟩
  | setDirty guard =>
    simp only [flushStep, counter] at taken
    cases taken
    exact inv.unguarded rfl (by simp [counter, FlushPc.holds]) rfl
  | unlock guard => exact flushInv_unlock inv counter taken

end

theorem flushInv_step {stored : Mem → Pages}
    (backed : cfg.memory.Backed cfg.lineSize stored modified) (s : FlushState cfg)
    (e : FlushEvent Key) (s' : FlushState cfg) (inv : FlushInv flusher stored modified s)
    (allowed : orderlyFlush flusher stored s e = true)
    (taken : (flushSystem flusher).step s e = some s') : FlushInv flusher stored modified s' := by
  cases e with
  | others e =>
    simp only [orderlyFlush, Bool.and_eq_true] at allowed
    exact flushInv_others backed inv allowed.1 allowed.2 taken
  | flush written => exact flushInv_flush backed inv allowed taken

/-- **Clean means on disk.** Before the flusher clears a dirty bit, the page of the slot is on
disk as it is in memory, and it was not written since the copy began. -/
theorem cleared_on_disk {stored : Mem → Pages} {modified : Mem → Fin cfg.nodes → Nat → Nat → Prop}
    (backed : cfg.memory.Backed cfg.lineSize stored modified) {s : FlushState cfg}
    {guard : FlushGuard Key}
    (reached : (flushSystem flusher).ReachableWhere
      (fun s e => orderlyFlush flusher stored s e = true) s)
    (clears : s.pc = .setDirty guard) : CleanOnDisk stored s guard.slot := by
  have inv : FlushInv flusher stored modified s :=
    reached.invariant (fun _ => flushInv_initial backed) (flushInv_step backed)
  have watched := inv.watched guard (by rw [clears]; rfl)
  have current := inv.checked guard clears
  -- the lock keeps the record in the directory, under the key that is in it
  have holds : holdOf (s.shadow flusher).threads flusher.thread =
      some ⟨guard.wmeta, .entry false⟩ := by
    rw [holdOf_shadow, clears]
    rfl
  obtain ⟨_, _, _, key, record⟩ := inv.orderly.records.held _ _ holds
  have named : guard.key = key :=
    (watched.key current).symm.trans (inv.orderly.records.named key _ record).2.2
  rw [← named] at record
  obtain ⟨unwritten, onDisk⟩ := clears ▸ watched.copied current record
  refine ⟨⟨guard.key, fun other => ?_, onDisk⟩, unwritten⟩
  rw [latest, cxlSlot_stateAt]
  constructor
  · exact fun present => inv.orderly.slots.distinct other guard.key guard.slot present watched.slot
  · rintro rfl
    exact watched.slot

end

/-! ### Two flushes -/

section

def evenFlusher : Flusher scrPool := ⟨2, ⟨0, Nat.two_pos⟩⟩

def flushStart : FlushState scrPool where
  base := initialState scrPool ⟨fun _ _ => 0, fun _ _ => none⟩ pageKey
  blockId := fun _ => none
  dirty := fun _ => false
  pc := .waiting
  currFlushIdx := 0
  pwritten := none
  written := fun _ => false

theorem initial_flushStart : (flushSystem evenFlusher).init flushStart where
  base := initial_initialState scrPool pageKey fun _ _ => rfl
  blockId := fun _ => rfl
  dirty := fun _ => rfl
  pc := rfl
  currFlushIdx := rfl
  pwritten := rfl

/-- Thread 1 puts a new page, and the flusher comes to clear its bit. -/
def putThenFlush : List (FlushEvent BlockId) :=
  List.flatten
    [(List.flatten [[.start 1 (putCall 2 7)], steps 14 1 0, catchUp 1 1, steps 2 1 0,
      catchUp 1 0]).map .others, List.replicate 14 (.flush 2)]

/-- The flusher finishes its call, thread 1 puts other bytes, and the flusher comes to
clear the bit again. -/
def putThenFlushTwice : List (FlushEvent BlockId) :=
  List.flatten
    [putThenFlush, List.replicate 5 (.flush 2),
      (List.flatten [[.start 1 (putCall 2 9)], steps 13 1 0]).map .others,
      List.replicate 15 (.flush 2)]

/-- The flusher is about to clear the bit of slot 0, which it has written as `bytes`. -/
def clearsFirst (bytes : List UInt8) (s : FlushState scrPool) : Bool :=
  (match s.pc with
    | .setDirty guard => guard.slot == 0
    | _ => false) && s.pwritten == some (pageKey, bytes)

theorem setDirty_of_clearsFirst {bytes : List UInt8} {s : FlushState scrPool}
    (clears : clearsFirst bytes s = true) :
    ∃ guard, s.pc = .setDirty guard ∧ guard.slot = 0 ∧ s.pwritten = some (pageKey, bytes) := by
  rw [clearsFirst, Bool.and_eq_true, beq_iff_eq] at clears
  obtain ⟨clears, written⟩ := clears
  split at clears
  · rename_i guard counter
    exact ⟨guard, counter, beq_iff_eq.mp clears, written⟩
  · cases clears

/-- The lines of the first flush are still in the cache of its host: the second one writes
them once more, and clears the bit. -/
theorem cleared_not_on_disk_putThenFlushTwice :
    ∃ s guard, (flushSystem evenFlusher).Reachable s ∧ s.pc = .setDirty guard ∧
      ¬CleanOnDisk (CachedPages.stored 1) s guard.slot := by
  obtain ⟨s, reached, evaluated⟩ := System.exists_reachable_of_run (flushSystem evenFlusher)
    initial_flushStart putThenFlushTwice
    (fun s => clearsFirst [7, 7] s && CachedPages.stored 1 s.base.shared.pages 0 0 == 9)
    (by decide +kernel)
  rw [Bool.and_eq_true, beq_iff_eq] at evaluated
  obtain ⟨clears, now⟩ := evaluated
  obtain ⟨guard, counter, slot, onDisk⟩ := setDirty_of_clearsFirst clears
  refine ⟨s, guard, reached, counter, ?_⟩
  rintro ⟨⟨key, _, flushed⟩, _⟩
  rw [onDisk, slot, Option.some.injEq, Prod.mk.injEq] at flushed
  have first := congrArg List.head? flushed.2
  simp [copyOf, scrPool, twoHosts, List.range_succ, now] at first

theorem cleared_on_disk_putThenFlush :
    ∃ s guard, (flushSystem evenFlusher).ReachableWhere
        (fun s e => orderlyFlush evenFlusher (CachedPages.stored 1) s e = true) s ∧
      (s.pc = .setDirty guard ∧ s.pwritten = some (pageKey, [7, 7])) ∧
      CleanOnDisk (CachedPages.stored 1) s guard.slot := by
  obtain ⟨s, reached, clears⟩ := System.exists_reachableWhere_of_run
    (.of_sound (flushSystem evenFlusher) (orderlyFlush evenFlusher (CachedPages.stored 1))
      fun _ _ passes => passes)
    initial_flushStart putThenFlush (clearsFirst [7, 7]) (by decide +kernel)
  obtain ⟨guard, counter, _, onDisk⟩ := setDirty_of_clearsFirst clears
  exact ⟨s, guard, reached, ⟨counter, onDisk⟩,
    cleared_on_disk (backed_privateCacheMemory 1) reached counter⟩

end

end Megalon.Manager
