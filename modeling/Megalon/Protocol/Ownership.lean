import Mathlib.Logic.Function.Basic
import Megalon.Core.Seqlock

/-!
Contract: who owns a record of the pool: the pool itself while it is free, the thread
that holds its lock, or the directory entry that names it.

Owns: the ownership invariant over the records of keys, the record words, the keys in
the records and the locks of the threads, and that each transfer of a record keeps it.

Does not own: which step of which function makes a transfer.
-/

namespace Megalon.Protocol

open Function Core

/-- What a thread that holds the lock of a record may rely on. -/
inductive HoldStatus (Key : Type) where
  /-- Just allocated; the key in the record is an old one. -/
  | fresh
  /-- Allocated for `key`, not in the directory. -/
  | reserved (key : Key)
  /-- Named by the directory; `inSection` if the sequence was made odd. -/
  | entry (inSection : Bool)
  /-- Named by the entry of `key`, about to be reclaimed. -/
  | victim (key : Key)
  /-- Taken out of the directory, about to be freed. -/
  | detached
  /-- No thread gets here. -/
  | impossible

structure Hold (Key : Type) where
  record : Nat
  status : HoldStatus Key

section

variable {Key : Type}

def HoldStatus.odd : HoldStatus Key → Bool
  | .fresh | .reserved _ => true
  | .entry inSection => inSection
  | _ => false

def HoldStatus.Claim (records : Key → Option Nat) (blockId : Nat → Key) (w : Nat) :
    HoldStatus Key → Prop
  | .fresh | .detached => ∀ key, records key ≠ some w
  | .reserved key => (∀ other, records other ≠ some w) ∧ blockId w = key
  | .entry _ => ∃ key, records key = some w
  | .victim key => records key = some w
  | .impossible => False

/-- `records` gives the record each key has in the directory, `hold` the lock each
thread holds. `strict` if no thread has left a record locked. -/
structure Owned (strict : Prop) (len : Nat) (records : Key → Option Nat) (word : Nat → SeqWord)
    (blockId : Nat → Key) (hold : Nat → Option (Hold Key)) : Prop where
  named : ∀ key w, records key = some w →
    w < len ∧ (word w).isFree = false ∧ blockId w = key
  held : ∀ t h, hold t = some h → h.record < len ∧ (word h.record).isFree = false ∧
    (word h.record).isLocked = true ∧ h.status.Claim records blockId h.record
  parity : ∀ t h, hold t = some h →
    (word h.record).seq % 2 = if h.status.odd then 1 else 0
  even : ∀ w, (word w).isLocked = false → (word w).seq % 2 = 0
  unique : ∀ t t' h h', hold t = some h → hold t' = some h' → h.record = h'.record → t = t'
  used : ∀ w, (word w).isLocked = true → (word w).isFree = false
  locked : strict → ∀ w, (word w).isLocked = true → ∃ t h, hold t = some h ∧ h.record = w
  pooled : ∀ w, (word w).isFree = false → (word w).isLocked = false → ∃ key, records key = some w

namespace Owned

variable {strict : Prop} {len : Nat} {records : Key → Option Nat} {word : Nat → SeqWord}
  {blockId : Nat → Key} {hold : Nat → Option (Hold Key)} {t : Nat}

theorem initial {word : Nat → SeqWord} {records : Key → Option Nat} (blockId : Nat → Key)
    {hold : Nat → Option (Hold Key)} (free : ∀ w, word w = initSeqlock)
    (empty : ∀ key, records key = none) (idle : ∀ t, hold t = none) :
    Owned strict len records word blockId hold where
  named := fun key w present => by simp [empty] at present
  held := fun t h holds => by simp [idle] at holds
  parity := fun t h holds => by simp [idle] at holds
  even := fun w _ => by rw [free]; decide
  unique := fun t t' h h' holds => by simp [idle] at holds
  used := fun w set => by simp [free] at set
  locked := fun _ w set => by simp [free] at set
  pooled := fun w used => by simp [free] at used

variable {w : Nat}

variable (owned : Owned strict len records word blockId hold)

include owned

theorem key_unique {key other : Key}
    (first : records key = some w) (second : records other = some w) : key = other :=
  (owned.named key w first).2.2.symm.trans (owned.named other w second).2.2

variable {h : Hold Key}

theorem not_held_of_unlocked
    (unlocked : (word w).isLocked = false) {t : Nat} (holds : hold t = some h) : h.record ≠ w := by
  rintro rfl
  simp [(owned.held t h holds).2.2.1] at unlocked

theorem not_held_of_free
    (free : (word w).isFree = true) {t : Nat} (holds : hold t = some h) : h.record ≠ w := by
  rintro rfl
  simp [(owned.held t h holds).2.1] at free

theorem not_named_of_free (free : (word w).isFree = true) (key : Key) : records key ≠ some w := by
  intro present
  simp [(owned.named key w present).2.1] at free

theorem other_record {h' : Hold Key} {t' : Nat}
    (holds : hold t = some h) (different : t' ≠ t) (other : hold t' = some h') :
    h'.record ≠ h.record :=
  fun same => different (owned.unique t' t h' h other holds same)

end Owned

/-- The lock table after thread `t` has `mine`. -/
def setHold (hold : Nat → Option (Hold Key)) (t : Nat) (mine : Option (Hold Key)) :
    Nat → Option (Hold Key) :=
  update hold t mine

theorem setHold_cases {hold : Nat → Option (Hold Key)} {t t' : Nat} {mine : Option (Hold Key)}
    {h : Hold Key} (holds : setHold hold t mine t' = some h) :
    (t' = t ∧ mine = some h) ∨ (t' ≠ t ∧ hold t' = some h) := by
  by_cases same : t' = t
  · subst same
    exact .inl ⟨rfl, by simpa [setHold] using holds⟩
  · exact .inr ⟨same, by simpa [setHold, same] using holds⟩

/-! ### Transfers -/

theorem HoldStatus.Claim.transfer {records records' : Key → Option Nat}
    {blockId blockId' : Nat → Key} {w : Nat} {status : HoldStatus Key}
    (sameNames : ∀ key, records' key = some w ↔ records key = some w)
    (sameKey : blockId' w = blockId w) (claim : status.Claim records blockId w) :
    status.Claim records' blockId' w := by
  cases status with
  | fresh => exact fun key present => claim key ((sameNames key).mp present)
  | detached => exact fun key present => claim key ((sameNames key).mp present)
  | reserved key =>
    exact ⟨fun other present => claim.1 other ((sameNames other).mp present),
      sameKey.trans claim.2⟩
  | entry inSection =>
    obtain ⟨key, present⟩ := claim
    exact ⟨key, (sameNames key).mpr present⟩
  | victim key => exact (sameNames key).mpr claim
  | impossible => exact claim

namespace Owned

variable {strict : Prop} {len : Nat} {records : Key → Option Nat} {word : Nat → SeqWord}
  {blockId : Nat → Key} {hold : Nat → Option (Hold Key)} {t : Nat}

variable (owned : Owned strict len records word blockId hold)

include owned

/-- A step that touches only record `w` and the lock of thread `t` on it. What is left
to show is the state of `w` after the step. -/
theorem transfer (w : Nat) (records' : Key → Option Nat) (value : SeqWord) (blockId' : Nat → Key)
    (mine : Option (HoldStatus Key))
    (sameNames : ∀ key w', w' ≠ w → (records' key = some w' ↔ records key = some w'))
    (sameKeys : ∀ w', w' ≠ w → blockId' w' = blockId w')
    (mineOrFree : ∀ h, hold t = some h → h.record = w)
    (notOthers : ∀ t' h, t' ≠ t → hold t' = some h → h.record ≠ w)
    (named : ∀ key, records' key = some w → w < len ∧ value.isFree = false ∧ blockId' w = key)
    (held : ∀ status, mine = some status → w < len ∧ value.isFree = false ∧
      value.isLocked = true ∧ status.Claim records' blockId' w)
    (parity : ∀ status, mine = some status → value.seq % 2 = if status.odd then 1 else 0)
    (even : value.isLocked = false → value.seq % 2 = 0)
    (used : value.isLocked = true → value.isFree = false)
    (locked : strict → value.isLocked = true → mine ≠ none)
    (pooled : value.isFree = false → value.isLocked = false → ∃ key, records' key = some w) :
    Owned strict len records' (update word w value) blockId'
      (setHold hold t (mine.map fun status => ⟨w, status⟩)) := by
  have mineRecord : ∀ h, (mine.map fun status => (⟨w, status⟩ : Hold Key)) = some h →
      h.record = w ∧ mine = some h.status := by
    intro h mapped
    rw [Option.map_eq_some_iff] at mapped
    obtain ⟨status, present, rfl⟩ := mapped
    exact ⟨rfl, present⟩
  constructor
  · intro key w' present
    by_cases same : w' = w
    · subst same
      rw [update_self]
      exact named key present
    · rw [update_of_ne same, sameKeys w' same]
      exact owned.named key w' ((sameNames key w' same).mp present)
  · intro t' h holds
    rcases setHold_cases holds with ⟨_, mapped⟩ | ⟨different, other⟩
    · obtain ⟨record, status⟩ := mineRecord h mapped
      rw [record, update_self]
      exact held h.status status
    · have elsewhere := notOthers t' h different other
      obtain ⟨inside, used, set, claim⟩ := owned.held t' h other
      rw [update_of_ne elsewhere]
      exact ⟨inside, used, set,
        claim.transfer (fun key => sameNames key _ elsewhere) (sameKeys _ elsewhere)⟩
  · intro t' h holds
    rcases setHold_cases holds with ⟨_, mapped⟩ | ⟨different, other⟩
    · obtain ⟨record, status⟩ := mineRecord h mapped
      rw [record, update_self]
      exact parity h.status status
    · rw [update_of_ne (notOthers t' h different other)]
      exact owned.parity t' h other
  · exact (forall_update_iff word fun _ word => word.isLocked = false → word.seq % 2 = 0).mpr
      ⟨even, fun w' _ => owned.even w'⟩
  · intro t₁ t₂ h₁ h₂ holds₁ holds₂ sameRecord
    rcases setHold_cases holds₁ with ⟨rfl, mapped₁⟩ | ⟨different₁, other₁⟩ <;>
      rcases setHold_cases holds₂ with ⟨rfl, mapped₂⟩ | ⟨different₂, other₂⟩
    · rfl
    · exact absurd (sameRecord.symm.trans (mineRecord h₁ mapped₁).1)
        (notOthers t₂ h₂ different₂ other₂)
    · exact absurd (sameRecord.trans (mineRecord h₂ mapped₂).1)
        (notOthers t₁ h₁ different₁ other₁)
    · exact owned.unique t₁ t₂ h₁ h₂ other₁ other₂ sameRecord
  · exact (forall_update_iff word fun _ word => word.isLocked = true → word.isFree = false).mpr
      ⟨used, fun w' _ => owned.used w'⟩
  · intro strictly w' set
    by_cases same : w' = w
    · subst same
      rw [update_self] at set
      obtain ⟨status, present⟩ := Option.ne_none_iff_exists'.mp (locked strictly set)
      exact ⟨t, ⟨w', status⟩, by simp [setHold, present], rfl⟩
    · rw [update_of_ne same] at set
      obtain ⟨t', h, holds, record⟩ := owned.locked strictly w' set
      have different : t' ≠ t := by
        rintro rfl
        exact same (record.symm.trans (mineOrFree h holds))
      exact ⟨t', h, by simp [setHold, different, holds], record⟩
  · refine (forall_update_iff word fun w' word => word.isFree = false → word.isLocked = false →
      ∃ key, records' key = some w').mpr ⟨pooled, fun w' same used unlocked => ?_⟩
    obtain ⟨key, present⟩ := owned.pooled w' used unlocked
    exact ⟨key, (sameNames key w' same).mpr present⟩

variable {w : Nat}

theorem transferHeld {status : HoldStatus Key}
    (holds : hold t = some ⟨w, status⟩) (records' : Key → Option Nat) (value : SeqWord)
    (blockId' : Nat → Key) (mine : Option (HoldStatus Key))
    (sameNames : ∀ key w', w' ≠ w → (records' key = some w' ↔ records key = some w'))
    (sameKeys : ∀ w', w' ≠ w → blockId' w' = blockId w')
    (named : ∀ key, records' key = some w → value.isFree = false ∧ blockId' w = key)
    (held : ∀ after, mine = some after → value.isFree = false ∧ value.isLocked = true ∧
      after.Claim records' blockId' w ∧ value.seq % 2 = if after.odd then 1 else 0)
    (released : mine = none → (strict → value.isLocked = false) ∧
      (value.isLocked = true → value.isFree = false) ∧
      (value.isLocked = false → value.seq % 2 = 0 ∧
        (value.isFree = false → ∃ key, records' key = some w))) :
    Owned strict len records' (update word w value) blockId'
      (setHold hold t (mine.map fun after => ⟨w, after⟩)) := by
  obtain ⟨inside, _⟩ := owned.held t _ holds
  have kept : value.isLocked = false → mine = none := by
    intro unlocked
    by_contra some
    obtain ⟨after, present⟩ := Option.ne_none_iff_exists'.mp some
    simp [(held after present).2.1] at unlocked
  refine owned.transfer w records' value blockId' mine sameNames sameKeys ?_ ?_ ?_ ?_ ?_ ?_ ?_ ?_ ?_
  · intro h other
    rw [holds, Option.some.injEq] at other
    rw [← other]
  · exact fun t' h different other => owned.other_record holds different other
  · exact fun key present => ⟨inside, named key present⟩
  · exact fun after present =>
      ⟨inside, (held after present).1, (held after present).2.1, (held after present).2.2.1⟩
  · exact fun after present => (held after present).2.2.2
  · exact fun unlocked => ((released (kept unlocked)).2.2 unlocked).1
  · intro set
    cases present : mine with
    | none => exact (released present).2.1 set
    | some after => exact (held after present).1
  · intro strictly set none
    simp [(released none).1 strictly] at set
  · exact fun used unlocked => ((released (kept unlocked)).2.2 unlocked).2 used

theorem allocate (inside : w < len) (free : (word w).isFree = true) (none : hold t = none) :
    Owned strict len records (update word w tryAllocateSeqlock) blockId
      (setHold hold t (some ⟨w, .fresh⟩)) := by
  have unnamed := owned.not_named_of_free free
  refine owned.transfer w records _ blockId (some .fresh) (fun _ _ _ => Iff.rfl)
    (fun _ _ => rfl) ?_ ?_ ?_ ?_ ?_ ?_ ?_ ?_ ?_
  · exact fun h holds => by simp [none] at holds
  · exact fun t' h _ holds => owned.not_held_of_free free holds
  · exact fun key present => absurd present (unnamed key)
  · rintro status ⟨⟩
    exact ⟨inside, by simp, by simp, unnamed⟩
  · rintro status ⟨⟩
    simp [HoldStatus.odd]
  · simp
  · simp
  · simp
  · simp

theorem lock {value : SeqWord} (inSection : Bool)
    (used : (word w).isFree = false) (unlocked : (word w).isLocked = false) (none : hold t = none)
    (stillUsed : value.isFree = false) (set : value.isLocked = true)
    (parity : value.seq % 2 = if inSection then 1 else 0) :
    Owned strict len records (update word w value) blockId
      (setHold hold t (some ⟨w, .entry inSection⟩)) := by
  obtain ⟨key, present⟩ := owned.pooled w used unlocked
  obtain ⟨inside, _, mine⟩ := owned.named key w present
  refine owned.transfer w records value blockId (some (.entry inSection)) (fun _ _ _ => Iff.rfl)
    (fun _ _ => rfl) ?_ ?_ ?_ ?_ ?_ ?_ ?_ ?_ ?_
  · exact fun h holds => by simp [none] at holds
  · exact fun t' h _ holds => owned.not_held_of_unlocked unlocked holds
  · intro other otherPresent
    exact ⟨inside, stillUsed, (owned.named other w otherPresent).2.2⟩
  · rintro status ⟨⟩
    exact ⟨inside, stillUsed, set, key, present⟩
  · rintro status ⟨⟩
    exact parity
  · exact fun clear => by simp [set] at clear
  · exact fun _ => stillUsed
  · simp
  · exact fun _ clear => by simp [set] at clear

theorem setBlockId (holds : hold t = some ⟨w, .fresh⟩) (key : Key) :
    Owned strict len records word (update blockId w key)
      (setHold hold t (some ⟨w, .reserved key⟩)) := by
  obtain ⟨inside, used, set, unnamed⟩ := owned.held t _ holds
  have kept := owned.transferHeld holds records (word w) (update blockId w key)
    (some (.reserved key)) (fun _ _ _ => Iff.rfl) (fun w' different => by simp [different])
    (fun other present => absurd present (unnamed other)) ?_ (fun none => by simp at none)
  · rwa [update_eq_self] at kept
  · rintro status ⟨⟩
    exact ⟨used, set, ⟨unnamed, by simp⟩, owned.parity t _ holds⟩

theorem getBlockId (holds : hold t = some ⟨w, .entry false⟩) :
    Owned strict len records word blockId (setHold hold t (some ⟨w, .victim (blockId w)⟩)) := by
  obtain ⟨inside, used, set, key, present⟩ := owned.held t _ holds
  have mine := (owned.named key w present).2.2
  have kept := owned.transferHeld holds records (word w) blockId (some (.victim (blockId w)))
    (fun _ _ _ => Iff.rfl) (fun _ _ => rfl)
    (fun other other_present => ⟨used, (owned.named other w other_present).2.2⟩) ?_
    (fun none => by simp at none)
  · rwa [update_eq_self] at kept
  · rintro status ⟨⟩
    exact ⟨used, set, mine ▸ present, owned.parity t _ holds⟩

theorem unlock {inSection : Bool} {value : SeqWord}
    (holds : hold t = some ⟨w, .entry inSection⟩) (used : value.isFree = false)
    (clear : value.isLocked = false) (even : value.seq % 2 = 0) :
    Owned strict len records (update word w value) blockId (setHold hold t none) := by
  obtain ⟨inside, _, set, named⟩ := owned.held t _ holds
  exact owned.transferHeld holds records value blockId none (fun _ _ _ => Iff.rfl)
    (fun _ _ => rfl) (fun key present => ⟨used, (owned.named key w present).2.2⟩)
    (fun after present => by simp at present) fun _ => ⟨fun _ => clear,
      fun set => by simp [clear] at set, fun _ => ⟨even, fun _ => named⟩⟩

theorem recycle {status : HoldStatus Key}
    (holds : hold t = some ⟨w, status⟩) (unnamed : ∀ key, records key ≠ some w) :
    Owned strict len records (update word w (freeSeqlockWithLock (word w))) blockId
      (setHold hold t none) :=
  owned.transferHeld holds records _ blockId none (fun _ _ _ => Iff.rfl) (fun _ _ => rfl)
    (fun key present => absurd present (unnamed key)) (fun after present => by simp at present)
    fun _ => ⟨by simp, by simp, by simp⟩

/-- The compare-exchange of `RecycleWmeta` fails: nobody holds the record any more. -/
theorem abandon {status : HoldStatus Key}
    (holds : hold t = some ⟨w, status⟩) (unnamed : ∀ key, records key ≠ some w)
    (allowed : ¬strict) : Owned strict len records word blockId (setHold hold t none) := by
  obtain ⟨_, used, set, _⟩ := owned.held t _ holds
  have kept := owned.transferHeld holds records (word w) blockId none (fun _ _ _ => Iff.rfl)
    (fun _ _ => rfl) (fun key present => absurd present (unnamed key))
    (fun after present => by simp at present)
    fun _ => ⟨fun strictly => absurd strictly allowed, fun _ => used,
      fun clear => by simp [set] at clear⟩
  rwa [update_eq_self] at kept

variable [DecidableEq Key]

theorem name {key : Key} (holds : hold t = some ⟨w, .reserved key⟩) (none : records key = none) :
    Owned strict len (update records key (some w)) word blockId
      (setHold hold t (some ⟨w, .entry true⟩)) := by
  obtain ⟨inside, used, set, unnamed, mine⟩ := owned.held t _ holds
  have kept := owned.transferHeld holds (update records key (some w)) (word w) blockId
    (some (.entry true)) ?_ (fun _ _ => rfl) ?_ ?_ (fun absent => by simp at absent)
  · rwa [update_eq_self] at kept
  · intro other w' different
    by_cases same : other = key
    · subst same
      simp [none, different.symm]
    · rw [update_of_ne same]
  · intro other present
    by_cases same : other = key
    · subst same
      exact ⟨used, mine⟩
    · rw [update_of_ne same] at present
      exact absurd present (unnamed other)
  · rintro status ⟨⟩
    exact ⟨used, set, ⟨key, update_self ..⟩, owned.parity t _ holds⟩

theorem detach {key : Key} (holds : hold t = some ⟨w, .victim key⟩) :
    Owned strict len (update records key none) word blockId
      (setHold hold t (some ⟨w, .detached⟩)) := by
  obtain ⟨inside, used, set, present⟩ := owned.held t _ holds
  have absent : ∀ other, update records key none other ≠ some w := by
    intro other still
    by_cases same : other = key
    · subst same
      simp at still
    · rw [update_of_ne same] at still
      exact same (owned.key_unique still present)
  have kept := owned.transferHeld holds (update records key none) (word w) blockId
    (some .detached) ?_ (fun _ _ => rfl) (fun other still => absurd still (absent other)) ?_
    (fun none => by simp at none)
  · rwa [update_eq_self] at kept
  · intro other w' different
    by_cases same : other = key
    · subst same
      have changed : w ≠ w' := different.symm
      simp [show records other = some w from present, changed]
    · rw [update_of_ne same]
  · rintro status ⟨⟩
    exact ⟨used, set, absent, owned.parity t _ holds⟩

end Owned

end

end Megalon.Protocol
