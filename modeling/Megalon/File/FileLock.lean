import Mathlib.Logic.Function.Basic
import Megalon.Foundations.Transition

/-!
Contract: the lock of a `RackOBJFileHandle` and the functions that take it (`lib/file.cc`).

Owns: `Lockfile`, `TryLockfile`, `Unlockfile`, and `Read` and `Write`, which lock the file
themselves, under any number of threads; when a thread that has locked the file is alone with it,
and a run in which it is not.

Does not own: the bytes that `Pread` and `Pwrite` transfer, of which there may be any number.

`lock_count_` is the id of the owner and not a count: the first `Unlockfile` of the owner releases
the lock, however often it was taken, and `Read` and `Write` end with one. A function runs with
`lock_count_mutex_` held and is one step; `lock_count_cv_` is a step that waits. Thread ids are
distinct, and none is the 0 that stands for no owner.
-/

namespace Megalon.File.Lock

open Foundations
open Function (update_self update_of_ne update_eq_self)

/-- The functions of a file; `Read` and `Write` have the same steps. -/
inductive FileCall where
  | lockfile
  | tryLockfile
  | unlockfile
  | read
  | write
  deriving DecidableEq, Repr

/-- What `TryLockfile` returns. -/
inductive TryCode where
  | ok
  | edeadlk
  | ebusy
  deriving DecidableEq, Repr

/-- What a thread's last call returned; `Lockfile` says whether it found the lock free. -/
inductive LockResult where
  | locked (fresh : Bool)
  | tried (code : TryCode)
  deriving DecidableEq, Repr

inductive LockPc where
  | idle
  /-- In `Lockfile`, called by the thread itself. -/
  | lock
  /-- In the `Lockfile` of `Read` or `Write`. -/
  | lockForTransfer
  /-- Before `Pread` or `Pwrite`. -/
  | transfer
  /-- Before `file_offset_ += copied`. -/
  | update (copied : Nat)
  /-- Before the `Unlockfile` of `Read` or `Write`. -/
  | unlock
  deriving DecidableEq, Repr

/-- `depth t` is the number of `Lockfile`s and successful `TryLockfile`s of thread `t` whose
`Unlockfile` is still to come. -/
structure LockState (threads : Nat) where
  lockCount : Option (Fin threads)
  fileOffset : Nat
  pc : Fin threads → LockPc
  depth : Fin threads → Nat
  result : Fin threads → Option LockResult

inductive LockEvent (threads : Nat) where
  | call (t : Fin threads) (call : FileCall)
  | step (t : Fin threads) (copied : Nat)
  deriving DecidableEq

section

variable {threads : Nat}

def LockState.goto (s : LockState threads) (t : Fin threads) (pc : LockPc) : LockState threads :=
  { s with pc := Function.update s.pc t pc }

def LockState.setDepth (s : LockState threads) (t : Fin threads) (depth : Nat) :
    LockState threads :=
  { s with depth := Function.update s.depth t depth }

def LockState.setResult (s : LockState threads) (t : Fin threads) (result : LockResult) :
    LockState threads :=
  { s with result := Function.update s.result t (some result) }

def LockState.enter (s : LockState threads) (t : Fin threads) : LockState threads :=
  { s with lockCount := some t }.setDepth t (s.depth t + 1)

def LockState.tryLockfile (s : LockState threads) (t : Fin threads) : LockState threads :=
  match s.lockCount with
  | none => (s.enter t).setResult t (.tried .ok)
  | some owner => s.setResult t (.tried (if owner = t then .edeadlk else .ebusy))

/-- `Unlockfile` does not look at the owner. -/
def LockState.unlockfile (s : LockState threads) : LockState threads := { s with lockCount := none }

/-- The predicate `Lockfile` waits for. -/
def LockState.available (s : LockState threads) (t : Fin threads) : Bool :=
  s.lockCount = none || s.lockCount = some t

def lockStep (s : LockState threads) : LockEvent threads → Option (LockState threads)
  | .call t call =>
    if s.pc t = .idle then
      match call with
      | .lockfile => some (s.goto t .lock)
      | .tryLockfile => some (s.tryLockfile t)
      | .unlockfile => some (s.unlockfile.setDepth t (s.depth t - 1))
      | .read | .write => some (s.goto t .lockForTransfer)
    else none
  | .step t copied =>
    match s.pc t with
    | .idle => none
    | .lock =>
      if s.available t then
        some (((s.enter t).setResult t (.locked s.lockCount.isNone)).goto t .idle)
      else none
    | .lockForTransfer =>
      if s.available t then some ({ s with lockCount := some t }.goto t .transfer) else none
    | .transfer => some (s.goto t (.update copied))
    | .update copied => some ({ s with fileOffset := s.fileOffset + copied }.goto t .unlock)
    | .unlock => some (s.unlockfile.goto t .idle)

def lockSystem (threads : Nat) : System (LockState threads) (LockEvent threads) where
  init := fun s => s.lockCount = none ∧ s.fileOffset = 0 ∧ (∀ t, s.pc t = .idle) ∧
    ∀ t, s.depth t = 0
  step := lockStep

/-- A thread that has locked the file calls neither `Lockfile` again nor `Read` or `Write`, and
`Unlockfile` is called by a thread that has locked the file. -/
def unnested (s : LockState threads) : LockEvent threads → Bool
  | .call t .lockfile | .call t .read | .call t .write => s.depth t = 0
  | .call t .unlockfile => 0 < s.depth t
  | .call _ .tryLockfile | .step _ _ => true

end

/-! ### Owners -/

section

variable {threads : Nat} {s s' : LockState threads} {e : LockEvent threads} {t : Fin threads}

/-- `Read` or `Write` has the lock. -/
def LockPc.holds : LockPc → Bool
  | .transfer | .update _ | .unlock => true
  | .idle | .lock | .lockForTransfer => false

/-- The thread has the lock, by a call of its own or by `Read` or `Write`. -/
def LockState.Holds (s : LockState threads) (t : Fin threads) : Prop :=
  0 < s.depth t ∨ (s.pc t).holds = true

structure LockInv (s : LockState threads) : Prop where
  owner : ∀ t, s.Holds t → s.lockCount = some t
  once : ∀ t, s.depth t ≤ 1
  outside : ∀ t, s.pc t ≠ .idle → s.depth t = 0

theorem LockInv.free (inv : LockInv s) (unlocked : s.lockCount = none) (t : Fin threads) :
    ¬ s.Holds t := by
  intro holds
  rw [inv.owner t holds] at unlocked
  cases unlocked

variable {pc : LockPc}

section

variable (inv : LockInv s)

include inv

theorem LockInv.update {lockCount : Option (Fin threads)} {depth : Nat}
    (pcs : s'.pc = Function.update s.pc t pc) (depths : s'.depth = Function.update s.depth t depth)
    (count : s'.lockCount = lockCount) (others : ∀ t', t' ≠ t → s.Holds t' → lockCount = some t')
    (mine : 0 < depth ∨ pc.holds = true → lockCount = some t) (once : depth ≤ 1)
    (outside : pc ≠ .idle → depth = 0) : LockInv s' := by
  refine ⟨fun t' => ?_, fun t' => ?_, fun t' => ?_⟩
  · rw [LockState.Holds, pcs, depths, count]
    by_cases same : t' = t
    · rw [same, update_self, update_self]
      exact mine
    · rw [update_of_ne same, update_of_ne same]
      exact others t' same
  · rw [depths]
    by_cases same : t' = t
    · rwa [same, update_self]
    · rw [update_of_ne same]
      exact inv.once t'
  · rw [pcs, depths]
    by_cases same : t' = t
    · rw [same, update_self, update_self]
      exact outside
    · rw [update_of_ne same, update_of_ne same]
      exact inv.outside t'

theorem LockInv.goto (count : s'.lockCount = s.lockCount)
    (pcs : s'.pc = Function.update s.pc t pc) (depths : s'.depth = s.depth)
    (mine : pc.holds = true → s.lockCount = some t) (outside : pc ≠ .idle → s.depth t = 0) :
    LockInv s' := by
  have same : s'.depth = Function.update s.depth t (s.depth t) := by
    rw [depths, update_eq_self]
  refine inv.update pcs same count (fun t' _ holds => inv.owner t' holds) ?_ (inv.once t) outside
  rintro (locked | holds)
  · exact inv.owner t (.inl locked)
  · exact mine holds

theorem LockInv.available (ready : s.available t = true) {t' : Fin threads}
    (other : t' ≠ t) : ¬ s.Holds t' := by
  intro holds
  have owned := inv.owner t' holds
  simp only [LockState.available, owned, Bool.or_eq_true, decide_eq_true_iff, reduceCtorEq,
    Option.some_inj, false_or] at ready
  exact other ready

theorem LockInv.released (holds : s.Holds t) {t' : Fin threads}
    (other : t' ≠ t) : ¬ s.Holds t' := by
  intro another
  have same := (inv.owner t' another).symm.trans (inv.owner t holds)
  exact other (Option.some.inj same)

theorem LockInv.waits (waiting : pc.holds = false) (unlocked : s.depth t = 0) :
    LockInv (s.goto t pc) := by
  refine inv.goto rfl rfl rfl (fun holds => ?_) fun _ => unlocked
  rw [waiting] at holds
  cases holds

theorem LockInv.proceeds (holds : (s.pc t).holds = true)
    (count : s'.lockCount = s.lockCount) (pcs : s'.pc = Function.update s.pc t pc)
    (depths : s'.depth = s.depth) : LockInv s' := by
  refine inv.goto count pcs depths (fun _ => inv.owner t (.inr holds)) fun _ => ?_
  refine inv.outside t fun idle => ?_
  rw [idle] at holds
  cases holds

theorem lockInv_call {call : FileCall} (idle : s.pc t = .idle)
    (meets : unnested s (.call t call) = true) (taken : lockStep s (.call t call) = some s') :
    LockInv s' := by
  simp only [lockStep, if_pos idle] at taken
  have stays : s.pc = Function.update s.pc t .idle := by rw [← idle, update_eq_self]
  cases call with
  | lockfile | read | write =>
    cases taken
    exact inv.waits rfl (decide_eq_true_iff.1 meets)
  | tryLockfile =>
    cases taken
    cases owned : s.lockCount with
    | none =>
      have unlocked : s.depth t = 0 := by
        by_contra locked
        exact inv.free owned t (.inl (by omega))
      simp only [LockState.tryLockfile, owned]
      exact inv.update stays rfl rfl (fun t' _ holds => absurd holds (inv.free owned t'))
        (fun _ => rfl) (by omega) fun busy => absurd rfl busy
    | some owner =>
      simp only [LockState.tryLockfile, owned]
      exact inv.goto rfl stays rfl (fun holds => by cases holds) fun busy => absurd rfl busy
  | unlockfile =>
    cases taken
    have locked : 0 < s.depth t := decide_eq_true_iff.1 meets
    have once := inv.once t
    refine inv.update stays rfl rfl (fun t' other holds => ?_) (fun still => ?_) (by omega)
      fun busy => absurd rfl busy
    · exact absurd holds (inv.released (.inl locked) other)
    · rcases still with still | holds
      · omega
      · cases holds

theorem lockInv_step {copied : Nat}
    (taken : lockStep s (.step t copied) = some s') : LockInv s' := by
  simp only [lockStep] at taken
  have outside : s.pc t ≠ .idle → s.depth t = 0 := inv.outside t
  cases now : s.pc t with
  | idle =>
    rw [now] at taken
    cases taken
  | lock =>
    simp only [now, Option.ite_none_right_eq_some] at taken
    obtain ⟨ready, moved⟩ := taken
    cases moved
    rw [now] at outside
    have unlocked := outside LockPc.noConfusion
    exact inv.update rfl rfl rfl (fun t' other holds => absurd holds (inv.available ready other))
      (fun _ => rfl) (by omega) fun busy => absurd rfl busy
  | lockForTransfer =>
    simp only [now, Option.ite_none_right_eq_some] at taken
    obtain ⟨ready, moved⟩ := taken
    cases moved
    rw [now] at outside
    have unlocked := outside LockPc.noConfusion
    exact inv.update rfl (update_eq_self t s.depth).symm rfl
      (fun t' other holds => absurd holds (inv.available ready other)) (fun _ => rfl) (by omega)
      fun _ => unlocked
  | transfer =>
    simp only [now] at taken
    cases taken
    exact inv.proceeds (by rw [now]; rfl) rfl rfl rfl
  | update copied =>
    simp only [now] at taken
    cases taken
    exact inv.proceeds (by rw [now]; rfl) rfl rfl rfl
  | unlock =>
    simp only [now] at taken
    cases taken
    rw [now] at outside
    have unlocked := outside LockPc.noConfusion
    have holds : s.Holds t := .inr (by rw [now]; rfl)
    refine inv.update rfl (update_eq_self t s.depth).symm rfl
      (fun t' other another => absurd another (inv.released holds other)) ?_ (by omega)
      fun busy => absurd rfl busy
    rintro (locked | busy)
    · omega
    · cases busy

end

theorem lockInv (reached : (lockSystem threads).ReachableWhere (fun s e => unnested s e = true) s) :
    LockInv s := by
  refine reached.invariant (P := LockInv) ?_ ?_
  · rintro s ⟨_, _, idle, outside⟩
    refine ⟨?_, fun t => by rw [outside]; omega, fun t _ => outside t⟩
    rintro t (locked | holds)
    · rw [outside] at locked
      omega
    · rw [idle] at holds
      cases holds
  · intro s e s' inv meets taken
    cases e with
    | call t call =>
      by_cases idle : s.pc t = .idle
      · exact lockInv_call inv idle meets taken
      · cases (if_neg idle).symm.trans taken
    | step t copied => exact lockInv_step inv taken

/-- While a thread has locked the file, no other thread holds the lock or is at its update of the
offset. -/
theorem file_lock_excludes
    (reached : (lockSystem threads).ReachableWhere (fun s e => unnested s e = true) s)
    (t t' : Fin threads) (locked : 0 < s.depth t) (other : t' ≠ t) :
    s.lockCount ≠ some t' ∧ ∀ copied, s.pc t' ≠ .update copied := by
  have inv := lockInv reached
  have owned := inv.owner t (.inl locked)
  constructor
  · rw [owned]
    exact fun same => other (Option.some.inj same).symm
  · intro copied now
    exact inv.released (.inl locked) other (.inr (by rw [now]; rfl))

end

/-! ### A lock released by `Read` -/

def owner : Fin 2 := ⟨0, Nat.two_pos⟩

def intruder : Fin 2 := ⟨1, Nat.one_lt_two⟩

def unlocked : LockState 2 where
  lockCount := none
  fileOffset := 0
  pc := fun _ => .idle
  depth := fun _ => 0
  result := fun _ => none

theorem init_unlocked : (lockSystem 2).init unlocked :=
  ⟨rfl, rfl, fun _ => rfl, fun _ => rfl⟩

/-- `Lockfile` and `Read` by one thread, then `Read` by the other up to its update of the offset. -/
def readWhileLocked : List (LockEvent 2) :=
  [.call owner .lockfile, .step owner 0,
    .call owner .read, .step owner 0, .step owner 3, .step owner 0, .step owner 0,
    .call intruder .read, .step intruder 0, .step intruder 5]

theorem locked_twice_readWhileLocked :
    ∃ s : LockState 2, (lockSystem 2).Reachable s ∧ 0 < s.depth owner ∧
      s.lockCount = some intruder ∧ s.pc intruder = .update 5 := by
  obtain ⟨s, reached, holds⟩ := System.exists_reachable_of_run (lockSystem 2) init_unlocked
    readWhileLocked
    (fun s => decide (0 < s.depth owner ∧ s.lockCount = some intruder ∧
      s.pc intruder = .update 5)) (by decide)
  exact ⟨s, reached, of_decide_eq_true holds⟩

/-- One thread reads and then locks the file; the other tries to lock it and waits in `Write`. -/
def lockAfterRead : List (LockEvent 2) :=
  [.call owner .read, .step owner 0, .step owner 3, .step owner 0, .step owner 0,
    .call owner .lockfile, .step owner 0, .call intruder .tryLockfile, .call intruder .write]

theorem file_lock_excludes_lockAfterRead :
    ∃ s : LockState 2, (lockSystem 2).ReachableWhere (fun s e => unnested s e = true) s ∧
      0 < s.depth owner ∧ s.pc intruder = .lockForTransfer ∧ s.lockCount ≠ some intruder ∧
      ∀ copied, s.pc intruder ≠ .update copied := by
  obtain ⟨s, reached, holds⟩ := System.exists_reachableWhere_of_run
    (System.Tests.of_sound (lockSystem 2) unnested fun _ _ passes => passes) init_unlocked
    lockAfterRead
    (fun s => decide (0 < s.depth owner ∧ s.pc intruder = .lockForTransfer)) (by decide)
  obtain ⟨locked, waits⟩ := of_decide_eq_true holds
  exact ⟨s, reached, locked, waits, file_lock_excludes reached owner intruder locked (by decide)⟩

end Megalon.File.Lock
