import Mathlib.Data.Set.Basic
import Megalon.Index.SlotReports

/-!
Contract: the three closures that replay entries of the log on a replica
(`node-replication/src/nr/replica.rs`, feature `scr`).

Owns: the closure `combine` hands to `append`, the one it hands to the `exec` after it, and
the one of `Replica::exec` that `try_sync` uses; their effects along a range of the log, and
the exact condition under which a range that is split among them has the effects of a replay
by `combine` alone.

Does not own: when each of them runs.
-/

namespace Megalon.Nr

/-- `Dispatch`, with `cn_idx` of its responses. A `cn_idx` of `-1` is `none`. -/
structure Dispatch (D ReadOp WriteOp Resp : Type) where
  dispatch : D → ReadOp → Resp
  dispatchMut : D → WriteOp → D × Resp
  cnIdx : Resp → Option Nat

/-- The page slots the replica flushes: `base_addr` and `slot_size`. -/
structure Slots where
  baseAddr : Nat
  slotSize : Nat

/-- The range `flush_mem_region` is called with for slot `c`. -/
def Slots.region (slots : Slots) (c : Nat) : Nat × Nat :=
  (slots.baseAddr + c * slots.slotSize, slots.slotSize)

/-- What a replay changes: `flushed` lists the calls of `flush_mem_region`. -/
@[ext]
structure Replayed (D Resp : Type) where
  data : D
  changeNotif : Nat → Option Nat
  result : List Resp
  flushed : List (Nat × Nat)

def Replayed.start {D : Type} (Resp : Type) (data : D) (changeNotif : Nat → Option Nat) :
    Replayed D Resp :=
  ⟨data, changeNotif, [], []⟩

/-- The loop over `change_notif.iter().take(n)`. -/
def clearAnchors (n : Nat) (idx : Option Nat) (changeNotif : Nat → Option Nat) : Nat → Option Nat :=
  fun j => if j < n ∧ changeNotif j = idx ∧ idx ≠ none then none else changeNotif j

section

variable {D ReadOp WriteOp Resp : Type} (ds : Dispatch D ReadOp WriteOp Resp) (slots : Slots)
  (n : Nat)

/-- The closures of `combine`: an own operation's response is kept for its caller, the slot
another replica's operation reports is flushed. -/
def combineClosure (s : Replayed D Resp) (op : WriteOp) (mine : Bool) : Replayed D Resp :=
  let (data, resp) := ds.dispatchMut s.data op
  { data := data
    changeNotif := clearAnchors n (ds.cnIdx resp) s.changeNotif
    result := if mine then s.result ++ [resp] else s.result
    flushed :=
      if mine then s.flushed
      else
        match ds.cnIdx resp with
        | some c => s.flushed ++ [slots.region c]
        | none => s.flushed }

/-- `f` of `append` in `combine`. -/
def appendClosure : Replayed D Resp → WriteOp → Bool → Replayed D Resp :=
  combineClosure ds slots n

/-- `f` of `exec` in `combine`. -/
def combineExecClosure : Replayed D Resp → WriteOp → Bool → Replayed D Resp :=
  combineClosure ds slots n

/-- The panic `Ups -- we just lost a result?`. -/
inductive LostResult where
  | mk
  deriving DecidableEq, Repr

/-- `f` of `Replica::exec`: it clears and flushes nothing. -/
def replicaExecClosure (s : Replayed D Resp) (op : WriteOp) (mine : Bool) :
    Except LostResult (Replayed D Resp) :=
  if mine then .error .mk else .ok { s with data := (ds.dispatchMut s.data op).1 }

inductive ReplayPath where
  | append
  | combineExec
  | replicaExec
  deriving DecidableEq, Repr

/-- One entry of the log: the path that replays it, and the arguments of the closure. -/
structure ReplayedEntry (WriteOp : Type) where
  path : ReplayPath
  op : WriteOp
  mine : Bool

def replayEntry (s : Replayed D Resp) (e : ReplayedEntry WriteOp) :
    Except LostResult (Replayed D Resp) :=
  match e.path with
  | .append => .ok (appendClosure ds slots n s e.op e.mine)
  | .combineExec => .ok (combineExecClosure ds slots n s e.op e.mine)
  | .replicaExec => replicaExecClosure ds s e.op e.mine

def replayRange (s : Replayed D Resp) :
    List (ReplayedEntry WriteOp) → Except LostResult (Replayed D Resp)
  | [] => .ok s
  | e :: rest => (replayEntry ds slots n s e).bind fun after => replayRange after rest

/-- The same range replayed by `combine`'s `exec` alone. -/
def byCombineExec (range : List (ReplayedEntry WriteOp)) : List (ReplayedEntry WriteOp) :=
  range.map fun e => { e with path := .combineExec }

/-! ### The effects of a range -/

/-- An entry with the response its operation has in the range. -/
structure Report (Resp : Type) where
  path : ReplayPath
  resp : Resp
  mine : Bool

def reports (data : D) : List (ReplayedEntry WriteOp) → List (Report Resp)
  | [] => []
  | e :: rest =>
    ⟨e.path, (ds.dispatchMut data e.op).2, e.mine⟩ ::
      reports (ds.dispatchMut data e.op).1 rest

def finalData (data : D) (range : List (ReplayedEntry WriteOp)) : D :=
  range.foldl (fun data e => (ds.dispatchMut data e.op).1) data

/-- A closure of `combine` replays the entry, and its operation reports slot `c`. -/
def Report.Notifies (report : Report Resp) (c : Nat) : Prop :=
  report.path ≠ .replicaExec ∧ ds.cnIdx report.resp = some c

/-- A closure of `combine` flushes the slot of the entry. -/
def Report.Flushes (report : Report Resp) (region : Nat × Nat) : Prop :=
  report.mine = false ∧ ∃ c, report.Notifies ds c ∧ slots.region c = region

/-- What the replay of a range with the given reports leaves of a state. -/
structure Effects (s s' : Replayed D Resp) (data : D) (reported : List (Report Resp)) :
    Prop where
  data : s'.data = data
  cleared : ∀ j, s'.changeNotif j = none ↔ s.changeNotif j = none ∨
    ∃ c, s.changeNotif j = some c ∧ j < n ∧ ∃ report ∈ reported, report.Notifies ds c
  kept : ∀ j c, s'.changeNotif j = some c → s.changeNotif j = some c
  flushed : ∀ region, region ∈ s'.flushed ↔ region ∈ s.flushed ∨
    ∃ report ∈ reported, report.Flushes ds slots region

variable {ds slots n} {s s' s'' : Replayed D Resp} {data after : D}
  {reported later : List (Report Resp)}

theorem clearAnchors_eq_none_iff {idx : Option Nat} {changeNotif : Nat → Option Nat} {j : Nat} :
    clearAnchors n idx changeNotif j = none ↔ changeNotif j = none ∨
      ∃ c, changeNotif j = some c ∧ j < n ∧ idx = some c := by
  unfold clearAnchors
  split
  · rename_i hit
    obtain ⟨inside, same, reported⟩ := hit
    obtain ⟨c, rfl⟩ := Option.ne_none_iff_exists'.mp reported
    exact iff_of_true rfl (.inr ⟨c, same, inside, rfl⟩)
  · rename_i missed
    refine ⟨.inl, ?_⟩
    rintro (absent | ⟨c, anchored, inside, rfl⟩)
    · exact absent
    · exact absurd ⟨inside, anchored, by simp⟩ missed

theorem clearAnchors_eq_some {idx : Option Nat} {changeNotif : Nat → Option Nat} {j c : Nat}
    (kept : clearAnchors n idx changeNotif j = some c) : changeNotif j = some c := by
  unfold clearAnchors at kept
  split at kept
  · cases kept
  · exact kept

theorem Effects.nil (s : Replayed D Resp) : Effects ds slots n s s s.data [] where
  data := rfl
  cleared := by simp
  kept := fun _ _ anchored => anchored
  flushed := by simp

theorem Effects.trans (first : Effects ds slots n s s' data reported)
    (second : Effects ds slots n s' s'' after later) :
    Effects ds slots n s s'' after (reported ++ later) where
  data := second.data
  cleared := by
    intro j
    rw [second.cleared, first.cleared]
    simp only [List.mem_append, or_and_right, exists_or]
    constructor
    · rintro ((absent | ⟨c, anchored, inside, named⟩) | ⟨c, anchored, inside, named⟩)
      · exact .inl absent
      · exact .inr ⟨c, anchored, inside, .inl named⟩
      · exact .inr ⟨c, first.kept j c anchored, inside, .inr named⟩
    · rintro (absent | ⟨c, anchored, inside, named | named⟩)
      · exact .inl (.inl absent)
      · exact .inl (.inr ⟨c, anchored, inside, named⟩)
      · -- the anchor the later entry clears may be gone already
        cases held : s'.changeNotif j with
        | none => exact .inl ((first.cleared j).mp held)
        | some d =>
          obtain rfl : c = d := by
            rw [first.kept j d held] at anchored
            exact (Option.some.inj anchored).symm
          exact .inr ⟨c, rfl, inside, named⟩
  kept := fun j c anchored => first.kept j c (second.kept j c anchored)
  flushed := by
    intro region
    rw [second.flushed, first.flushed]
    simp only [List.mem_append, or_and_right, exists_or, or_assoc]

theorem effects_combineClosure (path : ReplayPath) (combined : path ≠ .replicaExec)
    (s : Replayed D Resp) (op : WriteOp) (mine : Bool) :
    Effects ds slots n s (combineClosure ds slots n s op mine) (ds.dispatchMut s.data op).1
      [⟨path, (ds.dispatchMut s.data op).2, mine⟩] where
  data := rfl
  cleared := by
    intro j
    simp only [combineClosure, clearAnchors_eq_none_iff, List.mem_singleton, exists_eq_left,
      Report.Notifies, combined, ne_eq, not_false_eq_true, true_and]
  kept := fun j c => clearAnchors_eq_some
  flushed := by
    intro region
    simp only [combineClosure, List.mem_singleton, exists_eq_left, Report.Flushes,
      Report.Notifies, combined, ne_eq, not_false_eq_true, true_and]
    cases mine with
    | true => simp
    | false =>
      cases ds.cnIdx (ds.dispatchMut s.data op).2 with
      | none => simp
      | some c => simp [eq_comm]

theorem effects_replayEntry {e : ReplayedEntry WriteOp}
    (replayed : replayEntry ds slots n s e = .ok s') :
    Effects ds slots n s s' (ds.dispatchMut s.data e.op).1
      [⟨e.path, (ds.dispatchMut s.data e.op).2, e.mine⟩] := by
  unfold replayEntry at replayed
  split at replayed
  · rename_i path
    cases replayed
    exact effects_combineClosure e.path (by simp [path]) s e.op e.mine
  · rename_i path
    cases replayed
    exact effects_combineClosure e.path (by simp [path]) s e.op e.mine
  · rename_i path
    unfold replicaExecClosure at replayed
    split at replayed
    · cases replayed
    · cases replayed
      refine ⟨rfl, ?_, fun _ _ anchored => anchored, ?_⟩
      · simp [Report.Notifies, path]
      · simp [Report.Flushes, Report.Notifies, path]

theorem effects_replayRange {range : List (ReplayedEntry WriteOp)} :
    ∀ {s s' : Replayed D Resp}, replayRange ds slots n s range = .ok s' →
      Effects ds slots n s s' (finalData ds s.data range) (reports ds s.data range) := by
  induction range with
  | nil =>
    intro s s' replayed
    cases replayed
    exact .nil s
  | cons e rest ih =>
    intro s s' replayed
    cases first : replayEntry ds slots n s e with
    | error lost =>
      rw [replayRange, first] at replayed
      cases replayed
    | ok middle =>
      rw [replayRange, first] at replayed
      have here := effects_replayEntry first
      have later := ih replayed
      rw [here.data] at later
      exact here.trans later

theorem exists_replayRange {range : List (ReplayedEntry WriteOp)} :
    ∀ {s : Replayed D Resp}, (∃ s', replayRange ds slots n s range = .ok s') ↔
      ∀ report ∈ reports ds s.data range,
        report.path = .replicaExec → report.mine = false := by
  induction range with
  | nil => exact fun {s} => ⟨fun _ _ none => absurd none (by simp [reports]), fun _ => ⟨s, rfl⟩⟩
  | cons e rest ih =>
    intro s
    rw [reports, List.forall_mem_cons]
    cases first : replayEntry ds slots n s e with
    | error lost =>
      have stops : e.path = .replicaExec ∧ e.mine = true := by
        unfold replayEntry at first
        split at first
        · cases first
        · cases first
        · unfold replicaExecClosure at first
          split at first
          · exact ⟨‹_›, ‹_›⟩
          · cases first
      rw [replayRange, first]
      refine iff_of_false ?_ ?_
      · rintro ⟨s', replayed⟩
        cases replayed
      · rintro ⟨foreign, _⟩
        exact absurd ((foreign stops.1).symm.trans stops.2) (by simp)
    | ok middle =>
      have goesOn : e.path = .replicaExec → e.mine = false := by
        intro path
        rw [replayEntry, path] at first
        simp only [replicaExecClosure] at first
        split at first
        · cases first
        · exact Bool.eq_false_iff.mpr ‹_›
      rw [replayRange, first, and_iff_right goesOn, ← (effects_replayEntry first).data]
      exact ih

/-! ### Splitting a range -/

variable (ds slots n)

def clearedAnchors (s s' : Replayed D Resp) : Set Nat :=
  {j | s.changeNotif j ≠ none ∧ s'.changeNotif j = none}

def flushedRegions (s : Replayed D Resp) : Set (Nat × Nat) :=
  {region | region ∈ s.flushed}

/-- The split replay gets to the end of the range and has the effects of `combine`'s `exec`
alone. -/
def SplitsAlike (start : Replayed D Resp) (range : List (ReplayedEntry WriteOp)) : Prop :=
  ∃ split whole, replayRange ds slots n start range = .ok split ∧
    replayRange ds slots n start (byCombineExec range) = .ok whole ∧
    split.data = whole.data ∧ clearedAnchors start split = clearedAnchors start whole ∧
    flushedRegions split = flushedRegions whole

/-- The condition on a range: what `Replica::exec` replays is another replica's, and the
slot it reports is also reported by entries `combine` replays, if an anchor is on it, and
flushed by one of them. -/
def MissesNothing (changeNotif : Nat → Option Nat) (reported : List (Report Resp)) : Prop :=
  ∀ report ∈ reported, report.path = .replicaExec → report.mine = false ∧
    ∀ c, ds.cnIdx report.resp = some c →
      ((∃ j, j < n ∧ changeNotif j = some c) → ∃ other ∈ reported, other.Notifies ds c) ∧
      ∃ other ∈ reported, other.Flushes ds slots (slots.region c)

variable {ds slots n}

theorem reports_byCombineExec (range : List (ReplayedEntry WriteOp)) :
    ∀ data, reports ds data (byCombineExec range) =
      (reports ds data range).map fun report => { report with path := .combineExec } := by
  induction range with
  | nil => exact fun _ => rfl
  | cons e rest ih =>
    intro data
    exact congrArg (_ :: ·) (ih _)

theorem finalData_byCombineExec (data : D) (range : List (ReplayedEntry WriteOp)) :
    finalData ds data (byCombineExec range) = finalData ds data range := by
  rw [finalData, byCombineExec, List.foldl_map]
  rfl

theorem exists_notifies_whole {c : Nat} :
    (∃ report ∈ reported.map fun report => { report with path := ReplayPath.combineExec },
      report.Notifies ds c) ↔ ∃ report ∈ reported, ds.cnIdx report.resp = some c := by
  simp [Report.Notifies]

theorem exists_flushes_whole {region : Nat × Nat} :
    (∃ report ∈ reported.map fun report => { report with path := ReplayPath.combineExec },
      report.Flushes ds slots region) ↔
      ∃ report ∈ reported, report.mine = false ∧
        ∃ c, ds.cnIdx report.resp = some c ∧ slots.region c = region := by
  simp [Report.Flushes, Report.Notifies]

theorem mem_clearedAnchors (effects : Effects ds slots n s s' data reported) (j : Nat) :
    j ∈ clearedAnchors s s' ↔
      ∃ c, s.changeNotif j = some c ∧ j < n ∧ ∃ report ∈ reported, report.Notifies ds c := by
  rw [clearedAnchors, Set.mem_ofPred_eq, effects.cleared]
  constructor
  · rintro ⟨anchored, absent | cleared⟩
    · exact absurd absent anchored
    · exact cleared
  · rintro ⟨c, anchored, named⟩
    exact ⟨by simp [anchored], .inr ⟨c, anchored, named⟩⟩

theorem mem_flushedRegions (effects : Effects ds slots n s s' data reported)
    (fresh : s.flushed = []) (region : Nat × Nat) :
    region ∈ flushedRegions s' ↔ ∃ report ∈ reported, report.Flushes ds slots region := by
  rw [flushedRegions, Set.mem_ofPred_eq, effects.flushed, fresh]
  simp

/-- **The replay paths.** A range that is split among the three closures has the effects of a
replay by `combine`'s `exec` if and only if the condition holds. -/
theorem replay_paths_agree (ds : Dispatch D ReadOp WriteOp Resp) (slots : Slots) (n : Nat)
    (data : D) (changeNotif : Nat → Option Nat) (range : List (ReplayedEntry WriteOp)) :
    SplitsAlike ds slots n (.start Resp data changeNotif) range ↔
      MissesNothing ds slots n changeNotif (reports ds data range) := by
  constructor
  · rintro ⟨split, whole, replayed, replayedWhole, _, sameCleared, sameFlushed⟩
    have effects := effects_replayRange replayed
    have effectsWhole := effects_replayRange replayedWhole
    rw [reports_byCombineExec] at effectsWhole
    have foreign := exists_replayRange.mp ⟨split, replayed⟩
    intro report listed path
    refine ⟨foreign report listed path, fun c named => ⟨?_, ?_⟩⟩
    · rintro ⟨j, inside, anchored⟩
      have cleared : j ∈ clearedAnchors (.start Resp data changeNotif) split := by
        rw [sameCleared, mem_clearedAnchors effectsWhole]
        exact ⟨c, anchored, inside, exists_notifies_whole.mpr ⟨report, listed, named⟩⟩
      obtain ⟨d, anchored', _, notified⟩ := (mem_clearedAnchors effects j).mp cleared
      obtain rfl : c = d := Option.some.inj (anchored.symm.trans anchored')
      exact notified
    · have flushed : slots.region c ∈ flushedRegions split := by
        rw [sameFlushed, mem_flushedRegions effectsWhole rfl]
        exact exists_flushes_whole.mpr
          ⟨report, listed, foreign report listed path, c, named, rfl⟩
      exact (mem_flushedRegions effects rfl _).mp flushed
  · intro complete
    have foreign : ∀ report ∈ reports ds data range, report.path = .replicaExec →
        report.mine = false := fun report listed path => (complete report listed path).1
    have combined : ∀ report ∈ reports ds data (byCombineExec range),
        report.path = .replicaExec → report.mine = false := by
      simp [reports_byCombineExec]
    obtain ⟨split, replayed⟩ : ∃ split, replayRange ds slots n
        (.start Resp data changeNotif) range = .ok split := exists_replayRange.mpr foreign
    obtain ⟨whole, replayedWhole⟩ : ∃ whole, replayRange ds slots n
        (.start Resp data changeNotif) (byCombineExec range) = .ok whole :=
      exists_replayRange.mpr combined
    have effects := effects_replayRange replayed
    have effectsWhole := effects_replayRange replayedWhole
    rw [reports_byCombineExec] at effectsWhole
    refine ⟨split, whole, replayed, replayedWhole, ?_, ?_, ?_⟩
    · rw [effects.data, effectsWhole.data, finalData_byCombineExec]
    · ext j
      rw [mem_clearedAnchors effects, mem_clearedAnchors effectsWhole]
      refine exists_congr fun c => and_congr_right fun anchored => and_congr_right fun inside => ?_
      rw [exists_notifies_whole]
      constructor
      · rintro ⟨report, listed, _, named⟩
        exact ⟨report, listed, named⟩
      · rintro ⟨report, listed, named⟩
        by_cases path : report.path = .replicaExec
        · exact ((complete report listed path).2 c named).1 ⟨j, inside, anchored⟩
        · exact ⟨report, listed, path, named⟩
    · ext region
      rw [mem_flushedRegions effects rfl, mem_flushedRegions effectsWhole rfl,
        exists_flushes_whole]
      constructor
      · rintro ⟨report, listed, other, c, ⟨_, named⟩, same⟩
        exact ⟨report, listed, other, c, named, same⟩
      · rintro ⟨report, listed, other, c, named, rfl⟩
        by_cases path : report.path = .replicaExec
        · exact ((complete report listed path).2 c named).2
        · exact ⟨report, listed, other, c, ⟨path, named⟩, rfl⟩

end

/-! ### The directory of a host -/

section

open Megalon.Index

/-- `NrHashMap` as `Dispatch`; an operation that panics has no effect. -/
def directoryDispatch (nodes : Nat) : Dispatch (Directory BlockId nodes) BlockId
    (Modify BlockId nodes) (Option (GCDResponse BlockId nodes)) where
  dispatch := dispatch
  dispatchMut := fun storage op => (applyOp storage op, respond storage op)
  cnIdx := responseCnIdx

def pageSlots : Slots := ⟨4096, 64⟩

/-- A thread of this replica holds an anchor on the read-only page in slot 7. -/
def firstAnchored : Nat → Option Nat
  | 0 => some 7
  | _ => none

/-- Another replica makes the page read-write; the entry is replayed by `path`. -/
def switchReplayedBy (path : ReplayPath) : List (ReplayedEntry (Modify BlockId 1)) :=
  [⟨path, switchToReadWrite, false⟩]

/-- `try_sync` replays the entry and neither clears the anchor nor flushes the page. -/
theorem effects_lost_replicaExec :
    ¬ SplitsAlike (directoryDispatch 1) pageSlots 1
      (.start _ (onePage none) firstAnchored) (switchReplayedBy .replicaExec) := by
  rintro ⟨split, whole, replayed, replayedWhole, _, _, sameFlushed⟩
  cases replayed
  cases replayedWhole
  have flushed : pageSlots.region 7 ∈ flushedRegions (Replayed.start
      (Option (GCDResponse BlockId 1)) (onePage none) firstAnchored) := by
    have inWhole : pageSlots.region 7 ∈ [pageSlots.region 7] := List.mem_singleton.mpr rfl
    exact sameFlushed ▸ inWhole
  cases flushed

end

end Megalon.Nr
