import Mathlib.Logic.Function.Basic

/-!
Contract: a memory shared by hosts that each keep a private, non-coherent cache
of its lines.

Owns: the load, store and flush steps of one line and their frame lemmas. A load
fills the line unless it is cached, a store works on the cached line and leaves
it dirty, a flush writes a dirty line back as a whole and drops it.

Does not own: what a line holds and which protocol keeps the caches useful.
-/

namespace Megalon.Foundations

open Function

/-- One cached line. -/
structure Line (Value : Type) where
  value : Value
  dirty : Bool
  deriving DecidableEq, Repr

/-- Memory lines and the private caches of the hosts. -/
structure Memory (Host Address Value : Type) where
  memory : Address → Value
  cache : Host → Address → Option (Line Value)

namespace Memory

variable {Host Address Value : Type}

/-- What a load of line `a` on host `h` returns. -/
def view (m : Memory Host Address Value) (h : Host) (a : Address) : Value :=
  match m.cache h a with
  | some line => line.value
  | none => m.memory a

variable {m : Memory Host Address Value} {h : Host} {a : Address}

theorem view_of_none (absent : m.cache h a = none) : m.view h a = m.memory a := by
  rw [view, absent]

theorem view_of_some {line : Line Value} (present : m.cache h a = some line) :
    m.view h a = line.value := by
  rw [view, present]

variable [DecidableEq Host] [DecidableEq Address]

def setLine (m : Memory Host Address Value) (h : Host) (a : Address)
    (line : Option (Line Value)) : Memory Host Address Value :=
  { m with cache := update m.cache h (update (m.cache h) a line) }

@[simp]
theorem memory_setLine (m : Memory Host Address Value) (h : Host) (a : Address)
    (line : Option (Line Value)) : (m.setLine h a line).memory = m.memory := rfl

@[simp]
theorem cache_setLine_same (m : Memory Host Address Value) (h : Host) (a : Address)
    (line : Option (Line Value)) : (m.setLine h a line).cache h a = line := by
  simp [setLine]

variable {k : Host} {b : Address}

theorem cache_setLine_of_ne (m : Memory Host Address Value) (line : Option (Line Value))
    (different : ¬(k = h ∧ b = a)) : (m.setLine h a line).cache k b = m.cache k b := by
  by_cases sameHost : k = h
  · subst sameHost
    have otherLine : b ≠ a := fun equal => different ⟨rfl, equal⟩
    simp [setLine, otherLine]
  · simp [setLine, sameHost]

def fill (m : Memory Host Address Value) (h : Host) (a : Address) : Memory Host Address Value :=
  match m.cache h a with
  | some _ => m
  | none => m.setLine h a (some ⟨m.memory a, false⟩)

def store (m : Memory Host Address Value) (h : Host) (a : Address) (v : Value) :
    Memory Host Address Value :=
  m.setLine h a (some ⟨v, true⟩)

/-- A store that changes part of a line works on what the host sees of it. -/
def modify (m : Memory Host Address Value) (h : Host) (a : Address) (f : Value → Value) :
    Memory Host Address Value :=
  m.store h a (f (m.view h a))

def flush (m : Memory Host Address Value) (h : Host) (a : Address) : Memory Host Address Value :=
  match m.cache h a with
  | some ⟨v, true⟩ =>
    ({ m with memory := update m.memory a v } : Memory Host Address Value).setLine
      h a none
  | _ => m.setLine h a none

@[simp]
theorem memory_fill (m : Memory Host Address Value) (h : Host) (a : Address) :
    (m.fill h a).memory = m.memory := by
  unfold fill
  split <;> rfl

@[simp]
theorem memory_store (m : Memory Host Address Value) (h : Host) (a : Address) (v : Value) :
    (m.store h a v).memory = m.memory := rfl

@[simp]
theorem cache_store_same (m : Memory Host Address Value) (h : Host) (a : Address)
    (v : Value) : (m.store h a v).cache h a = some ⟨v, true⟩ := by
  simp [store]

theorem cache_store_of_ne (m : Memory Host Address Value) (v : Value)
    (different : ¬(k = h ∧ b = a)) : (m.store h a v).cache k b = m.cache k b :=
  cache_setLine_of_ne m _ different

theorem cache_fill_of_ne (m : Memory Host Address Value) (different : ¬(k = h ∧ b = a)) :
    (m.fill h a).cache k b = m.cache k b := by
  unfold fill
  split
  · rfl
  · exact cache_setLine_of_ne m _ different

theorem cache_fill_same (m : Memory Host Address Value) (h : Host) (a : Address) :
    (m.fill h a).cache h a = some (((m.cache h a).getD ⟨m.memory a, false⟩)) := by
  unfold fill
  split
  · rename_i line present
    rw [present, Option.getD_some]
  · rename_i absent
    rw [absent, cache_setLine_same, Option.getD_none]

@[simp]
theorem cache_flush_same (m : Memory Host Address Value) (h : Host) (a : Address) :
    (m.flush h a).cache h a = none := by
  unfold flush
  split <;> exact cache_setLine_same _ h a none

theorem cache_flush_of_ne (m : Memory Host Address Value) (different : ¬(k = h ∧ b = a)) :
    (m.flush h a).cache k b = m.cache k b := by
  unfold flush
  split <;> exact cache_setLine_of_ne _ _ different

theorem memory_flush_of_ne (m : Memory Host Address Value) (h : Host) (different : b ≠ a) :
    (m.flush h a).memory b = m.memory b := by
  unfold flush
  split
  · simp [different]
  · rfl

theorem memory_flush_of_clean (clean : ∀ line, m.cache h a = some line → line.dirty = false) :
    (m.flush h a).memory = m.memory := by
  unfold flush
  split
  · rename_i v present
    exact absurd (clean _ present) (by simp)
  · rfl

theorem memory_flush_of_dirty {v : Value} (present : m.cache h a = some ⟨v, true⟩) :
    (m.flush h a).memory = update m.memory a v := by
  unfold flush
  rw [present]
  rfl

/-! ### Memory that one host uses -/

/-- Only host `h` has lines, and those it has not modified are as in memory. -/
structure OnlyBy (h : Host) (m : Memory Host Address Value) : Prop where
  others : ∀ k b, k ≠ h → m.cache k b = none
  clean : ∀ b line, m.cache h b = some line → line.dirty = false → line.value = m.memory b

theorem view_store (m : Memory Host Address Value) (h : Host) (a : Address) (v : Value) :
    (m.store h a v).view h = update (m.view h) a v := by
  funext b
  by_cases same : b = a
  · subst same
    rw [view_of_some (cache_store_same m h b v), update_self]
  · have untouched := cache_store_of_ne (k := h) (h := h) m v fun equal => same equal.2
    rw [view, untouched, update_of_ne same]
    rfl

theorem OnlyBy.store (only : m.OnlyBy h) (a : Address) (v : Value) : (m.store h a v).OnlyBy h where
  others := fun k b other => by
    rw [cache_store_of_ne m v fun equal => other equal.1]
    exact only.others k b other
  clean := fun b line present unmodified => by
    by_cases same : b = a
    · subst same
      rw [cache_store_same] at present
      cases present
      cases unmodified
    · rw [cache_store_of_ne m v fun equal => same equal.2] at present
      exact only.clean b line present unmodified

theorem view_fill (m : Memory Host Address Value) (h : Host) (a : Address) :
    (m.fill h a).view h = m.view h := by
  funext b
  by_cases same : b = a
  · subst same
    rw [view_of_some (cache_fill_same m h b), view]
    cases m.cache h b <;> rfl
  · have untouched := cache_fill_of_ne (k := h) (h := h) m fun equal => same equal.2
    rw [view, untouched, memory_fill]
    rfl

theorem OnlyBy.fill (only : m.OnlyBy h) (a : Address) : (m.fill h a).OnlyBy h where
  others := fun k b other => by
    rw [cache_fill_of_ne m fun equal => other equal.1]
    exact only.others k b other
  clean := fun b line present unmodified => by
    rw [memory_fill]
    by_cases same : b = a
    · subst same
      rw [cache_fill_same] at present
      cases before : m.cache h b <;> rw [before] at present <;> cases present
      · rfl
      · exact only.clean b _ before unmodified
    · rw [cache_fill_of_ne m fun equal => same equal.2] at present
      exact only.clean b line present unmodified

theorem OnlyBy.memory_flush (only : m.OnlyBy h) (a : Address) :
    (m.flush h a).memory a = m.view h a := by
  cases present : m.cache h a with
  | none => rw [memory_flush_of_clean (by simp [present]), view_of_none present]
  | some line =>
    obtain ⟨v, _ | _⟩ := line
    · rw [memory_flush_of_clean (by simp [present]), view_of_some present]
      exact (only.clean a _ present rfl).symm
    · rw [memory_flush_of_dirty present, view_of_some present, update_self]

theorem OnlyBy.flush (only : m.OnlyBy h) (k : Host) (a : Address) :
    (m.flush k a).OnlyBy h ∧ (m.flush k a).view h = m.view h := by
  by_cases mine : k = h
  · subst mine
    have kept : ∀ b, b ≠ a → (m.flush k a).cache k b = m.cache k b := fun b other =>
      cache_flush_of_ne m fun equal => other equal.2
    refine ⟨⟨fun k' b other => ?_, fun b line present unmodified => ?_⟩, funext fun b => ?_⟩
    · rw [cache_flush_of_ne m fun equal => other equal.1]
      exact only.others k' b other
    · by_cases same : b = a
      · subst same
        rw [cache_flush_same] at present
        cases present
      · rw [kept b same] at present
        rw [memory_flush_of_ne m k same]
        exact only.clean b line present unmodified
    · by_cases same : b = a
      · subst same
        rw [view_of_none (cache_flush_same m k b)]
        exact only.memory_flush b
      · rw [view, kept b same, memory_flush_of_ne m k same]
        rfl
  · -- another host has no line to write back
    have unchanged : m.flush k a = m := by
      have absent := only.others k a mine
      rw [Memory.flush, absent, setLine]
      simp [← absent]
    rw [unchanged]
    exact ⟨only, rfl⟩

/-! ### Lines that one host at a time modifies -/

section

omit [DecidableEq Host] [DecidableEq Address]

/-- No line is modified in two caches. -/
def Exclusive (m : Memory Host Address Value) : Prop :=
  ∀ h k a v w, m.cache h a = some ⟨v, true⟩ → m.cache k a = some ⟨w, true⟩ → h = k

open Classical in
/-- What a host has made of a line that it has modified, or else what memory holds. -/
noncomputable def latest (m : Memory Host Address Value) (a : Address) : Value :=
  if modified : ∃ v k, m.cache k a = some ⟨v, true⟩ then modified.choose else m.memory a

/-- No other host has modified the line, and an unmodified copy of it is as in memory. -/
structure UpToDate (m : Memory Host Address Value) (h : Host) (a : Address) : Prop where
  others : ∀ k v, m.cache k a = some ⟨v, true⟩ → k = h
  clean : ∀ v, m.cache h a = some ⟨v, false⟩ → v = m.memory a

variable {v : Value}

theorem latest_of_modified (exclusive : m.Exclusive) (present : m.cache h a = some ⟨v, true⟩) :
    m.latest a = v := by
  have modified : ∃ v k, m.cache k a = some ⟨v, true⟩ := ⟨v, h, present⟩
  obtain ⟨k, there⟩ := modified.choose_spec
  obtain rfl := exclusive _ _ _ _ _ present there
  rw [present] at there
  rw [latest, dif_pos modified, ← (Line.mk.inj (Option.some.inj there)).1]

theorem latest_of_clean (clean : ∀ k v, m.cache k a ≠ some ⟨v, true⟩) : m.latest a = m.memory a :=
  dif_neg fun ⟨v, k, present⟩ => clean k v present

theorem latest_congr {m' : Memory Host Address Value}
    (modified : ∀ k v, m'.cache k a = some ⟨v, true⟩ ↔ m.cache k a = some ⟨v, true⟩)
    (same : m'.memory a = m.memory a) : m'.latest a = m.latest a := by
  have values : (fun v => ∃ k, m'.cache k a = some ⟨v, true⟩) =
      fun v => ∃ k, m.cache k a = some ⟨v, true⟩ :=
    funext fun v => propext (exists_congr fun k => modified k v)
  rw [latest, latest, same]
  generalize (fun v => ∃ k, m'.cache k a = some ⟨v, true⟩) = chosen at values ⊢
  subst values
  rfl

theorem UpToDate.view (current : m.UpToDate h a) (exclusive : m.Exclusive) :
    m.view h a = m.latest a := by
  have unmodified (own : ∀ v, m.cache h a ≠ some ⟨v, true⟩) : m.latest a = m.memory a := by
    refine latest_of_clean fun k v present => ?_
    obtain rfl := current.others k v present
    exact own v present
  cases present : m.cache h a with
  | none => rw [view_of_none present, unmodified (by simp [present])]
  | some line =>
    obtain ⟨v, _ | _⟩ := line
    · rw [view_of_some present, unmodified (by simp [present])]
      exact current.clean v present
    · rw [view_of_some present, latest_of_modified exclusive present]

end

variable {v : Value}

theorem cache_fill_modified :
    (m.fill h a).cache k b = some ⟨v, true⟩ ↔ m.cache k b = some ⟨v, true⟩ := by
  by_cases same : k = h ∧ b = a
  · obtain ⟨rfl, rfl⟩ := same
    rw [cache_fill_same]
    cases m.cache k b <;> simp
  · rw [cache_fill_of_ne m same]

theorem Exclusive.fill (exclusive : m.Exclusive) (h : Host) (a : Address) :
    (m.fill h a).Exclusive ∧ (m.fill h a).latest = m.latest := by
  refine ⟨fun k k' b v w present present' => ?_, funext fun b => ?_⟩
  · exact exclusive k k' b v w (cache_fill_modified.mp present) (cache_fill_modified.mp present')
  · exact latest_congr (fun _ _ => cache_fill_modified) (by rw [memory_fill])

theorem Exclusive.store (exclusive : m.Exclusive) (current : m.UpToDate h a) (v : Value) :
    (m.store h a v).Exclusive ∧ (m.store h a v).latest = update m.latest a v := by
  have others : ∀ k w, (m.store h a v).cache k a = some ⟨w, true⟩ → k = h := by
    intro k w present
    by_contra other
    rw [cache_store_of_ne m v fun equal => other equal.1] at present
    exact other (current.others k w present)
  have kept : ∀ k b, b ≠ a → (m.store h a v).cache k b = m.cache k b := fun k b other =>
    cache_store_of_ne m v fun equal => other equal.2
  have after : (m.store h a v).Exclusive := by
    intro k k' b w w' present present'
    by_cases same : b = a
    · subst same
      rw [others k w present, others k' w' present']
    · rw [kept k b same] at present
      rw [kept k' b same] at present'
      exact exclusive k k' b w w' present present'
  refine ⟨after, funext fun b => ?_⟩
  by_cases same : b = a
  · subst same
    rw [latest_of_modified after (cache_store_same m h b v), update_self]
  · rw [update_of_ne same]
    exact latest_congr (fun k w => by rw [kept k b same]) rfl

theorem Exclusive.flush (exclusive : m.Exclusive) (h : Host) (a : Address) :
    (m.flush h a).Exclusive ∧ (m.flush h a).latest = m.latest := by
  have before : ∀ k b v, (m.flush h a).cache k b = some ⟨v, true⟩ →
      ¬(k = h ∧ b = a) ∧ m.cache k b = some ⟨v, true⟩ := by
    intro k b v present
    by_cases same : k = h ∧ b = a
    · obtain ⟨rfl, rfl⟩ := same
      simp at present
    · rw [cache_flush_of_ne m same] at present
      exact ⟨same, present⟩
  refine ⟨fun k k' b v w present present' => ?_, funext fun b => ?_⟩
  · exact exclusive k k' b v w (before k b v present).2 (before k' b w present').2
  by_cases written : b = a ∧ ∃ v, m.cache h a = some ⟨v, true⟩
  · obtain ⟨rfl, v, present⟩ := written
    rw [latest_of_modified exclusive present, latest_of_clean, memory_flush_of_dirty present,
      update_self]
    intro k w there
    obtain ⟨other, there⟩ := before k b w there
    exact other ⟨exclusive k h b w v there present, rfl⟩
  · refine latest_congr (fun k v => ⟨fun present => (before k b v present).2, fun present => ?_⟩) ?_
    · rwa [cache_flush_of_ne m]
      rintro ⟨rfl, rfl⟩
      exact written ⟨rfl, v, present⟩
    · by_cases same : b = a
      · subst same
        rw [memory_flush_of_clean]
        rintro ⟨v, _ | _⟩ present
        · rfl
        · exact absurd ⟨rfl, v, present⟩ written
      · exact memory_flush_of_ne m h same

end Memory

end Megalon.Foundations
