import Megalon.Nr.LogBounds

/-!
Contract: every replica executes a prefix of the one sequence of appended
operations, each entry read with the value its appender wrote.

Owns: the invariant that ties memory, the hosts' caches and the program counters
to the history of reservations, its step lemmas, and the replay theorem.

Does not own: the order of the counters, which `LogBounds` provides.
-/

namespace Megalon.Nr.Log

open Function Foundations

variable {Op : Type} {g : Geometry}

/-! ### What the history says about an entry -/

/-- Entry value `v` is what the appender of operation `i` wrote. -/
def Logged (appended : List (Op × Nat)) (i : Nat) (v : Entry Op) : Prop :=
  ∃ e, appended[i]? = some e ∧ v = ⟨some e.1, e.2⟩

variable {i : Nat}

theorem Logged.append {appended : List (Op × Nat)} {v : Entry Op} (logged : Logged appended i v)
    (more : List (Op × Nat)) : Logged (appended ++ more) i v := by
  obtain ⟨e, present, equal⟩ := logged
  have inside : i < appended.length := (List.getElem?_eq_some_iff.mp present).1
  exact ⟨e, by rw [List.getElem?_append_left inside, present], equal⟩

/-- The logical indices the ring holds at most one of per physical index. -/
def InWindow (g : Geometry) (tail i : Nat) : Prop :=
  i < tail ∧ tail ≤ i + g.slogLen

variable {tail j : Nat}

theorem InWindow.eq_of_index_eq (first : InWindow g tail i) (second : InWindow g tail j)
    (same : g.index i = g.index j) : i = j := by
  obtain ⟨belowI, aboveI⟩ := first
  obtain ⟨belowJ, aboveJ⟩ := second
  rcases Nat.le_total i j with ordered | ordered
  · exact g.eq_of_index_eq ordered (by omega) same
  · exact (g.eq_of_index_eq ordered (by omega) same.symm).symm

/-! ### Where a replica stands -/

/-- The batch a replica has reserved and not published, with its first index. -/
def Pc.reserved : Pc Op → Option (AppendFrame Op × Nat)
  | .appendStore frame tail _ _ | .appendFlush frame tail _ _ => some (frame, tail)
  | .publishWait frame start _ | .publishStore frame start _ => some (frame, start)
  | _ => none

def Pc.written : Pc Op → Nat
  | .appendStore _ _ _ i | .appendFlush _ _ _ i => i
  | .publishWait frame _ _ | .publishStore frame _ _ => frame.ops.length
  | _ => 0

def Pc.inFlight : Pc Op → Option Nat
  | .appendFlush _ tail _ i => some (tail + i)
  | _ => none

def Pc.Awaits : Pc Op → Nat → Prop
  | .execFlush _ ltail _ i, k => ltail ≤ k ∧ k < i
  | .execEntry _ gtail i, k => i ≤ k ∧ k < gtail
  | _, _ => False

def Pc.position (ltail : Nat) : Pc Op → Nat
  | .execEntry _ _ i => i
  | .execCtail _ gtail | .execDone _ gtail => gtail
  | _ => ltail

/-- The calls of the closure on replica `r` for a list of logged operations. -/
def callsOn (r : Nat) (ops : List (Op × Nat)) : List (Op × Bool) :=
  ops.map fun e => (e.1, decide (e.2 = r))

variable {pc : Pc Op} {frame : AppendFrame Op} {start : Nat}

theorem Pc.span_of_reserved (reserved : pc.reserved = some (frame, start)) :
    pc.span = some (start, frame.ops.length) := by
  cases pc <;> cases reserved <;> rfl

variable {r : Nat}

theorem Pc.written_le {t : Tails} (reserved : pc.reserved = some (frame, start))
    (holds : pc.loaded g t r) : pc.written ≤ frame.ops.length := by
  cases pc <;> cases reserved
  · exact Nat.le_of_lt holds
  · exact Nat.le_of_lt holds
  · exact le_rfl
  · exact le_rfl

theorem Pc.reserved_of_inFlight {t : Tails} (inFlight : pc.inFlight = some j)
    (holds : pc.loaded g t r) :
    ∃ frame start i, pc.reserved = some (frame, start) ∧ i < frame.ops.length ∧
      j = start + i := by
  cases pc <;> cases inFlight
  rename_i frame tail advance i
  exact ⟨frame, tail, i, rfl, holds, rfl⟩

/-- What a replica at `pc` relies on: its batch is in the history, the entries it
has written back are in memory, the entry in flight is in its host's cache unless it
was evicted to memory, and no awaited entry is cached with another value. -/
structure Claims (g : Geometry) (s : State Op) (r : Nat) (pc : Pc Op) : Prop where
  batch : ∀ {frame start}, pc.reserved = some (frame, start) →
    ∀ i < frame.ops.length, Logged s.appended (start + i) (frame.entry r i)
  written : ∀ {frame start}, pc.reserved = some (frame, start) →
    ∀ i < pc.written, Logged s.appended (start + i) (s.slog.memory (g.index (start + i)))
  inFlight : ∀ {j}, pc.inFlight = some j →
    (∃ line, s.slog.cache (g.host r) (g.index j) = some line ∧ line.dirty = true) ∨
      Logged s.appended j (s.slog.memory (g.index j))
  fresh : ∀ {k}, pc.Awaits k → ∀ line,
    s.slog.cache (g.host r) (g.index k) = some line → Logged s.appended k line.value
  neverEmpty : pc ≠ .panicked .emptyEntry

/-- A position without entries at hand. -/
def Pc.detached : Pc Op → Bool
  | .appendStore .. | .appendFlush .. | .publishWait .. | .publishStore .. => false
  | .execFlush _ ltail _ i => decide (i ≤ ltail)
  | .execEntry .. | .panicked .emptyEntry => false
  | _ => true

/-- A place between calls of the closure, up to which the replica has executed the log. -/
structure Pc.Rests (pc : Pc Op) : Prop where
  detached : pc.detached = true
  position : ∀ ltail, pc.position ltail = ltail

variable {s : State Op}

theorem Claims.ofFresh (reserved : pc.reserved = none) (inFlight : pc.inFlight = none)
    (neverEmpty : pc ≠ .panicked .emptyEntry) (fresh : ∀ {k}, pc.Awaits k → ∀ line,
      s.slog.cache (g.host r) (g.index k) = some line → Logged s.appended k line.value) :
    Claims g s r pc where
  batch := fun some => by rw [reserved] at some; cases some
  written := fun some => by rw [reserved] at some; cases some
  inFlight := fun some => by rw [inFlight] at some; cases some
  fresh := fresh
  neverEmpty := neverEmpty

/-- A replica at a position without entries at hand relies on nothing. -/
theorem Claims.of_detached (detached : pc.detached = true) : Claims g s r pc := by
  have awaits : ∀ {k}, ¬pc.Awaits k := by
    intro k awaits
    cases pc with
    | execFlush caller ltail gtail i =>
      have early : i ≤ ltail := of_decide_eq_true detached
      obtain ⟨above, below⟩ := awaits
      omega
    | _ => first | exact awaits | cases detached
  refine .ofFresh ?_ ?_ ?_ fun waits => absurd waits awaits
  · cases pc <;> first | rfl | cases detached
  · cases pc <;> first | rfl | cases detached
  · rintro rfl
    cases detached

/-- The replay invariant. Only entries in flight are dirty, on the host that stored
them; published entries the ring still holds are in memory. -/
structure ReplayInv (g : Geometry) (s : State Op) : Prop where
  unregistered : ∀ r, g.replicas ≤ r → s.pc r = .idle ∧ s.ltails r = 0
  length_eq : s.appended.length = s.tail
  published : ∀ {i}, i < s.commitTail → InWindow g s.tail i →
    Logged s.appended i (s.slog.memory (g.index i))
  claims : ∀ r, Claims g s r (s.pc r)
  dirty : ∀ {h a line}, s.slog.cache h a = some line → line.dirty = true →
    ∃ r j, (s.pc r).inFlight = some j ∧ g.host r = h ∧ g.index j = a ∧
      Logged s.appended j line.value
  executed : ∀ r, s.executed r =
    callsOn r (s.appended.take ((s.pc r).position (s.ltails r)))

theorem replayInv_initial : ReplayInv g (initial : State Op) where
  unregistered := fun _ _ => ⟨rfl, rfl⟩
  length_eq := rfl
  published := fun published => absurd published (Nat.not_lt_zero _)
  claims := fun _ => .of_detached rfl
  dirty := fun present => nomatch present
  executed := fun _ => rfl

/-! ### Consequences of the counters -/

section

variable {s : State Op} (tails : TailInv g s.tails s.pc)

include tails

theorem tail_le_commitTail_add : s.tail ≤ s.commitTail + g.slogLen := by
  have ring : s.tail ≤ s.ltails 0 + g.slogLen := tails.bounds.tail_le_ltail_add 0 g.registered
  have ordered : s.ltails 0 ≤ s.commitTail := tails.bounds.ltail_le_commitTail 0 g.registered
  omega

variable {i : Nat}

theorem inWindow_of_commitTail_le (unpublished : s.commitTail ≤ i) (below : i < s.tail) :
    InWindow g s.tail i :=
  ⟨below, (tail_le_commitTail_add tails).trans (Nat.add_le_add_right unpublished _)⟩

variable {r : Nat}

theorem reserved_inWindow {frame : AppendFrame Op} {start : Nat}
    (reserved : (s.pc r).reserved = some (frame, start)) (inBatch : i < frame.ops.length) :
    s.commitTail ≤ start + i ∧ InWindow g s.tail (start + i) := by
  have span := Pc.span_of_reserved reserved
  have below : start + frame.ops.length ≤ s.tail := tails.pending.le_tail span
  have above : s.commitTail ≤ start := tails.pending.commitTail_le span (by omega)
  exact ⟨by omega, inWindow_of_commitTail_le tails (by omega) (by omega)⟩

theorem inFlight_inWindow {j : Nat} (inFlight : (s.pc r).inFlight = some j) :
    s.commitTail ≤ j ∧ InWindow g s.tail j := by
  obtain ⟨frame, start, i, reserved, inBatch, rfl⟩ :=
    Pc.reserved_of_inFlight inFlight (tails.loaded r)
  exact reserved_inWindow tails reserved inBatch

theorem eq_of_inFlight_index_eq {q j : Nat} (first : (s.pc r).inFlight = some i)
    (second : (s.pc q).inFlight = some j) (same : g.index i = g.index j) : i = j :=
  (inFlight_inWindow tails first).2.eq_of_index_eq (inFlight_inWindow tails second).2 same

theorem awaits_inWindow {k : Nat} (registered : r < g.replicas) (awaits : (s.pc r).Awaits k) :
    k < s.commitTail ∧ InWindow g s.tail k := by
  have holds := tails.loaded r
  have ring : s.tail ≤ s.ltails r + g.slogLen := tails.bounds.tail_le_ltail_add r registered
  have published : s.commitTail ≤ s.tail := tails.bounds.commitTail_le_tail
  have bounds : s.ltails r ≤ k ∧ k < s.commitTail := by
    cases at_ : s.pc r <;> rw [at_] at holds awaits <;> try exact awaits.elim
    · obtain ⟨own, -, within, committed⟩ := holds
      have own : _ = s.ltails r := own
      have committed : _ ≤ s.commitTail := committed
      obtain ⟨above, below⟩ := awaits
      omega
    · obtain ⟨own, -, committed⟩ := holds
      have own : s.ltails r ≤ _ := own
      have committed : _ ≤ s.commitTail := committed
      obtain ⟨above, below⟩ := awaits
      omega
  exact ⟨bounds.2, by omega, by omega⟩

theorem position_le_commitTail (registered : r < g.replicas) :
    s.ltails r ≤ (s.pc r).position (s.ltails r) ∧
      (s.pc r).position (s.ltails r) ≤ s.commitTail := by
  have holds := tails.loaded r
  have ordered : s.ltails r ≤ s.commitTail := tails.bounds.ltail_le_commitTail r registered
  cases at_ : s.pc r <;> rw [at_] at holds <;> try exact ⟨le_rfl, ordered⟩
  · exact ⟨holds.1, holds.2.1.trans holds.2.2⟩
  · exact holds
  · exact holds

end

/-! ### Cache steps -/

theorem ReplayInv.registered (inv : ReplayInv g s) (busy : s.pc r ≠ .idle) : r < g.replicas := by
  by_contra outside
  exact busy (inv.unregistered r (Nat.le_of_not_lt outside)).1

variable {k : Nat}

theorem Pc.Awaits.ne_idle (awaits : pc.Awaits k) : pc ≠ .idle := by
  rintro rfl
  exact awaits

variable {h a : Nat}

/-- A flush anywhere leaves a logged entry in memory logged: a dirty line holds the
value of the entry in flight there. -/
theorem ReplayInv.memory_flush (inv : ReplayInv g s) (tails : TailInv g s.tails s.pc)
    (window : InWindow g s.tail j) (logged : Logged s.appended j (s.slog.memory (g.index j))) :
    Logged s.appended j ((s.slog.flush h a).memory (g.index j)) := by
  by_cases hit : g.index j = a
  · by_cases dirty : ∃ v, s.slog.cache h a = some ⟨v, true⟩
    · obtain ⟨v, present⟩ := dirty
      obtain ⟨r, j', inFlight, -, index, value⟩ := inv.dirty present rfl
      have equal : j' = j :=
        (inFlight_inWindow tails inFlight).2.eq_of_index_eq window (index.trans hit.symm)
      rw [Memory.memory_flush_of_dirty present, hit, update_self]
      exact equal ▸ value
    · rw [Memory.memory_flush_of_clean]
      · exact logged
      · rintro ⟨v, flag⟩ present
        cases flag with
        | false => rfl
        | true => exact absurd ⟨v, present⟩ dirty
  · rw [Memory.memory_flush_of_ne _ _ hit]
    exact logged

variable {m : Memory Nat Nat (Entry Op)} {b : Nat} {line : Line (Entry Op)}

theorem cache_of_flush (present : (m.flush h a).cache k b = some line) :
    m.cache k b = some line := by
  by_cases hit : k = h ∧ b = a
  · obtain ⟨rfl, rfl⟩ := hit
    rw [Memory.cache_flush_same] at present
    cases present
  · rwa [Memory.cache_flush_of_ne m hit] at present

theorem ReplayInv.flush (inv : ReplayInv g s) (tails : TailInv g s.tails s.pc) (h a : Nat) :
    ReplayInv g { s with slog := s.slog.flush h a } where
  unregistered := inv.unregistered
  length_eq := inv.length_eq
  published := fun published window =>
    inv.memory_flush tails window (inv.published published window)
  claims := by
    intro r
    have old := inv.claims r
    refine ⟨old.batch, ?_, ?_, ?_, old.neverEmpty⟩
    · intro frame start reserved i done
      have inBatch : i < frame.ops.length :=
        lt_of_lt_of_le done (Pc.written_le reserved (tails.loaded r))
      have window := (reserved_inWindow tails reserved inBatch).2
      exact inv.memory_flush tails window (old.written reserved i done)
    · intro j inFlight
      have window := (inFlight_inWindow tails inFlight).2
      rcases old.inFlight inFlight with ⟨line, present, dirty⟩ | logged
      · by_cases hit : g.host r = h ∧ g.index j = a
        · obtain ⟨rfl, rfl⟩ := hit
          obtain ⟨r', j', inFlight', -, index, value⟩ := inv.dirty present dirty
          have equal : j' = j := eq_of_inFlight_index_eq tails inFlight' inFlight index
          obtain ⟨v, flag⟩ := line
          cases dirty
          right
          rw [Memory.memory_flush_of_dirty present, update_self]
          exact equal ▸ value
        · exact .inl ⟨line, (Memory.cache_flush_of_ne _ hit).trans present, dirty⟩
      · exact .inr (inv.memory_flush tails window logged)
    · intro k awaits line present
      exact old.fresh awaits line (cache_of_flush present)
  dirty := fun present dirty => inv.dirty (cache_of_flush present) dirty
  executed := inv.executed

theorem cache_of_fill (present : (m.fill h a).cache k b = some line) :
    m.cache k b = some line ∨ line = ⟨m.memory b, false⟩ := by
  by_cases hit : k = h ∧ b = a
  · obtain ⟨rfl, rfl⟩ := hit
    rw [Memory.cache_fill_same] at present
    cases before : m.cache k b with
    | none =>
      rw [before] at present
      exact .inr (Option.some.inj present).symm
    | some old =>
      rw [before] at present
      exact .inl present
  · rw [Memory.cache_fill_of_ne _ hit] at present
    exact .inl present

theorem cache_fill_of_some (present : m.cache k b = some line) :
    (m.fill h a).cache k b = some line := by
  by_cases hit : k = h ∧ b = a
  · obtain ⟨rfl, rfl⟩ := hit
    rw [Memory.cache_fill_same, present, Option.getD_some]
  · rw [Memory.cache_fill_of_ne _ hit, present]

theorem ReplayInv.fill (inv : ReplayInv g s) (tails : TailInv g s.tails s.pc) (h a : Nat) :
    ReplayInv g { s with slog := s.slog.fill h a } where
  unregistered := inv.unregistered
  length_eq := inv.length_eq
  published := by
    intro i published window
    rw [show (s.slog.fill h a).memory = s.slog.memory from Memory.memory_fill _ _ _]
    exact inv.published published window
  claims := by
    intro r
    have old := inv.claims r
    have sameMemory : (s.slog.fill h a).memory = s.slog.memory := Memory.memory_fill _ _ _
    refine ⟨old.batch, ?_, ?_, ?_, old.neverEmpty⟩
    · rw [sameMemory]
      exact old.written
    · intro j inFlight
      rw [sameMemory]
      rcases old.inFlight inFlight with ⟨line, present, dirty⟩ | logged
      · exact .inl ⟨line, cache_fill_of_some present, dirty⟩
      · exact .inr logged
    · intro k awaits line present
      rcases cache_of_fill present with before | rfl
      · exact old.fresh awaits line before
      · obtain ⟨published, window⟩ :=
          awaits_inWindow tails (inv.registered awaits.ne_idle) awaits
        exact inv.published published window
  dirty := by
    intro k b line present dirty
    rcases cache_of_fill present with before | rfl
    · exact inv.dirty before dirty
    · cases dirty
  executed := inv.executed

/-! ### Program steps -/

/-- Replica `r` moves on and changes at most its own calls and local tail. If it leaves an
entry in flight, that entry is no longer dirty. -/
theorem ReplayInv.advance {next : Pc Op} {head ctail : Nat} {ltails : Nat → Nat}
    {executed : Nat → List (Op × Bool)} (inv : ReplayInv g s) (registered : r < g.replicas)
    (claims : Claims g s r next)
    (released : ∀ j, (s.pc r).inFlight = some j → s.slog.cache (g.host r) (g.index j) = none)
    (others : ∀ q, q ≠ r → ltails q = s.ltails q ∧ executed q = s.executed q)
    (calls : executed r = callsOn r (s.appended.take (next.position (ltails r)))) :
    ReplayInv g ({ s with
      head := head, ctail := ctail, ltails := ltails, executed := executed }.goto r next) where
  unregistered := by
    intro q outside
    have different : q ≠ r := by omega
    rw [goto_pc_of_ne _ next different]
    exact ⟨(inv.unregistered q outside).1,
      (others q different).1.trans (inv.unregistered q outside).2⟩
  length_eq := inv.length_eq
  published := inv.published
  claims := by
    intro q
    have holds := forall_goto (P := fun q pc => Claims g s q pc) claims
      (fun q _ => inv.claims q) q
    exact ⟨holds.batch, holds.written, holds.inFlight, holds.fresh, holds.neverEmpty⟩
  dirty := by
    intro h a line present dirty
    have present : s.slog.cache h a = some line := present
    obtain ⟨q, j, inFlight, host, index, logged⟩ := inv.dirty present dirty
    have different : q ≠ r := by
      rintro rfl
      have absent := released j inFlight
      rw [host, index] at absent
      exact absurd (absent.symm.trans present) (by simp)
    exact ⟨q, j, by rw [goto_pc_of_ne _ _ different]; exact inFlight, host, index, logged⟩
  executed := by
    refine forall_goto (P := fun q pc => executed q =
      callsOn q (s.appended.take (pc.position (ltails q)))) calls fun q different => ?_
    rw [(others q different).1, (others q different).2]
    exact inv.executed q

theorem ReplayInv.goto {next : Pc Op} (inv : ReplayInv g s) (registered : r < g.replicas)
    (claims : Claims g s r next)
    (released : ∀ j, (s.pc r).inFlight = some j → s.slog.cache (g.host r) (g.index j) = none)
    (position : next.position (s.ltails r) = (s.pc r).position (s.ltails r)) :
    ReplayInv g (s.goto r next) :=
  inv.advance registered claims released (fun _ _ => ⟨rfl, rfl⟩) (position ▸ inv.executed r)

/-- The counters that no replica has to wait for may change, too. -/
theorem ReplayInv.gotoDetached {old next : Pc Op} {head ctail : Nat} (inv : ReplayInv g s)
    (registered : r < g.replicas) (at_ : s.pc r = old) (detached : next.detached = true)
    (landed : old.inFlight = none)
    (position : next.position (s.ltails r) = old.position (s.ltails r)) :
    ReplayInv g ({ s with head := head, ctail := ctail }.goto r next) := by
  refine inv.advance registered (.of_detached detached) ?_ (fun _ _ => ⟨rfl, rfl⟩) ?_
  · intro j inFlight
    rw [at_, landed] at inFlight
    cases inFlight
  · rw [position, ← at_]
    exact inv.executed r

theorem ReplayInv.gotoRest {old next : Pc Op} {head ctail : Nat} (inv : ReplayInv g s)
    (registered : r < g.replicas) (at_ : s.pc r = old) (rests : next.Rests)
    (landed : old.inFlight = none) (position : old.position (s.ltails r) = s.ltails r) :
    ReplayInv g ({ s with head := head, ctail := ctail }.goto r next) :=
  inv.gotoDetached registered at_ rests.detached landed ((rests.position _).trans position.symm)

variable {advance : Bool}

/-- What a replica relies on that has written the first `i` entries of its batch. -/
theorem Claims.afterEntry (within : i ≤ frame.ops.length)
    (batch : ∀ k < frame.ops.length, Logged s.appended (tail + k) (frame.entry r k))
    (written : ∀ k < i, Logged s.appended (tail + k) (s.slog.memory (g.index (tail + k)))) :
    Claims g s r (afterEntry frame tail advance i) := by
  unfold Log.afterEntry
  split
  · exact ⟨fun reserved => by cases reserved; exact batch,
      fun reserved => by cases reserved; exact written, fun inFlight => (nomatch inFlight),
      fun awaits => awaits.elim, by simp⟩
  · obtain rfl : i = frame.ops.length := by omega
    exact ⟨fun reserved => by cases reserved; exact batch,
      fun reserved => by cases reserved; exact written, fun inFlight => (nomatch inFlight),
      fun awaits => awaits.elim, by simp⟩

theorem afterEntry_position (frame : AppendFrame Op) (tail : Nat) (advance : Bool)
    (i ltail : Nat) : (afterEntry frame tail advance i).position ltail = ltail := by
  unfold afterEntry
  split <;> rfl

theorem ReplayInv.extend (inv : ReplayInv g s) (tails : TailInv g s.tails s.pc)
    (more : List (Op × Nat)) :
    ReplayInv g { s with tail := s.tail + more.length, appended := s.appended ++ more } where
  unregistered := inv.unregistered
  length_eq := by rw [List.length_append, inv.length_eq]
  published := by
    intro i published window
    have below : i < s.tail := lt_of_lt_of_le published tails.bounds.commitTail_le_tail
    have window' : InWindow g s.tail i := ⟨below, (Nat.le_add_right _ _).trans window.2⟩
    exact (inv.published published window').append more
  claims := by
    intro r
    have old := inv.claims r
    refine ⟨?_, ?_, ?_, ?_, old.neverEmpty⟩
    · exact fun reserved i inBatch => (old.batch reserved i inBatch).append more
    · exact fun reserved i done => (old.written reserved i done).append more
    · exact fun inFlight => (old.inFlight inFlight).imp_right fun logged => logged.append more
    · exact fun awaits line present => (old.fresh awaits line present).append more
  dirty := by
    intro h a line present dirty
    obtain ⟨r, j, inFlight, host, index, logged⟩ := inv.dirty present dirty
    exact ⟨r, j, inFlight, host, index, logged.append more⟩
  executed := by
    intro r
    have reach : (s.pc r).position (s.ltails r) ≤ s.appended.length := by
      rw [inv.length_eq]
      by_cases registered : r < g.replicas
      · exact (position_le_commitTail tails registered).2.trans tails.bounds.commitTail_le_tail
      · obtain ⟨idle, zero⟩ := inv.unregistered r (Nat.le_of_not_lt registered)
        rw [idle, zero]
        exact Nat.zero_le _
    show s.executed r = callsOn r ((s.appended ++ more).take ((s.pc r).position (s.ltails r)))
    rw [List.take_append_of_le_length reach]
    exact inv.executed r

theorem ReplayInv.reserve (inv : ReplayInv g s) (tails : TailInv g s.tails s.pc)
    (registered : r < g.replicas) (at_ : s.pc r = .appendReserve frame s.tail advance) :
    ReplayInv g ({ s with
      tail := s.tail + frame.ops.length
      appended := s.appended ++ frame.ops.map fun op => (op, r) }.goto r
        (afterEntry frame s.tail advance 0)) := by
  have extended := inv.extend tails (frame.ops.map fun op => (op, r))
  rw [List.length_map] at extended
  refine extended.goto registered (.afterEntry (Nat.zero_le _) ?_ fun k done =>
    absurd done (Nat.not_lt_zero k)) ?_ ?_
  · intro i inBatch
    refine ⟨(frame.ops[i], r), ?_, ?_⟩
    · show (s.appended ++ frame.ops.map fun op => (op, r))[s.tail + i]? = _
      rw [← inv.length_eq, List.getElem?_append_right (Nat.le_add_right _ _),
        Nat.add_sub_cancel_left, List.getElem?_map, List.getElem?_eq_getElem inBatch]
      rfl
    · simp only [AppendFrame.entry, List.getElem?_eq_getElem inBatch]
  · intro j inFlight
    have inFlight : (s.pc r).inFlight = some j := inFlight
    rw [at_] at inFlight
    cases inFlight
  · show _ = (s.pc r).position (s.ltails r)
    rw [at_, afterEntry_position]
    rfl

theorem ReplayInv.store (inv : ReplayInv g s) (tails : TailInv g s.tails s.pc)
    (registered : r < g.replicas) (at_ : s.pc r = .appendStore frame tail advance i) :
    ReplayInv g ({ s with
      slog := s.slog.store (g.host r) (g.index (tail + i)) (frame.entry r i) }.goto r
        (.appendFlush frame tail advance i)) := by
  have reserved : (s.pc r).reserved = some (frame, tail) := by rw [at_]; rfl
  have inBatch : i < frame.ops.length := by
    have holds := tails.loaded r
    rw [at_] at holds
    exact holds
  obtain ⟨unpublished, window⟩ := reserved_inWindow tails reserved inBatch
  have logged := (inv.claims r).batch reserved i inBatch
  have own := inv.claims r
  rw [at_] at own
  refine
    { unregistered := ?_
      length_eq := inv.length_eq
      published := inv.published
      claims := ?_
      dirty := ?_
      executed := ?_ }
  · intro q outside
    have different : q ≠ r := by omega
    rw [goto_pc_of_ne _ _ different]
    exact inv.unregistered q outside
  · refine forall_goto (P := fun q pc => Claims g _ q pc) ?_ ?_
    · refine ⟨own.batch, own.written, ?_, fun awaits => awaits.elim, by simp⟩
      intro j inFlight
      cases inFlight
      exact .inl ⟨_, Memory.cache_store_same _ _ _ _, rfl⟩
    · intro q different
      have old := inv.claims q
      refine ⟨old.batch, old.written, ?_, ?_, old.neverEmpty⟩
      · intro j inFlight
        by_cases hit : g.host q = g.host r ∧ g.index j = g.index (tail + i)
        · rw [hit.1, hit.2]
          exact .inl ⟨_, Memory.cache_store_same _ _ _ _, rfl⟩
        · rcases old.inFlight inFlight with ⟨line, present, dirty⟩ | logged
          · exact .inl ⟨line, (Memory.cache_store_of_ne _ _ hit).trans present, dirty⟩
          · exact .inr logged
      · intro k awaits line present
        obtain ⟨published, windowK⟩ :=
          awaits_inWindow tails (inv.registered awaits.ne_idle) awaits
        -- the awaited entry is published, the stored one is not
        have miss : ¬(g.host q = g.host r ∧ g.index k = g.index (tail + i)) := by
          rintro ⟨-, same⟩
          have := windowK.eq_of_index_eq window same
          omega
        exact old.fresh awaits line ((Memory.cache_store_of_ne _ _ miss).symm.trans present)
  · intro h a line present dirty
    by_cases hit : h = g.host r ∧ a = g.index (tail + i)
    · obtain ⟨rfl, rfl⟩ := hit
      have stored := (Memory.cache_store_same s.slog (g.host r) (g.index (tail + i))
        (frame.entry r i)).symm.trans present
      cases stored
      exact ⟨r, tail + i, by rw [goto_pc_same]; rfl, rfl, rfl, logged⟩
    · have before := (Memory.cache_store_of_ne s.slog (frame.entry r i) hit).symm.trans present
      obtain ⟨q, j, inFlight, rest⟩ := inv.dirty before dirty
      have different : q ≠ r := by
        rintro rfl
        rw [at_] at inFlight
        cases inFlight
      exact ⟨q, j, by rw [goto_pc_of_ne _ _ different]; exact inFlight, rest⟩
  · refine forall_goto (P := fun q pc => s.executed q =
      callsOn q (s.appended.take (pc.position (s.ltails q)))) ?_ fun q _ => inv.executed q
    have before := inv.executed r
    rw [at_] at before
    exact before

theorem ReplayInv.landed (inv : ReplayInv g s) (tails : TailInv g s.tails s.pc)
    (registered : r < g.replicas) (at_ : s.pc r = .appendFlush frame tail advance i)
    (dropped : s.slog.cache (g.host r) (g.index (tail + i)) = none) :
    ReplayInv g (s.goto r (afterEntry frame tail advance (i + 1))) := by
  have inBatch : i < frame.ops.length := by
    have holds := tails.loaded r
    rw [at_] at holds
    exact holds
  have own := inv.claims r
  rw [at_] at own
  have inMemory : Logged s.appended (tail + i) (s.slog.memory (g.index (tail + i))) := by
    rcases own.inFlight rfl with ⟨line, present, -⟩ | logged
    · rw [dropped] at present
      cases present
    · exact logged
  refine inv.goto registered (.afterEntry inBatch (own.batch rfl) fun k done => ?_) ?_ ?_
  · -- the entry that just landed, or one written before it
    rcases Nat.lt_succ_iff_lt_or_eq.mp done with earlier | rfl
    · exact own.written rfl k earlier
    · exact inMemory
  · intro j inFlight
    rw [at_] at inFlight
    cases inFlight
    exact dropped
  · rw [at_, afterEntry_position]
    rfl

theorem afterPublish_rests (frame : AppendFrame Op) (advance : Bool) :
    (afterPublish frame advance).Rests := by
  unfold afterPublish
  split <;> exact ⟨rfl, fun _ => rfl⟩

theorem ReplayInv.publish (inv : ReplayInv g s) (tails : TailInv g s.tails s.pc)
    (registered : r < g.replicas) (at_ : s.pc r = .publishStore frame start advance) :
    ReplayInv g ({ s with commitTail := start + frame.ops.length }.goto r
      (afterPublish frame advance)) := by
  have atStart : s.commitTail = start := by
    have holds := tails.loaded r
    rw [at_] at holds
    exact holds.1
  have own := inv.claims r
  rw [at_] at own
  have moved : ReplayInv g (s.goto r (afterPublish frame advance)) :=
    inv.gotoRest registered at_ (afterPublish_rests frame advance) rfl rfl
  refine
    { unregistered := moved.unregistered
      length_eq := moved.length_eq
      published := ?_
      claims := ?_
      dirty := moved.dirty
      executed := moved.executed }
  · intro i published window
    have published : i < start + frame.ops.length := published
    by_cases before : i < s.commitTail
    · exact inv.published before window
    · have split : i = start + (i - start) := by omega
      rw [split]
      exact own.written rfl (i - start) (by simp only [Pc.written]; omega)
  · intro q
    have holds := moved.claims q
    exact ⟨holds.batch, holds.written, holds.inFlight, holds.fresh, holds.neverEmpty⟩

variable {caller : ExecCaller Op} {gtail : Nat}

theorem ReplayInv.await {ltail : Nat} (inv : ReplayInv g s) (registered : r < g.replicas)
    (at_ : s.pc r = .execFlush caller ltail gtail i)
    (dropped : s.slog.cache (g.host r) (g.index i) = none) :
    ReplayInv g (s.goto r (.execFlush caller ltail gtail (i + 1))) := by
  have own := inv.claims r
  rw [at_] at own
  refine inv.goto registered (.ofFresh rfl rfl (by simp) ?_) ?_ ?_
  · intro k awaits line present
    rcases Nat.lt_succ_iff_lt_or_eq.mp awaits.2 with earlier | rfl
    · exact own.fresh ⟨awaits.1, earlier⟩ line present
    · rw [dropped] at present
      cases present
  · intro j inFlight
    rw [at_] at inFlight
    cases inFlight
  · rw [at_]
    rfl

theorem ReplayInv.loaded_logged (inv : ReplayInv g s) (tails : TailInv g s.tails s.pc)
    (registered : r < g.replicas) (at_ : s.pc r = .execEntry caller gtail i) (pending : i < gtail) :
    Logged s.appended i
      ((s.slog.fill (g.host r) (g.index i)).view (g.host r) (g.index i)) := by
  have awaits : (s.pc r).Awaits i := by
    rw [at_]
    exact ⟨le_rfl, pending⟩
  rw [Memory.view_of_some (Memory.cache_fill_same _ _ _)]
  cases present : s.slog.cache (g.host r) (g.index i) with
  | none =>
    obtain ⟨published, window⟩ := awaits_inWindow tails registered awaits
    exact inv.published published window
  | some line => exact (inv.claims r).fresh awaits line present

theorem ReplayInv.execute {e : Op × Nat} (inv : ReplayInv g s) (registered : r < g.replicas)
    (at_ : s.pc r = .execEntry caller gtail i) (present : s.appended[i]? = some e) :
    ReplayInv g ({ s with
      executed := update s.executed r
        (s.executed r ++ [(e.1, decide (e.2 = r))]) }.goto r
          (.execEntry caller gtail (i + 1))) := by
  have own := inv.claims r
  rw [at_] at own
  refine inv.advance registered (.ofFresh rfl rfl (by simp) ?_) ?_
    (fun q different => ⟨rfl, update_of_ne different ..⟩) ?_
  · intro k awaits
    exact own.fresh ⟨(Nat.le_succ i).trans awaits.1, awaits.2⟩
  · intro j inFlight
    rw [at_] at inFlight
    cases inFlight
  · have before := inv.executed r
    rw [at_] at before
    rw [update_self, before]
    show callsOn r (s.appended.take i) ++ _ = callsOn r (s.appended.take (i + 1))
    rw [List.take_add_one, present]
    simp [callsOn]

theorem afterExec_rests (caller : ExecCaller Op) : (afterExec caller).Rests := by
  cases caller <;> exact ⟨rfl, fun _ => rfl⟩

theorem ReplayInv.storeLtail (inv : ReplayInv g s) (registered : r < g.replicas)
    (at_ : s.pc r = .execDone caller gtail) :
    ReplayInv g ({ s with ltails := update s.ltails r gtail }.goto r
      (afterExec caller)) := by
  refine inv.advance registered (.of_detached (afterExec_rests caller).detached) ?_
    (fun q different => ⟨update_of_ne different .., rfl⟩) ?_
  · intro j inFlight
    rw [at_] at inFlight
    cases inFlight
  · have before := inv.executed r
    rw [at_] at before
    rw [(afterExec_rests caller).position, update_self]
    exact before

theorem afterMinTail_rests (minReplicaIdx minLocalTail : Nat) (caller : MinTailCaller Op) :
    (afterMinTail minReplicaIdx minLocalTail caller).Rests := by
  cases caller with
  | appendStuck frame => exact ⟨rfl, fun _ => rfl⟩
  | advanceHead frame globalHead f =>
    simp only [afterMinTail]
    split
    · split
      · cases frame.caller <;> exact ⟨rfl, fun _ => rfl⟩
      · exact ⟨rfl, fun _ => rfl⟩
    · exact ⟨rfl, fun _ => rfl⟩

theorem afterHead_rests (frame : AppendFrame Op) (tail head : Nat) :
    (afterHead g frame tail head).Rests := by
  unfold afterHead
  split
  · split <;> exact ⟨rfl, fun _ => rfl⟩
  · exact ⟨rfl, fun _ => rfl⟩

/-- **Step lemma.** Every shared access keeps the replay invariant. -/
theorem replayInv_stepReplica {s' : State Op} (registered : r < g.replicas)
    (tails : TailInv g s.tails s.pc) (inv : ReplayInv g s) (taken : stepReplica g s r = some s') :
    ReplayInv g s' := by
  have holds := tails.loaded r
  unfold stepReplica at taken
  split at taken
  all_goals rename_i at_
  all_goals rw [at_] at holds
  · cases taken
  · cases taken
  · cases taken
  -- append
  · split at taken <;> cases taken <;>
      exact inv.gotoDetached registered at_ rfl rfl rfl
  · cases taken
    exact inv.gotoRest registered at_ (afterHead_rests _ _ _) rfl rfl
  · split at taken
    · rename_i won
      cases taken
      subst won
      exact inv.reserve tails registered at_
    · cases taken
      exact inv.gotoDetached registered at_ rfl rfl rfl
  · cases taken
    exact inv.store tails registered at_
  · cases taken
    exact (inv.flush tails _ _).landed tails registered at_ (Memory.cache_flush_same _ _ _)
  -- publish
  · rename_i frame start advance
    split at taken
    · cases taken
      exact inv.gotoRest registered at_ (afterPublish_rests _ _) rfl rfl
    · split at taken <;> cases taken
      · have own := inv.claims r
        rw [at_] at own
        refine inv.goto registered
          ⟨own.batch, own.written, own.inFlight, own.fresh, by simp⟩ ?_ (by rw [at_]; rfl)
        intro j inFlight
        rw [at_] at inFlight
        cases inFlight
      · exact inv
  · cases taken
    exact inv.publish tails registered at_
  -- exec
  · cases taken
    exact inv.gotoDetached registered at_ rfl rfl rfl
  · split at taken <;> cases taken
    · exact inv.gotoRest registered at_ (afterExec_rests _) rfl rfl
    · exact inv.gotoDetached registered at_ rfl rfl rfl
  · split at taken <;> cases taken
    · exact inv.gotoDetached registered at_ rfl rfl rfl
    · exact inv.gotoDetached registered at_ (by simp [Pc.detached]) rfl rfl
  · split at taken <;> cases taken
    · exact (inv.flush tails _ _).await registered at_ (Memory.cache_flush_same _ _ _)
    · rename_i complete
      have own := inv.claims r
      rw [at_] at own
      obtain ⟨ltailEq, started, within, -⟩ := holds
      refine inv.goto registered (.ofFresh rfl rfl (by simp) ?_) ?_ ?_
      · rintro k ⟨above, below⟩
        exact own.fresh ⟨above, by omega⟩
      · intro j inFlight
        rw [at_] at inFlight
        cases inFlight
      · rw [at_]
        exact ltailEq
  · split at taken
    · rename_i pending
      obtain ⟨e, present, value⟩ := inv.loaded_logged tails registered at_ pending
      simp only [value] at taken
      cases taken
      exact (inv.fill tails _ _).execute registered at_ present
    · rename_i complete
      cases taken
      have reached : _ = _ := Nat.le_antisymm holds.2.1 (Nat.le_of_not_lt complete)
      exact inv.gotoDetached registered at_ rfl rfl
        reached.symm
  · cases taken
    exact inv.gotoDetached registered at_ rfl rfl rfl
  · cases taken
    exact inv.storeLtail registered at_
  -- advance_head and find_min_tail
  · cases taken
    exact inv.gotoDetached registered at_ rfl rfl rfl
  · cases taken
    exact inv.gotoDetached registered at_ rfl rfl rfl
  · cases taken
    exact inv.gotoDetached registered at_ rfl rfl rfl
  · split at taken
    · split at taken <;> cases taken <;>
        exact inv.gotoDetached registered at_ rfl rfl rfl
    · cases taken
      exact inv.gotoRest registered at_ (afterMinTail_rests _ _ _) rfl rfl
  · rename_i frame f minLocalTail
    split at taken <;> cases taken
    · exact inv.gotoDetached registered at_ (by cases frame.caller <;> rfl) rfl
        (by cases frame.caller <;> rfl)
    · exact inv.gotoDetached registered at_ rfl rfl rfl

theorem Pc.free_spec (free : pc.free = true) :
    pc.inFlight = none ∧ ∀ ltail, pc.position ltail = ltail := by
  cases pc <;> first | exact ⟨rfl, fun _ => rfl⟩ | cases free

theorem replayInv_step {s' : State Op} {e : Event Op} (tails : TailInv g s.tails s.pc)
    (inv : ReplayInv g s) (taken : step g s e = some s') : ReplayInv g s' := by
  cases stepForm_of_step taken with
  | append registered free | exec registered free =>
    obtain ⟨landed, position⟩ := Pc.free_spec free
    exact inv.gotoDetached registered rfl rfl landed
      (position _).symm
  | access registered taken => exact replayInv_stepReplica registered tails inv taken
  | prefetch => exact inv.fill tails _ _
  | evict => exact inv.flush tails _ _

/-- **Run lemma.** The replay invariant holds in every reachable state. -/
theorem replayInv_of_reachable (reached : (system g Op).Reachable s) : ReplayInv g s := by
  have both : TailInv g s.tails s.pc ∧ ReplayInv g s := by
    refine System.Reachable.invariant
      (P := fun s => TailInv g s.tails s.pc ∧ ReplayInv g s) ?_ ?_ reached
    · rintro s rfl
      exact ⟨tailInv_initial, replayInv_initial⟩
    · rintro s e s' ⟨tails, inv⟩ taken
      exact ⟨tailInv_step tails taken, replayInv_step tails inv taken⟩
  exact both.2

/-- **Replay is a prefix of one log.** In every reachable state each replica has
executed exactly the first `n` operations of the reservation order, once each and in
that order, with the values their appenders wrote and `mine` set for its own; `n` is
between its local tail and the commit tail, and no entry was read empty. -/
theorem executed_eq_take {s : State Op} (reached : (system g Op).Reachable s) {r : Nat}
    (registered : r < g.replicas) :
    s.appended.length = s.tail ∧
      (∃ n, s.ltails r ≤ n ∧ n ≤ s.commitTail ∧
        s.executed r = (s.appended.take n).map fun e => (e.1, decide (e.2 = r))) ∧
      s.pc r ≠ .panicked .emptyEntry := by
  have tails := tailInv_of_reachable reached
  have inv := replayInv_of_reachable reached
  obtain ⟨above, below⟩ := position_le_commitTail tails registered
  exact ⟨inv.length_eq, ⟨_, above, below, inv.executed r⟩, (inv.claims r).neverEmpty⟩

theorem executed_eq_take_appendThenExec :
    ∃ s : State Nat, (system twoReplicas Nat).Reachable s ∧ s.appended = [(7, 0)] ∧
      s.executed 1 = [(7, false)] ∧ ∃ n, s.ltails 1 ≤ n ∧ n ≤ s.commitTail ∧
        s.executed 1 = (s.appended.take n).map fun e => (e.1, decide (e.2 = 1)) := by
  have reached := System.reachable_get_run (system twoReplicas Nat) rfl appendThenExec (by rfl)
  exact ⟨_, reached, rfl, rfl, (executed_eq_take reached (by decide)).2.1⟩

end Megalon.Nr.Log
