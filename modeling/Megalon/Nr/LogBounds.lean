import Megalon.Nr.Log

/-!
Contract: the tails of the log stay ordered and the ring never overtakes a
replica.

Owns: the invariant over the tails and the program counters, phrased over the
local tails because `head` may move backwards, its step lemmas, and the bounds of
every reachable state.

Does not own: what the entries hold.
-/

namespace Megalon.Nr.Log

open Foundations

variable {Op : Type} {g : Geometry}

/-- The coherent counters of the log. -/
structure Tails where
  head : Nat
  tail : Nat
  ctail : Nat
  commitTail : Nat
  ltails : Nat → Nat

def State.tails (s : State Op) : Tails :=
  ⟨s.head, s.tail, s.ctail, s.commitTail, s.ltails⟩

/-- The order of the counters for every registered replica. -/
structure Bounds (g : Geometry) (t : Tails) : Prop where
  head_le_ltail : ∀ r < g.replicas, t.head ≤ t.ltails r
  ltail_le_commitTail : ∀ r < g.replicas, t.ltails r ≤ t.commitTail
  commitTail_le_tail : t.commitTail ≤ t.tail
  ctail_le_commitTail : t.ctail ≤ t.commitTail
  tail_le_ltail_add : ∀ r < g.replicas, t.tail ≤ t.ltails r + g.slogLen

/-! ### Reserved, unpublished spans -/

/-- The first index and the length of a batch that is reserved and not published. -/
def Pc.span : Pc Op → Option (Nat × Nat)
  | .appendStore frame tail _ _ | .appendFlush frame tail _ _ => some (tail, frame.ops.length)
  | .publishWait frame start _ | .publishStore frame start _ => some (start, frame.ops.length)
  | _ => none

/-- Reserved spans lie between the commit tail and the tail, apart from each other. -/
structure Pending (tail commitTail : Nat) (pc : Nat → Pc Op) : Prop where
  le_tail : ∀ {r start n}, (pc r).span = some (start, n) → start + n ≤ tail
  commitTail_le : ∀ {r start n}, (pc r).span = some (start, n) → 0 < n → commitTail ≤ start
  apart : ∀ {r q start n start' m}, r ≠ q → (pc r).span = some (start, n) →
    (pc q).span = some (start', m) → 0 < n → 0 < m → start + n ≤ start' ∨ start' + m ≤ start

/-! ### Batches -/

/-- The batch of the `append` call an `advance_head` belongs to. -/
def AdvanceCaller.frame : AdvanceCaller Op → AppendFrame Op
  | .gcWait frame | .afterAppend frame => frame

def ExecCaller.frame : ExecCaller Op → Option (AppendFrame Op)
  | .replica => none
  | .gcWait frame => some frame
  | .advanceHead frame => some frame.caller.frame

def MinTailCaller.frame : MinTailCaller Op → AppendFrame Op
  | .appendStuck frame => frame
  | .advanceHead frame _ _ => frame.caller.frame

/-- The batch of the `append` call a replica is in. -/
def Pc.frame : Pc Op → Option (AppendFrame Op)
  | .idle | .returned _ | .panicked _ => none
  | .appendTail frame | .appendHead frame _ | .appendReserve frame _ _ => some frame
  | .appendStore frame _ _ _ | .appendFlush frame _ _ _ => some frame
  | .publishWait frame _ _ | .publishStore frame _ _ => some frame
  | .execLtail caller | .execGtail caller _ | .execHead caller _ _ => caller.frame
  | .execFlush caller _ _ _ | .execEntry caller _ _ => caller.frame
  | .execCtail caller _ | .execDone caller _ => caller.frame
  | .advanceGlobalHead frame | .advanceF frame _ => some frame.caller.frame
  | .minTailFirst caller | .minTailNext caller _ _ _ => some caller.frame
  | .advanceStore frame _ _ => some frame.caller.frame

/-- Every batch a replica works on fits the garbage-collection margin. -/
def Pc.batchFits (pc : Pc Op) : Prop :=
  ∀ frame, pc.frame = some frame → frame.ops.length ≤ gcFromHead

/-! ### Loaded values -/

/-- What the values a replica has loaded still say about the counters. A head that
was loaded is below every local tail since then, whatever `head` holds by now. -/
def Pc.loaded (g : Geometry) (t : Tails) (r : Nat) : Pc Op → Prop
  | .panicked reason => reason ≠ .localTailOutsideLog
  | .appendReserve _ tail _ => ∀ q < g.replicas, tail + gcFromHead ≤ t.ltails q + g.slogLen
  | .appendStore frame _ _ i | .appendFlush frame _ _ i => i < frame.ops.length
  | .publishStore frame start _ => t.commitTail = start ∧ 0 < frame.ops.length
  | .execGtail _ ltail => ltail = t.ltails r
  | .execHead _ ltail gtail => ltail = t.ltails r ∧ ltail ≤ gtail ∧ gtail ≤ t.commitTail
  | .execFlush _ ltail gtail i =>
    ltail = t.ltails r ∧ ltail ≤ i ∧ i ≤ gtail ∧ gtail ≤ t.commitTail
  | .execEntry _ gtail i => t.ltails r ≤ i ∧ i ≤ gtail ∧ gtail ≤ t.commitTail
  | .execCtail _ gtail | .execDone _ gtail => t.ltails r ≤ gtail ∧ gtail ≤ t.commitTail
  | .minTailNext _ idx _ minLocalTail => ∀ q < idx, minLocalTail ≤ t.ltails q
  | .advanceStore _ _ minLocalTail => ∀ q < g.replicas, minLocalTail ≤ t.ltails q
  | _ => True

/-- The invariant of the counters. -/
structure TailInv (g : Geometry) (t : Tails) (pc : Nat → Pc Op) : Prop where
  bounds : Bounds g t
  pending : Pending t.tail t.commitTail pc
  batchFits : ∀ r, (pc r).batchFits
  loaded : ∀ r, (pc r).loaded g t r

theorem tailInv_initial : TailInv g (initial : State Op).tails (initial : State Op).pc where
  bounds :=
    { head_le_ltail := fun _ _ => le_rfl
      ltail_le_commitTail := fun _ _ => le_rfl
      commitTail_le_tail := le_rfl
      ctail_le_commitTail := le_rfl
      tail_le_ltail_add := fun _ _ => Nat.zero_le _ }
  pending :=
    { le_tail := fun span => nomatch span
      commitTail_le := fun span => nomatch span
      apart := fun _ span => nomatch span }
  batchFits := fun _ _ inFrame => nomatch inFrame
  loaded := fun _ => trivial

/-! ### Step lemmas -/

variable {t : Tails} {r : Nat}

theorem Pc.loaded.mono {t' : Tails} {pc : Pc Op} (holds : pc.loaded g t r)
    (own : t'.ltails r = t.ltails r) (ltails : ∀ q, t.ltails q ≤ t'.ltails q)
    (commitTail : t.commitTail ≤ t'.commitTail)
    (published : ∀ frame start advance, pc = .publishStore frame start advance →
      t'.commitTail = t.commitTail) : pc.loaded g t' r := by
  cases pc with
  | appendReserve frame tail advance =>
    intro q registered
    exact le_trans (holds q registered) (Nat.add_le_add_right (ltails q) _)
  | publishStore frame start advance =>
    exact ⟨(published _ _ _ rfl).trans holds.1, holds.2⟩
  | execGtail caller ltail => exact holds.trans own.symm
  | execHead caller ltail gtail =>
    exact ⟨holds.1.trans own.symm, holds.2.1, holds.2.2.trans commitTail⟩
  | execFlush caller ltail gtail i =>
    exact ⟨holds.1.trans own.symm, holds.2.1, holds.2.2.1, holds.2.2.2.trans commitTail⟩
  | execEntry caller gtail i =>
    exact ⟨own.trans_le holds.1, holds.2.1, holds.2.2.trans commitTail⟩
  | execCtail caller gtail => exact ⟨own.trans_le holds.1, holds.2.trans commitTail⟩
  | execDone caller gtail => exact ⟨own.trans_le holds.1, holds.2.trans commitTail⟩
  | minTailNext caller idx minReplicaIdx minLocalTail =>
    intro q scanned
    exact (holds q scanned).trans (ltails q)
  | advanceStore frame f minLocalTail =>
    intro q registered
    exact (holds q registered).trans (ltails q)
  | _ => exact holds

variable {tail : Nat} {next : Pc Op}

/-- A new program counter of one replica keeps the spans apart when its span is
the one the replica had, or none. -/
theorem Pending.update {commitTail : Nat} {pc : Nat → Pc Op} (pending : Pending tail commitTail pc)
    (kept : next.span = none ∨ next.span = (pc r).span) :
    Pending tail commitTail (Function.update pc r next) := by
  have old : ∀ {q start n}, (Function.update pc r next q).span = some (start, n) →
      (pc q).span = some (start, n) := by
    intro q start n span
    by_cases same : q = r
    · subst same
      rw [Function.update_self] at span
      rcases kept with none | equal
      · rw [none] at span
        exact nomatch span
      · exact equal ▸ span
    · rwa [Function.update_of_ne same] at span
  exact
    { le_tail := fun span => pending.le_tail (old span)
      commitTail_le := fun span => pending.commitTail_le (old span)
      apart := fun different span span' => pending.apart different (old span) (old span') }

variable {s : State Op}

theorem TailInv.goto (inv : TailInv g s.tails s.pc)
    (kept : next.span = none ∨ next.span = (s.pc r).span) (fits : next.batchFits)
    (holds : next.loaded g s.tails r) : TailInv g (s.goto r next).tails (s.goto r next).pc where
  bounds := inv.bounds
  pending := inv.pending.update kept
  batchFits := forall_goto fits fun q _ => inv.batchFits q
  loaded := forall_goto holds fun q _ => inv.loaded q

/-- A program counter that has no span, for a replica that leaves its own or has none. -/
structure Pc.Leaves (g : Geometry) (t : Tails) (r : Nat) (next : Pc Op) : Prop where
  span : next.span = none
  fits : next.batchFits
  loaded : next.loaded g t r

theorem TailInv.leave (inv : TailInv g s.tails s.pc) (leaves : next.Leaves g s.tails r) :
    TailInv g (s.goto r next).tails (s.goto r next).pc :=
  inv.goto (.inl leaves.span) leaves.fits leaves.loaded

variable {frame : AppendFrame Op} {advance : Bool}

theorem afterEntry_loaded {i : Nat} : (afterEntry frame tail advance i).loaded g t r := by
  unfold afterEntry
  split
  · rename_i inBatch
    exact inBatch
  · trivial

theorem afterEntry_span (frame : AppendFrame Op) (tail : Nat) (advance : Bool) (i : Nat) :
    (afterEntry frame tail advance i).span = some (tail, frame.ops.length) := by
  unfold afterEntry
  split <;> rfl

theorem afterEntry_frame (frame : AppendFrame Op) (tail : Nat) (advance : Bool) (i : Nat) :
    (afterEntry frame tail advance i).frame = some frame := by
  unfold afterEntry
  split <;> rfl

theorem TailInv.reserve {appended : List (Op × Nat)} (inv : TailInv g s.tails s.pc)
    (at_ : s.pc r = .appendReserve frame s.tail advance) :
    TailInv g
      ({ s with tail := s.tail + frame.ops.length, appended := appended }.goto r
        (afterEntry frame s.tail advance 0)).tails
      ({ s with tail := s.tail + frame.ops.length, appended := appended }.goto r
        (afterEntry frame s.tail advance 0)).pc := by
  have fits : frame.ops.length ≤ gcFromHead := by
    have := inv.batchFits r
    rw [at_] at this
    exact this frame rfl
  have margin := inv.loaded r
  rw [at_] at margin
  have span := afterEntry_span frame s.tail advance 0
  have old : ∀ {q start n}, q ≠ r →
      ((s.goto r (afterEntry frame s.tail advance 0)).pc q).span = some (start, n) →
      (s.pc q).span = some (start, n) := by
    intro q start n different spanOf
    rwa [goto_pc_of_ne s _ different] at spanOf
  -- every older span ends at or below the old tail, where the new one starts
  have below : ∀ {q start n}, (s.pc q).span = some (start, n) → start + n ≤ s.tail :=
    fun spanOf => inv.pending.le_tail spanOf
  refine ⟨?_, ⟨?_, ?_, ?_⟩, ?_, ?_⟩
  · exact
      { head_le_ltail := inv.bounds.head_le_ltail
        ltail_le_commitTail := inv.bounds.ltail_le_commitTail
        commitTail_le_tail := inv.bounds.commitTail_le_tail.trans (Nat.le_add_right _ _)
        ctail_le_commitTail := inv.bounds.ctail_le_commitTail
        tail_le_ltail_add := by
          intro q registered
          have room := margin q registered
          simp only [State.tails, State.goto] at room ⊢
          omega }
  · intro q start n spanOf
    by_cases same : q = r
    · subst same
      rw [goto_pc_same, span] at spanOf
      cases spanOf
      exact le_rfl
    · exact (below (old same spanOf)).trans (Nat.le_add_right _ _)
  · intro q start n spanOf positive
    by_cases same : q = r
    · subst same
      rw [goto_pc_same, span] at spanOf
      cases spanOf
      exact inv.bounds.commitTail_le_tail
    · exact inv.pending.commitTail_le (old same spanOf) positive
  · intro p q start n start' m different spanOf spanOf' positive positive'
    by_cases first : p = r
    · subst first
      rw [goto_pc_same, span] at spanOf
      cases spanOf
      exact .inr (below (old (Ne.symm different) spanOf'))
    · by_cases second : q = r
      · subst second
        rw [goto_pc_same, span] at spanOf'
        cases spanOf'
        exact .inl (below (old first spanOf))
      · exact inv.pending.apart different (old first spanOf) (old second spanOf')
          positive positive'
  · refine forall_goto ?_ fun q _ => inv.batchFits q
    intro inner inFrame
    rw [afterEntry_frame, Option.some.injEq] at inFrame
    exact inFrame ▸ fits
  · refine forall_goto (P := fun q pc => pc.loaded g _ q) ?_ fun q _ => ?_
    · exact afterEntry_loaded
    · exact (inv.loaded q).mono rfl (fun _ => le_rfl) le_rfl fun _ _ _ _ => rfl

theorem afterPublish_leaves (fits : frame.ops.length ≤ gcFromHead) :
    (afterPublish frame advance).Leaves g t r := by
  unfold afterPublish
  split
  · exact ⟨rfl, fun inner equal => Option.some.inj equal ▸ fits, trivial⟩
  · exact ⟨rfl, fun inner equal => (nomatch equal), trivial⟩

theorem TailInv.publish {start : Nat} (inv : TailInv g s.tails s.pc)
    (at_ : s.pc r = .publishStore frame start advance) :
    TailInv g
      ({ s with commitTail := start + frame.ops.length }.goto r
        (afterPublish frame advance)).tails
      ({ s with commitTail := start + frame.ops.length }.goto r
        (afterPublish frame advance)).pc := by
  have span : (s.pc r).span = some (start, frame.ops.length) := by rw [at_]; rfl
  have ready := inv.loaded r
  rw [at_] at ready
  obtain ⟨atStart, positive⟩ := ready
  have grows : s.commitTail ≤ start + frame.ops.length := by
    have : s.commitTail = start := atStart
    omega
  have leaves : (afterPublish frame advance).Leaves g
      ({ s with commitTail := start + frame.ops.length } : State Op).tails r :=
    afterPublish_leaves (inv.batchFits r frame (by rw [at_]; rfl))
  have old : ∀ {q start' n},
      ((s.goto r (afterPublish frame advance)).pc q).span = some (start', n) →
      q ≠ r ∧ (s.pc q).span = some (start', n) := by
    intro q start' n spanOf
    by_cases same : q = r
    · subst same
      rw [goto_pc_same, leaves.span] at spanOf
      exact nomatch spanOf
    · rw [goto_pc_of_ne s _ same] at spanOf
      exact ⟨same, spanOf⟩
  refine ⟨?_, ⟨?_, ?_, ?_⟩, ?_, ?_⟩
  · exact
      { head_le_ltail := inv.bounds.head_le_ltail
        ltail_le_commitTail := fun q registered =>
          (inv.bounds.ltail_le_commitTail q registered).trans grows
        commitTail_le_tail := inv.pending.le_tail span
        ctail_le_commitTail := inv.bounds.ctail_le_commitTail.trans grows
        tail_le_ltail_add := inv.bounds.tail_le_ltail_add }
  · intro q start' n spanOf
    exact inv.pending.le_tail (old spanOf).2
  · intro q start' n spanOf positive'
    -- the other span starts at or above the old commit tail, hence after this one
    obtain ⟨different, spanOf⟩ := old spanOf
    have above := inv.pending.commitTail_le spanOf positive'
    rcases inv.pending.apart (Ne.symm different) span spanOf positive positive' with after | before
    · exact after
    · have : s.tails.commitTail = start := atStart
      omega
  · intro p q start' n start'' m different spanOf spanOf'
    exact inv.pending.apart different (old spanOf).2 (old spanOf').2
  · exact forall_goto leaves.fits fun q _ => inv.batchFits q
  · refine forall_goto (P := fun q pc => pc.loaded g _ q) leaves.loaded fun q different => ?_
    refine (inv.loaded q).mono rfl (fun _ => le_rfl) grows ?_
    -- two batches at the commit tail would overlap
    intro frame' start' advance' at'
    exfalso
    have ready' := inv.loaded q
    rw [at'] at ready'
    obtain ⟨atStart', positive'⟩ := ready'
    have span' : (s.pc q).span = some (start', frame'.ops.length) := by rw [at']; rfl
    have equal : start' = start := atStart'.symm.trans atStart
    have := inv.pending.apart (Ne.symm different) span span' positive positive'
    omega

theorem afterExec_leaves {caller : ExecCaller Op}
    (fits : ∀ frame, caller.frame = some frame → frame.ops.length ≤ gcFromHead) :
    (afterExec caller).Leaves g t r := by
  cases caller <;> exact ⟨rfl, fits, trivial⟩

theorem TailInv.storeLtail {gtail : Nat} {caller : ExecCaller Op} (inv : TailInv g s.tails s.pc)
    (at_ : s.pc r = .execDone caller gtail) :
    TailInv g
      ({ s with ltails := Function.update s.ltails r gtail }.goto r (afterExec caller)).tails
      ({ s with ltails := Function.update s.ltails r gtail }.goto r (afterExec caller)).pc := by
  have ready := inv.loaded r
  rw [at_] at ready
  obtain ⟨above, published⟩ := ready
  have grows : ∀ q, s.ltails q ≤ Function.update s.ltails r gtail q := by
    intro q
    by_cases same : q = r
    · subst same
      rw [Function.update_self]
      exact above
    · rw [Function.update_of_ne same]
  have leaves : (afterExec caller).Leaves g
      ({ s with ltails := Function.update s.ltails r gtail } : State Op).tails r :=
    afterExec_leaves fun inner inFrame => inv.batchFits r inner (by rw [at_]; exact inFrame)
  refine ⟨?_, inv.pending.update (.inl leaves.span), ?_, ?_⟩
  · exact
      { head_le_ltail := fun q registered =>
          (inv.bounds.head_le_ltail q registered).trans (grows q)
        ltail_le_commitTail := by
          intro q registered
          show Function.update s.ltails r gtail q ≤ s.commitTail
          by_cases same : q = r
          · subst same
            rw [Function.update_self]
            exact published
          · rw [Function.update_of_ne same]
            exact inv.bounds.ltail_le_commitTail q registered
        commitTail_le_tail := inv.bounds.commitTail_le_tail
        ctail_le_commitTail := inv.bounds.ctail_le_commitTail
        tail_le_ltail_add := fun q registered =>
          (inv.bounds.tail_le_ltail_add q registered).trans (Nat.add_le_add_right (grows q) _) }
  · exact forall_goto leaves.fits fun q _ => inv.batchFits q
  · refine forall_goto (P := fun q pc => pc.loaded g _ q) leaves.loaded fun q different => ?_
    have own : Function.update s.ltails r gtail q = s.ltails q :=
      Function.update_of_ne different _ _
    exact (inv.loaded q).mono own grows le_rfl fun _ _ _ _ => rfl

theorem TailInv.storeHead {f minLocalTail : Nat} {frame : AdvanceFrame Op}
    (inv : TailInv g s.tails s.pc) (at_ : s.pc r = .advanceStore frame f minLocalTail)
    (leaves : ∀ t, next.Leaves g t r) :
    TailInv g ({ s with head := minLocalTail }.goto r next).tails
      ({ s with head := minLocalTail }.goto r next).pc := by
  have minimal := inv.loaded r
  rw [at_] at minimal
  refine ⟨?_, inv.pending.update (.inl (leaves s.tails).span), ?_, ?_⟩
  · exact { inv.bounds with head_le_ltail := minimal }
  · exact forall_goto (leaves s.tails).fits fun q _ => inv.batchFits q
  · refine forall_goto (P := fun q pc => pc.loaded g _ q) (leaves _).loaded fun q _ => ?_
    exact (inv.loaded q).mono rfl (fun _ => le_rfl) le_rfl fun _ _ _ _ => rfl

theorem TailInv.raiseCtail {gtail : Nat} {caller : ExecCaller Op} (inv : TailInv g s.tails s.pc)
    (at_ : s.pc r = .execCtail caller gtail) :
    TailInv g ({ s with ctail := max s.ctail gtail }.goto r (.execDone caller gtail)).tails
      ({ s with ctail := max s.ctail gtail }.goto r (.execDone caller gtail)).pc := by
  have ready := inv.loaded r
  rw [at_] at ready
  refine ⟨?_, inv.pending.update (.inl rfl), ?_, ?_⟩
  · exact { inv.bounds with
      ctail_le_commitTail := max_le inv.bounds.ctail_le_commitTail ready.2 }
  · refine forall_goto ?_ fun q _ => inv.batchFits q
    intro inner inFrame
    exact inv.batchFits r inner (by rw [at_]; exact inFrame)
  · refine forall_goto (P := fun q pc => pc.loaded g _ q) ready fun q _ => ?_
    exact (inv.loaded q).mono rfl (fun _ => le_rfl) le_rfl fun _ _ _ _ => rfl

theorem afterAdvance_leaves {caller : AdvanceCaller Op}
    (fits : caller.frame.ops.length ≤ gcFromHead) : (afterAdvance caller).Leaves g t r := by
  cases caller with
  | gcWait frame => exact ⟨rfl, fun inner equal => Option.some.inj equal ▸ fits, trivial⟩
  | afterAppend frame => exact ⟨rfl, fun inner equal => (nomatch equal), trivial⟩

theorem afterMinTail_leaves {caller : MinTailCaller Op} {minReplicaIdx minLocalTail : Nat}
    (fits : caller.frame.ops.length ≤ gcFromHead)
    (minimal : ∀ q < g.replicas, minLocalTail ≤ t.ltails q) :
    (afterMinTail minReplicaIdx minLocalTail caller).Leaves g t r := by
  cases caller with
  | appendStuck frame => exact ⟨rfl, fun inner equal => (nomatch equal), trivial⟩
  | advanceHead frame globalHead f =>
    simp only [afterMinTail]
    split
    · split
      · cases stuckCaller : frame.caller <;>
          exact ⟨rfl, fun inner equal => (nomatch equal), trivial⟩
      · exact ⟨rfl, fun inner equal => Option.some.inj equal ▸ fits, trivial⟩
    · exact ⟨rfl, fun inner equal => Option.some.inj equal ▸ fits, minimal⟩

/-- Once `head` is loaded, the tail that passes the room test leaves room for any
batch above every local tail. -/
theorem afterHead_leaves (bounds : Bounds g t) (fits : frame.ops.length ≤ gcFromHead) :
    (afterHead g frame tail t.head).Leaves g t r := by
  unfold afterHead
  split
  · split
    · exact ⟨rfl, fun inner equal => by cases equal; exact fits, trivial⟩
    · exact ⟨rfl, fun inner equal => by cases equal; exact fits, trivial⟩
  · rename_i hasRoom
    refine ⟨rfl, fun inner equal => by cases equal; exact fits, ?_⟩
    intro q registered
    have := bounds.head_le_ltail q registered
    have := g.room
    omega

variable {s' : State Op}

/-- **Step lemma.** Every shared access keeps the invariant of the counters. -/
theorem tailInv_stepReplica (registered : r < g.replicas) (inv : TailInv g s.tails s.pc)
    (taken : stepReplica g s r = some s') : TailInv g s'.tails s'.pc := by
  have fits := inv.batchFits r
  have holds := inv.loaded r
  unfold stepReplica at taken
  split at taken
  all_goals rename_i at_
  all_goals rw [at_] at fits holds
  · cases taken
  · cases taken
  · cases taken
  -- append
  · split at taken <;> cases taken
    · exact inv.goto (.inl rfl) fits trivial
    · rename_i frame _
      exact inv.goto (.inl rfl) (fun inner equal => by cases equal; exact fits frame rfl) trivial
  · cases taken
    exact inv.leave (afterHead_leaves inv.bounds (fits _ rfl))
  · split at taken
    · rename_i won
      cases taken
      subst won
      exact inv.reserve at_
    · cases taken
      exact inv.goto (.inl rfl) fits trivial
  · cases taken
    exact inv.goto (.inr (by rw [at_]; rfl)) fits holds
  · cases taken
    refine inv.goto (.inr ?_) (fun inner equal => ?_) afterEntry_loaded
    · rw [afterEntry_span, at_]
      rfl
    · exact fits inner (by rw [← equal, afterEntry_frame]; rfl)
  -- publish
  · rename_i frame start advance
    split at taken
    · cases taken
      exact inv.leave (afterPublish_leaves (fits _ rfl))
    · rename_i nonempty
      split at taken
      · rename_i atStart
        cases taken
        exact inv.goto (.inr (by rw [at_]; rfl)) fits ⟨atStart, Nat.pos_of_ne_zero nonempty⟩
      · cases taken
        exact inv
  · cases taken
    exact inv.publish at_
  -- exec
  · cases taken
    exact inv.goto (.inl rfl) fits rfl
  · rename_i caller ltail
    split at taken <;> cases taken
    · exact inv.leave (afterExec_leaves fits)
    · refine inv.goto (.inl rfl) fits ⟨holds, ?_, le_rfl⟩
      have ordered := inv.bounds.ltail_le_commitTail r registered
      have equal : ltail = s.ltails r := holds
      exact equal ▸ ordered
  · obtain ⟨own, ordered, published⟩ := holds
    split at taken
    · rename_i outside
      exfalso
      have := inv.bounds.head_le_ltail r registered
      have : s.tails.head = s.head := rfl
      omega
    · cases taken
      exact inv.goto (.inl rfl) fits ⟨own, le_rfl, ordered, published⟩
  · obtain ⟨own, started, within, published⟩ := holds
    split at taken <;> cases taken
    · exact inv.goto (.inl rfl) fits ⟨own, by omega, by omega, published⟩
    · exact inv.goto (.inl rfl) fits ⟨own.ge, started.trans within, published⟩
  · obtain ⟨own, within, published⟩ := holds
    split at taken
    · simp only at taken
      split at taken <;> cases taken
      · exact inv.goto (.inl rfl) fits ⟨by omega, by omega, published⟩
      · exact inv.goto (.inl rfl) (fun inner equal => (nomatch equal)) (by simp [Pc.loaded])
    · cases taken
      exact inv.goto (.inl rfl) fits ⟨own.trans within, published⟩
  · cases taken
    exact inv.raiseCtail at_
  · cases taken
    exact inv.storeLtail at_
  -- advance_head and find_min_tail
  · cases taken
    exact inv.goto (.inl rfl) fits trivial
  · cases taken
    exact inv.goto (.inl rfl) fits trivial
  · cases taken
    exact inv.goto (.inl rfl) fits fun q scanned => absurd scanned (Nat.not_lt_zero q)
  · rename_i caller idx minReplicaIdx minLocalTail
    split at taken
    · split at taken
      · rename_i smaller
        cases taken
        refine inv.goto (.inl rfl) fits fun q scanned => ?_
        rcases Nat.lt_succ_iff_lt_or_eq.mp scanned with earlier | rfl
        · exact (Nat.le_of_lt smaller).trans (holds q earlier)
        · exact le_rfl
      · rename_i larger
        cases taken
        refine inv.goto (.inl rfl) fits fun q scanned => ?_
        rcases Nat.lt_succ_iff_lt_or_eq.mp scanned with earlier | rfl
        · exact holds q earlier
        · exact Nat.le_of_not_lt larger
    · rename_i complete
      cases taken
      have minimal : ∀ q < g.replicas, minLocalTail ≤ s.tails.ltails q :=
        fun q registeredQ => holds q (by omega)
      exact inv.leave (afterMinTail_leaves (fits _ rfl) minimal)
  · split at taken <;> cases taken
    · exact inv.storeHead at_ fun _ => afterAdvance_leaves (fits _ rfl)
    · exact inv.storeHead at_ fun _ => ⟨rfl, fits, trivial⟩

theorem tailInv_step {e : Event Op} (inv : TailInv g s.tails s.pc) (taken : step g s e = some s') :
    TailInv g s'.tails s'.pc := by
  cases stepForm_of_step taken with
  | append _ _ fits =>
    exact inv.goto (.inl rfl) (fun inner equal => by cases equal; exact fits) trivial
  | exec => exact inv.goto (.inl rfl) (fun inner equal => (nomatch equal)) trivial
  | access registered taken => exact tailInv_stepReplica registered inv taken
  | prefetch | evict => exact inv

/-- **Run lemma.** The invariant of the counters holds in every reachable state. -/
theorem tailInv_of_reachable (reached : (system g Op).Reachable s) : TailInv g s.tails s.pc := by
  refine System.Reachable.invariant (P := fun s => TailInv g s.tails s.pc) ?_ ?_ reached
  · rintro s rfl
    exact tailInv_initial
  · intro s e s' inv taken
    exact tailInv_step inv taken

/-! ### The commit tail -/

theorem stepReplica_commitTail (taken : stepReplica g s r = some s') :
    s'.commitTail = s.commitTail ∨ ∃ frame start advance,
      s.pc r = .publishStore frame start advance ∧
        s'.commitTail = start + frame.ops.length := by
  unfold stepReplica at taken
  split at taken
  case h_10 frame start advance at_ =>
    cases taken
    exact .inr ⟨frame, start, advance, at_, rfl⟩
  all_goals
    left
    repeat' first | split at taken | (simp only at taken; split at taken)
    all_goals cases taken
    all_goals rfl

theorem commitTail_le_of_step {e : Event Op} (inv : TailInv g s.tails s.pc)
    (taken : step g s e = some s') : s.commitTail ≤ s'.commitTail := by
  cases stepForm_of_step taken with
  | @access r _ _ taken =>
    rcases stepReplica_commitTail taken with equal | ⟨frame, start, advance, at_, moved⟩
    · exact equal.ge
    · have ready := inv.loaded r
      rw [at_] at ready
      have atStart : s.commitTail = start := ready.1
      omega
  | _ => exact le_rfl

theorem index_ne_of_store (inv : TailInv g s.tails s.pc) {i : Nat}
    (at_ : s.pc r = .appendStore frame tail advance i) {q k : Nat} (registered : q < g.replicas)
    (notExecuted : s.ltails q ≤ k) (reserved : k < s.tail) (other : k ≠ tail + i) :
    g.index k ≠ g.index (tail + i) := by
  have inBatch := inv.loaded r
  rw [at_] at inBatch
  have span : (s.pc r).span = some (tail, frame.ops.length) := by rw [at_]; rfl
  have below : tail + frame.ops.length ≤ s.tail := inv.pending.le_tail span
  have above : s.commitTail ≤ tail :=
    inv.pending.commitTail_le span (Nat.lt_of_le_of_lt (Nat.zero_le i) inBatch)
  have ltail : s.ltails q ≤ s.commitTail := inv.bounds.ltail_le_commitTail q registered
  have ring : s.tail ≤ s.ltails q + g.slogLen := inv.bounds.tail_le_ltail_add q registered
  have inBatch : i < frame.ops.length := inBatch
  intro same
  rcases Nat.le_total k (tail + i) with ordered | ordered
  · exact other (g.eq_of_index_eq ordered (by omega) same)
  · exact other (g.eq_of_index_eq ordered (by omega) same.symm).symm

/-- **Ring bounds.** In every reachable state the counters are ordered for every
registered replica, the ring never laps a local tail, the commit tail only grows,
no entry that a replica has yet to execute is overwritten, and `exec` never finds
its local tail outside the log. -/
theorem ring_bounds {s : State Op} (reached : (system g Op).Reachable s) :
    (∀ r < g.replicas, s.head ≤ s.ltails r ∧ s.ltails r ≤ s.commitTail ∧
        s.tail ≤ s.ltails r + g.slogLen) ∧
      s.commitTail ≤ s.tail ∧ s.ctail ≤ s.commitTail ∧
      (∀ e s', step g s e = some s' → s.commitTail ≤ s'.commitTail) ∧
      (∀ r frame tail advance i, s.pc r = .appendStore frame tail advance i →
        ∀ q < g.replicas, ∀ k, s.ltails q ≤ k → k < s.tail → k ≠ tail + i →
          g.index k ≠ g.index (tail + i)) ∧
      ∀ r, s.pc r ≠ .panicked .localTailOutsideLog := by
  have inv := tailInv_of_reachable reached
  refine ⟨?_, inv.bounds.commitTail_le_tail, inv.bounds.ctail_le_commitTail, ?_, ?_, ?_⟩
  · intro r registered
    exact ⟨inv.bounds.head_le_ltail r registered, inv.bounds.ltail_le_commitTail r registered,
      inv.bounds.tail_le_ltail_add r registered⟩
  · intro e s' taken
    exact commitTail_le_of_step inv taken
  · intro r frame tail advance i at_ q registered k notExecuted reserved other
    exact index_ne_of_store inv at_ registered notExecuted reserved other
  · intro r at_
    have holds := inv.loaded r
    rw [at_] at holds
    exact holds rfl

def twoReplicas : Geometry where
  slogLen := 2048
  replicas := 2
  host := id
  powerOfTwo := ⟨11, rfl⟩
  room := by decide
  registered := by decide

def appendThenExec : List (Event Nat) :=
  [.append 0 [7]] ++ List.replicate 7 (.access 0) ++ [.exec 1] ++ List.replicate 9 (.access 1)

theorem ring_bounds_appendThenExec :
    ∃ s : State Nat, (system twoReplicas Nat).Reachable s ∧
      s.ltails 0 = 0 ∧ s.ltails 1 = 1 ∧ s.commitTail = 1 ∧ s.head ≤ s.ltails 0 ∧
      s.tail ≤ s.ltails 0 + twoReplicas.slogLen := by
  have reached := System.reachable_get_run (system twoReplicas Nat) rfl appendThenExec (by rfl)
  have bounds := ring_bounds reached
  exact ⟨_, reached, rfl, rfl, rfl, (bounds.1 0 (by decide)).1, (bounds.1 0 (by decide)).2.2⟩

end Megalon.Nr.Log
