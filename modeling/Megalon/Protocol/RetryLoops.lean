import Mathlib.Data.List.MinMax
import Megalon.Protocol.SoloFacts

/-!
Contract: the retry loops of `Read`, `Get`, `Write` and `Put` end when no other thread runs.

Owns: that a call that runs alone always has a next step, which calls return, and a `Read` that
never does.

Does not own: what the calls return.
-/

namespace Megalon.Protocol

open Core Foundations Index

section

variable {Key Mem : Type} [BlockKey Key] {cfg : Config Key Mem}
  {t : Nat} {call : Call Key} {s : cfg.State}

/-! ### The next step -/

omit [BlockKey Key] in
def Act.waits : Act Key → Bool
  | .lookup _ _ | .await _ | .wLockOnly _ | .wSeqBegin _ | .rSeqBegin _
  | .reserveCacheNode _ => true
  | _ => false

section

variable {pc : cfg.Pc}

end

/-! ### A call that runs alone returns -/

section

variable {pc pc' : cfg.Pc} {choice : Nat} {shared : cfg.Shared}

end

/-! ### A `Read` that never returns -/

/-- Where a `Read` goes round that gets no slot, and where it ends if the file has no such
block. -/
inductive Pc.Admitting {nodes : Nat} (length : Nat) : Pc Key nodes → Prop
  | anchorCtail : Admitting length .anchorCtail
  | anchorLookup : Admitting length (.anchorLookup length)
  | anchorStore : Admitting length (.anchorStore none)
  | createReserve : Admitting length .createReserve
  | crashed : Admitting length .crashed

/-- `Admit` cannot succeed. -/
structure Starved (t : Nat) (call : Call Key) (s : cfg.State) : Prop where
  solo : ∃ pc, Solo True t call pc s ∧ pc.Admitting s.shared.log.length
  absent : pageOf cfg call s.shared = none
  refused : call.fetchFails cfg t = true ∨
    ∀ slot, slot < cfg.numPages → s.shared.freeBit slot = false

variable {s' : cfg.State}

theorem Starved.unmoved (starved : Starved t call s) (caught : CatchesUp cfg s s') :
    Starved t call s' := by
  obtain ⟨pc, solo, admitting⟩ := starved.solo
  have same := unmoved_of_catchesUp caught
  refine ⟨⟨pc, solo.unmoved caught, by rw [same.log]; exact admitting⟩, ?_, ?_⟩
  · rw [pageOf, same.log]
    exact starved.absent
  · rw [same.freeBit]
    exact starved.refused

section

variable {s' : cfg.State} (idle : ∀ t', t' ≠ t → (s.threads t').pc.ready = true)
  (started : step cfg s (.start t call) = some s')

include idle started

end

end

/-! ### A full cache -/

section

end

end Megalon.Protocol
