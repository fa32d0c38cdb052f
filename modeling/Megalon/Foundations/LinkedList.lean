import Mathlib.Data.List.Basic
import Mathlib.Logic.Function.Basic

/-!
Contract: lists of nodes that are linked through `prev` and `next` fields.

Owns: segments of a doubly linked list, chains of a singly linked one, and what is left of them
when a field is assigned.

Does not own: which fields point to the ends.
-/

namespace Megalon.Foundations

open Function

section

variable {N : Type} {prev next prev' next' : N → Option N} {p q : Option N}
  {xs l r : List N} {x : N}

/-- The nodes are linked both ways, with `p` before the first and `q` after the last. -/
def Linked (prev next : N → Option N) : Option N → List N → Option N → Prop
  | _, [], _ => True
  | p, x :: rest, q => prev x = p ∧ next x = rest.head?.or q ∧ Linked prev next (some x) rest q

def Chained (next : N → Option N) : List N → Prop
  | [] => True
  | x :: rest => next x = rest.head? ∧ Chained next rest

theorem linked_append :
    Linked prev next p (l ++ r) q ↔
      Linked prev next p l (r.head?.or q) ∧ Linked prev next (l.getLast?.or p) r q := by
  induction l generalizing p with
  | nil => simp [Linked]
  | cons x l ih =>
    have heads : (l ++ r).head?.or q = l.head?.or (r.head?.or q) := by
      rw [List.head?_append, Option.or_assoc]
    have lasts : (x :: l).getLast?.or p = l.getLast?.or (some x) := by
      rw [List.getLast?_cons]
      cases l.getLast? <;> rfl
    simp only [List.cons_append, Linked, ih, heads, lasts, and_assoc]

theorem linked_append_cons :
    Linked prev next none (l ++ x :: r) none ↔
      Linked prev next none l (some x) ∧ prev x = l.getLast? ∧ next x = r.head? ∧
        Linked prev next (some x) r none := by
  simp [linked_append, Linked]

theorem Linked.congr (segment : Linked prev next p xs q)
    (agree : ∀ x, x ∈ xs → prev' x = prev x ∧ next' x = next x) : Linked prev' next' p xs q := by
  induction xs generalizing p with
  | nil => trivial
  | cons x rest ih =>
    obtain ⟨before, after, tail⟩ := segment
    have here := agree x (List.mem_cons_self ..)
    refine ⟨here.1.trans before, here.2.trans after, ?_⟩
    exact ih tail fun y member => agree y (List.mem_cons_of_mem _ member)

theorem Chained.congr (chain : Chained next xs) (agree : ∀ x, x ∈ xs → next' x = next x) :
    Chained next' xs := by
  induction xs with
  | nil => trivial
  | cons x rest ih =>
    refine ⟨(agree x (List.mem_cons_self ..)).trans chain.1, ?_⟩
    exact ih chain.2 fun y member => agree y (List.mem_cons_of_mem _ member)

variable [DecidableEq N]

def assignAt (field : N → Option N) (node value : Option N) : N → Option N :=
  match node with
  | none => field
  | some x => update field x value

theorem assignAt_of_ne {field : N → Option N} {node value : Option N} (other : node ≠ some x) :
    assignAt field node value x = field x := by
  cases node with
  | none => rfl
  | some y => exact update_of_ne (fun same => other (congrArg some same.symm)) ..

theorem assignAt_update {field : N → Option N} {node value : Option N} (other : node ≠ some x)
    (mine : Option N) :
    assignAt (update field x mine) node value =
      update (assignAt field node value) x mine := by
  cases node with
  | none => rfl
  | some y => exact update_comm (fun same => other (congrArg some same.symm)) ..

theorem Linked.relinkFirst (segment : Linked prev next p xs q) (nodup : xs.Nodup)
    (p' : Option N) : Linked (assignAt prev xs.head? p') next p' xs q := by
  cases xs with
  | nil => trivial
  | cons y rest =>
    obtain ⟨-, after, tail⟩ := segment
    refine ⟨update_self .., after, tail.congr fun x member => ⟨?_, rfl⟩⟩
    apply assignAt_of_ne
    rintro ⟨⟩
    exact (List.nodup_cons.mp nodup).1 member

theorem Linked.relinkLast (segment : Linked prev next p xs q) (nodup : xs.Nodup)
    (q' : Option N) : Linked prev (assignAt next xs.getLast? q') p xs q' := by
  rcases List.eq_nil_or_concat' xs with rfl | ⟨front, z, rfl⟩
  · trivial
  · rw [linked_append] at segment ⊢
    rw [List.getLast?_concat]
    refine ⟨segment.1.congr fun x member => ⟨rfl, ?_⟩, segment.2.1, ?_, trivial⟩
    · apply assignAt_of_ne
      rintro ⟨⟩
      exact (List.nodup_append.mp nodup).2.2 z member z (List.mem_singleton_self z) rfl
    · exact update_self ..

theorem Linked.join (front : Linked prev next none l q) (back : Linked prev next p r none)
    (nodup : (l ++ r).Nodup) :
    Linked (assignAt prev r.head? l.getLast?) (assignAt next l.getLast? r.head?) none (l ++ r)
      none := by
  obtain ⟨nodupFront, nodupBack, disjoint⟩ := List.nodup_append.mp nodup
  rw [linked_append, Option.or_none, Option.or_none]
  constructor
  · refine (front.relinkLast nodupFront r.head?).congr fun x member => ⟨?_, rfl⟩
    apply assignAt_of_ne
    intro first
    exact disjoint x member x (List.mem_of_mem_head? first) rfl
  · refine (back.relinkFirst nodupBack l.getLast?).congr fun x member => ⟨rfl, ?_⟩
    apply assignAt_of_ne
    intro last
    exact disjoint x (List.mem_of_getLast? last) x member rfl

end

end Megalon.Foundations
