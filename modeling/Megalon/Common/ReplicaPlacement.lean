import Mathlib.Data.List.Nodup
import Mathlib.Data.List.Perm.Basic

/-!
Contract: which NUMA node a replica runs on: `GetExecNodes`, `RidToNumaNode` and `NumaNodeRids`
of `common/helper.cc`, and `generate_array` of `nr_rust/ffi/ffi_nr_hashmap.rs`.

Owns: the two loops that fill the table of execution nodes, that they fill it with the same
nodes, and that the two C++ mappings are inverse to each other.

Does not own: the affinity calls that use the tables.

Node numbers, replica numbers and indices are small enough for an `int`.
-/

namespace Megalon.Common

/-- `NUM_NUMA`, with the memory node, and `NUMA_MEM`. -/
structure Topology where
  numNuma : Nat
  numaMem : Nat
  atLeastTwo : 2 ≤ numNuma

namespace Topology

variable (top : Topology)

/-- `kNumExec` and `NUM_EXEC`. -/
def numExec : Nat := top.numNuma - 1

/-- The loop of `GetExecNodes` from `candidate` on. -/
def fillNodes (nodes : List Nat) (candidate : Nat) : List Nat :=
  if nodes.length < top.numExec then
    if candidate = top.numaMem then fillNodes nodes (candidate + 1)
    else fillNodes (nodes ++ [candidate]) (candidate + 1)
  else nodes
termination_by (top.numExec - nodes.length, top.numaMem + 1 - candidate)
decreasing_by
  · apply Prod.Lex.right
    omega
  · apply Prod.Lex.left
    rw [List.length_append, List.length_singleton]
    omega

def getExecNodes : List Nat := top.fillNodes [] 0

/-- The loop of `generate_array`, which writes into an array of zeros. -/
def generateFrom (arr : List Nat) (filled candidate : Nat) : List Nat :=
  if filled < top.numExec then
    if candidate = top.numaMem then generateFrom arr filled (candidate + 1)
    else generateFrom (arr.set filled candidate) (filled + 1) (candidate + 1)
  else arr
termination_by (top.numExec - filled, top.numaMem + 1 - candidate)
decreasing_by
  · apply Prod.Lex.right
    omega
  · apply Prod.Lex.left
    omega

/-- `NUMA_EXEC`. -/
def generateArray : List Nat := top.generateFrom (List.replicate top.numExec 0) 0 0

/-- `RidToNumaNode`; nothing for an access outside the table. -/
def ridToNumaNode (rid : Nat) : Option Nat :=
  top.getExecNodes[rid % top.getExecNodes.length]?

/-- `NumaNodeRids` for `LOGICAL_NODE_NUM` logical nodes. -/
def numaNodeRids (logicalNodeNum numaNode : Nat) : List Nat :=
  match top.getExecNodes.findIdx? (· = numaNode) with
  | none => []
  | some execIdx =>
    (List.range logicalNodeNum).filter fun rid => rid % top.getExecNodes.length = execIdx

/-! ### The table -/

/-- The execution node with index `i`. -/
def execNode (i : Nat) : Nat := if i < top.numaMem then i else i + 1

theorem execNode_ne_numaMem (i : Nat) : top.execNode i ≠ top.numaMem := by
  unfold execNode
  split <;> omega

variable {i : Nat}

theorem execNode_injective {j : Nat} (same : top.execNode i = top.execNode j) : i = j := by
  unfold execNode at same
  split at same <;> split at same <;> omega

theorem numExec_pos : 0 < top.numExec := by
  have := top.atLeastTwo
  rw [numExec]
  omega

/-- Between two rounds of either loop: the next candidate is the next execution node, or the
memory node before it. -/
def Expects (filled candidate : Nat) : Prop :=
  candidate = top.execNode filled ∨ (candidate = filled ∧ candidate = top.numaMem)

theorem expects_zero : top.Expects 0 0 := by
  unfold Expects execNode
  split <;> omega

variable {filled candidate : Nat}

theorem Expects.skip {top : Topology} (expects : top.Expects filled candidate)
    (memory : candidate = top.numaMem) : top.Expects filled (candidate + 1) := by
  unfold Expects execNode at *
  split at expects
  · omega
  · rename_i above
    rw [if_neg above]
    omega

theorem Expects.take {top : Topology} (expects : top.Expects filled candidate)
    (other : candidate ≠ top.numaMem) :
    candidate = top.execNode filled ∧ top.Expects (filled + 1) (candidate + 1) := by
  have taken : candidate = top.execNode filled :=
    expects.resolve_right fun both => other both.2
  refine ⟨taken, ?_⟩
  unfold Expects execNode at *
  split at taken <;> split <;> omega

/-- The first `n` execution nodes. -/
def execNodes (n : Nat) : List Nat := (List.range n).map top.execNode

theorem length_execNodes (n : Nat) : (top.execNodes n).length = n := by
  rw [execNodes, List.length_map, List.length_range]

theorem execNodes_succ (n : Nat) : top.execNodes (n + 1) = top.execNodes n ++ [top.execNode n] := by
  rw [execNodes, List.range_succ, List.map_append, List.map_singleton, execNodes]

theorem fillNodes_eq (nodes : List Nat) (soFar : nodes = top.execNodes filled)
    (inside : filled ≤ top.numExec) (expects : top.Expects filled candidate) :
    top.fillNodes nodes candidate = top.execNodes top.numExec := by
  induction nodes, candidate using fillNodes.induct top generalizing filled with
  | case1 nodes more ih =>
    rw [fillNodes, if_pos more, if_pos rfl]
    exact ih soFar inside (expects.skip rfl)
  | case2 nodes candidate more other ih =>
    obtain ⟨taken, expects⟩ := expects.take other
    rw [fillNodes, if_pos more, if_neg other]
    rw [soFar, length_execNodes] at more
    refine ih ?_ more expects
    rw [soFar, execNodes_succ, taken]
  | case3 nodes candidate done =>
    rw [fillNodes, if_neg done]
    rw [soFar, length_execNodes] at done
    have full : filled = top.numExec := by omega
    rw [soFar, full]

theorem getExecNodes_eq : top.getExecNodes = top.execNodes top.numExec :=
  top.fillNodes_eq [] rfl (Nat.zero_le _) top.expects_zero

theorem set_execNodes (inside : filled < top.numExec) :
    (top.execNodes filled ++ List.replicate (top.numExec - filled) 0).set filled
        (top.execNode filled) =
      top.execNodes (filled + 1) ++ List.replicate (top.numExec - (filled + 1)) 0 := by
  have split : top.numExec - filled = top.numExec - (filled + 1) + 1 := by omega
  rw [split, List.replicate_succ, List.set_append_right _ _
    (Nat.le_of_eq (top.length_execNodes filled)),
    length_execNodes, Nat.sub_self, List.set_cons_zero, execNodes_succ, List.append_assoc,
    List.singleton_append]

theorem generateFrom_eq (arr : List Nat)
    (soFar : arr = top.execNodes filled ++ List.replicate (top.numExec - filled) 0)
    (inside : filled ≤ top.numExec) (expects : top.Expects filled candidate) :
    top.generateFrom arr filled candidate = top.execNodes top.numExec := by
  induction arr, filled, candidate using generateFrom.induct top with
  | case1 arr filled more ih =>
    rw [generateFrom, if_pos more, if_pos rfl]
    exact ih soFar inside (expects.skip rfl)
  | case2 arr filled candidate more other ih =>
    obtain ⟨taken, expects⟩ := expects.take other
    rw [generateFrom, if_pos more, if_neg other]
    refine ih ?_ more expects
    rw [soFar, taken, top.set_execNodes more]
  | case3 arr filled candidate done =>
    have full : filled = top.numExec := by omega
    rw [generateFrom, if_neg done, soFar, full, Nat.sub_self, List.replicate_zero,
      List.append_nil]

/-- **Both languages have one table.** -/
theorem generateArray_eq : top.generateArray = top.getExecNodes := by
  rw [getExecNodes_eq, generateArray]
  exact top.generateFrom_eq _ (by rw [execNodes, List.range_zero]; rfl) (Nat.zero_le _)
    top.expects_zero

/-! ### The two mappings -/

theorem length_getExecNodes : top.getExecNodes.length = top.numExec := by
  rw [getExecNodes_eq, length_execNodes]

theorem getElem?_getExecNodes (inside : i < top.numExec) :
    top.getExecNodes[i]? = some (top.execNode i) := by
  rw [getExecNodes_eq, execNodes, List.getElem?_map, List.getElem?_range inside, Option.map_some]

theorem ridToNumaNode_eq (rid : Nat) :
    top.ridToNumaNode rid = some (top.execNode (rid % top.numExec)) := by
  rw [ridToNumaNode, length_getExecNodes]
  exact top.getElem?_getExecNodes (Nat.mod_lt _ top.numExec_pos)

theorem findIdx?_getExecNodes (inside : i < top.numExec) :
    top.getExecNodes.findIdx? (· = top.execNode i) = some i := by
  rw [List.findIdx?_eq_some_iff_getElem]
  have long : i < top.getExecNodes.length := by rw [length_getExecNodes]; exact inside
  refine ⟨long, ?_, fun j before => ?_⟩
  · have found := top.getElem?_getExecNodes inside
    rw [List.getElem?_eq_getElem long, Option.some.injEq] at found
    simpa using found
  · have found := top.getElem?_getExecNodes (Nat.lt_trans before inside)
    rw [List.getElem?_eq_getElem (Nat.lt_trans before long), Option.some.injEq] at found
    simp only [found, decide_eq_true_eq]
    exact fun same => (Nat.ne_of_lt before) (top.execNode_injective same)

variable {node : Nat}

theorem findIdx?_of_not_mem (missing : node ∉ top.getExecNodes) :
    top.getExecNodes.findIdx? (· = node) = none := by
  rw [List.findIdx?_eq_none_iff]
  intro other member
  simp only [decide_eq_false_iff_not]
  rintro rfl
  exact missing member

theorem mem_getExecNodes :
    node ∈ top.getExecNodes ↔ ∃ i, i < top.numExec ∧ top.execNode i = node := by
  rw [getExecNodes_eq, execNodes, List.mem_map]
  simp only [List.mem_range]

theorem numaNodeRids_execNode (logicalNodeNum : Nat) (inside : i < top.numExec) :
    top.numaNodeRids logicalNodeNum (top.execNode i) =
      (List.range logicalNodeNum).filter fun rid => rid % top.numExec = i := by
  rw [numaNodeRids, top.findIdx?_getExecNodes inside, length_getExecNodes]

theorem mem_numaNodeRids (logicalNodeNum : Nat) {rid : Nat} :
    rid ∈ top.numaNodeRids logicalNodeNum node ↔
      rid < logicalNodeNum ∧ top.ridToNumaNode rid = some node := by
  rw [ridToNumaNode_eq, Option.some.injEq]
  by_cases member : node ∈ top.getExecNodes
  · obtain ⟨i, inside, rfl⟩ := top.mem_getExecNodes.mp member
    rw [top.numaNodeRids_execNode logicalNodeNum inside, List.mem_filter, List.mem_range,
      decide_eq_true_eq]
    constructor
    · rintro ⟨below, rfl⟩
      exact ⟨below, rfl⟩
    · rintro ⟨below, same⟩
      exact ⟨below, top.execNode_injective same⟩
  · rw [numaNodeRids, top.findIdx?_of_not_mem member]
    refine iff_of_false (List.not_mem_nil) ?_
    rintro ⟨_, rfl⟩
    exact member (top.mem_getExecNodes.mpr ⟨_, Nat.mod_lt _ top.numExec_pos, rfl⟩)

theorem nodup_numaNodeRids (logicalNodeNum node : Nat) :
    (top.numaNodeRids logicalNodeNum node).Nodup := by
  rw [numaNodeRids]
  split
  · exact List.nodup_nil
  · exact List.nodup_range.filter _

theorem flatMap_numaNodeRids (logicalNodeNum : Nat) :
    (top.getExecNodes.flatMap (top.numaNodeRids logicalNodeNum)).Perm
      (List.range logicalNodeNum) := by
  have distinct : (top.getExecNodes.flatMap (top.numaNodeRids logicalNodeNum)).Nodup := by
    rw [List.nodup_flatMap]
    refine ⟨fun node _ => top.nodup_numaNodeRids logicalNodeNum node, ?_⟩
    have nodes : top.getExecNodes.Nodup := by
      rw [getExecNodes_eq, execNodes]
      exact List.nodup_range.map fun _ _ same => top.execNode_injective same
    refine nodes.imp fun {a b} different => ?_
    intro rid first second
    have one := ((top.mem_numaNodeRids logicalNodeNum).mp first).2
    have two := ((top.mem_numaNodeRids logicalNodeNum).mp second).2
    exact different (Option.some.inj (one.symm.trans two))
  rw [List.perm_ext_iff_of_nodup distinct List.nodup_range]
  intro rid
  rw [List.mem_flatMap, List.mem_range]
  constructor
  · rintro ⟨node, _, member⟩
    exact ((top.mem_numaNodeRids logicalNodeNum).mp member).1
  · intro below
    have node := top.ridToNumaNode_eq rid
    refine ⟨_, ?_, (top.mem_numaNodeRids logicalNodeNum).mpr ⟨below, node⟩⟩
    exact top.mem_getExecNodes.mpr ⟨_, Nat.mod_lt _ top.numExec_pos, rfl⟩

/-- **Placement agrees across the languages**: a replica has the node that the Rust table gives
it, which is not the memory node, and the lists of the nodes are the inverse. -/
theorem placement_agrees (top : Topology) (logicalNodeNum : Nat) :
    (∀ rid, ∃ node, top.ridToNumaNode rid = some node ∧
      top.generateArray[rid % top.numExec]? = some node ∧ node ≠ top.numaMem) ∧
    (∀ rid node, rid ∈ top.numaNodeRids logicalNodeNum node ↔
      rid < logicalNodeNum ∧ top.ridToNumaNode rid = some node) ∧
    (top.getExecNodes.flatMap (top.numaNodeRids logicalNodeNum)).Perm
      (List.range logicalNodeNum) := by
  refine ⟨fun rid => ?_, fun _ _ => top.mem_numaNodeRids logicalNodeNum,
    top.flatMap_numaNodeRids logicalNodeNum⟩
  refine ⟨_, top.ridToNumaNode_eq rid, ?_, top.execNode_ne_numaMem _⟩
  rw [generateArray_eq]
  exact top.getElem?_getExecNodes (Nat.mod_lt _ top.numExec_pos)

end Topology

end Megalon.Common
