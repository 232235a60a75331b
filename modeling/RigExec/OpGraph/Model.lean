/-
# `RigExec.OpGraph.Model` — the op compiler

`RigExecCompileOpGraph` turns a list of op descriptors into a graph in canonical
order: producers and predecessors from the descriptors, cyclic components set
aside or reported, a topological order in which ties go to the least key.

    bool and *error       `Except String`, with the message
    std::set, std::map    ascending lists and functions; a map whose absent
                          entries read as empty is a total function
    uint32_t indices      naturals; the size check is the first of the compiler
    priority_queue        a bag whose least key is taken (keys are distinct)
    (vertex, position)    a stack entry holds the edges from its position on

Vertices are descriptor indices until the order is known, and positions in the
order from then on.
-/
import Mathlib.Data.List.Sort
import Mathlib.Data.Prod.Lex
import Mathlib.Data.String.Basic
import Mathlib.Order.Lex
import RigExec.Lib.LeastOrder
import RigExec.Lib.Search
import RigExec.Lib.SortedList

namespace RigExec.OpGraph

open Lib (sortUnique Ascending)

/-! ## Records -/

abbrev ValueId := Nat

structure OpDescriptor where
  key : String
  kind : Nat := 0
  reads : List ValueId := []
  writes : List ValueId := []
  predecessors : List Nat := []
  volatileInput : Bool := false
deriving DecidableEq

@[ext]
structure CompiledOp where
  descriptor : OpDescriptor
  originalIndex : Nat
  predecessors : List Nat
  successors : List Nat
deriving DecidableEq

structure OpCluster where
  members : List Nat := []
  predecessors : List Nat := []
  successors : List Nat := []
deriving DecidableEq

structure CompiledGraph where
  ops : List CompiledOp := []
  canonicalIndex : List Int := []
  readers : ValueId → List Nat := fun _ => []
  cycles : List (List String) := []
  cycleMembers : List (List String) := []
  longestPath : Nat := 0
  clusters : List OpCluster := []
  opClusters : List Nat := []
  volatileOps : List Nat := []

inductive CyclePolicy where
  | reject
  | setAside
deriving DecidableEq

structure OpExclusionProof where
  keys : List String := []
  removedKeys : List String := []
  cycles : List (List String) := []
  cycleMembers : List (List String) := []

/-- A reported loop and the members of its component. -/
abbrev CycleReport := List String ×ₗ List String

def uint32Max : Nat := 4294967295

/-- The key of a descriptor. -/
def keyOf (descriptors : List OpDescriptor) (i : Nat) : String :=
  match descriptors[i]? with
  | some descriptor => descriptor.key
  | none => ""

/-! ## Producers and predecessors -/

/-- The writes of one descriptor join the producers. -/
def registerWrites (descriptors : List OpDescriptor) (leaves : List ValueId) (i : Nat) :
    List ValueId → (ValueId → Option Nat) → Except String (ValueId → Option Nat)
  | [], producers => .ok producers
  | value :: writes, producers =>
      match producers value with
      | some other =>
          if other ≠ i then
            .error ("multiple producers for value " ++ toString value ++ ": " ++
              keyOf descriptors other ++ " and " ++ keyOf descriptors i)
          else if leaves.contains value then
            .error ("operation writes a sampled leaf: " ++ keyOf descriptors i)
          else registerWrites descriptors leaves i writes producers
      | none =>
          if leaves.contains value then
            .error ("operation writes a sampled leaf: " ++ keyOf descriptors i)
          else registerWrites descriptors leaves i writes
            (Function.update producers value (some i))

/-- The keys and writes of the descriptors from the `i`th on. -/
def registerOps (descriptors : List OpDescriptor) (leaves : List ValueId) :
    Nat → List OpDescriptor → List String → (ValueId → Option Nat) →
      Except String (ValueId → Option Nat)
  | _, [], _, producers => .ok producers
  | i, descriptor :: rest, keys, producers =>
      if descriptor.key = "" ∨ keys.contains descriptor.key then
        .error ("empty or duplicate operation key: " ++ descriptor.key)
      else
        match registerWrites descriptors leaves i descriptor.writes producers with
        | .error message => .error message
        | .ok producers => registerOps descriptors leaves (i + 1) rest (descriptor.key :: keys)
            producers

/-- The producers of a descriptor's reads. -/
def readProducers (leaves : List ValueId) (producers : ValueId → Option Nat) (key : String) :
    List ValueId → Except String (List Nat)
  | [] => .ok []
  | value :: reads =>
      match producers value with
      | some producer => (readProducers leaves producers key reads).map (producer :: ·)
      | none =>
          if leaves.contains value then readProducers leaves producers key reads
          else .error ("read has no producer or sampled leaf: " ++ key)

/-- The predecessors of every descriptor. -/
def predecessorLists (count : Nat) (leaves : List ValueId) (producers : ValueId → Option Nat) :
    List OpDescriptor → Except String (List (List Nat))
  | [] => .ok []
  | descriptor :: rest =>
      if descriptor.predecessors.any (count ≤ ·) then
        .error ("predecessor out of range: " ++ descriptor.key)
      else
        match readProducers leaves producers descriptor.key descriptor.reads with
        | .error message => .error message
        | .ok produced =>
            (predecessorLists count leaves producers rest).map
              (sortUnique (descriptor.predecessors ++ produced) :: ·)

/-- A list of index lists, as a function. -/
def listAt (lists : List (List Nat)) (i : Nat) : List Nat := lists[i]?.getD []

/-- The successors of a vertex: every vertex that lists it, ascending. -/
def successorsOf (count : Nat) (preds : Nat → List Nat) (i : Nat) : List Nat :=
  (List.range count).filter fun j => (preds j).contains i

/-! ## Retained exclusions -/

/-- One retained report. -/
def checkReport (loop component : List String) : Except String Unit :=
  if loop.length < 2 ∨ loop.head? ≠ loop.getLast? ∨ component = [] ∨ ¬ Ascending component then
    .error "invalid retained exclusion SCC report"
  else if component.contains "" then .error "empty retained exclusion member"
  else if loop.any fun key => !component.contains key then
    .error "retained exclusion loop is outside SCC membership"
  else .ok ()

def checkReports : List (List String × List String) → Except String Unit
  | [] => .ok ()
  | (loop, component) :: rest =>
      match checkReport loop component with
      | .error message => .error message
      | .ok () => checkReports rest

/-- The retained keys: each a member, once, and with a descriptor. -/
def checkRetainedKeys (members keys : List String) : List String → List String → Except String Unit
  | [], _ => .ok ()
  | key :: rest, seen =>
      if seen.contains key ∨ ¬ members.contains key then
        .error ("duplicate or unproved retained exclusion key: " ++ key)
      else if ¬ keys.contains key then
        .error ("retained exclusion has no descriptor: " ++ key)
      else checkRetainedKeys members keys rest (key :: seen)

/-- The removed keys: each a member, once, not retained, and with no descriptor. -/
def checkRemovedKeys (members retainedKeys keys : List String) :
    List String → List String → Except String Unit
  | [], _ => .ok ()
  | key :: rest, seen =>
      if seen.contains key ∨ retainedKeys.contains key ∨ ¬ members.contains key then
        .error ("duplicate, overlapping or unproved removed exclusion key: " ++ key)
      else if keys.contains key then
        .error ("removed exclusion still has a descriptor: " ++ key)
      else checkRemovedKeys members retainedKeys keys rest (key :: seen)

/-- The whole check of a retained proof. -/
def checkRetained (keys : List String) (proof : OpExclusionProof) : Except String Unit :=
  if proof.cycles.length ≠ proof.cycleMembers.length then
    .error "retained exclusion report cardinality mismatch"
  else
    match checkReports (proof.cycles.zip proof.cycleMembers) with
    | .error message => .error message
    | .ok () =>
        let members := sortUnique proof.cycleMembers.flatten
        match checkRetainedKeys members keys proof.keys [] with
        | .error message => .error message
        | .ok () =>
            match checkRemovedKeys members proof.keys keys proof.removedKeys [] with
            | .error message => .error message
            | .ok () =>
                match members.find? fun key =>
                    !proof.keys.contains key && !proof.removedKeys.contains key with
                | some key => .error ("retained SCC member has no exclusion mapping: " ++ key)
                | none => .ok ()

/-- The reports a proof brings along. -/
def retainedReports : Option OpExclusionProof → List CycleReport
  | none => []
  | some proof => (proof.cycles.zip proof.cycleMembers).map fun report => toLex report

/-- The descriptors a proof excludes. -/
def retainedExcluded (descriptors : List OpDescriptor) (retained : Option OpExclusionProof)
    (i : Nat) : Bool :=
  match retained with
  | none => false
  | some proof => i < descriptors.length && proof.keys.contains (keyOf descriptors i)

/-- The edges of the active subgraph. -/
def activeEdges (excluded : Nat → Bool) (edges : Nat → List Nat) (i : Nat) : List Nat :=
  if excluded i then [] else (edges i).filter fun j => !excluded j

/-! ## Components -/

/-- One root of the second search: its component is reported when it is cyclic. -/
def componentFrom (count : Nat) (succs preds : Nat → List Nat)
    (found : (Nat → Bool) × List (List Nat)) (root : Nat) : (Nat → Bool) × List (List Nat) :=
  if found.1 root then found
  else
    let collected := Lib.collect count preds (Lib.mark found.1 root) [] [root]
    let component := collected.2
    (collected.1,
      if component.length > 1 ∨ (component.head?.any fun first => (succs first).contains first) then
        found.2 ++ [component]
      else found.2)

def components (count : Nat) (succs preds : Nat → List Nat) : List (List Nat) :=
  ((Lib.finishOrder count succs).reverse.foldl (componentFrom count succs preds)
    (fun _ => false, [])).2

def sortByKey (key : Nat → String) (list : List Nat) : List Nat :=
  list.insertionSort fun a b => key a ≤ key b

/-- `state` of the loop search. -/
inductive Colour where
  | unseen
  | open_
  | closed
deriving DecidableEq

/-- The members not seen yet. -/
def unseenMembers (members : List Nat) (state : Nat → Colour) : Nat :=
  members.countP fun v => state v = .unseen

theorem unseenMembers_update {members : List Nat} {state : Nat → Colour} {v : Nat}
    (hv : v ∈ members) (hstate : state v = .unseen) {colour : Colour} (hcolour : colour ≠ .unseen) :
    unseenMembers members (Function.update state v colour) < unseenMembers members state := by
  refine Lib.countP_lt_countP (fun w _ hw => ?_) hv (decide_eq_true hstate) ?_
  · by_cases he : w = v
    · subst he
      exact decide_eq_true hstate
    · simpa [Function.update_of_ne he] using hw
  · simpa using hcolour

theorem unseenMembers_closed_le (members : List Nat) (state : Nat → Colour) (v : Nat) :
    unseenMembers members (Function.update state v .closed) ≤ unseenMembers members state := by
  refine List.countP_mono_left fun w _ hw => ?_
  by_cases he : w = v
  · subst he
    simp at hw
  · simpa [Function.update_of_ne he] using hw

/-- The loop search, from a stack; the loop it closes first, as vertices. -/
def loopFrom (members : List Nat) (edges : Nat → List Nat) (state : Nat → Colour)
    (position : Nat → Int) : List (Nat × List Nat) → List Nat
  | [] => []
  | (top, []) :: stack =>
      loopFrom members edges (Function.update state top .closed) (Function.update position top (-1))
        stack
  | (top, next :: rest) :: stack =>
      if _hmem : next ∉ members then loopFrom members edges state position ((top, rest) :: stack)
      else
        match _hstate : state next with
        | .open_ =>
            ((((top, rest) :: stack).reverse.drop (position next).toNat).map Prod.fst) ++ [next]
        | .unseen =>
            loopFrom members edges (Function.update state next .open_)
              (Function.update position next (((top, rest) :: stack).length : Nat))
              ((next, edges next) :: (top, rest) :: stack)
        | .closed => loopFrom members edges state position ((top, rest) :: stack)
termination_by stack => (unseenMembers members state, Lib.work stack)
decreasing_by
  · rcases Nat.lt_or_eq_of_le (unseenMembers_closed_le members state top) with h | h
    · exact Prod.Lex.left _ _ h
    · rw [h]
      exact Prod.Lex.right _ (by simp [Lib.work])
  · exact Prod.Lex.right _ (by simp [Lib.work])
  · exact Prod.Lex.left _ _ (unseenMembers_update (not_not.mp _hmem) _hstate (by decide))
  · exact Prod.Lex.right _ (by simp [Lib.work])

def loop (descriptors : List OpDescriptor) (succs : Nat → List Nat) (component : List Nat) :
    List String :=
  let key := keyOf descriptors
  let edges := fun v => if component.contains v then sortByKey key (succs v) else succs v
  match sortByKey key component with
  | [] => []
  | start :: _ =>
      (loopFrom component edges (Function.update (fun _ => .unseen) start .open_)
        (Function.update (fun _ => -1) start 0) [(start, edges start)]).map key

/-- What is reported of a component. -/
def reportOf (descriptors : List OpDescriptor) (succs : Nat → List Nat) (component : List Nat) :
    CycleReport :=
  toLex (loop descriptors succs component,
    (component.map (keyOf descriptors)).insertionSort (· ≤ ·))

/-- The message of a rejected graph: one line for every loop. -/
def cycleMessage (cycles : List (List String)) : String :=
  cycles.foldl (fun message loop => message ++ "\n" ++ String.intercalate " -> " loop)
    "operation cycle"

/-! ## The canonical order -/

/-- The predecessor counts and the vertices with none. -/
def initialCounts (count : Nat) (excluded : Nat → Bool) (preds : Nat → List Nat) :
    List Int × List Nat :=
  let unresolved := fun i => if excluded i then 0 else (preds i).countP fun p => !excluded p
  ((List.range count).map fun i => ((unresolved i : Nat) : Int),
    (List.range count).filter fun i => !excluded i && unresolved i == 0)

/-- The order in which the ready queue is emptied. -/
def canonicalOrder (descriptors : List OpDescriptor) (excluded : Nat → Bool)
    (preds succs : Nat → List Nat) : List Nat :=
  Lib.drainLeast (keyOf descriptors) (fun i => (succs i).filter fun j => !excluded j)
    (initialCounts descriptors.length excluded preds) []

/-- The op at one place of the order. -/
def emitOp (descriptors : List OpDescriptor) (excluded : Nat → Bool) (preds succs : Nat → List Nat)
    (order : List Nat) (old : Nat) : CompiledOp :=
  let canonical := fun edges : List Nat =>
    sortUnique ((edges.filter fun i => !excluded i).map order.idxOf)
  { descriptor :=
      match descriptors[old]? with
      | some descriptor => { descriptor with predecessors := [] }
      | none => { key := "" }
    originalIndex := old
    predecessors := canonical (preds old)
    successors := canonical (succs old) }

/-- `distance`, extended op by op. -/
def distances (ops : List CompiledOp) : List Nat :=
  ops.foldl (fun distance op =>
    distance ++ [op.predecessors.foldl (fun d p => max d (distance[p]?.getD 1 + 1)) 1]) []

/-- The ops that read a value, ascending. -/
def readersOf (ops : List CompiledOp) (value : ValueId) : List Nat :=
  (List.range ops.length).filter fun i => ops[i]?.any fun op => op.descriptor.reads.contains value

/-- The graph in canonical order, before its clusters are lowered. -/
def emitGraph (descriptors : List OpDescriptor) (excluded : Nat → Bool)
    (preds succs : Nat → List Nat)
    (reports : List CycleReport) (order : List Nat) : CompiledGraph :=
  let ops := order.map (emitOp descriptors excluded preds succs order)
  { ops := ops
    canonicalIndex := (List.range descriptors.length).map fun i =>
      if order.contains i then ((order.idxOf i : Nat) : Int) else -1
    readers := readersOf ops
    cycles := reports.map fun report => (ofLex report).1
    cycleMembers := reports.map fun report => (ofLex report).2
    longestPath := (distances ops).foldl max 0
    volatileOps := (List.range ops.length).filter fun i =>
      ops[i]?.any fun op => op.descriptor.volatileInput }

/-! ## Clusters -/

/-- Costs of ops: what the lowering asks of a number. -/
class OpCost (C : Type) extends Zero C, One C, Add C where
  isFinite : C → Bool
  less : C → C → Bool
  isZero : C → Bool

scoped instance : OpCost Nat where
  zero := Nat.zero
  one := Nat.succ Nat.zero
  add := Nat.add
  isFinite _ := true
  less a b := decide (a < b)
  isZero a := a == 0

/-- The fields of an op, by its place. -/
def CompiledGraph.succs (graph : CompiledGraph) (i : Nat) : List Nat :=
  match graph.ops[i]? with
  | some op => op.successors
  | none => []

def CompiledGraph.preds (graph : CompiledGraph) (i : Nat) : List Nat :=
  match graph.ops[i]? with
  | some op => op.predecessors
  | none => []

def CompiledGraph.reads (graph : CompiledGraph) (i : Nat) : List ValueId :=
  match graph.ops[i]? with
  | some op => op.descriptor.reads
  | none => []

def CompiledGraph.writes (graph : CompiledGraph) (i : Nat) : List ValueId :=
  match graph.ops[i]? with
  | some op => op.descriptor.writes
  | none => []

/-- The most members a cluster has. -/
def clusterLimit : Nat := 64

/-- `membership` of an op that has no cluster yet. -/
def unassigned : Nat := uint32Max

section

variable {C : Type} [OpCost C]

/-- One chain, from `current` on, with room for so many members after it. -/
def growCluster (graph : CompiledGraph) (cost : Nat → C) (grain : C) (cluster : Nat) :
    Nat → Nat → C → List Nat → List Nat → Except String (List Nat × List Nat)
  | room, current, total, members, membership =>
      let members := members ++ [current]
      let membership := membership.set current cluster
      let total := total + cost current
      match room with
      | 0 => .ok (members, membership)
      | room + 1 =>
          if OpCost.isZero grain then .ok (members, membership)
          else
            match graph.succs current with
            | [next] =>
                if next ≥ graph.ops.length ∨ next ≤ current then
                  .error "non-topological operation graph"
                else if membership[next]? ≠ some unassigned ∨ graph.preds next ≠ [current] ∨
                    OpCost.less grain (total + cost next) then .ok (members, membership)
                else growCluster graph cost grain cluster room next total members membership
            | _ => .ok (members, membership)

/-- The chains from the ops `starts` on. -/
def growClusters (graph : CompiledGraph) (cost : Nat → C) (grain : C) :
    List Nat → List (List Nat) → List Nat → Except String (List (List Nat) × List Nat)
  | [], clusters, membership => .ok (clusters, membership)
  | start :: starts, clusters, membership =>
      if membership[start]? ≠ some unassigned then
        growClusters graph cost grain starts clusters membership
      else
        match growCluster graph cost grain clusters.length (clusterLimit - 1) start 0 []
            membership with
        | .error message => .error message
        | .ok (members, membership) =>
            growClusters graph cost grain starts (clusters ++ [members]) membership

/-- The edges between different clusters, as pairs. -/
def clusterEdges (graph : CompiledGraph) (membership : List Nat) : List (Nat × Nat) :=
  (List.range graph.ops.length).flatMap fun op =>
    (graph.preds op).filterMap fun predecessor =>
      match membership[predecessor]?, membership[op]? with
      | some before, some after => if before ≠ after then some (before, after) else none
      | _, _ => none

/-- The predecessors and successors of a cluster, from the edges. -/
def clusterPreds (edges : List (Nat × Nat)) (cluster : Nat) : List Nat :=
  sortUnique ((edges.filter fun edge => edge.2 == cluster).map Prod.fst)

def clusterSuccs (edges : List (Nat × Nat)) (cluster : Nat) : List Nat :=
  sortUnique ((edges.filter fun edge => edge.1 == cluster).map Prod.snd)

def lowerOpClusters (graph : CompiledGraph) (costs : List C) (grain : C) :
    Except String CompiledGraph :=
  if !OpCost.isFinite grain || OpCost.less grain 0 then .error "invalid cluster lowering grain"
  else if graph.ops.length > uint32Max ∨ (costs ≠ [] ∧ costs.length ≠ graph.ops.length) then
    .error "cluster costs do not match canonical operations"
  else if costs.any fun cost => !OpCost.isFinite cost || OpCost.less cost 0 then
    .error "invalid operation cost"
  else
    let cost := fun op : Nat => if costs = [] then 1 else costs[op]?.getD 1
    match growClusters graph cost grain (List.range graph.ops.length) []
        (List.replicate graph.ops.length unassigned) with
    | .error message => .error message
    | .ok (chains, membership) =>
        if (List.range graph.ops.length).any fun op => (graph.preds op).any (op ≤ ·) then
          .error "non-topological operation predecessor"
        else
          let edges := clusterEdges graph membership
          .ok { graph with
            clusters := chains.mapIdx fun cluster members =>
              { members := members
                predecessors := clusterPreds edges cluster
                successors := clusterSuccs edges cluster }
            opClusters := membership }

end

/-- The members of one cluster, `before` being the one in front. -/
def checkMembers (graph : CompiledGraph) (group : Nat) :
    Option Nat → List Nat → List Nat → Except String (List Nat)
  | _, [], seen => .ok seen
  | before, op :: members, seen =>
      if op ≥ graph.ops.length ∨ seen.contains op ∨ graph.opClusters[op]? ≠ some group then
        .error "duplicate, missing or invalid operation cluster member"
      else if before.any fun b => decide (b ≥ op) || graph.succs b != [op] || graph.preds op != [b] then
        .error "cluster introduces an extra causal dependency"
      else checkMembers graph group (some op) members (op :: seen)

/-- The clusters from the `group`th on; the ops seen. -/
def checkClusters (graph : CompiledGraph) :
    Nat → Nat → List OpCluster → List Nat → Except String (List Nat)
  | _, _, [], seen => .ok seen
  | group, previousStart, cluster :: clusters, seen =>
      match cluster.members with
      | [] => .error "empty or oversized operation cluster"
      | first :: _ =>
          if cluster.members.length > clusterLimit then
            .error "empty or oversized operation cluster"
          else if group ≠ 0 ∧ first ≤ previousStart then .error "cluster order is not canonical"
          else
            match checkMembers graph group none cluster.members seen with
            | .error message => .error message
            | .ok seen => checkClusters graph (group + 1) first clusters seen

/-- Every predecessor is earlier, and in an earlier cluster or the same. -/
def checkPredecessors (graph : CompiledGraph) : List (Nat × Nat) → Except String Unit
  | [] => .ok ()
  | (before, op) :: pairs =>
      if before ≥ op then .error "operation predecessor is not topological"
      else
        match graph.opClusters[before]?, graph.opClusters[op]? with
        | some a, some b =>
            if a ≠ b ∧ a ≥ b then .error "cluster predecessor is not topological"
            else checkPredecessors graph pairs
        | _, _ => checkPredecessors graph pairs

def validateOpClusters (graph : CompiledGraph) : Except String Unit :=
  let count := graph.ops.length
  if graph.opClusters.length ≠ count ∨ (count = 0 ∧ graph.clusters ≠ []) then
    .error "cluster membership cardinality differs from operations"
  else
    match checkClusters graph 0 0 graph.clusters [] with
    | .error message => .error message
    | .ok seen =>
        if (List.range count).any fun op => !seen.contains op then
          .error "operation missing from cluster lowering"
        else
          match checkPredecessors graph ((List.range count).flatMap fun op =>
              (graph.preds op).map fun before => (before, op)) with
          | .error message => .error message
          | .ok () =>
              let edges := clusterEdges graph graph.opClusters
              if (List.range graph.clusters.length).any fun group =>
                  graph.clusters[group]?.any fun cluster =>
                    cluster.predecessors != clusterPreds edges group ||
                      cluster.successors != clusterSuccs edges group then
                .error "cluster edges differ from operation dependencies"
              else .ok ()

/-! ## The compiler -/

section

variable (descriptors : List OpDescriptor) (retained : Option OpExclusionProof)
  (edges : Nat → List Nat)

/-- The predecessors and successors the component search sees. -/
def activePreds : Nat → List Nat :=
  activeEdges (retainedExcluded descriptors retained) edges

def activeSuccs : Nat → List Nat :=
  activeEdges (retainedExcluded descriptors retained) (successorsOf descriptors.length edges)

/-- The cyclic components of the active subgraph. -/
def foundComponents : List (List Nat) :=
  components descriptors.length (activeSuccs descriptors retained edges)
    (activePreds descriptors retained edges)

/-- `excluded`, after the components. -/
def excludedOps (i : Nat) : Bool :=
  retainedExcluded descriptors retained i ||
    (foundComponents descriptors retained edges).any fun component => component.contains i

/-- `reports`, sorted and without repeats. -/
def cycleReports : List CycleReport :=
  sortUnique (retainedReports retained ++
    (foundComponents descriptors retained edges).map
      (reportOf descriptors (activeSuccs descriptors retained edges)))

/-- The execution order, as indices of descriptors. -/
def orderOf : List Nat :=
  canonicalOrder descriptors (excludedOps descriptors retained edges)
    (activePreds descriptors retained edges) (activeSuccs descriptors retained edges)

/-- From the edges on: components, reports, order and clusters. -/
def orderGraph (policy : CyclePolicy) : Except String CompiledGraph :=
  let reports := cycleReports descriptors retained edges
  if reports ≠ [] ∧ policy = .reject then
    .error (cycleMessage (reports.map fun report => (ofLex report).1))
  else
    @lowerOpClusters Nat _
      (emitGraph descriptors (excludedOps descriptors retained edges)
        (activePreds descriptors retained edges) (activeSuccs descriptors retained edges) reports
        (orderOf descriptors retained edges)) [] 0

end

def compileOpGraph (descriptors : List OpDescriptor) (leaves : List ValueId) (policy : CyclePolicy)
    (retained : Option OpExclusionProof) : Except String CompiledGraph :=
  if descriptors.length > uint32Max then .error "too many operations"
  else
    match registerOps descriptors leaves 0 descriptors [] (fun _ => none) with
    | .error message => .error message
    | .ok producers =>
        match predecessorLists descriptors.length leaves producers descriptors with
        | .error message => .error message
        | .ok predecessors =>
            match retained.elim (.ok ()) (checkRetained (descriptors.map OpDescriptor.key)) with
            | .error message => .error message
            | .ok () => orderGraph descriptors retained (listAt predecessors) policy

/-- `RigExecCompileOpGraph` with its output parameter, written once, after everything else. -/
def compileOpGraphInto (descriptors : List OpDescriptor) (leaves : List ValueId)
    (policy : CyclePolicy) (retained : Option OpExclusionProof) (out : CompiledGraph) :
    Except String Unit × CompiledGraph :=
  match compileOpGraph descriptors leaves policy retained with
  | .error message => (.error message, out)
  | .ok graph => (.ok (), graph)

end RigExec.OpGraph
