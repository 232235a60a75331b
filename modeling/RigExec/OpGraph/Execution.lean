/-
# `RigExec.OpGraph.Execution` — running a compiled graph

`RigExecExecuteOpGraph` clears what the last execution set, marks the candidates,
counts predecessors down cluster by cluster and joins.  The memory the callbacks work
on is a parameter `σ`.

    reset and marks     `resetExecution`, `seed`, `cone`
    readiness           `prepare`: the candidate clusters and their counts
    bodies              `startBody` (what the op's inputs say) and `finishBody`
                        (run or skip), with other bodies in between
    one thread          `serialLoop`
    dispatch and wait   the machine `poolStep`: the caller submits the ready clusters,
                        threads take what was dispatched and interleave their steps,
                        and the join is possible when no dispatched task is left

A task is one dispatch, so a cluster dispatched twice would run twice.  `log` and
`claimed` are history variables: what the bodies did, and the ops in the order in
which their numbers were claimed.
-/
import RigExec.OpGraph.Model
import RigExec.Lib.Machine

namespace RigExec.OpGraph

open Lib (sortUnique)

/-! ## Records -/

/-- `RigExecOpCallbacks`; the two ways to dispatch are the serial loop and the machine below. -/
structure OpCallbacks (σ : Type) where
  run : Nat → σ → σ × Bool
  skip : Nat → σ → σ
  skipEffects : Option (List Nat) := none
  changed : ValueId → σ → Bool
  inputChanged : Option (Nat → ValueId → σ → Bool) := none
  inputsChanged : Option (Nat → σ → σ × Bool) := none

structure OpExecution where
  candidates : List Bool := []
  ran : List Bool := []
  completion : List Nat := []
  executed : Nat := 0
  skipped : Nat := 0
  touched : List Nat := []
  touchedValid : Bool := false
deriving DecidableEq

structure OpWorkspace where
  seeded : List Bool := []
  clusterCandidates : List Bool := []
  pending : List Nat := []
  ready : List Nat := []
  unresolved : List Int := []
  candidateClusters : List Nat := []
  listsValid : Bool := false
  verifyReset : Bool := false
deriving DecidableEq

/-- What a caller asks for. -/
structure OpRequest where
  changedLeaves : List ValueId := []
  seedOps : List Nat := []
  force : Bool := false
  candidateOps : Option (List Nat) := none

/-- A byte of a flag array. -/
def flagAt (flags : List Bool) (i : Nat) : Bool := flags[i]?.getD false

/-! ## Reset -/

def opAscending (listed : List Nat) (flags : List Bool) (n : Nat) : List Nat :=
  let limit := min n flags.length
  if listed.length * 16 ≥ n then (List.range limit).filter (flagAt flags)
  else sortUnique (listed.filter fun i => decide (i < limit) && flagAt flags i)

/-- The entries a list names are cleared. -/
def clearListed {α : Type} (zero : α) (listed : List Nat) (values : List α) : List α :=
  listed.foldl (fun values i => values.set i zero) values

/-- `RigExecOpResetExecution`; `false` when the check of the cleared records found an entry they
missed. -/
def resetExecution (out : OpExecution) (workspace : OpWorkspace) (ops clusters : Nat) :
    OpExecution × OpWorkspace × Bool :=
  let outListed := out.touchedValid && out.candidates.length == ops && out.ran.length == ops &&
    out.completion.length == ops
  let out' : OpExecution :=
    { candidates :=
        if outListed then clearListed false out.touched out.candidates else List.replicate ops false
      ran := if outListed then clearListed false out.touched out.ran else List.replicate ops false
      completion :=
        if outListed then clearListed 0 out.touched out.completion else List.replicate ops 0
      touchedValid := true }
  let workspaceListed := workspace.listsValid && workspace.seeded.length == ops &&
    workspace.clusterCandidates.length == clusters
  let workspace' : OpWorkspace :=
    { workspace with
      seeded :=
        if workspaceListed then clearListed false workspace.pending workspace.seeded
        else List.replicate ops false
      clusterCandidates :=
        if workspaceListed then
          clearListed false workspace.candidateClusters workspace.clusterCandidates
        else List.replicate clusters false
      candidateClusters := [] }
  if !(outListed || workspaceListed) || !workspace.verifyReset then (out', workspace', true)
  else
    ({ out' with
        candidates := out'.candidates.map fun _ => false
        ran := out'.ran.map fun _ => false
        completion := out'.completion.map fun _ => 0 },
      { workspace' with
        seeded := workspace'.seeded.map fun _ => false
        clusterCandidates := workspace'.clusterCandidates.map fun _ => false },
      out'.candidates.all (!·) && out'.ran.all (!·) && out'.completion.all (· == 0) &&
        workspace'.seeded.all (!·) && workspace'.clusterCandidates.all (!·))

/-! ## Candidates -/

/-- A new entry of a set kept as flags and a list. -/
def markNew (marks : List Bool × List Nat) (i : Nat) : List Bool × List Nat :=
  match marks.1[i]? with
  | some false => (marks.1.set i true, marks.2 ++ [i])
  | _ => marks

theorem countP_markNew (marks : List Bool × List Nat) (i : Nat) :
    (markNew marks i).1.countP (!·) + (markNew marks i).2.length =
      marks.1.countP (!·) + marks.2.length := by
  unfold markNew
  split
  · rename_i hget
    obtain ⟨hlt, hfalse⟩ := List.getElem?_eq_some_iff.mp hget
    have hpos : 0 < marks.1.countP (!·) :=
      List.countP_pos_iff.mpr ⟨false, List.mem_of_getElem? hget, rfl⟩
    simp only [List.countP_set hlt, hfalse, List.length_append, List.length_singleton]
    simp only [Bool.not_false, if_true, Bool.not_true, Bool.false_eq_true, if_false]
    omega
  · rfl

theorem countP_foldl_markNew (list : List Nat) (marks : List Bool × List Nat) :
    (list.foldl markNew marks).1.countP (!·) + (list.foldl markNew marks).2.length =
      marks.1.countP (!·) + marks.2.length := by
  induction list generalizing marks with
  | nil => rfl
  | cons i list ih => exact (ih (markNew marks i)).trans (countP_markNew marks i)

/-- The successors of the pending ops, while they grow. -/
def cone (succs : Nat → List Nat) (marks : List Bool × List Nat) (head : Nat) :
    List Bool × List Nat :=
  if h : head < marks.2.length then
    cone succs ((succs marks.2[head]).foldl markNew marks) (head + 1)
  else marks
termination_by marks.1.countP (!·) + marks.2.length - head
decreasing_by
  have := countP_foldl_markNew (succs marks.2[head]) marks
  omega

variable (graph : CompiledGraph)

/-- The mandatory ops, over the flags the force left. -/
def seedFlags (request : OpRequest) (seeded : List Bool) : List Bool :=
  let mandatory := request.seedOps ++
    (if request.force then List.range graph.ops.length else graph.volatileOps)
  mandatory.foldl (fun seeded i => seeded.set i true)
    (if request.force then List.replicate graph.ops.length true else seeded)

/-- The ops `seed` is called on, in order. -/
def seedList (request : OpRequest) : List Nat :=
  request.seedOps ++ request.candidateOps.getD [] ++
    request.changedLeaves.flatMap graph.readers ++
    (if request.force then List.range graph.ops.length else graph.volatileOps)

/-- The candidates and the list that gathered them. -/
def candidateMarks (request : OpRequest) (candidates : List Bool) : List Bool × List Nat :=
  cone graph.succs ((seedList graph request).foldl markNew (candidates, [])) 0

/-! ## Readiness -/

/-- The fields of a cluster, by its number. -/
def CompiledGraph.members (c : Nat) : List Nat :=
  match graph.clusters[c]? with
  | some cluster => cluster.members
  | none => []

def CompiledGraph.clusterPreds (c : Nat) : List Nat :=
  match graph.clusters[c]? with
  | some cluster => cluster.predecessors
  | none => []

def CompiledGraph.clusterSuccs (c : Nat) : List Nat :=
  match graph.clusters[c]? with
  | some cluster => cluster.successors
  | none => []

/-- What is fixed before the first body starts. -/
structure Plan where
  seeded : List Bool
  candidates : List Bool
  pending : List Nat
  clusterCandidates : List Bool
  candidateClusters : List Nat

/-- The candidate members of a cluster, in order. -/
def Plan.members (plan : Plan) (graph : CompiledGraph) (c : Nat) : List Nat :=
  (graph.members c).filter (flagAt plan.candidates)

/-- The candidate neighbours of a cluster. -/
def Plan.preds (plan : Plan) (graph : CompiledGraph) (c : Nat) : List Nat :=
  (graph.clusterPreds c).filter (flagAt plan.clusterCandidates)

def Plan.succs (plan : Plan) (graph : CompiledGraph) (c : Nat) : List Nat :=
  (graph.clusterSuccs c).filter (flagAt plan.clusterCandidates)

/-- `pending`, the marks and the candidate clusters. -/
def planOf (request : OpRequest) (out : OpExecution) (workspace : OpWorkspace) : Plan :=
  let marks := candidateMarks graph request out.candidates
  let clusters := (marks.2.filterMap (graph.opClusters[·]?)).foldl markNew
    (workspace.clusterCandidates, [])
  { seeded := seedFlags graph request workspace.seeded
    candidates := marks.1
    pending := marks.2
    clusterCandidates := clusters.1
    candidateClusters := opAscending clusters.2 clusters.1 graph.clusters.length }

/-- `unresolved.resize`. -/
def resizeCounts (counts : List Int) (n : Nat) : List Int :=
  (counts ++ List.replicate n 0).take n

/-- The counts of the candidate clusters, and the clusters with none. -/
def initialReady (plan : Plan) (graph : CompiledGraph) (counts : List Int) :
    List Int × List Nat :=
  plan.candidateClusters.foldl (fun counted c =>
    let dependencies := (plan.preds graph c).length
    (counted.1.set c ((dependencies : Nat) : Int),
      if dependencies = 0 then counted.2 ++ [c] else counted.2))
    (resizeCounts counts graph.clusters.length, [])

section

variable {σ : Type}

/-- The ops that are no candidates are skipped. -/
def skipOthers (callbacks : OpCallbacks σ) (candidates : List Bool) (memory : σ) : σ :=
  (callbacks.skipEffects.getD (List.range graph.ops.length)).foldl
    (fun memory i => if flagAt candidates i then memory else callbacks.skip i memory) memory

/-- What the bodies change. -/
structure Running (σ : Type) where
  memory : σ
  succeeded : Bool
  ran : List Bool
  completion : List Nat

/-! ## Bodies -/

/-- The first half of `body`: whether the op is needed. -/
def startBody (callbacks : OpCallbacks σ) (seeded : List Bool)
    (running : Running σ) (i : Nat) : Running σ × Bool :=
  if running.succeeded then
    match callbacks.inputsChanged with
    | some inputsChanged =>
        let tested := inputsChanged i running.memory
        ({ running with memory := tested.1 }, tested.2 || flagAt seeded i)
    | none =>
        (running, (graph.reads i).foldl (fun needed input =>
          (match callbacks.inputChanged with
            | some inputChanged => inputChanged i input running.memory
            | none => callbacks.changed input running.memory) || needed) (flagAt seeded i))
  else (running, false)

/-- The second half: the op is run or skipped. -/
def finishBody (callbacks : OpCallbacks σ) (running : Running σ) (i : Nat) (needed : Bool) :
    Running σ :=
  if needed then
    let result := callbacks.run i running.memory
    { running with
      memory := result.1
      ran := running.ran.set i true
      succeeded := running.succeeded && result.2 }
  else { running with memory := callbacks.skip i running.memory }

def body (callbacks : OpCallbacks σ) (seeded : List Bool)
    (running : Running σ) (i : Nat) : Running σ :=
  let started := startBody graph callbacks seeded running i
  finishBody callbacks started.1 i started.2

def complete (members : List Nat) (before : Nat) (completion : List Nat) : List Nat :=
  (members.foldl (fun numbered op => (numbered.1 + 1, numbered.2.set op (numbered.1 + 1)))
    (before, completion)).2

/-! ## One thread -/

/-- The state of the serial loop. -/
structure Serial (σ : Type) extends Running σ where
  finished : Nat
  counted : List Int × List Nat

/-- One cluster of the serial loop. -/
def serialCluster (callbacks : OpCallbacks σ) (plan : Plan)
    (serial : Serial σ) (c : Nat) : Serial σ :=
  let members := plan.members graph c
  let running := members.foldl (body graph callbacks plan.seeded) serial.toRunning
  { running with
    completion := complete members serial.finished running.completion
    finished := serial.finished + members.length
    counted := (plan.succs graph c).foldl Lib.release serial.counted }

/-- The loop over `ready` from `head` on. -/
def serialLoop (graph : CompiledGraph) (callbacks : OpCallbacks σ) (plan : Plan)
    (serial : Serial σ) (head : Nat) : Serial σ :=
  if h : head < serial.counted.2.length then
    serialLoop graph callbacks plan (serialCluster graph callbacks plan serial serial.counted.2[head])
      (head + 1)
  else serial
termination_by serial.counted.1.countP (0 < ·) + serial.counted.2.length - head
decreasing_by
  have := Lib.countP_foldl_release_le (plan.succs graph serial.counted.2[head]) serial.counted
  simp only [serialCluster]
  omega

/-! ## Dispatch and wait -/

/-- Where a task stands. -/
inductive Phase where
  | idle
  /-- The members whose body is still to start, and how many are done. -/
  | bodies (left : List Nat) (count : Nat)
  /-- A body between its two halves. -/
  | acting (op : Nat) (needed : Bool) (left : List Nat) (count : Nat)
  | numbering (left : List Nat) (before : Nat)
  | releasing (left : List Nat)
  | finished

/-- What a body did. -/
inductive Mark where
  | started (op : Nat)
  | acted (op : Nat)
deriving DecidableEq

/-- The state of a dispatched execution. -/
structure Pool (σ : Type) extends Running σ where
  sequence : Nat
  /-- The counts, and the clusters dispatched so far: the tasks. -/
  counted : List Int × List Nat
  /-- The clusters the caller has still to submit. -/
  waiting : List Nat
  /-- The phase of every task, by its place among the dispatched ones. -/
  phase : Nat → Phase
  joined : Bool
  log : List Mark
  claimed : List Nat

inductive PoolEvent where
  /-- The caller submits the next ready cluster. -/
  | submit
  /-- A thread takes a dispatched task. -/
  | take (task : Nat)
  /-- A task makes a step. -/
  | advance (task : Nat)
  /-- `wait` returns. -/
  | join

/-- One step of the `k`th task, whose cluster is `c`. -/
def advanceTask (callbacks : OpCallbacks σ) (plan : Plan) (pool : Pool σ)
    (k c : Nat) : Option (Pool σ) :=
  match pool.phase k with
  | .idle => none
  | .bodies (op :: left) count =>
      let started := startBody graph callbacks plan.seeded pool.toRunning op
      some { pool with
        toRunning := started.1
        phase := Function.update pool.phase k (.acting op started.2 left count)
        log := pool.log ++ [.started op] }
  | .acting op needed left count =>
      some { pool with
        toRunning := finishBody callbacks pool.toRunning op needed
        phase := Function.update pool.phase k (.bodies left (count + 1))
        log := pool.log ++ [.acted op] }
  | .bodies [] count =>
      some { pool with
        sequence := pool.sequence + count
        phase := Function.update pool.phase k (.numbering (plan.members graph c) pool.sequence)
        claimed := pool.claimed ++ plan.members graph c }
  | .numbering (op :: left) before =>
      some { pool with
        completion := pool.completion.set op (before + 1)
        phase := Function.update pool.phase k (.numbering left (before + 1)) }
  | .numbering [] _ =>
      some { pool with phase := Function.update pool.phase k (.releasing (plan.succs graph c)) }
  | .releasing (next :: left) =>
      some { pool with
        counted := Lib.release pool.counted next
        phase := Function.update pool.phase k (.releasing left) }
  | .releasing [] => some { pool with phase := Function.update pool.phase k .finished }
  | .finished => none

/-- A task is over. -/
def Phase.isFinished : Phase → Bool
  | .finished => true
  | _ => false

/-- No dispatched task is left. -/
def Pool.drained (pool : Pool σ) : Bool :=
  pool.waiting.isEmpty &&
    (List.range pool.counted.2.length).all fun k => (pool.phase k).isFinished

def poolStep (callbacks : OpCallbacks σ) (plan : Plan) (pool : Pool σ) : PoolEvent → Option (Pool σ)
  | .submit =>
      match pool.waiting with
      | [] => none
      | c :: waiting =>
          some { pool with
            waiting := waiting
            counted := (pool.counted.1, pool.counted.2 ++ [c]) }
  | .take k =>
      match pool.counted.2[k]?, pool.phase k with
      | some c, .idle =>
          some { pool with
            phase := Function.update pool.phase k (.bodies (plan.members graph c) 0) }
      | _, _ => none
  | .advance k =>
      match pool.counted.2[k]? with
      | some c => advanceTask graph callbacks plan pool k c
      | none => none
  | .join => if !pool.joined && pool.drained then some { pool with joined := true } else none

/-! ## Whole executions -/

/-- What an execution leaves. -/
structure Executed (σ : Type) where
  memory : σ
  out : OpExecution
  workspace : OpWorkspace
  outcome : Except String Unit

/-- The checks on the arguments. -/
def checkRequest (callbacks : OpCallbacks σ) (request : OpRequest) : Except String Unit :=
  let count := graph.ops.length
  if graph.opClusters.length ≠ count ∨ (count ≠ 0 ∧ graph.clusters.length = 0) then
    .error "operation graph has no cluster lowering"
  else if request.seedOps.any (count ≤ ·) then .error "operation seed out of range"
  else if (request.candidateOps.getD []).any (count ≤ ·) then
    .error "operation candidate out of range"
  else if graph.volatileOps.any (count ≤ ·) then .error "volatile operation out of range"
  else if (callbacks.skipEffects.getD []).any (count ≤ ·) then
    .error "skip effect operation out of range"
  else .ok ()

/-- Everything before the first body. -/
structure Prepared (σ : Type) where
  plan : Plan
  counted : List Int × List Nat
  running : Running σ
  workspace : OpWorkspace

/-- From the checks up to the first body; a refusal says what it leaves. -/
def prepare (callbacks : OpCallbacks σ) (request : OpRequest)
    (memory : σ) (out : OpExecution) (workspace : OpWorkspace) : Except (Executed σ) (Prepared σ) :=
  match checkRequest graph callbacks request with
  | .error message => .error ⟨memory, out, workspace, .error message⟩
  | .ok () =>
      match resetExecution out workspace graph.ops.length graph.clusters.length with
      | (out, workspace, false) =>
          .error ⟨memory, out, workspace, .error "operation execution reset missed an entry"⟩
      | (out, workspace, true) =>
          let plan := planOf graph request out workspace
          .ok {
            plan := plan
            counted := initialReady plan graph workspace.unresolved
            running :=
              { memory := skipOthers graph callbacks plan.candidates memory
                succeeded := true
                ran := out.ran
                completion := out.completion }
            workspace := workspace }

/-- After the join. -/
def finish (prepared : Prepared σ) (running : Running σ)
    (counted : List Int × List Nat) : Executed σ :=
  let plan := prepared.plan
  let touched := opAscending plan.pending plan.candidates graph.ops.length
  let executed := touched.countP (flagAt running.ran)
  { memory := running.memory
    out :=
      { candidates := plan.candidates
        ran := running.ran
        completion := running.completion
        executed := executed
        skipped := graph.ops.length - executed
        touched := touched
        touchedValid := true }
    workspace :=
      { prepared.workspace with
        seeded := plan.seeded
        clusterCandidates := plan.clusterCandidates
        pending := plan.pending
        ready := counted.2
        unresolved := counted.1
        candidateClusters := plan.candidateClusters
        listsValid := true }
    outcome := if running.succeeded then .ok () else .error "an operation failed" }

/-- `RigExecExecuteOpGraph` on one thread. -/
def executeSerial (callbacks : OpCallbacks σ) (request : OpRequest)
    (memory : σ) (out : OpExecution) (workspace : OpWorkspace) : Executed σ :=
  match prepare graph callbacks request memory out workspace with
  | .error refused => refused
  | .ok prepared =>
      let serial := serialLoop graph callbacks prepared.plan
        { prepared.running with
          finished := 0
          counted := prepared.counted } 0
      finish graph prepared serial.toRunning serial.counted

/-- A dispatched execution before its first event. -/
def Prepared.pool (prepared : Prepared σ) : Pool σ :=
  { prepared.running with
    sequence := 0
    counted := (prepared.counted.1, [])
    waiting := prepared.counted.2
    phase := fun _ => .idle
    joined := false
    log := []
    claimed := [] }

/-- `RigExecExecuteOpGraph` with dispatch and wait: some run of the machine up to the join. -/
inductive ExecutesDispatched (graph : CompiledGraph) (callbacks : OpCallbacks σ)
    (request : OpRequest) (memory : σ) (out : OpExecution) (workspace : OpWorkspace) :
    Executed σ → Prop where
  | refused {refused : Executed σ}
      (h : prepare graph callbacks request memory out workspace = .error refused) :
      ExecutesDispatched graph callbacks request memory out workspace refused
  | joined {prepared : Prepared σ} {events : List PoolEvent} {pool : Pool σ}
      (h : prepare graph callbacks request memory out workspace = .ok prepared)
      (hrun : Lib.run (poolStep graph callbacks prepared.plan) prepared.pool events = some pool)
      (hjoined : pool.joined = true) :
      ExecutesDispatched graph callbacks request memory out workspace
        (finish graph prepared pool.toRunning (pool.counted.1, prepared.counted.2))

end

end RigExec.OpGraph
