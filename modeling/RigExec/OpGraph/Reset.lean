/-
# `RigExec.OpGraph.Reset` — one execution and one workspace, call after call

A call clears what the record of the last one names, and nothing else, so the
record must name every entry that was set.  It does after every call, whatever
the graph, the request and the callbacks were:

    candidates        are gathered in `pending` as they are marked
    ran, completion   are set for candidates only (`Within`)
    seeded            are pending
    clusters          are gathered as they are marked

A refused call leaves its record as it was, and a call with another size clears
whole arrays.  So the reset at the start of the next call leaves what clearing
whole arrays would leave (`executionReset_complete`).
-/
import RigExec.OpGraph.Bodies

namespace RigExec.OpGraph

variable {σ : Type} {graph : CompiledGraph} {callbacks : OpCallbacks σ} {request : OpRequest}
  {plan : Plan} {out : OpExecution} {workspace : OpWorkspace}

/-! ## What the bodies set -/

/-- Bodies ran, and were numbered, for candidates only. -/
structure Within (candidates : List Bool) (running : Running σ) : Prop where
  ran : ∀ i, flagAt running.ran i = true → flagAt candidates i = true
  completion : ∀ i, running.completion[i]?.getD 0 ≠ 0 → flagAt candidates i = true

section

variable {candidates : List Bool} {running : Running σ} {i : Nat}

theorem Within.startBody (h : Within candidates running) (seeded : List Bool) (i : Nat) :
    Within candidates (startBody graph callbacks seeded running i).1 := by
  unfold OpGraph.startBody
  split
  · split
    · exact ⟨h.ran, h.completion⟩
    · exact h
  · exact h

theorem Within.finishBody (h : Within candidates running) (hi : flagAt candidates i = true)
    (needed : Bool) : Within candidates (finishBody callbacks running i needed) := by
  unfold OpGraph.finishBody
  split
  · refine ⟨?_, h.completion⟩
    intro j hj
    rcases flagAt_set.mp hj with hj | ⟨rfl, -⟩
    · exact h.ran j hj
    · exact hi
  · exact ⟨h.ran, h.completion⟩

theorem Within.set_completion (h : Within candidates running) (hi : flagAt candidates i = true)
    (number : Nat) :
    Within candidates { running with completion := running.completion.set i number } := by
  refine ⟨h.ran, ?_⟩
  intro j hj
  rcases eq_or_ne i j with rfl | hne
  · exact hi
  · refine h.completion j ?_
    rwa [show (running.completion.set i number)[j]? = running.completion[j]? from
      List.getElem?_set_ne hne] at hj

end

theorem within_invariant (graph : CompiledGraph) (callbacks : OpCallbacks σ) (plan : Plan) :
    BodyInvariant graph callbacks plan (Within plan.candidates) where
  start h _ := h.startBody plan.seeded _
  finish needed h hi := h.finishBody hi needed
  number n h hi := h.set_completion hi n

/-! ## One call -/

/-- The plan of a cleared execution names in its lists whatever its flags mark. -/
structure PlanRecorded (graph : CompiledGraph) (plan : Plan) : Prop where
  candidates : Marked graph.ops.length (plan.candidates, plan.pending)
  seeded : ∀ i, flagAt plan.seeded i = true → i ∈ plan.pending
  clusters : ∀ c, flagAt plan.clusterCandidates c = true → c ∈ plan.candidateClusters

theorem planRecorded_planOf
    (hcleared : Cleared graph.ops.length graph.clusters.length out workspace) :
    PlanRecorded graph (planOf graph request out workspace) := by
  obtain ⟨hclusters, -⟩ := (marked_nil graph.clusters.length).foldl
    ((candidateMarks graph request (List.replicate graph.ops.length false)).2.filterMap
      (graph.opClusters[·]?))
  rw [planOf, hcleared.candidates, hcleared.clusterCandidates, hcleared.seeded]
  refine ⟨(marked_candidateMarks graph request).1, ?_, ?_⟩
  · intro i hi
    exact mem_pending_of_seeded hi
  · intro c hc
    exact ((opAscending_spec hclusters).2 c).mpr hc

theorem recorded_finish {prepared : Prepared σ} (hplan : PlanRecorded graph prepared.plan)
    {running : Running σ} (hrunning : Within prepared.plan.candidates running)
    (counted : List Int × List Nat) :
    Recorded (finish graph prepared running counted).out ∧
      RecordedWorkspace (finish graph prepared running counted).workspace := by
  refine ⟨?_, ?_⟩
  · rintro - i hi
    refine ((opAscending_spec hplan.candidates).2 i).mpr ?_
    rcases hi with hi | hi | hi
    · exact hi
    · exact hrunning.ran i hi
    · exact hrunning.completion i hi
  · rintro -
    exact ⟨hplan.seeded, hplan.clusters⟩

/-- A call that is refused leaves execution and workspace as they are, and its arguments say why;
one that is not starts from cleared arrays. -/
theorem prepare_recorded (hout : Recorded out) (hworkspace : RecordedWorkspace workspace)
    (graph : CompiledGraph) (callbacks : OpCallbacks σ) (request : OpRequest) (memory : σ) :
    (∀ refused, prepare graph callbacks request memory out workspace = .error refused →
        refused.out = out ∧ refused.workspace = workspace ∧
        ∃ message, checkRequest graph callbacks request = .error message ∧
          refused.outcome = .error message) ∧
      ∀ prepared, prepare graph callbacks request memory out workspace = .ok prepared →
        PlanRecorded graph prepared.plan ∧ Within prepared.plan.candidates prepared.running := by
  obtain ⟨out', workspace', hreset, hcleared, -, -⟩ :=
    resetExecution_recorded hout hworkspace graph.ops.length graph.clusters.length
  unfold prepare
  cases hcheck : checkRequest graph callbacks request with
  | error message =>
      refine ⟨?_, ?_⟩
      · rintro refused ⟨⟩
        exact ⟨rfl, rfl, message, rfl, rfl⟩
      · intro prepared h
        cases h
  | ok _ =>
      simp only [hreset]
      refine ⟨?_, ?_⟩
      · intro refused h
        cases h
      · rintro prepared ⟨⟩
        refine ⟨planRecorded_planOf hcleared, ?_, ?_⟩
        · intro i hi
          have hnot : flagAt out'.ran i = false := by rw [hcleared.ran, flagAt_replicate]
          cases hnot.symm.trans hi
        · intro i hi
          refine absurd ?_ hi
          show out'.completion[i]?.getD 0 = 0
          rw [hcleared.completion, List.getElem?_replicate]
          split <;> rfl

theorem recorded_executeSerial (hout : Recorded out) (hworkspace : RecordedWorkspace workspace)
    (graph : CompiledGraph) (callbacks : OpCallbacks σ) (request : OpRequest) (memory : σ) :
    Recorded (executeSerial graph callbacks request memory out workspace).out ∧
      RecordedWorkspace (executeSerial graph callbacks request memory out workspace).workspace := by
  obtain ⟨hrefused, hprepared⟩ := prepare_recorded hout hworkspace graph callbacks request memory
  unfold executeSerial
  cases hprepare : prepare graph callbacks request memory out workspace with
  | error refused =>
      obtain ⟨hsame, hsame', -⟩ := hrefused refused hprepare
      exact ⟨hsame ▸ hout, hsame' ▸ hworkspace⟩
  | ok prepared =>
      obtain ⟨hplan, hwithin⟩ := hprepared prepared hprepare
      exact recorded_finish hplan ((within_invariant _ _ _).serialLoop hwithin 0) _

theorem recorded_executesDispatched {request : OpRequest} {memory : σ} {executed : Executed σ}
    (hout : Recorded out) (hworkspace : RecordedWorkspace workspace)
    (h : ExecutesDispatched graph callbacks request memory out workspace executed) :
    Recorded executed.out ∧ RecordedWorkspace executed.workspace := by
  obtain ⟨hrefused, hprepared⟩ := prepare_recorded hout hworkspace graph callbacks request memory
  cases h with
  | refused hprepare =>
      obtain ⟨hsame, hsame', -⟩ := hrefused executed hprepare
      exact ⟨hsame ▸ hout, hsame' ▸ hworkspace⟩
  | joined hprepare hrun _ =>
      obtain ⟨hplan, hwithin⟩ := hprepared _ hprepare
      rename_i prepared _ _ _
      have hstart : PoolKeeps prepared.plan (Within prepared.plan.candidates) prepared.pool :=
        ⟨hwithin, fun k op hop => absurd hop List.not_mem_nil⟩
      have hinv := within_invariant graph callbacks prepared.plan
      have hpool := Lib.run_preserves (fun s e s' hs hstep => PoolKeeps.step hinv hs hstep)
        hstart hrun
      exact recorded_finish hplan hpool.running _

/-! ## Every sequence of calls -/

/-- An execution and a workspace that some calls have reused; the check of the resets may be turned
on and off in between. -/
inductive Reused : OpExecution → OpWorkspace → Prop where
  | fresh : Reused {} {}
  | verify {out : OpExecution} {workspace : OpWorkspace} (h : Reused out workspace)
      (verifyReset : Bool) : Reused out { workspace with verifyReset }
  | serial {out : OpExecution} {workspace : OpWorkspace} {σ : Type} (h : Reused out workspace)
      (graph : CompiledGraph) (callbacks : OpCallbacks σ) (request : OpRequest) (memory : σ) :
      Reused (executeSerial graph callbacks request memory out workspace).out
        (executeSerial graph callbacks request memory out workspace).workspace
  | dispatched {out : OpExecution} {workspace : OpWorkspace} {σ : Type} (h : Reused out workspace)
      {graph : CompiledGraph} {callbacks : OpCallbacks σ} {request : OpRequest} {memory : σ}
      {executed : Executed σ}
      (hexecutes : ExecutesDispatched graph callbacks request memory out workspace executed) :
      Reused executed.out executed.workspace

/-- **Every call leaves complete records.** -/
theorem Reused.recorded (h : Reused out workspace) :
    Recorded out ∧ RecordedWorkspace workspace := by
  induction h with
  | fresh =>
      refine ⟨?_, ?_⟩
      · intro hvalid
        cases hvalid
      · intro hvalid
        cases hvalid
  | verify _ verifyReset ih => exact ⟨ih.1, ih.2⟩
  | serial _ graph callbacks request memory ih =>
      exact recorded_executeSerial ih.1 ih.2 graph callbacks request memory
  | dispatched _ hexecutes ih => exact recorded_executesDispatched ih.1 ih.2 hexecutes

/-- **The reset is complete.**  After any calls, the reset for a graph of any size leaves every entry
zero and finds none missed; and a call that follows is refused by the checks of its arguments
only. -/
theorem executionReset_complete (h : Reused out workspace) :
    (∀ ops clusters, ∃ out' workspace',
        resetExecution out workspace ops clusters = (out', workspace', true) ∧
          Cleared ops clusters out' workspace') ∧
      ∀ (σ : Type) (graph : CompiledGraph) (callbacks : OpCallbacks σ) (request : OpRequest)
        (memory : σ) (refused : Executed σ),
        prepare graph callbacks request memory out workspace = .error refused →
          ∃ message, checkRequest graph callbacks request = .error message ∧
            refused.outcome = .error message := by
  obtain ⟨hout, hworkspace⟩ := h.recorded
  refine ⟨?_, ?_⟩
  · intro ops clusters
    obtain ⟨out', workspace', hreset, hcleared, -⟩ :=
      resetExecution_recorded hout hworkspace ops clusters
    exact ⟨out', workspace', hreset, hcleared⟩
  · intro σ graph callbacks request memory refused hrefused
    exact ((prepare_recorded hout hworkspace graph callbacks request memory).1 refused hrefused).2.2

/-- One op that writes a value another reads, each in a cluster of its own. -/
def pairGraph : CompiledGraph where
  ops :=
    [{ descriptor := { key := "a", writes := [0] }, originalIndex := 0, predecessors := [],
       successors := [1] },
     { descriptor := { key := "b", reads := [0] }, originalIndex := 1, predecessors := [0],
       successors := [] }]
  clusters := [{ members := [0], successors := [1] }, { members := [1], predecessors := [0] }]
  opClusters := [0, 1]

/-- Callbacks whose first body fails. -/
def failingCallbacks : OpCallbacks Unit where
  run i _ := ((), i != 0)
  skip _ _ := ()
  changed _ _ := false

theorem executionReset_complete_failing :
    ∃ out' workspace',
      resetExecution
          (executeSerial pairGraph failingCallbacks { seedOps := [0] } () {}
            { verifyReset := true }).out
          (executeSerial pairGraph failingCallbacks { seedOps := [0] } () {}
            { verifyReset := true }).workspace 3 2 = (out', workspace', true) ∧
        Cleared 3 2 out' workspace' :=
  (executionReset_complete
    ((Reused.fresh.verify true).serial pairGraph failingCallbacks { seedOps := [0] } ())).1 3 2

end RigExec.OpGraph
