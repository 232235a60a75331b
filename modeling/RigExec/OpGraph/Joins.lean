/-
# `RigExec.OpGraph.Joins` — a dispatched execution at its join

Before the first body nothing has happened; at the join everything has: a cluster that waits has a
predecessor that waits, and the clusters are numbered along their edges.

    Completed             each candidate once, in an order that respects the edges
    work                  the steps that are left, counted by phase
    dispatched_completed  every run that joins is complete
    dispatched_ends       every run goes on to the join, in a number of steps that is fixed
-/
import RigExec.OpGraph.Interleavings
import RigExec.OpGraph.Reset

namespace RigExec.OpGraph

open Lib (Ascending Countdown Topological)

variable {σ : Type} {graph : CompiledGraph} {callbacks : OpCallbacks σ} {plan : Plan}
  {request : OpRequest} {memory : σ} {out : OpExecution} {workspace : OpWorkspace}
  {prepared : Prepared σ} {pool pool' : Pool σ} {c k op : Nat}

/-! ## Before the first body -/

theorem prepare_ok (hreused : Reused out workspace)
    (h : prepare graph callbacks request memory out workspace = .ok prepared) :
    ∃ out' workspace', Cleared graph.ops.length graph.clusters.length out' workspace' ∧
      prepared.plan = planOf graph request out' workspace' ∧
      prepared.counted = initialReady prepared.plan graph workspace'.unresolved ∧
      prepared.running =
        { memory := skipOthers graph callbacks prepared.plan.candidates memory
          succeeded := true
          ran := List.replicate graph.ops.length false
          completion := List.replicate graph.ops.length 0 } := by
  obtain ⟨hout, hworkspace⟩ := hreused.recorded
  obtain ⟨out', workspace', hreset, hcleared, -, -⟩ :=
    resetExecution_recorded hout hworkspace graph.ops.length graph.clusters.length
  unfold prepare at h
  split at h
  · cases h
  · rw [hreset] at h
    cases h
    exact ⟨out', workspace', hcleared, rfl, rfl, by rw [hcleared.ran, hcleared.completion]⟩

theorem planned_prepared (hgraph : Executable graph) (hreused : Reused out workspace)
    (h : prepare graph callbacks request memory out workspace = .ok prepared) :
    Planned graph prepared.plan := by
  obtain ⟨out', workspace', hcleared, hplan, -⟩ := prepare_ok hreused h
  rw [hplan]
  exact planned_planOf hgraph hcleared

theorem inOrder_prepared (hgraph : Executable graph) (hreused : Reused out workspace)
    (h : prepare graph callbacks request memory out workspace = .ok prepared) :
    InOrder graph prepared.plan prepared.pool := by
  have hplan := planned_prepared hgraph hreused h
  obtain ⟨out', workspace', -, -, hcounted, hrunning⟩ := prepare_ok hreused h
  refine ⟨⟨?_, fun _ _ => rfl, ?_⟩, ?_⟩
  · have hdown := countdown_initialReady hplan workspace'.unresolved
    rw [← hcounted] at hdown
    show Countdown _ _ _ (prepared.counted.1, prepared.counted.2 ++ [])
    rw [List.append_nil]
    exact hdown
  · exact fun _ _ op _ => ⟨List.not_mem_nil, List.not_mem_nil⟩
  · have hcompletion : prepared.pool.completion = List.replicate graph.ops.length 0 := by
      show prepared.running.completion = _
      rw [hrunning]
    refine ⟨List.nodup_nil, ?_, ?_, ?_, List.nodup_nil, Lib.topological_nil, ?_, rfl, ?_, ?_⟩
    · intro pre v post he
      cases pre with
      | nil => cases he
      | cons mark pre => cases he
    · exact fun op hop => absurd hop List.not_mem_nil
    · exact fun op hop => absurd hop List.not_mem_nil
    · exact fun op hop => absurd hop List.not_mem_nil
    · rw [hcompletion, List.length_replicate]
    · intro op _
      rw [hcompletion, List.getElem?_replicate]
      split <;> rfl

/-! ## At the join -/

theorem finished_of_drained (hdrained : pool.drained = true) (hk : pool.counted.2[k]? = some c) :
    pool.phase k = .finished := by
  have hlt := (List.getElem?_eq_some_iff.mp hk).1
  have hphase := List.all_eq_true.mp (Bool.and_eq_true_iff.mp hdrained).2 k (List.mem_range.mpr hlt)
  cases hold : pool.phase k with
  | finished => rfl
  | _ =>
      rw [hold] at hphase
      cases hphase

theorem step_of_drained (hdrained : pool.drained = true) {event : PoolEvent}
    (hstep : poolStep graph callbacks plan pool event = some pool') :
    pool' = { pool with joined := true } := by
  cases happens_of_poolStep hstep with
  | submit hwaiting =>
      have hnone := List.isEmpty_iff.mp (Bool.and_eq_true_iff.mp hdrained).1
      cases hnone.symm.trans hwaiting
  | take hk hold => cases hold.symm.trans (finished_of_drained hdrained hk)
  | advance hk hstep =>
      have hover := finished_of_drained hdrained hk
      cases hstep with
      | start hphase | act hphase | claim hphase | number hphase | opens hphase | release hphase
      | finish hphase => cases hphase.symm.trans hover
  | join _ _ => rfl

theorem joined_drained {events : List PoolEvent} (hfirst : pool.joined = false)
    (hrun : Lib.run (poolStep graph callbacks plan) pool events = some pool')
    (hjoined : pool'.joined = true) : pool'.drained = true := by
  refine Lib.run_preserves (P := fun s => s.joined = true → s.drained = true) ?_
    (fun h => by rw [hfirst] at h; cases h) hrun hjoined
  intro s event s' hs hstep hjoined
  by_cases hdrained : s.drained = true
  · rw [step_of_drained hdrained hstep]
    exact hdrained
  · -- a pool that is not drained is not joined, and cannot be
    have hnot : s.joined ≠ true := fun h => hdrained (hs h)
    cases happens_of_poolStep hstep with
    | submit _ | take _ _ => exact absurd hjoined hnot
    | advance _ hstep =>
        cases hstep with
        | _ => exact absurd hjoined hnot
    | join _ hready => exact absurd hready hdrained

section

variable (hgraph : Executable graph) (hplan : Planned graph plan)

include hgraph hplan in
/-- **A drained pool has gone through every candidate cluster.** -/
theorem InOrder.drained (h : InOrder graph plan pool) (hdrained : pool.drained = true)
    (hc : CandidateCluster plan c) : c ∈ pool.counted.2 ∧ pool.phaseOf c = .finished := by
  have hwaiting := List.isEmpty_iff.mp (Bool.and_eq_true_iff.mp hdrained).1
  have hfinished : ∀ a ∈ pool.counted.2, pool.phaseOf a = .finished := fun a ha =>
    finished_of_drained hdrained (List.getElem?_idxOf ha)
  have hall : ∀ c, CandidateCluster plan c → c ∈ pool.counted.2 := by
    intro c
    induction c using Nat.strong_induction_on with
    | _ c ih =>
        intro hc
        have hready : c ∈ pool.waiting ++ pool.counted.2 := by
          refine (h.countdown.ready c).mpr ⟨hc, fun p hp => ?_⟩
          have hscope := ((links_plan hgraph hplan).mem_preds c hc p hp).1
          rw [hfinished p (ih p (lt_of_mem_planPreds hgraph hplan hc hp) hscope)]
          rfl
        rw [hwaiting, List.nil_append] at hready
        exact hready
  exact ⟨hall c hc, hfinished c (hall c hc)⟩

/-- An execution in which every candidate had its body once, after those it waits for, and its
number in an order that respects the edges. -/
structure Completed (graph : CompiledGraph) (plan : Plan) (pool : Pool σ) : Prop where
  dispatched_nodup : pool.counted.2.Nodup
  dispatched_iff : ∀ c, c ∈ pool.counted.2 ↔ CandidateCluster plan c
  started_once : ∀ op, pool.log.count (.started op) = if flagAt plan.candidates op then 1 else 0
  acted_once : ∀ op, pool.log.count (.acted op) = if flagAt plan.candidates op then 1 else 0
  waits : ∀ pre v post, pool.log = pre ++ .started v :: post →
    ∀ u ∈ graph.preds v, flagAt plan.candidates u = true → .acted u ∈ pre
  numbered : ∃ order : List Nat, order.Nodup ∧ Topological (plan.opPreds graph) order ∧
    (∀ op, op ∈ order ↔ flagAt plan.candidates op = true) ∧
    ∀ op : Nat, pool.completion[op]?.getD 0 =
      if flagAt plan.candidates op then order.idxOf op + 1 else 0

theorem count_mark {log : List Mark} (hnodup : log.Nodup) {mark : Mark} {p : Bool}
    (h : mark ∈ log ↔ p = true) : log.count mark = if p then 1 else 0 := by
  cases p with
  | true => exact List.count_eq_one_of_mem hnodup (h.mpr rfl)
  | false => exact List.count_eq_zero.mpr fun hin => Bool.false_ne_true (h.mp hin)

include hgraph hplan in
theorem InOrder.completed (h : InOrder graph plan pool) (hdrained : pool.drained = true) :
    Completed graph plan pool := by
  have htask : ∀ op, flagAt plan.candidates op = true → .acted op ∈ pool.log ∧
      op ∈ pool.claimed ∧ pool.completion[op]? = some (pool.claimed.idxOf op + 1) := by
    intro op hop
    obtain ⟨c, hc, hmem⟩ := exists_cluster hgraph hplan hop
    have hat := h.task c hc
    rw [(h.drained hgraph hplan hdrained hc).2] at hat
    exact ⟨hat.2 op hmem, hat.1 op hmem⟩
  refine ⟨h.toTasks.dispatched_nodup, fun c => ⟨h.toTasks.candidate_of_dispatched,
    fun hc => (h.drained hgraph hplan hdrained hc).1⟩, fun op => ?_, fun op => ?_, ?_,
    pool.claimed, h.claimed_nodup, h.claimed_order, fun op => ⟨h.claimed_candidate op,
    fun hop => (htask op hop).2.1⟩, fun op => ?_⟩
  · exact count_mark h.log_nodup ⟨h.candidate op, fun hop => h.started op (htask op hop).1⟩
  · exact count_mark h.log_nodup ⟨fun hin => h.candidate op (h.started op hin),
      fun hop => (htask op hop).1⟩
  · exact fun pre v post he u hu hop => h.log_order pre v post he u (mem_opPreds.mpr ⟨hu, hop⟩)
  · cases hop : flagAt plan.candidates op with
    | true =>
        rw [(htask op hop).2.2]
        rfl
    | false => exact h.completion_other op hop

end

/-! ## What is left to do -/

/-- The steps a task still makes. -/
def Phase.work (members succs : Nat) : Phase → Nat
  | .idle => 3 * members + succs + 4
  | .bodies left _ => 2 * left.length + members + succs + 3
  | .acting _ _ left _ => 2 * left.length + members + succs + 4
  | .numbering left _ => left.length + succs + 2
  | .releasing left => left.length + 1
  | .finished => 0

/-- The steps the task of a cluster still makes. -/
def Pool.workOf (graph : CompiledGraph) (plan : Plan) (pool : Pool σ) (c : Nat) : Nat :=
  (pool.phaseOf c).work (plan.members graph c).length (plan.succs graph c).length

/-- The steps up to the join. -/
def Pool.work (graph : CompiledGraph) (plan : Plan) (pool : Pool σ) : Nat :=
  (if pool.joined then 0 else 1) + pool.waiting.length +
    Lib.total (pool.workOf graph plan) plan.candidateClusters

section

variable (hgraph : Executable graph) (hplan : Planned graph plan)

include hplan in
theorem work_drop (h : Tasks graph plan pool) (hk : pool.counted.2[k]? = some c)
    (hjoined : pool'.joined = pool.joined) (hwaiting : pool'.waiting = pool.waiting)
    (hother : ∀ a, a ≠ c → pool'.phaseOf a = pool.phaseOf a)
    {next : Phase} (hnext : pool'.phaseOf c = next)
    (hself : next.work (plan.members graph c).length (plan.succs graph c).length + 1 =
      (pool.phase k).work (plan.members graph c).length (plan.succs graph c).length) :
    pool'.work graph plan + 1 = pool.work graph plan := by
  have hc : c ∈ plan.candidateClusters :=
    (hplan.mem_clusters c).mpr (h.candidate_of_dispatched (List.mem_of_getElem? hk))
  have hsum := Lib.total_drop (f := pool.workOf graph plan) (g := pool'.workOf graph plan)
    hplan.clusters_ascending.nodup hc
    (fun a ha => by rw [Pool.workOf, hother a ha, Pool.workOf])
    (by rw [Pool.workOf, Pool.workOf, h.phaseOf_eq hk, hnext]; exact hself)
  rw [Pool.work, Pool.work, hjoined, hwaiting]
  omega

include hplan in
theorem work_move (h : Tasks graph plan pool) (hk : pool.counted.2[k]? = some c) {next : Phase}
    (hcounted : pool'.counted = pool.counted) (hjoined : pool'.joined = pool.joined)
    (hwaiting : pool'.waiting = pool.waiting)
    (hphase : pool'.phase = Function.update pool.phase k next)
    (hself : next.work (plan.members graph c).length (plan.succs graph c).length + 1 =
      (pool.phase k).work (plan.members graph c).length (plan.succs graph c).length) :
    pool'.work graph plan + 1 = pool.work graph plan :=
  work_drop hplan h hk hjoined hwaiting
    (fun _ ha => phaseOf_update_ne hk hcounted hphase ha)
    (phaseOf_update_self h hk hcounted hphase) hself

include hplan in
theorem work_advance (h : Tasks graph plan pool) (hk : pool.counted.2[k]? = some c)
    (hstep : Advances graph callbacks plan pool k c pool') :
    pool'.work graph plan + 1 = pool.work graph plan := by
  cases hstep
  case release next left hphase =>
    obtain ⟨more, hmore⟩ : ∃ more, (Lib.release pool.counted next).2 = pool.counted.2 ++ more :=
      Lib.foldl_release_append [next] pool.counted
    refine work_drop hplan h hk rfl rfl (fun a ha => phaseOf_append h.idle hk hmore rfl ha)
      (phaseOf_release h hk next (.releasing left)) ?_
    rw [hphase]
    simp [Phase.work]
  all_goals
    rename_i hphase
    refine work_move hplan h hk rfl rfl rfl rfl ?_
    rw [hphase]
    simp only [Phase.work, List.length_cons, List.length_nil] <;> omega

include hplan in
/-- **Every event is one step of the work.** -/
theorem work_step {event : PoolEvent} (h : Tasks graph plan pool)
    (hstep : poolStep graph callbacks plan pool event = some pool') :
    pool'.work graph plan + 1 = pool.work graph plan := by
  cases happens_of_poolStep hstep with
  | submit hwaiting =>
      rename_i c waiting
      have hsame : Pool.workOf graph plan { pool with
          waiting := waiting
          counted := (pool.counted.1, pool.counted.2 ++ [c]) } = pool.workOf graph plan := by
        funext a
        rw [Pool.workOf, phaseOf_submit h.idle, Pool.workOf]
      rw [Pool.work, Pool.work, hwaiting, hsame]
      simp only [List.length_cons]
      omega
  | take hk hold =>
      refine work_move hplan h hk rfl rfl rfl rfl ?_
      rw [hold]
      simp only [Phase.work]
      omega
  | advance hk hstep => exact work_advance hplan h hk hstep
  | join hjoined _ =>
      have hleft : Pool.work graph plan { pool with joined := true } =
          0 + pool.waiting.length + Lib.total (pool.workOf graph plan) plan.candidateClusters :=
        rfl
      rw [hleft, Pool.work, hjoined, if_neg Bool.false_ne_true]
      omega

include hgraph hplan in
theorem work_run {events : List PoolEvent} (h : InOrder graph plan pool)
    (hrun : Lib.run (poolStep graph callbacks plan) pool events = some pool') :
    events.length + pool'.work graph plan = pool.work graph plan := by
  induction events generalizing pool with
  | nil =>
      cases hrun
      exact Nat.zero_add _
  | cons event events ih =>
      obtain ⟨next, hstep, hrun⟩ := Lib.run_cons_eq_some.mp hrun
      have hwork := work_step hplan h.toTasks hstep
      have hrest := ih (inOrder_step hgraph hplan h hstep) hrun
      rw [List.length_cons]
      omega

theorem exists_advance (hk : pool.counted.2[k]? = some c)
    (hphase : (pool.phase k).isFinished = false) :
    ∃ event, (poolStep graph callbacks plan pool event).isSome = true := by
  cases hold : pool.phase k with
  | idle => exact ⟨.take k, by simp only [poolStep, hk, hold]; rfl⟩
  | finished =>
      rw [hold] at hphase
      cases hphase
  | acting op needed left count =>
      exact ⟨.advance k, by simp only [poolStep, hk, advanceTask, hold]; rfl⟩
  | bodies left count | numbering left before | releasing left =>
      refine ⟨.advance k, ?_⟩
      cases left with
      | nil =>
          simp only [poolStep, hk, advanceTask, hold]
          rfl
      | cons op left =>
          simp only [poolStep, hk, advanceTask, hold]
          rfl

/-- **A pool that is not joined has an event.** -/
theorem exists_event (hjoined : pool.joined = false) :
    ∃ event, (poolStep graph callbacks plan pool event).isSome = true := by
  cases hwaiting : pool.waiting with
  | cons c waiting => exact ⟨.submit, by simp only [poolStep, hwaiting]; rfl⟩
  | nil =>
      by_cases hdrained : pool.drained = true
      · exact ⟨.join, by simp [poolStep, hjoined, hdrained]⟩
      · obtain ⟨k, hk, hphase⟩ : ∃ k, k < pool.counted.2.length ∧
            (pool.phase k).isFinished = false := by
          simpa [Pool.drained, hwaiting] using hdrained
        exact exists_advance (List.getElem?_eq_getElem hk) hphase

include hgraph hplan in
theorem InOrder.work_eq_zero (h : InOrder graph plan pool) (hjoined : pool.joined = true)
    (hdrained : pool.drained = true) : pool.work graph plan = 0 := by
  have hwaiting := List.isEmpty_iff.mp (Bool.and_eq_true_iff.mp hdrained).1
  have hsum : Lib.total (pool.workOf graph plan) plan.candidateClusters = 0 := by
    have hover : plan.candidateClusters.map (pool.workOf graph plan) =
        plan.candidateClusters.map fun _ => 0 := by
      refine List.map_congr_left fun c hc => ?_
      rw [Pool.workOf, (h.drained hgraph hplan hdrained ((hplan.mem_clusters c).mp hc)).2]
      rfl
    rw [Lib.total, hover]
    simp
  rw [Pool.work, hjoined, hwaiting, hsum]
  rfl

include hgraph hplan in
theorem InOrder.reaches_join (h : InOrder graph plan pool) (hfirst : pool.joined = false) :
    ∃ events pool', Lib.run (poolStep graph callbacks plan) pool events = some pool' ∧
      pool'.joined = true := by
  induction hn : pool.work graph plan generalizing pool with
  | zero =>
      rw [Pool.work, hfirst, if_neg Bool.false_ne_true] at hn
      omega
  | succ n ih =>
      obtain ⟨event, hsome⟩ := @exists_event _ graph callbacks plan _ hfirst
      obtain ⟨next, hstep⟩ := Option.isSome_iff_exists.mp hsome
      have hwork := work_step hplan h.toTasks hstep
      have hnext : InOrder graph plan next := inOrder_step hgraph hplan h hstep
      cases hjoined : next.joined with
      | true => exact ⟨[event], next, by rw [Lib.run_cons, hstep]; rfl, hjoined⟩
      | false =>
          obtain ⟨events, last, hrun, hlast⟩ := ih hnext hjoined (by omega)
          exact ⟨event :: events, last, by rw [Lib.run_cons, hstep]; exact hrun, hlast⟩

end

/-! ## Whole executions -/

/-- One op that reads a leaf, and another that reads what it writes. -/
def relayGraph : CompiledGraph where
  ops :=
    [{ descriptor := { key := "a", reads := [2], writes := [0] }, originalIndex := 0,
       predecessors := [], successors := [1] },
     { descriptor := { key := "b", reads := [0], writes := [1] }, originalIndex := 1,
       predecessors := [0], successors := [] }]
  readers value := if value = 2 then [0] else if value = 0 then [1] else []
  clusters := [{ members := [0], successors := [1] }, { members := [1], predecessors := [0] }]
  opClusters := [0, 1]

theorem mem_relayReads (i value : Nat) :
    value ∈ relayGraph.reads i ↔ i = 0 ∧ value = 2 ∨ i = 1 ∧ value = 0 := by
  rcases i with _ | _ | i <;> simp [CompiledGraph.reads, relayGraph]

theorem mem_relayWrites (i value : Nat) : value ∈ relayGraph.writes i ↔ i < 2 ∧ value = i := by
  rcases i with _ | _ | i <;> simp [CompiledGraph.writes, relayGraph]

theorem compiled_relayGraph : Compiled relayGraph := by
  have hpreds : ∀ i, relayGraph.preds i = if i = 1 then [0] else [] := by
    rintro (_ | _ | i) <;> rfl
  have hsuccs : ∀ i, relayGraph.succs i = if i = 0 then [1] else [] := by
    rintro (_ | _ | i) <;> rfl
  have hmemPreds : ∀ u v, u ∈ relayGraph.preds v ↔ v = 1 ∧ u = 0 := by
    intro u v
    rw [hpreds]
    split <;> simp_all
  have hmemSuccs : ∀ u v, v ∈ relayGraph.succs u ↔ u = 0 ∧ v = 1 := by
    intro u v
    rw [hsuccs]
    split <;> simp_all
  have hreaders : ∀ (value : Nat) i, i ∈ relayGraph.readers value ↔
      value = 2 ∧ i = 0 ∨ value = 0 ∧ i = 1 := by
    intro value i
    simp only [relayGraph]
    split
    · simp_all
    · split <;> simp_all
  refine ⟨⟨fun i => ?_, fun i => ?_, fun u v => ?_, fun v u => ?_⟩, fun value i => ?_, ?_,
    fun i j value => ?_, fun i j (value : Nat) => ?_⟩
  · rw [hpreds]
    split <;> simp [Lib.Ascending]
  · rw [hsuccs]
    split <;> simp [Lib.Ascending]
  · rw [hmemPreds, hmemSuccs]
    exact and_comm
  · rw [hmemPreds]
    omega
  · rw [hreaders, mem_relayReads]
    omega
  · exact fun i hi => absurd hi List.not_mem_nil
  · rw [mem_relayReads, mem_relayWrites, hmemPreds]
    omega
  · rw [mem_relayWrites, mem_relayWrites]
    omega

/-- Bodies that do nothing. -/
def quietCallbacks : OpCallbacks Unit where
  run _ _ := ((), true)
  skip _ _ := ()
  changed _ _ := false

theorem validateOpClusters_relayGraph : validateOpClusters relayGraph = .ok () := rfl

theorem executable_relayGraph : Executable relayGraph :=
  ⟨compiled_relayGraph, clustering_of_valid validateOpClusters_relayGraph⟩

/-- **A dispatched execution completes.**  However the dispatched clusters start and interleave, at
the join every candidate cluster has been dispatched once, every candidate op has had its body once
and after those of its candidate predecessors, and the completion numbers count the candidates along
the edges. -/
theorem dispatched_completed (hcompiled : Compiled graph)
    (hvalid : validateOpClusters graph = .ok ()) (hreused : Reused out workspace)
    (hprepare : prepare graph callbacks request memory out workspace = .ok prepared)
    {events : List PoolEvent}
    (hrun : Lib.run (poolStep graph callbacks prepared.plan) prepared.pool events = some pool)
    (hjoined : pool.joined = true) : Completed graph prepared.plan pool := by
  have hgraph : Executable graph := ⟨hcompiled, clustering_of_valid hvalid⟩
  have hplan := planned_prepared hgraph hreused hprepare
  have hstart := inOrder_prepared hgraph hreused hprepare
  exact (inOrder_run hgraph hplan hstart hrun).completed hgraph hplan
    (joined_drained rfl hrun hjoined)

theorem dispatched_completed_relay :
    ∃ (prepared : Prepared Unit) (events : List PoolEvent) (pool : Pool Unit),
      Lib.run (poolStep relayGraph quietCallbacks prepared.plan) prepared.pool events = some pool ∧
        pool.joined = true ∧ Completed relayGraph prepared.plan pool := by
  obtain ⟨prepared, hprepare⟩ : ∃ prepared,
      prepare relayGraph quietCallbacks { force := true } () {} {} = .ok prepared := ⟨_, rfl⟩
  have hstart := inOrder_prepared executable_relayGraph .fresh hprepare
  obtain ⟨events, pool, hrun, hjoined⟩ := @InOrder.reaches_join _ _ quietCallbacks _ _
    executable_relayGraph (planned_prepared executable_relayGraph .fresh hprepare) hstart rfl
  exact ⟨prepared, events, pool, hrun, hjoined, dispatched_completed compiled_relayGraph
    validateOpClusters_relayGraph .fresh hprepare hrun hjoined⟩

/-- **A dispatched execution ends.**  No schedule is stuck before the join: from whatever state a
run has reached the join can be reached, and every run that joins has made the same number of
steps. -/
theorem dispatched_ends (hcompiled : Compiled graph)
    (hvalid : validateOpClusters graph = .ok ()) (hreused : Reused out workspace)
    (hprepare : prepare graph callbacks request memory out workspace = .ok prepared)
    {events : List PoolEvent}
    (hrun : Lib.run (poolStep graph callbacks prepared.plan) prepared.pool events = some pool) :
    events.length ≤ prepared.pool.work graph prepared.plan ∧
      (pool.joined = true ↔ events.length = prepared.pool.work graph prepared.plan) ∧
      ∃ more last, Lib.run (poolStep graph callbacks prepared.plan) pool more = some last ∧
        last.joined = true := by
  have hgraph : Executable graph := ⟨hcompiled, clustering_of_valid hvalid⟩
  have hplan := planned_prepared hgraph hreused hprepare
  have hstart := inOrder_prepared hgraph hreused hprepare
  have hpool := inOrder_run hgraph hplan hstart hrun
  have hwork := work_run hgraph hplan hstart hrun
  cases hjoined : pool.joined with
  | true =>
      have hnothing := hpool.work_eq_zero hgraph hplan hjoined (joined_drained rfl hrun hjoined)
      exact ⟨by omega, iff_of_true rfl (by omega), [], pool, rfl, hjoined⟩
  | false =>
      refine ⟨by omega, iff_of_false Bool.false_ne_true fun he => ?_,
        hpool.reaches_join hgraph hplan hjoined⟩
      rw [Pool.work, hjoined, if_neg Bool.false_ne_true] at hwork
      omega

theorem dispatched_ends_relay :
    ∃ prepared : Prepared Unit,
      prepare relayGraph quietCallbacks { force := true } () {} {} = .ok prepared ∧
        ∃ more last, Lib.run (poolStep relayGraph quietCallbacks prepared.plan) prepared.pool more =
          some last ∧ last.joined = true := by
  obtain ⟨prepared, hprepare⟩ : ∃ prepared,
      prepare relayGraph quietCallbacks { force := true } () {} {} = .ok prepared := ⟨_, rfl⟩
  exact ⟨prepared, hprepare, (dispatched_ends compiled_relayGraph validateOpClusters_relayGraph
    .fresh hprepare (Lib.run_nil _)).2.2⟩

end RigExec.OpGraph
