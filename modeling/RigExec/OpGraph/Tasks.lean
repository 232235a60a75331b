/-
# `RigExec.OpGraph.Tasks` — the order of a dispatched execution

The invariant of the machine has two halves.

| | |
| :-- | :-- |
| `Tasks` | one task for every dispatched cluster, what it has done by its phase, and the counts against the edges released so far |
| `Chronicle` | what has been logged: each body once, after the bodies of its candidate predecessors, and the numbers claimed in an order that respects the edges |

Both rest on one fact, `Tasks.preds_done`: a dispatched cluster has only released
predecessors, and a cluster that releases has run and numbered all its members, so
what an op of the cluster waits for is done or is an earlier member.

Every step keeps both (`inOrder_step`), so every run does (`inOrder_run`).  At the
join all candidate clusters have been dispatched and are finished, because a cluster
that waits has a predecessor that waits (`InOrder.all_dispatched`).
-/
import RigExec.OpGraph.Plans

namespace RigExec.OpGraph

open Lib (Ascending Countdown Topological)

/-! ## Phases -/

/-- The edge to `b` is released, as far as a phase tells. -/
def Phase.released (b : Nat) : Phase → Bool
  | .finished => true
  | .releasing left => !left.contains b
  | _ => false

section

variable {σ : Type} {graph : CompiledGraph} {callbacks : OpCallbacks σ} {plan : Plan}
  {pool pool' : Pool σ} {a b c k u v op : Nat}

/-- The phase of the task of a cluster; idle when it is not dispatched. -/
def Pool.phaseOf (pool : Pool σ) (c : Nat) : Phase := pool.phase (pool.counted.2.idxOf c)

/-- The candidate predecessors of an op. -/
def Plan.opPreds (plan : Plan) (graph : CompiledGraph) (v : Nat) : List Nat :=
  (graph.preds v).filter (flagAt plan.candidates)

theorem mem_opPreds :
    u ∈ plan.opPreds graph v ↔ u ∈ graph.preds v ∧ flagAt plan.candidates u = true := by
  rw [Plan.opPreds, List.mem_filter]

/-- The members of a cluster have their numbers. -/
def Numbered (graph : CompiledGraph) (plan : Plan) (pool : Pool σ) (c : Nat) : Prop :=
  ∀ op ∈ plan.members graph c,
    op ∈ pool.claimed ∧ pool.completion[op]? = some (pool.claimed.idxOf op + 1)

/-- What the task of a cluster has done, by its phase. -/
def TaskAt (graph : CompiledGraph) (plan : Plan) (pool : Pool σ) (c : Nat) : Phase → Prop
  | .idle => ∀ op ∈ plan.members graph c, .started op ∉ pool.log ∧ op ∉ pool.claimed
  | .bodies left count => (∃ done, plan.members graph c = done ++ left ∧ count = done.length ∧
      ∀ op ∈ done, .acted op ∈ pool.log) ∧ (∀ op ∈ left, .started op ∉ pool.log) ∧
      ∀ op ∈ plan.members graph c, op ∉ pool.claimed
  | .acting op _ left count => (∃ done, plan.members graph c = done ++ op :: left ∧
      count = done.length ∧ ∀ op ∈ done, .acted op ∈ pool.log) ∧ .started op ∈ pool.log ∧
      .acted op ∉ pool.log ∧ (∀ op ∈ left, .started op ∉ pool.log) ∧
      ∀ op ∈ plan.members graph c, op ∉ pool.claimed
  | .numbering left before => (∃ pre done post, plan.members graph c = done ++ left ∧
      pool.claimed = pre ++ plan.members graph c ++ post ∧ before = pre.length + done.length ∧
      ∀ op ∈ done, pool.completion[op]? = some (pool.claimed.idxOf op + 1)) ∧
      ∀ op ∈ plan.members graph c, .acted op ∈ pool.log
  | .releasing left => (∃ done, plan.succs graph c = done ++ left) ∧
      Numbered graph plan pool c ∧ ∀ op ∈ plan.members graph c, .acted op ∈ pool.log
  | .finished => Numbered graph plan pool c ∧ ∀ op ∈ plan.members graph c, .acted op ∈ pool.log

/-- One task for every dispatched cluster. -/
structure Tasks (graph : CompiledGraph) (plan : Plan) (pool : Pool σ) : Prop where
  countdown : Countdown (CandidateCluster plan) (plan.preds graph)
    (fun a b => (pool.phaseOf a).released b) (pool.counted.1, pool.waiting ++ pool.counted.2)
  idle : ∀ k, pool.counted.2.length ≤ k → pool.phase k = .idle
  task : ∀ c, CandidateCluster plan c → TaskAt graph plan pool c (pool.phaseOf c)

/-- What has happened so far. -/
structure Chronicle (graph : CompiledGraph) (plan : Plan) (pool : Pool σ) : Prop where
  log_nodup : pool.log.Nodup
  log_order : ∀ pre v post, pool.log = pre ++ .started v :: post →
    ∀ u ∈ plan.opPreds graph v, .acted u ∈ pre
  started : ∀ op, .acted op ∈ pool.log → .started op ∈ pool.log
  candidate : ∀ op, .started op ∈ pool.log → flagAt plan.candidates op = true
  claimed_nodup : pool.claimed.Nodup
  claimed_order : Topological (plan.opPreds graph) pool.claimed
  claimed_candidate : ∀ op ∈ pool.claimed, flagAt plan.candidates op = true
  sequence_eq : pool.sequence = pool.claimed.length
  completion_length : pool.completion.length = graph.ops.length
  completion_other : ∀ op : Nat, flagAt plan.candidates op = false →
    pool.completion[op]?.getD 0 = 0

/-- The invariant of the machine. -/
structure InOrder (graph : CompiledGraph) (plan : Plan) (pool : Pool σ) : Prop extends
    Tasks graph plan pool, Chronicle graph plan pool

/-! ## Clusters and their tasks -/

section

variable (hgraph : Executable graph) (hplan : Planned graph plan)

include hgraph in
theorem members_disjoint (hne : a ≠ c) (hu : u ∈ plan.members graph a) :
    u ∉ plan.members graph c := by
  intro hc
  have ha' := ((mem_planMembers hgraph).mp hu).1
  have hc' := ((mem_planMembers hgraph).mp hc).1
  exact hne (Option.some.inj (ha'.symm.trans hc'))

include hgraph hplan in
theorem exists_cluster (hu : flagAt plan.candidates u = true) :
    ∃ c, CandidateCluster plan c ∧ u ∈ plan.members graph c := by
  have hlt : u < graph.opClusters.length := hgraph.length_eq ▸ hplan.candidate_lt hu
  have hc : graph.opClusters[u]? = some graph.opClusters[u] := List.getElem?_eq_getElem hlt
  exact ⟨_, (hplan.cluster_iff _).mpr ⟨u, hu, hc⟩, (mem_planMembers hgraph).mpr ⟨hc, hu⟩⟩

theorem Tasks.dispatched_nodup (h : Tasks graph plan pool) : pool.counted.2.Nodup :=
  (List.nodup_append.mp h.countdown.nodup).2.1

theorem Tasks.candidate_of_dispatched (h : Tasks graph plan pool) (hc : c ∈ pool.counted.2) :
    CandidateCluster plan c :=
  ((h.countdown.ready c).mp (List.mem_append_right _ hc)).1

theorem Tasks.idxOf_eq (h : Tasks graph plan pool) (hk : pool.counted.2[k]? = some c) :
    pool.counted.2.idxOf c = k := by
  obtain ⟨hlt, rfl⟩ := List.getElem?_eq_some_iff.mp hk
  exact List.Nodup.idxOf_getElem h.dispatched_nodup k hlt

theorem Tasks.phaseOf_eq (h : Tasks graph plan pool) (hk : pool.counted.2[k]? = some c) :
    pool.phaseOf c = pool.phase k := by
  rw [Pool.phaseOf, h.idxOf_eq hk]

theorem idxOf_ne_of_ne (hk : pool.counted.2[k]? = some c) (hne : a ≠ c) :
    pool.counted.2.idxOf a ≠ k := by
  intro he
  by_cases ha : a ∈ pool.counted.2
  · have hplace := List.getElem?_eq_getElem (List.idxOf_lt_length_of_mem ha)
    rw [List.getElem_idxOf, he, hk] at hplace
    exact hne (Option.some.inj hplace).symm
  · rw [List.idxOf_eq_length_iff.mpr ha] at he
    have := (List.getElem?_eq_some_iff.mp hk).1
    omega

theorem TaskAt.done (h : TaskAt graph plan pool c phase) (hreleased : phase.released b = true) :
    ∀ op ∈ plan.members graph c, .acted op ∈ pool.log ∧ op ∈ pool.claimed := by
  intro op hop
  cases phase with
  | idle => cases hreleased
  | bodies left count => cases hreleased
  | acting op needed left count => cases hreleased
  | numbering left before => cases hreleased
  | releasing left => exact ⟨h.2.2 op hop, (h.2.1 op hop).1⟩
  | finished => exact ⟨h.2 op hop, (h.1 op hop).1⟩

include hgraph hplan in
/-- **What an op of a dispatched cluster waits for**: an earlier member, or something done. -/
theorem Tasks.preds_done (h : Tasks graph plan pool) (hc : c ∈ pool.counted.2)
    (hv : v ∈ plan.members graph c) (hu : u ∈ plan.opPreds graph v) :
    u ∈ plan.members graph c ∧ u < v ∨ .acted u ∈ pool.log ∧ u ∈ pool.claimed := by
  obtain ⟨hedge, hcandidate⟩ := mem_opPreds.mp hu
  obtain ⟨a, ha, hua⟩ := exists_cluster hgraph hplan hcandidate
  by_cases he : a = c
  · subst he
    exact .inl ⟨hua, hgraph.preds_lt v u hedge⟩
  · have hready := (h.countdown.ready c).mp (List.mem_append_right _ hc)
    have hpred : a ∈ plan.preds graph c := (mem_planPreds hgraph hplan hready.1).mpr
      ⟨ha, he, u, v, hedge, ((mem_planMembers hgraph).mp hua).1, ((mem_planMembers hgraph).mp hv).1⟩
    exact .inr ((h.task a ha).done (hready.2 a hpred) u hua)

end

theorem TaskAt.frame {phase : Phase} (h : TaskAt graph plan pool c phase)
    (hlog : ∀ op ∈ plan.members graph c, (.started op ∈ pool'.log ↔ .started op ∈ pool.log) ∧
      (.acted op ∈ pool'.log ↔ .acted op ∈ pool.log))
    (hclaimed : ∃ more, pool'.claimed = pool.claimed ++ more ∧
      ∀ op ∈ plan.members graph c, op ∉ more)
    (hcompletion : ∀ op ∈ plan.members graph c, pool'.completion[op]? = pool.completion[op]?) :
    TaskAt graph plan pool' c phase := by
  obtain ⟨more, hmore, hnew⟩ := hclaimed
  have hnotin : ∀ op ∈ plan.members graph c, op ∉ pool.claimed → op ∉ pool'.claimed := by
    intro op hop hnot hin
    rw [hmore] at hin
    exact (List.mem_append.mp hin).elim hnot (hnew op hop)
  have hnumber : ∀ op ∈ plan.members graph c, op ∈ pool.claimed →
      pool.completion[op]? = some (pool.claimed.idxOf op + 1) →
      pool'.completion[op]? = some (pool'.claimed.idxOf op + 1) := by
    intro op hop hin hnumber
    rw [hcompletion op hop, hnumber, hmore, List.idxOf_append_of_mem hin]
  have hnumbered : Numbered graph plan pool c → Numbered graph plan pool' c := by
    intro hold op hop
    obtain ⟨hin, hnum⟩ := hold op hop
    exact ⟨hmore ▸ List.mem_append_left more hin, hnumber op hop hin hnum⟩
  cases phase with
  | idle =>
      intro op hop
      obtain ⟨hstarted, hnot⟩ := h op hop
      exact ⟨fun hin => hstarted ((hlog op hop).1.mp hin), hnotin op hop hnot⟩
  | bodies left count =>
      obtain ⟨⟨done, hsplit, hcount, hdone⟩, hleft, hnot⟩ := h
      refine ⟨⟨done, hsplit, hcount, ?_⟩, ?_, fun op hop => hnotin op hop (hnot op hop)⟩
      · intro op hop
        exact (hlog op (hsplit ▸ List.mem_append_left left hop)).2.mpr (hdone op hop)
      · intro op hop hin
        exact hleft op hop ((hlog op (hsplit ▸ List.mem_append_right done hop)).1.mp hin)
  | acting op needed left count =>
      obtain ⟨⟨done, hsplit, hcount, hdone⟩, hstarted, hacted, hleft, hnot⟩ := h
      have hop : op ∈ plan.members graph c := hsplit ▸ by simp
      refine ⟨⟨done, hsplit, hcount, ?_⟩, (hlog op hop).1.mpr hstarted,
        fun hin => hacted ((hlog op hop).2.mp hin), ?_, fun op hop => hnotin op hop (hnot op hop)⟩
      · intro op hop
        exact (hlog op (hsplit ▸ List.mem_append_left _ hop)).2.mpr (hdone op hop)
      · intro op hop hin
        exact hleft op hop ((hlog op (hsplit ▸ by simp [hop])).1.mp hin)
  | numbering left before =>
      obtain ⟨⟨pre, done, post, hsplit, hclaim, hbefore, hdone⟩, hacted⟩ := h
      refine ⟨⟨pre, done, post ++ more, hsplit, ?_, hbefore, ?_⟩,
        fun op hop => (hlog op hop).2.mpr (hacted op hop)⟩
      · rw [hmore, hclaim, List.append_assoc]
      · intro op hop
        have hmem : op ∈ plan.members graph c := hsplit ▸ List.mem_append_left left hop
        exact hnumber op hmem (hclaim ▸ by simp [hmem]) (hdone op hop)
  | releasing left =>
      exact ⟨h.1, hnumbered h.2.1, fun op hop => (hlog op hop).2.mpr (h.2.2 op hop)⟩
  | finished => exact ⟨hnumbered h.1, fun op hop => (hlog op hop).2.mpr (h.2 op hop)⟩

end

end RigExec.OpGraph
