/-
# `RigExec.OpGraph.Plans` — what is fixed before the first body

An execution clears what the last one recorded, so the records have to name every
entry that is set (`Recorded`, `RecordedWorkspace`); then the reset leaves what
clearing whole arrays would leave (`resetExecution_recorded`), and its own check does
not trip.

From cleared arrays the marks are exact: the flags and the list that gathered them
name the same ops (`Marked`), the candidates contain whatever was asked for and are
closed under successors, and the counts are those of the candidate clusters
(`Planned`, `countdown_initialReady`).
-/
import RigExec.OpGraph.Clusters
import RigExec.OpGraph.Execution

namespace RigExec.OpGraph

open Lib (sortUnique Ascending Countdown)

/-! ## Flags -/

theorem flagAt_eq_true {flags : List Bool} {i : Nat} :
    flagAt flags i = true ↔ flags[i]? = some true := by
  unfold flagAt
  cases flags[i]? with
  | none => simp
  | some b => simp

theorem flagAt_lt {flags : List Bool} {i : Nat} (h : flagAt flags i = true) : i < flags.length :=
  (List.getElem?_eq_some_iff.mp (flagAt_eq_true.mp h)).1

theorem flagAt_replicate (n i : Nat) : flagAt (List.replicate n false) i = false := by
  unfold flagAt
  rw [List.getElem?_replicate]
  split <;> rfl

theorem flagAt_set {flags : List Bool} {i j : Nat} :
    flagAt (flags.set i true) j = true ↔ flagAt flags j = true ∨ i = j ∧ i < flags.length := by
  rw [flagAt_eq_true, flagAt_eq_true, List.getElem?_set]
  by_cases he : i = j
  · subst he
    by_cases hlt : i < flags.length
    · simp [hlt]
    · simp [hlt]
  · simp [he]

/-! ## The reset -/

section

variable {α : Type} {zero : α}

theorem getElem?_foldl_set (f : Nat → α) (listed : List Nat) (values : List α) (i : Nat) :
    (listed.foldl (fun values i => values.set i (f i)) values)[i]? =
      if i ∈ listed then values[i]?.map fun _ => f i else values[i]? := by
  induction listed generalizing values with
  | nil => simp
  | cons j listed ih =>
      rw [List.foldl_cons, ih, List.getElem?_set]
      by_cases hj : j = i
      · subst hj
        by_cases hlt : j < values.length
        · simp [hlt]
        · simp [hlt]
      · by_cases hi : i ∈ listed
        · simp [hj, hi]
        · simp [hj, hi, Ne.symm hj]

theorem getElem?_clearListed (listed : List Nat) (values : List α) (i : Nat) :
    (clearListed zero listed values)[i]? =
      if i ∈ listed then values[i]?.map fun _ => zero else values[i]? :=
  getElem?_foldl_set (fun _ => zero) listed values i

theorem clearListed_eq_replicate {listed : List Nat} {values : List α}
    (h : ∀ (i : Nat) (a : α), values[i]? = some a → a ≠ zero → i ∈ listed) :
    clearListed zero listed values = List.replicate values.length zero := by
  refine List.ext_getElem? ?_
  intro i
  rw [getElem?_clearListed, List.getElem?_replicate]
  by_cases hlt : i < values.length
  · rw [List.getElem?_eq_getElem hlt, if_pos hlt]
    split
    · rfl
    · rename_i hnot
      by_contra hne
      refine hnot (h i values[i] (List.getElem?_eq_getElem hlt) ?_)
      intro he
      exact hne (congrArg some he)
  · rw [if_neg hlt, List.getElem?_eq_none (Nat.not_lt.mp hlt)]
    simp

end

/-- The record of an execution names every entry that is set. -/
def Recorded (out : OpExecution) : Prop :=
  out.touchedValid = true → ∀ i : Nat, (flagAt out.candidates i = true ∨ flagAt out.ran i = true ∨
    out.completion[i]?.getD 0 ≠ 0) → i ∈ out.touched

/-- The lists of a workspace name every mark that is set. -/
def RecordedWorkspace (workspace : OpWorkspace) : Prop :=
  workspace.listsValid = true →
    (∀ i, flagAt workspace.seeded i = true → i ∈ workspace.pending) ∧
      ∀ c, flagAt workspace.clusterCandidates c = true → c ∈ workspace.candidateClusters

theorem clearListed_flags {listed : List Nat} {flags : List Bool}
    (h : ∀ i, flagAt flags i = true → i ∈ listed) :
    clearListed false listed flags = List.replicate flags.length false := by
  refine clearListed_eq_replicate ?_
  intro i b hb hne
  refine h i (flagAt_eq_true.mpr ?_)
  cases b with
  | false => exact absurd rfl hne
  | true => exact hb

/-- What a reset leaves. -/
structure Cleared (ops clusters : Nat) (out : OpExecution) (workspace : OpWorkspace) : Prop where
  candidates : out.candidates = List.replicate ops false
  ran : out.ran = List.replicate ops false
  completion : out.completion = List.replicate ops 0
  seeded : workspace.seeded = List.replicate ops false
  clusterCandidates : workspace.clusterCandidates = List.replicate clusters false

/-- **The reset clears everything**, through complete records or whole, and finds nothing
missed. -/
theorem resetExecution_recorded {out : OpExecution} {workspace : OpWorkspace}
    (hout : Recorded out) (hworkspace : RecordedWorkspace workspace) (ops clusters : Nat) :
    ∃ out' workspace', resetExecution out workspace ops clusters = (out', workspace', true) ∧
      Cleared ops clusters out' workspace' ∧ workspace'.unresolved = workspace.unresolved ∧
      workspace'.verifyReset = workspace.verifyReset := by
  -- the two halves, whichever way they are cleared
  have houtput : ∀ listed : Bool,
      (listed = true → (out.touchedValid && out.candidates.length == ops &&
        out.ran.length == ops && out.completion.length == ops) = true) →
      (if listed then clearListed false out.touched out.candidates else List.replicate ops false) =
        List.replicate ops false ∧
      (if listed then clearListed false out.touched out.ran else List.replicate ops false) =
        List.replicate ops false ∧
      (if listed then clearListed 0 out.touched out.completion else List.replicate ops 0) =
        List.replicate ops 0 := by
    intro listed hlisted
    cases listed with
    | false => exact ⟨rfl, rfl, rfl⟩
    | true =>
        have hvalid := hlisted rfl
        simp only [Bool.and_eq_true, beq_iff_eq] at hvalid
        obtain ⟨⟨⟨hvalid, hcandidates⟩, hran⟩, hcompletion⟩ := hvalid
        have hrecord := hout hvalid
        refine ⟨?_, ?_, ?_⟩
        · rw [if_pos rfl, clearListed_flags, hcandidates]
          intro i hi
          exact hrecord i (.inl hi)
        · rw [if_pos rfl, clearListed_flags, hran]
          intro i hi
          exact hrecord i (.inr (.inl hi))
        · rw [if_pos rfl, clearListed_eq_replicate, hcompletion]
          intro i n hn hne
          refine hrecord i (.inr (.inr ?_))
          rw [hn]
          exact hne
  have hmarks : ∀ listed : Bool,
      (listed = true → (workspace.listsValid && workspace.seeded.length == ops &&
        workspace.clusterCandidates.length == clusters) = true) →
      (if listed then clearListed false workspace.pending workspace.seeded
        else List.replicate ops false) = List.replicate ops false ∧
      (if listed then clearListed false workspace.candidateClusters workspace.clusterCandidates
        else List.replicate clusters false) = List.replicate clusters false := by
    intro listed hlisted
    cases listed with
    | false => exact ⟨rfl, rfl⟩
    | true =>
        have hvalid := hlisted rfl
        simp only [Bool.and_eq_true, beq_iff_eq] at hvalid
        obtain ⟨⟨hvalid, hseeded⟩, hclusters⟩ := hvalid
        obtain ⟨hrecord, hrecord'⟩ := hworkspace hvalid
        refine ⟨?_, ?_⟩
        · rw [if_pos rfl, clearListed_flags hrecord, hseeded]
        · rw [if_pos rfl, clearListed_flags hrecord', hclusters]
  obtain ⟨hcandidates, hran, hcompletion⟩ := houtput _ id
  obtain ⟨hseeded, hclusters⟩ := hmarks _ id
  rw [resetExecution]
  dsimp only
  rw [hcandidates, hran, hcompletion, hseeded, hclusters]
  split
  · exact ⟨_, _, rfl, ⟨rfl, rfl, rfl, rfl, rfl⟩, rfl, rfl⟩
  · refine ⟨_, _, Prod.ext rfl (Prod.ext rfl ?_), ⟨?_, ?_, ?_, ?_, ?_⟩, rfl, rfl⟩
    · simp
    · simp
    · simp
    · simp
    · simp
    · simp

/-! ## Marks -/

/-- Flags and the list that gathered them name the same entries, each once. -/
structure Marked (n : Nat) (marks : List Bool × List Nat) : Prop where
  length_eq : marks.1.length = n
  mem_iff : ∀ i, flagAt marks.1 i = true ↔ i ∈ marks.2
  nodup : marks.2.Nodup

section

variable {n : Nat} {marks : List Bool × List Nat}

theorem marked_nil (n : Nat) : Marked n (List.replicate n false, []) where
  length_eq := List.length_replicate
  mem_iff := fun i => by simp [flagAt_replicate]
  nodup := List.nodup_nil

theorem mem_markNew (h : Marked n marks) {i j : Nat} :
    j ∈ (markNew marks i).2 ↔ j ∈ marks.2 ∨ j = i ∧ i < n := by
  unfold markNew
  split
  · rename_i hget
    have hlt := (List.getElem?_eq_some_iff.mp hget).1
    rw [h.length_eq] at hlt
    simp [hlt]
  · rename_i hget
    constructor
    · intro hj
      exact .inl hj
    · rintro (hj | ⟨rfl, hlt⟩)
      · exact hj
      · rw [← h.mem_iff, flagAt_eq_true]
        rw [← h.length_eq] at hlt
        cases hb : marks.1[j] with
        | false => exact absurd (hb ▸ List.getElem?_eq_getElem hlt) hget
        | true => exact hb ▸ List.getElem?_eq_getElem hlt

theorem Marked.markNew (h : Marked n marks) (i : Nat) : Marked n (markNew marks i) := by
  refine ⟨?_, ?_, ?_⟩
  · unfold OpGraph.markNew
    split
    · exact (List.length_set).trans h.length_eq
    · exact h.length_eq
  · intro j
    rw [mem_markNew h, ← h.mem_iff]
    unfold OpGraph.markNew
    split
    · rw [flagAt_set, h.length_eq, eq_comm (a := i)]
    · rename_i hget
      constructor
      · intro hj
        exact .inl hj
      · rintro (hj | ⟨rfl, hlt⟩)
        · exact hj
        · rw [← h.length_eq] at hlt
          rw [flagAt_eq_true]
          cases hb : marks.1[j] with
          | false => exact absurd (hb ▸ List.getElem?_eq_getElem hlt) hget
          | true => exact hb ▸ List.getElem?_eq_getElem hlt
  · unfold OpGraph.markNew
    split
    · rename_i hget
      refine List.nodup_append.mpr ⟨h.nodup, List.nodup_singleton i, ?_⟩
      intro a ha b hb hab
      have hin : flagAt marks.1 i = true := by
        rw [h.mem_iff, ← List.mem_singleton.mp hb, ← hab]
        exact ha
      rw [flagAt_eq_true] at hin
      cases hget.symm.trans hin
    · exact h.nodup

theorem Marked.foldl (h : Marked n marks) (list : List Nat) :
    Marked n (list.foldl OpGraph.markNew marks) ∧
      ∀ j, j ∈ (list.foldl OpGraph.markNew marks).2 ↔ j ∈ marks.2 ∨ j ∈ list ∧ j < n := by
  induction list generalizing marks with
  | nil => exact ⟨h, fun j => by simp⟩
  | cons i list ih =>
      obtain ⟨hmarked, hmem⟩ := ih (h.markNew i)
      refine ⟨hmarked, ?_⟩
      intro j
      rw [List.foldl_cons, hmem, mem_markNew h, List.mem_cons]
      constructor
      · rintro ((hj | ⟨rfl, hlt⟩) | ⟨hj, hlt⟩)
        exacts [.inl hj, .inr ⟨.inl rfl, hlt⟩, .inr ⟨.inr hj, hlt⟩]
      · rintro (hj | ⟨rfl | hj, hlt⟩)
        exacts [.inl (.inl hj), .inl (.inr ⟨rfl, hlt⟩), .inr ⟨hj, hlt⟩]

theorem foldl_markNew_append (list : List Nat) (marks : List Bool × List Nat) :
    ∃ more, (list.foldl markNew marks).2 = marks.2 ++ more := by
  induction list generalizing marks with
  | nil => exact ⟨[], (List.append_nil _).symm⟩
  | cons i list ih =>
      obtain ⟨more, hmore⟩ := ih (markNew marks i)
      have hone : ∃ one, (markNew marks i).2 = marks.2 ++ one := by
        unfold markNew
        split
        · exact ⟨[i], rfl⟩
        · exact ⟨[], (List.append_nil _).symm⟩
      obtain ⟨one, hone⟩ := hone
      exact ⟨one ++ more, by rw [List.foldl_cons, hmore, hone, List.append_assoc]⟩

/-- **The cone** contains the marks and is closed under successors. -/
theorem Marked.cone {succs : Nat → List Nat} {head : Nat} (h : Marked n marks)
    (hclosed : ∀ k < head, ∀ u, marks.2[k]? = some u → ∀ v ∈ succs u, v < n → v ∈ marks.2) :
    Marked n (OpGraph.cone succs marks head) ∧
      (∀ j ∈ marks.2, j ∈ (OpGraph.cone succs marks head).2) ∧
      ∀ u ∈ (OpGraph.cone succs marks head).2, ∀ v ∈ succs u, v < n →
        v ∈ (OpGraph.cone succs marks head).2 := by
  induction marks, head using cone.induct succs with
  | case1 marks head hhead ih =>
      rw [OpGraph.cone, dif_pos hhead]
      obtain ⟨hmarked, hmem⟩ := h.foldl (succs marks.2[head])
      obtain ⟨more, hmore⟩ := foldl_markNew_append (succs marks.2[head]) marks
      obtain ⟨hmarked', hkeep, hclosed'⟩ := ih hmarked (by
        intro k hk u hu v hv hlt
        rw [hmem]
        rcases Nat.lt_succ_iff_lt_or_eq.mp hk with hk | rfl
        · rw [hmore, List.getElem?_append_left (Nat.lt_trans hk hhead)] at hu
          exact .inl (hclosed k hk u hu v hv hlt)
        · rw [hmore, List.getElem?_append_left hhead, List.getElem?_eq_getElem hhead] at hu
          cases hu
          exact .inr ⟨hv, hlt⟩)
      refine ⟨hmarked', ?_, hclosed'⟩
      intro j hj
      exact hkeep j ((hmem j).mpr (.inl hj))
  | case2 marks head hhead =>
      rw [OpGraph.cone, dif_neg hhead]
      refine ⟨h, fun j hj => hj, ?_⟩
      intro u hu v hv hlt
      obtain ⟨k, hk⟩ := List.mem_iff_getElem?.mp hu
      have hlt' := (List.getElem?_eq_some_iff.mp hk).1
      exact hclosed k (Nat.lt_of_lt_of_le hlt' (Nat.not_lt.mp hhead)) u hk v hv hlt

theorem opAscending_spec (h : Marked n marks) :
    Ascending (opAscending marks.2 marks.1 n) ∧
      ∀ i, i ∈ opAscending marks.2 marks.1 n ↔ flagAt marks.1 i = true := by
  have hbound : ∀ i, flagAt marks.1 i = true → i < n := by
    intro i hi
    exact h.length_eq ▸ flagAt_lt hi
  rw [opAscending, h.length_eq, Nat.min_self]
  split
  · refine ⟨List.pairwise_lt_range.filter _, ?_⟩
    intro i
    rw [List.mem_filter, List.mem_range]
    exact and_iff_right_of_imp (hbound i)
  · refine ⟨Lib.ascending_sortUnique _, ?_⟩
    intro i
    rw [Lib.mem_sortUnique, List.mem_filter, ← h.mem_iff, Bool.and_eq_true, decide_eq_true_eq]
    constructor
    · intro hi
      exact hi.1
    · intro hi
      exact ⟨hi, hbound i hi, hi⟩

end

/-! ## The plan -/

/-- The clusters of a graph and its ops, as the executor uses them. -/
structure Executable (graph : CompiledGraph) : Prop extends Compiled graph, Clustering graph

/-- What is fixed before the first body. -/
structure Planned (graph : CompiledGraph) (plan : Plan) : Prop where
  candidates : Marked graph.ops.length (plan.candidates, plan.pending)
  closed : ∀ u v, flagAt plan.candidates u = true → u ∈ graph.preds v →
    flagAt plan.candidates v = true
  cluster_iff : ∀ c : Nat, flagAt plan.clusterCandidates c = true ↔
    ∃ op, flagAt plan.candidates op = true ∧ graph.opClusters[op]? = some c
  clusters_length : plan.clusterCandidates.length = graph.clusters.length
  clusters_ascending : Ascending plan.candidateClusters
  mem_clusters : ∀ c, c ∈ plan.candidateClusters ↔ flagAt plan.clusterCandidates c = true
  seeded : ∀ i, flagAt plan.seeded i = true → i ∈ plan.pending

section

variable {graph : CompiledGraph} {request : OpRequest} {out : OpExecution}
  {workspace : OpWorkspace} {plan : Plan} {u v c : Nat}

theorem flagAt_seedFlags {list : List Nat} {flags : List Bool} {i : Nat} :
    flagAt (list.foldl (fun seeded i => seeded.set i true) flags) i = true ↔
      flagAt flags i = true ∨ i ∈ list ∧ i < flags.length := by
  induction list generalizing flags with
  | nil => simp
  | cons j list ih =>
      rw [List.foldl_cons, ih, flagAt_set, List.length_set, List.mem_cons]
      constructor
      · rintro ((hi | ⟨rfl, hlt⟩) | ⟨hi, hlt⟩)
        exacts [.inl hi, .inr ⟨.inl rfl, hlt⟩, .inr ⟨.inr hi, hlt⟩]
      · rintro (hi | ⟨rfl | hi, hlt⟩)
        exacts [.inl (.inl hi), .inl (.inr ⟨rfl, hlt⟩), .inr ⟨hi, hlt⟩]

theorem seedFlags_iff {i : Nat} :
    flagAt (seedFlags graph request (List.replicate graph.ops.length false)) i = true ↔
      i < graph.ops.length ∧
        (request.force = true ∨ i ∈ request.seedOps ∨ i ∈ graph.volatileOps) := by
  rw [seedFlags]
  cases hforce : request.force with
  | true =>
      rw [flagAt_seedFlags]
      simp only [if_true, List.length_replicate, List.mem_append, List.mem_range, true_or, and_true]
      constructor
      · rintro (hi | ⟨-, hi⟩)
        · simpa using flagAt_lt hi
        · exact hi
      · intro hi
        exact .inr ⟨.inr hi, hi⟩
  | false =>
      rw [flagAt_seedFlags]
      simp [flagAt_replicate, and_comm]

theorem marked_candidateMarks (graph : CompiledGraph) (request : OpRequest) :
    Marked graph.ops.length
        (candidateMarks graph request (List.replicate graph.ops.length false)) ∧
      (∀ i ∈ seedList graph request, i < graph.ops.length →
        i ∈ (candidateMarks graph request (List.replicate graph.ops.length false)).2) ∧
      ∀ u ∈ (candidateMarks graph request (List.replicate graph.ops.length false)).2,
        ∀ v ∈ graph.succs u, v < graph.ops.length →
          v ∈ (candidateMarks graph request (List.replicate graph.ops.length false)).2 := by
  obtain ⟨hseeds, hmem⟩ := (marked_nil graph.ops.length).foldl (seedList graph request)
  obtain ⟨hmarked, hkeep, hclosed⟩ := @Marked.cone _ _ graph.succs 0 hseeds (fun k hk => (nomatch hk))
  refine ⟨hmarked, ?_, hclosed⟩
  intro i hi hlt
  exact hkeep i ((hmem i).mpr (.inr ⟨hi, hlt⟩))

theorem candidateMarks_spec (h : Topology graph) :
    Marked graph.ops.length
        (candidateMarks graph request (List.replicate graph.ops.length false)) ∧
      (∀ i ∈ seedList graph request, i < graph.ops.length →
        i ∈ (candidateMarks graph request (List.replicate graph.ops.length false)).2) ∧
      ∀ u ∈ (candidateMarks graph request (List.replicate graph.ops.length false)).2,
        ∀ v, u ∈ graph.preds v →
          v ∈ (candidateMarks graph request (List.replicate graph.ops.length false)).2 := by
  obtain ⟨hmarked, hseeds, hclosed⟩ := marked_candidateMarks graph request
  refine ⟨hmarked, hseeds, ?_⟩
  intro u hu v hv
  exact hclosed u hu v ((h.mem_succs_iff u v).mpr hv) (lt_of_mem_preds hv)

theorem mem_pending_of_seeded {i : Nat}
    (hi : flagAt (seedFlags graph request (List.replicate graph.ops.length false)) i = true) :
    i ∈ (candidateMarks graph request (List.replicate graph.ops.length false)).2 := by
  obtain ⟨hlt, hmandatory⟩ := seedFlags_iff.mp hi
  refine (marked_candidateMarks graph request).2.1 i ?_ hlt
  simp only [seedList, List.mem_append]
  rcases hmandatory with hforce | hseed | hvolatile
  · exact .inr (by simp [hforce, hlt])
  · exact .inl (.inl (.inl hseed))
  · cases hforce : request.force with
    | true => exact .inr (by simp [hlt])
    | false => exact .inr (by simpa [hforce] using hvolatile)

/-- **The plan of a cleared execution.** -/
theorem planned_planOf (h : Executable graph)
    (hcleared : Cleared graph.ops.length graph.clusters.length out workspace) :
    Planned graph (planOf graph request out workspace) := by
  obtain ⟨hmarked, -, hclosed⟩ := @candidateMarks_spec graph request h.toTopology
  obtain ⟨hclusters, hmem⟩ := (marked_nil graph.clusters.length).foldl
    ((candidateMarks graph request (List.replicate graph.ops.length false)).2.filterMap
      (graph.opClusters[·]?))
  rw [planOf, hcleared.candidates, hcleared.clusterCandidates, hcleared.seeded]
  have hascending := opAscending_spec hclusters
  refine ⟨hmarked, ?_, ?_, hclusters.length_eq, hascending.1, hascending.2, ?_⟩
  · intro u v hu hv
    exact (hmarked.mem_iff v).mpr (hclosed u ((hmarked.mem_iff u).mp hu) v hv)
  · intro c
    refine (hclusters.mem_iff c).trans ((hmem c).trans ?_)
    simp only [List.not_mem_nil, false_or, List.mem_filterMap, hmarked.mem_iff]
    constructor
    · intro hc
      exact hc.1
    · rintro ⟨op, hop, hc⟩
      exact ⟨⟨op, hop, hc⟩, h.lt op c hc⟩
  · intro i hi
    exact mem_pending_of_seeded hi

/-! ## The clusters as a countdown -/

theorem Planned.candidate_lt (h : Planned graph plan) (hu : flagAt plan.candidates u = true) :
    u < graph.ops.length :=
  h.candidates.length_eq ▸ flagAt_lt hu

section

variable (hgraph : Executable graph)
include hgraph

theorem mem_members :
    u ∈ graph.members c ↔ graph.opClusters[u]? = some c := by
  unfold CompiledGraph.members
  cases hc : graph.clusters[c]? with
  | some cluster => exact hgraph.mem_iff c cluster hc u
  | none =>
      refine iff_of_false (fun hu => (nomatch hu)) ?_
      intro hu
      have := hgraph.lt u c hu
      rw [List.getElem?_eq_none_iff] at hc
      omega

theorem mem_planMembers :
    u ∈ plan.members graph c ↔ graph.opClusters[u]? = some c ∧ flagAt plan.candidates u = true := by
  rw [Plan.members, List.mem_filter, mem_members hgraph]

theorem ascending_planMembers (c : Nat) :
    Ascending (plan.members graph c) := by
  refine List.Pairwise.filter _ ?_
  unfold CompiledGraph.members
  cases hc : graph.clusters[c]? with
  | none => exact List.Pairwise.nil
  | some cluster => exact hgraph.ascending cluster (List.mem_of_getElem? hc)

theorem clusterPreds_eq (hc : c < graph.clusters.length) :
    graph.clusterPreds c = clusterPreds (clusterEdges graph graph.opClusters) c := by
  unfold CompiledGraph.clusterPreds
  rw [List.getElem?_eq_getElem hc]
  exact hgraph.preds_eq c _ (List.getElem?_eq_getElem hc)

theorem clusterSuccs_eq (hc : c < graph.clusters.length) :
    graph.clusterSuccs c = clusterSuccs (clusterEdges graph graph.opClusters) c := by
  unfold CompiledGraph.clusterSuccs
  rw [List.getElem?_eq_getElem hc]
  exact hgraph.succs_eq c _ (List.getElem?_eq_getElem hc)

end

/-- The candidate clusters, counted. -/
def CandidateCluster (plan : Plan) (c : Nat) : Prop := flagAt plan.clusterCandidates c = true

section

variable (hgraph : Executable graph)
include hgraph

theorem mem_planPreds (hplan : Planned graph plan) (hc : CandidateCluster plan c) {a : Nat} :
    a ∈ plan.preds graph c ↔ CandidateCluster plan a ∧ a ≠ c ∧ ∃ u v, u ∈ graph.preds v ∧
      graph.opClusters[u]? = some a ∧ graph.opClusters[v]? = some c := by
  rw [Plan.preds, List.mem_filter, clusterPreds_eq hgraph (hplan.clusters_length ▸ flagAt_lt hc),
    mem_clusterPreds, and_comm, CandidateCluster]

theorem mem_planSuccs (hplan : Planned graph plan) (hc : CandidateCluster plan c) {b : Nat} :
    b ∈ plan.succs graph c ↔ CandidateCluster plan b ∧ c ≠ b ∧ ∃ u v, u ∈ graph.preds v ∧
      graph.opClusters[u]? = some c ∧ graph.opClusters[v]? = some b := by
  rw [Plan.succs, List.mem_filter, clusterSuccs_eq hgraph (hplan.clusters_length ▸ flagAt_lt hc),
    mem_clusterSuccs, and_comm, CandidateCluster]

/-- **The candidate clusters with their edges, from both ends.** -/
theorem links_plan (hplan : Planned graph plan) :
    Lib.Links (CandidateCluster plan) (plan.preds graph) (plan.succs graph) := by
  refine ⟨?_, ?_, ?_, ?_⟩
  · intro c hc
    rw [Plan.preds, clusterPreds_eq hgraph (hplan.clusters_length ▸ flagAt_lt hc)]
    exact (Lib.ascending_sortUnique _).nodup.filter _
  · intro c hc
    rw [Plan.succs, clusterSuccs_eq hgraph (hplan.clusters_length ▸ flagAt_lt hc)]
    exact (Lib.ascending_sortUnique _).nodup.filter _
  · intro c hc a ha
    obtain ⟨hcandidate, hne, hedge⟩ := (mem_planPreds hgraph hplan hc).mp ha
    exact ⟨hcandidate, (mem_planSuccs hgraph hplan hcandidate).mpr ⟨hc, hne, hedge⟩⟩
  · intro c hc b hb
    obtain ⟨hcandidate, hne, hedge⟩ := (mem_planSuccs hgraph hplan hc).mp hb
    exact ⟨hcandidate, (mem_planPreds hgraph hplan hcandidate).mpr ⟨hc, hne, hedge⟩⟩

theorem lt_of_mem_planPreds (hplan : Planned graph plan)
    (hc : CandidateCluster plan c) {a : Nat} (ha : a ∈ plan.preds graph c) : a < c := by
  obtain ⟨-, hne, u, v, huv, hu, hv⟩ := (mem_planPreds hgraph hplan hc).mp ha
  exact Nat.lt_of_le_of_ne (hgraph.forward u v a c huv hu hv) hne

end

/-- The loop over the candidate clusters: the counts, and the clusters with none. -/
theorem foldl_ready (list : List Nat) (counted : List Int × List Nat) :
    list.foldl (fun counted c =>
        let dependencies := (plan.preds graph c).length
        (counted.1.set c ((dependencies : Nat) : Int),
          if dependencies = 0 then counted.2 ++ [c] else counted.2)) counted =
      (list.foldl (fun counts c => counts.set c (((plan.preds graph c).length : Nat) : Int)) counted.1,
        counted.2 ++ list.filter fun c => (plan.preds graph c).length == 0) := by
  induction list generalizing counted with
  | nil => simp
  | cons c list ih =>
      rw [List.foldl_cons, ih, List.foldl_cons, List.filter_cons]
      by_cases hzero : (plan.preds graph c).length = 0
      · simp [hzero]
      · simp [hzero]

/-- **The counts before the first body.** -/
theorem countdown_initialReady (hplan : Planned graph plan) (counts : List Int) :
    Countdown (CandidateCluster plan) (plan.preds graph) (fun _ _ => false)
      (initialReady plan graph counts) := by
  have hpending : ∀ c, Lib.pending (plan.preds graph) (fun _ _ => false) c =
      (plan.preds graph c).length := by
    intro c
    simp [Lib.pending]
  rw [initialReady, foldl_ready]
  refine ⟨?_, ?_, ?_⟩
  · intro c hc
    have hlt : c < (resizeCounts counts graph.clusters.length).length := by
      have := hplan.clusters_length ▸ flagAt_lt hc
      simpa [resizeCounts] using this
    rw [hpending c, getElem?_foldl_set, if_pos ((hplan.mem_clusters c).mpr hc),
      List.getElem?_eq_getElem hlt, Option.map_some]
  · intro c
    rw [← @Lib.pending_eq_zero (plan.preds graph) (fun _ _ => false) c, hpending c, List.nil_append,
      List.mem_filter, hplan.mem_clusters, beq_iff_eq, CandidateCluster]
  · exact (hplan.clusters_ascending.nodup).filter _

end

end RigExec.OpGraph
