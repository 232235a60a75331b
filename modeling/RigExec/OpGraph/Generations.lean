/-
# `RigExec.OpGraph.Generations` — every schedule leaves one result

What an execution leaves is settled by what its ops make of their inputs, so it does not depend on
the schedule, the records it reuses or the memory behind the values.

    Wave                what one execution leaves
    executions_agree    two executions of one request
-/
import RigExec.OpGraph.Cells
import RigExec.OpGraph.SerialRun

namespace RigExec.OpGraph

variable {V σ : Type} {graph : CompiledGraph} {family : OpFamily V} {cells : σ → Cells V}
  {callbacks : OpCallbacks σ} {request : OpRequest} {memory : σ} {out : OpExecution}
  {workspace : OpWorkspace} {executed : Executed σ} {plan : Plan}
  {before values values' : Cells V} {ran ran' : List Bool} {i : Nat}

/-! ## One execution -/

/-- The plan of a request. -/
def planFor (graph : CompiledGraph) (request : OpRequest) : Plan :=
  planOf graph request
    { candidates := List.replicate graph.ops.length false
      ran := List.replicate graph.ops.length false
      completion := List.replicate graph.ops.length 0 }
    { seeded := List.replicate graph.ops.length false
      clusterCandidates := List.replicate graph.clusters.length false }

/-- The record of an execution, from what its bodies did. -/
def recordOf (graph : CompiledGraph) (plan : Plan) (ran : List Bool) (completion : List Nat) :
    OpExecution :=
  let touched := opAscending plan.pending plan.candidates graph.ops.length
  let executed := touched.countP (flagAt ran)
  { candidates := plan.candidates
    ran := ran
    completion := completion
    executed := executed
    skipped := graph.ops.length - executed
    touched := touched
    touchedValid := true }

/-- What an execution leaves in the values. -/
structure Wave (graph : CompiledGraph) (family : OpFamily V) (plan : Plan)
    (before values : Cells V) (ran : List Bool) (succeeded : Bool) : Prop where
  ran_length : ran.length = graph.ops.length
  ran_candidate : ∀ i, flagAt ran i = true → flagAt plan.candidates i = true
  /-- A value that no candidate writes is as it was. -/
  kept : ∀ value, (∀ i, value ∈ graph.writes i → flagAt plan.candidates i = false) →
    values value = before value
  acted : succeeded = true → ∀ i, flagAt plan.candidates i = true →
    Acted graph family plan.seeded before values ran i
  /-- Where it failed, some op fails on what its predecessors make. -/
  fails : succeeded = false → ∃ sound : Nat → Prop,
    (∀ i, sound i → Acted graph family plan.seeded before values ran i ∧
      ∀ u ∈ plan.opPreds graph i, sound u) ∧
    (∀ i, sound i → flagAt plan.candidates i = true) ∧
    ∃ i, flagAt plan.candidates i = true ∧ (∀ u ∈ plan.opPreds graph i, sound u) ∧
      Needed graph plan.seeded values i ∧ family.eval i (seen graph i values) = none

theorem Executes.dispatches
    (h : Executes graph callbacks request memory out workspace executed) :
    ∃ executed', ExecutesDispatched graph callbacks request memory out workspace executed' ∧
      executed'.memory = executed.memory ∧ executed'.out = executed.out ∧
      executed'.outcome = executed.outcome := by
  cases h with
  | serial =>
      obtain ⟨executed', h, ready, heq⟩ :=
        executeSerial_dispatched graph callbacks request memory out workspace
      rw [heq]
      exact ⟨executed', h, rfl, rfl, rfl⟩
  | dispatched h => exact ⟨executed, h, rfl, rfl, rfl⟩

theorem prepare_plan {prepared : Prepared σ} (hreused : Reused out workspace)
    (h : prepare graph callbacks request memory out workspace = .ok prepared) :
    prepared.plan = planFor graph request := by
  obtain ⟨out', workspace', hcleared, hplan, -⟩ := prepare_ok hreused h
  rw [hplan, planFor, planOf, planOf, hcleared.candidates, hcleared.clusterCandidates,
    hcleared.seeded]

theorem cells_skipOthers (hbacked : Backed graph family cells callbacks) (candidates : List Bool)
    (memory : σ) : cells (skipOthers graph callbacks candidates memory) = cells memory := by
  unfold skipOthers
  induction callbacks.skipEffects.getD (List.range graph.ops.length) generalizing memory with
  | nil => rfl
  | cons i list ih =>
      rw [List.foldl_cons, ih]
      split
      · rfl
      · exact hbacked.skip i memory

theorem values_prepared {prepared : Prepared σ} (hbacked : Backed graph family cells callbacks)
    (hreused : Reused out workspace)
    (h : prepare graph callbacks request memory out workspace = .ok prepared) :
    Values graph family cells prepared.plan (cells memory) prepared.pool fun _ => False := by
  obtain ⟨out', workspace', -, -, -, hrunning⟩ := prepare_ok hreused h
  have hran : prepared.pool.ran = List.replicate graph.ops.length false := by
    show prepared.running.ran = _
    rw [hrunning]
  have hmemory : cells prepared.pool.memory = cells memory := by
    show cells prepared.running.memory = _
    rw [hrunning]
    exact cells_skipOthers hbacked _ _
  have hsucceeded : prepared.pool.succeeded = true := by
    show prepared.running.succeeded = _
    rw [hrunning]
  refine ⟨by rw [hran, List.length_replicate], ?_, fun value _ => by rw [hmemory],
    fun _ hi => hi.elim, fun _ hi => hi.elim, fun _ hi => hi.elim,
    fun _ i hi => absurd hi List.not_mem_nil, ?_, fun k i needed left count hk => by cases hk⟩
  · intro i hi
    rw [hran, flagAt_replicate] at hi
    cases hi
  · intro hfail
    rw [hsucceeded] at hfail
    cases hfail

/-- **What a drained pool leaves.** -/
theorem Values.wave {pool : Pool σ} {sound : Nat → Prop} (hgraph : Executable graph)
    (hplan : Planned graph plan) (h : Values graph family cells plan before pool sound)
    (horder : InOrder graph plan pool) (hdrained : pool.drained = true) :
    Wave graph family plan before (cells pool.memory) pool.ran pool.succeeded := by
  have hall : ∀ i, .acted i ∈ pool.log ↔ flagAt plan.candidates i = true := by
    intro i
    have hcount := (horder.completed hgraph hplan hdrained).acted_once i
    rw [← List.count_pos_iff, hcount]
    split
    · next hi => exact iff_of_true Nat.one_pos hi
    · next hi => exact iff_of_false (Nat.lt_irrefl 0) hi
  refine ⟨h.ran_length, fun i hi => (hall i).mp (h.ran_acted i hi), fun value hvalue => ?_,
    fun hok i hi => h.result i (h.succeeded hok i ((hall i).mpr hi)), fun hfail => ?_⟩
  · refine h.kept value fun i hi hin => ?_
    rw [hall, hvalue i hi] at hin
    cases hin
  · exact ⟨sound, fun i hi => ⟨h.result i hi, h.preds i hi⟩,
      fun i hi => (hall i).mp (h.acted i hi), h.failed hfail⟩

/-- **What an execution leaves**, on one thread or dispatched. -/
theorem executes_wave (hgraph : Executable graph)
    (hbacked : Backed graph family cells callbacks) (hreused : Reused out workspace)
    (h : Executes graph callbacks request memory out workspace executed) :
    (∃ message, checkRequest graph callbacks request = .error message ∧
      executed.outcome = .error message) ∨
    checkRequest graph callbacks request = .ok () ∧ ∃ succeeded,
      executed.out =
        recordOf graph (planFor graph request) executed.out.ran executed.out.completion ∧
      executed.outcome = (if succeeded then .ok () else .error "an operation failed") ∧
      Wave graph family (planFor graph request) (cells memory) (cells executed.memory)
        executed.out.ran succeeded := by
  obtain ⟨executed', hdispatched, hmemory, hout, houtcome⟩ := h.dispatches
  rw [← hmemory, ← hout, ← houtcome]
  cases hdispatched with
  | refused hprepare =>
      obtain ⟨hout', hworkspace⟩ := hreused.recorded
      exact .inl ((prepare_recorded hout' hworkspace graph callbacks request memory).1 _
        hprepare).2.2
  | @joined prepared events pool hprepare hrun hjoined =>
      refine .inr ⟨?_, pool.succeeded, ?_, rfl, ?_⟩
      · unfold prepare at hprepare
        split at hprepare
        · cases hprepare
        · next hcheck => exact hcheck
      · rw [← prepare_plan hreused hprepare]
        rfl
      · have hplan := planned_prepared hgraph hreused hprepare
        have hstart := inOrder_prepared hgraph hreused hprepare
        obtain ⟨sound, hvalues⟩ := values_run hgraph hplan hbacked hstart
          ⟨_, values_prepared hbacked hreused hprepare⟩ hrun
        rw [← prepare_plan hreused hprepare]
        exact hvalues.wave hgraph hplan (inOrder_run hgraph hplan hstart hrun)
          (joined_drained rfl hrun hjoined)

theorem executes_ok (hgraph : Executable graph)
    (hbacked : Backed graph family cells callbacks) (hreused : Reused out workspace)
    (hcheck : checkRequest graph callbacks request = .ok ())
    (hbodies : ∀ i seen, family.eval i seen ≠ none)
    (h : Executes graph callbacks request memory out workspace executed) :
    executed.outcome = .ok () := by
  rcases executes_wave hgraph hbacked hreused h with
    ⟨message, hrefused, -⟩ | ⟨-, succeeded, -, houtcome, hwave⟩
  · rw [hcheck] at hrefused
    cases hrefused
  · cases succeeded with
    | true => exact houtcome
    | false =>
        obtain ⟨-, -, -, i, -, -, -, heval⟩ := hwave.fails rfl
        exact absurd heval (hbodies i _)

/-! ## Two executions of one request -/

section

variable {S : Nat → Prop}

theorem reads_same {α : Type} {f f' : ValueId → α} (hcompiled : Compiled graph)
    (hpreds : ∀ u ∈ graph.preds i, S u → ∀ value ∈ graph.writes u, f' value = f value)
    (hothers : ∀ value, (∀ u, value ∈ graph.writes u → ¬S u) → f' value = f value) :
    ∀ value ∈ graph.reads i, f' value = f value := by
  intro value hread
  by_cases hwritten : ∃ u, value ∈ graph.writes u ∧ S u
  · obtain ⟨u, hwrite, hu⟩ := hwritten
    exact hpreds u (hcompiled.produced i u value hread hwrite) hu value hwrite
  · exact hothers value fun u hwrite hu => hwritten ⟨u, hwrite, hu⟩

theorem Acted.same (h : Acted graph family plan.seeded before values ran i)
    (h' : Acted graph family plan.seeded before values' ran' i)
    (hreads : ∀ value ∈ graph.reads i, values' value = values value) :
    (∀ value ∈ graph.writes i, values' value = values value) ∧ flagAt ran' i = flagAt ran i := by
  have hneeded : Needed graph plan.seeded values' i ↔ Needed graph plan.seeded values i :=
    needed_congr hreads
  refine ⟨fun value hvalue => ?_, ?_⟩
  · by_cases hin : Needed graph plan.seeded values i
    · obtain ⟨outputs, heval, houtputs⟩ := h.needed hin
      obtain ⟨outputs', heval', houtputs'⟩ := h'.needed (hneeded.mpr hin)
      rw [seen_congr hreads, heval] at heval'
      cases heval'
      rw [houtputs value hvalue, houtputs' value hvalue]
    · rw [h.kept hin value hvalue, h'.kept (fun hin' => hin (hneeded.mp hin')) value hvalue]
  · rw [Bool.eq_iff_iff, h.ran, h'.ran, hneeded]

/-- **Two waves leave the same** where both are sound: by induction along the edges. -/
theorem acted_same (hcompiled : Compiled graph)
    (hclosed : ∀ i, S i → ∀ u ∈ plan.opPreds graph i, S u)
    (h : ∀ i, S i → Acted graph family plan.seeded before values ran i)
    (h' : ∀ i, S i → Acted graph family plan.seeded before values' ran' i)
    (hkept : ∀ value, (∀ u, value ∈ graph.writes u → flagAt plan.candidates u = false) →
      values' value = values value) :
    ∀ i, (∀ u ∈ plan.opPreds graph i, S u) → ∀ value ∈ graph.reads i,
      values' value = values value := by
  have hreads : ∀ i, (∀ u ∈ plan.opPreds graph i, S u) →
      (∀ u < i, S u → ∀ value ∈ graph.writes u, values' value = values value) →
      ∀ value ∈ graph.reads i, values' value = values value := by
    intro i hpreds hbefore
    refine reads_same (S := fun u => flagAt plan.candidates u = true) hcompiled ?_ ?_
    · intro u hu hcandidate
      exact hbefore u (hcompiled.preds_lt i u hu) (hpreds u (mem_opPreds.mpr ⟨hu, hcandidate⟩))
    · exact fun value hvalue => hkept value fun u hu => by
        simpa using hvalue u hu
  have hwrites : ∀ i, S i → ∀ value ∈ graph.writes i, values' value = values value := by
    intro i
    induction i using Nat.strong_induction_on with
    | _ i ih =>
        intro hi
        exact ((h i hi).same (h' i hi) (hreads i (hclosed i hi) ih)).1
  exact fun i hpreds => hreads i hpreds fun u _ hu => hwrites u hu

end

theorem Wave.succeeds (hcompiled : Compiled graph)
    (h : Wave graph family plan before values ran true) {succeeded : Bool}
    (h' : Wave graph family plan before values' ran' succeeded) : succeeded = true := by
  cases succeeded with
  | true => rfl
  | false =>
      exfalso
      obtain ⟨sound, hsound, hcandidate, i, hi, hpreds, hneeded, heval⟩ := h'.fails rfl
      have hreads := acted_same hcompiled (fun i hi => (hsound i hi).2)
        (fun i hi => h.acted rfl i (hcandidate i hi)) (fun i hi => (hsound i hi).1)
        (fun value hvalue => by rw [h.kept value hvalue, h'.kept value hvalue]) i hpreds
      obtain ⟨outputs, houtputs, -⟩ := (h.acted rfl i hi).needed ((needed_congr hreads).mp hneeded)
      rw [← seen_congr hreads, heval] at houtputs
      cases houtputs

theorem flags_ext {flags flags' : List Bool} (hlength : flags'.length = flags.length)
    (h : ∀ i, flagAt flags' i = flagAt flags i) : flags' = flags := by
  refine List.ext_getElem hlength fun i hlt hlt' => ?_
  have hi := h i
  rw [flagAt, flagAt, List.getElem?_eq_getElem hlt, List.getElem?_eq_getElem hlt'] at hi
  exact hi

theorem Wave.same (hcompiled : Compiled graph)
    (h : Wave graph family plan before values ran true)
    (h' : Wave graph family plan before values' ran' true) : values' = values ∧ ran' = ran := by
  have hkept : ∀ value, (∀ u, value ∈ graph.writes u → flagAt plan.candidates u = false) →
      values' value = values value := by
    intro value hvalue
    rw [h.kept value hvalue, h'.kept value hvalue]
  have hsame : ∀ i, flagAt plan.candidates i = true →
      (∀ value ∈ graph.writes i, values' value = values value) ∧ flagAt ran' i = flagAt ran i := by
    intro i hi
    refine (h.acted rfl i hi).same (h'.acted rfl i hi) ?_
    exact acted_same hcompiled (fun i hi u hu => (mem_opPreds.mp hu).2)
      (fun i hi => h.acted rfl i hi) (fun i hi => h'.acted rfl i hi) hkept i
      fun u hu => (mem_opPreds.mp hu).2
  refine ⟨funext fun value => ?_, flags_ext (h'.ran_length.trans h.ran_length.symm) fun i => ?_⟩
  · by_cases hwritten : ∃ u, value ∈ graph.writes u ∧ flagAt plan.candidates u = true
    · obtain ⟨u, hwrite, hu⟩ := hwritten
      exact (hsame u hu).1 value hwrite
    · exact hkept value fun u hwrite => Bool.eq_false_iff.mpr fun hu => hwritten ⟨u, hwrite, hu⟩
  · cases hi : flagAt plan.candidates i with
    | true => exact (hsame i hi).2
    | false =>
        have hnever : ∀ {r : List Bool}, (flagAt r i = true → flagAt plan.candidates i = true) →
            flagAt r i = false := fun hr => Bool.eq_false_iff.mpr fun he => by
          rw [hr he] at hi
          cases hi
        rw [hnever (h.ran_candidate i), hnever (h'.ran_candidate i)]

/-- The backend's list of skip effects names ops of the graph. -/
def SkipsInRange {σ : Type} (graph : CompiledGraph) (callbacks : OpCallbacks σ) : Prop :=
  ∀ op ∈ callbacks.skipEffects.getD [], op < graph.ops.length

theorem any_skipEffects {σ : Type} {callbacks : OpCallbacks σ} :
    (callbacks.skipEffects.getD []).any (graph.ops.length ≤ ·) = true ↔
      ¬SkipsInRange graph callbacks := by
  rw [List.any_eq_true, SkipsInRange]
  push Not
  exact exists_congr fun op => and_congr_right fun _ => decide_eq_true_iff

/-- **Every schedule leaves the same.**  Two executions of one request from the same values, each on
one thread or dispatched on any schedule, with whatever records and memory behind the values, come to
the same outcome; and when they succeed, to the same values and the same ops run. -/
theorem executions_agree {σ' : Type} {cells' : σ' → Cells V} {callbacks' : OpCallbacks σ'}
    {memory' : σ'} {out' : OpExecution} {workspace' : OpWorkspace} {executed' : Executed σ'}
    (hcompiled : Compiled graph) (hvalid : validateOpClusters graph = .ok ())
    (hbacked : Backed graph family cells callbacks)
    (hbacked' : Backed graph family cells' callbacks')
    (hskip : SkipsInRange graph callbacks' ↔ SkipsInRange graph callbacks)
    (hreused : Reused out workspace) (hreused' : Reused out' workspace')
    (hvalues : cells' memory' = cells memory)
    (h : Executes graph callbacks request memory out workspace executed)
    (h' : Executes graph callbacks' request memory' out' workspace' executed') :
    executed'.outcome = executed.outcome ∧
      (executed.outcome = .ok () → cells' executed'.memory = cells executed.memory ∧
        executed'.out = { executed.out with completion := executed'.out.completion }) := by
  have hcheck : checkRequest graph callbacks' request = checkRequest graph callbacks request := by
    have hany : (callbacks'.skipEffects.getD []).any (graph.ops.length ≤ ·) =
        (callbacks.skipEffects.getD []).any (graph.ops.length ≤ ·) := by
      rw [Bool.eq_iff_iff, any_skipEffects, any_skipEffects, hskip]
    simp only [checkRequest, hany]
  have hgraph : Executable graph := ⟨hcompiled, clustering_of_valid hvalid⟩
  have hwave := executes_wave hgraph hbacked hreused h
  have hwave' := executes_wave hgraph hbacked' hreused' h'
  rw [hcheck, hvalues] at hwave'
  rcases hwave with ⟨message, hrefused, houtcome⟩ | ⟨hok, succeeded, hout, houtcome, hwave⟩
  · rcases hwave' with ⟨message', hrefused', houtcome'⟩ | ⟨hok', -⟩
    · rw [hrefused] at hrefused'
      cases hrefused'
      rw [houtcome, houtcome']
      exact ⟨rfl, fun he => by cases he⟩
    · rw [hrefused] at hok'
      cases hok'
  · rcases hwave' with ⟨message', hrefused', -⟩ | ⟨-, succeeded', hout', houtcome', hwave'⟩
    · rw [hok] at hrefused'
      cases hrefused'
    · rw [houtcome, houtcome']
      cases succeeded with
      | true =>
          obtain rfl := hwave.succeeds hcompiled hwave'
          obtain ⟨hcells, hran⟩ := hwave.same hcompiled hwave'
          refine ⟨rfl, fun _ => ⟨hcells, ?_⟩⟩
          rw [hout', hout, hran]
          rfl
      | false =>
          cases succeeded' with
          | true => exact absurd (hwave'.succeeds hcompiled hwave) Bool.false_ne_true
          | false => exact ⟨rfl, fun he => by cases he⟩

/-- Each op passes on one more than it reads. -/
def relayFamily : OpFamily Nat where
  eval i seen := some fun _ => (seen (if i = 0 then 2 else 0)).getD 0 + 1
  differs old new := old != new
  eq_of_differs := by simp

theorem executions_agree_relay :
    ∃ executed, Executes relayGraph (relayFamily.callbacks relayGraph) { force := true }
        (fun _ => ⟨5, false⟩) {} {} executed ∧ executed.outcome = .ok () ∧
      (executeSerial relayGraph (relayFamily.callbacks relayGraph) { force := true }
        (fun _ => ⟨5, false⟩) {} {}).memory = executed.memory := by
  obtain ⟨executed, hdispatched, -⟩ := executeSerial_dispatched relayGraph
    (relayFamily.callbacks relayGraph) { force := true } (fun _ => ⟨5, false⟩) {} {}
  have hbacked := backed_callbacks relayGraph relayFamily
  have hok := executes_ok executable_relayGraph hbacked .fresh rfl
    (fun i seen => by simp [relayFamily]) (.dispatched hdispatched)
  have hagree := executions_agree compiled_relayGraph validateOpClusters_relayGraph hbacked hbacked
    Iff.rfl .fresh .fresh rfl (.dispatched hdispatched) .serial
  exact ⟨executed, .dispatched hdispatched, hok, (hagree.2 hok).1⟩

end RigExec.OpGraph
