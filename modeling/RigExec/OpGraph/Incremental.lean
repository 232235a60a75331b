/-
# `RigExec.OpGraph.Incremental` — an incremental execution leaves what a forced one would

An execution runs the ops it must and those whose inputs are new, and leaves the rest as it is.  The
values were settled before, the caller says what it changed since, and the values are settled after.

    Settled                  every value is what its op makes of its inputs
    Covers                   what a caller owes an incremental execution
    settles_of_sound         forced or owed, what no failure stands before is settled
    Generations              executions one after another, forced after a failure
    incremental_eq_forced    each leaves what a forced one would
-/
import RigExec.OpGraph.Generations

namespace RigExec.OpGraph

variable {V σ : Type} {graph : CompiledGraph} {family family' : OpFamily V} {cells : σ → Cells V}
  {callbacks : OpCallbacks σ} {request : OpRequest} {memory : σ} {out : OpExecution}
  {workspace : OpWorkspace} {executed : Executed σ} {before values values' : Cells V}
  {ran ran' : List Bool} {i : Nat}

/-! ## Settled values -/

/-- The values of an op are what it makes of what it reads. -/
def Settles (graph : CompiledGraph) (family : OpFamily V) (values : Cells V) (i : Nat) : Prop :=
  ∃ outputs, family.eval i (seen graph i values) = some outputs ∧
    ∀ value ∈ graph.writes i, (values value).value = outputs value

/-- So are those of every op. -/
def Settled (graph : CompiledGraph) (family : OpFamily V) (values : Cells V) : Prop :=
  ∀ i < graph.ops.length, Settles graph family values i

theorem lt_of_mem_writes {value : ValueId} (h : value ∈ graph.writes i) : i < graph.ops.length := by
  unfold CompiledGraph.writes at h
  split at h
  · next hop => exact (List.getElem?_eq_some_iff.mp hop).1
  · cases h

theorem Settles.same (h : Settles graph family values i) (h' : Settles graph family values' i)
    (hreads : ∀ value ∈ graph.reads i, (values' value).value = (values value).value) :
    ∀ value ∈ graph.writes i, (values' value).value = (values value).value := by
  intro value hvalue
  obtain ⟨outputs, heval, houtputs⟩ := h
  obtain ⟨outputs', heval', houtputs'⟩ := h'
  rw [seen_values hreads, heval] at heval'
  cases heval'
  rw [houtputs value hvalue, houtputs' value hvalue]

/-- **Settled values are determined** by those no op writes: by induction along the edges. -/
theorem settles_same (hcompiled : Compiled graph) {S : Nat → Prop}
    (hclosed : ∀ i, S i → ∀ u ∈ graph.preds i, S u)
    (h : ∀ i, S i → Settles graph family values i) (h' : ∀ i, S i → Settles graph family values' i)
    (hleaves : ∀ value, (∀ i, value ∉ graph.writes i) →
      (values' value).value = (values value).value) :
    ∀ i, (∀ u ∈ graph.preds i, S u) → ∀ value ∈ graph.reads i,
      (values' value).value = (values value).value := by
  have hreads : ∀ i, (∀ u ∈ graph.preds i, ∀ value ∈ graph.writes u,
      (values' value).value = (values value).value) →
      ∀ value ∈ graph.reads i, (values' value).value = (values value).value := by
    intro i hpreds
    exact reads_same (S := fun _ => True) hcompiled (fun u hu _ => hpreds u hu)
      fun value hvalue => hleaves value fun u hwrite => hvalue u hwrite trivial
  have hwrites : ∀ i, S i → ∀ value ∈ graph.writes i,
      (values' value).value = (values value).value := by
    intro i
    induction i using Nat.strong_induction_on with
    | _ i ih =>
        intro hi
        exact (h i hi).same (h' i hi) (hreads i fun u hu =>
          ih u (hcompiled.preds_lt i u hu) (hclosed i hi u hu))
  exact fun i hpreds => hreads i fun u hu => hwrites u (hpreds u hu)

theorem Acted.settles {seeded : List Bool} (h : Acted graph family seeded before values ran i)
    (hneeded : Needed graph seeded values i) : Settles graph family values i := by
  obtain ⟨outputs, heval, houtputs⟩ := h.needed hneeded
  exact ⟨outputs, heval, fun value hvalue => by rw [houtputs value hvalue]⟩

theorem Acted.unchanged {seeded : List Bool} (h : Acted graph family seeded before values ran i)
    {value : ValueId} (hvalue : value ∈ graph.writes i) (hclear : (values value).changed = false) :
    (values value).value = (before value).value := by
  by_cases hneeded : Needed graph seeded values i
  · obtain ⟨outputs, -, houtputs⟩ := h.needed hneeded
    rw [houtputs value hvalue] at hclear ⊢
    exact (family.eq_of_differs hclear).symm
  · rw [h.kept hneeded value hvalue]

/-! ## Plans -/

theorem planned_planFor (hgraph : Executable graph) : Planned graph (planFor graph request) :=
  planned_planOf hgraph ⟨rfl, rfl, rfl, rfl, rfl⟩

theorem planFor_seeded :
    flagAt (planFor graph request).seeded i = true ↔ i < graph.ops.length ∧
      (request.force = true ∨ i ∈ request.seedOps ∨ i ∈ graph.volatileOps) :=
  seedFlags_iff

theorem planFor_candidate (hgraph : Executable graph) (hi : i ∈ seedList graph request)
    (hlt : i < graph.ops.length) : flagAt (planFor graph request).candidates i = true :=
  ((planned_planFor hgraph).candidates.mem_iff i).mpr
    ((candidateMarks_spec hgraph.toTopology).2.1 i hi hlt)

theorem planFor_forced (hgraph : Executable graph) (hforce : request.force = true)
    (hlt : i < graph.ops.length) : flagAt (planFor graph request).candidates i = true := by
  refine planFor_candidate hgraph ?_ hlt
  simp [seedList, hforce, hlt]

/-! ## What a caller owes -/

/-- What a caller owes an execution that is not forced, of values that were settled: values that ops
write stand, with their flags clear; a value that no op writes and some op reads is flagged and listed
where it is another; and an op whose body is another is seeded, or volatile. -/
structure Covers (graph : CompiledGraph) (family family' : OpFamily V) (request : OpRequest)
    (values before : Cells V) : Prop where
  written : ∀ i, ∀ value ∈ graph.writes i, before value = ⟨(values value).value, false⟩
  leaves : ∀ i, ∀ value ∈ graph.reads i, (∀ u, value ∉ graph.writes u) →
    (before value).value = (values value).value ∨
      value ∈ request.changedLeaves ∧ (before value).changed = true
  bodies : ∀ i < graph.ops.length, family'.eval i = family.eval i ∨
    i ∈ request.seedOps ∨ i ∈ graph.volatileOps

/-- An execution is forced, or keeps to what it owes the values that were settled. -/
def Follows (graph : CompiledGraph) (family : OpFamily V) (request : OpRequest)
    (before : Cells V) : Prop :=
  request.force = true ∨ ∃ last values, Settled graph last values ∧
    Covers graph last family request values before

/-- **What is sound is settled**: where an execution is forced, by what it runs; where it is not, an
op that it leaves alone reads what it read. -/
theorem settles_of_sound (hgraph : Executable graph) {sound : Nat → Prop}
    (hsound : ∀ i, sound i → Acted graph family' (planFor graph request).seeded before values' ran i ∧
      ∀ u ∈ (planFor graph request).opPreds graph i, sound u)
    (hkept : ∀ value,
      (∀ i, value ∈ graph.writes i → flagAt (planFor graph request).candidates i = false) →
      values' value = before value)
    (hfollows : Follows graph family' request before) (hi : i < graph.ops.length)
    (hin : flagAt (planFor graph request).candidates i = true → sound i) :
    Settles graph family' values' i := by
  rcases hfollows with hforce | ⟨family, values, hsettled, hcovers⟩
  · refine (hsound i (hin (planFor_forced hgraph hforce hi))).1.settles (.inl ?_)
    exact planFor_seeded.mpr ⟨hi, .inl hforce⟩
  by_cases hrun : flagAt (planFor graph request).candidates i = true ∧
      Needed graph (planFor graph request).seeded values' i
  · exact (hsound i (hin hrun.1)).1.settles hrun.2
  -- The op was left alone, so it is not seeded and reads nothing new.
  have hclear : ∀ value ∈ graph.reads i, ∀ u, value ∈ graph.writes u →
      flagAt (planFor graph request).candidates u = true →
      (values' value).value = (before value).value := by
    intro value hread u hwrite hu
    have hedge := hgraph.produced i u value hread hwrite
    have hcandidate := (planned_planFor hgraph).closed u i hu hedge
    have hacted := (hsound u ((hsound i (hin hcandidate)).2 u (mem_opPreds.mpr ⟨hedge, hu⟩))).1
    refine hacted.unchanged hwrite (Bool.eq_false_iff.mpr fun hchanged => hrun ?_)
    exact ⟨hcandidate, .inr ⟨value, hread, hchanged⟩⟩
  have hseeds : ¬(i ∈ request.seedOps ∨ i ∈ graph.volatileOps) := by
    intro hseed
    have hseeded := planFor_seeded.mpr ⟨hi, .inr hseed⟩
    refine hrun ⟨?_, .inl hseeded⟩
    exact ((planned_planFor hgraph).candidates.mem_iff i).mpr
      ((planned_planFor hgraph).seeded i hseeded)
  have hreads : ∀ value ∈ graph.reads i, (values' value).value = (values value).value := by
    intro value hread
    by_cases hwritten : ∃ u, value ∈ graph.writes u
    · obtain ⟨u, hwrite⟩ := hwritten
      have hbefore : (before value).value = (values value).value := by
        rw [hcovers.written u value hwrite]
      rw [← hbefore]
      cases hu : flagAt (planFor graph request).candidates u with
      | true => exact hclear value hread u hwrite hu
      | false =>
          refine congrArg Cell.value (hkept value fun w hw => ?_)
          rw [hgraph.single w u value hw hwrite]
          exact hu
    · have hleaf : ∀ u, value ∉ graph.writes u := fun u hwrite => hwritten ⟨u, hwrite⟩
      have hsame := hkept value fun u hwrite => absurd hwrite (hleaf u)
      rcases hcovers.leaves i value hread hleaf with hvalue | ⟨hlisted, hchanged⟩
      · rw [hsame, hvalue]
      · exfalso
        refine hrun ⟨planFor_candidate hgraph ?_ hi, .inr ⟨value, hread, by rw [hsame, hchanged]⟩⟩
        have hreader := (hgraph.readers_iff value i).mpr hread
        simp only [seedList, List.mem_append, List.mem_flatMap]
        exact .inl (.inr ⟨value, hlisted, hreader⟩)
  obtain ⟨outputs, heval, houtputs⟩ := hsettled i hi
  have hbody : family'.eval i = family.eval i := (hcovers.bodies i hi).resolve_right hseeds
  refine ⟨outputs, by rw [hbody, seen_values hreads, heval], fun value hvalue => ?_⟩
  have hbefore : (before value).value = outputs value := by
    rw [hcovers.written i value hvalue]
    exact houtputs value hvalue
  rw [← hbefore]
  cases hcandidate : flagAt (planFor graph request).candidates i with
  | true =>
      have hquiet := (hsound i (hin hcandidate)).1.kept fun hneeded => hrun ⟨hcandidate, hneeded⟩
      rw [hquiet value hvalue]
  | false =>
      refine congrArg Cell.value (hkept value fun w hw => ?_)
      rw [hgraph.single w i value hw hvalue]
      exact hcandidate

/-- **A wave that goes through settles the values.** -/
theorem Wave.settles (hgraph : Executable graph)
    (h : Wave graph family (planFor graph request) before values' ran true)
    (hfollows : Follows graph family request before) : Settled graph family values' := by
  intro i hi
  have hsound : ∀ i, flagAt (planFor graph request).candidates i = true →
      Acted graph family (planFor graph request).seeded before values' ran i ∧
        ∀ u ∈ (planFor graph request).opPreds graph i,
          flagAt (planFor graph request).candidates u = true := by
    intro i hi
    exact ⟨h.acted rfl i hi, fun u hu => (mem_opPreds.mp hu).2⟩
  exact settles_of_sound hgraph hsound h.kept hfollows hi fun hcandidate => hcandidate

theorem Wave.succeeds_of_settled (hgraph : Executable graph)
    (hfollows : Follows graph family request before) {succeeded : Bool}
    (h : Wave graph family (planFor graph request) before values' ran succeeded)
    (hsettled : Settled graph family values)
    (hleaves : ∀ value, (∀ i, value ∉ graph.writes i) →
      (values value).value = (before value).value) : succeeded = true := by
  cases succeeded with
  | true => rfl
  | false =>
      exfalso
      obtain ⟨sound, hsound, -, i, hi, hpreds, -, heval⟩ := h.fails rfl
      have hlt := (planned_planFor hgraph).candidate_lt hi
      -- Those are sound, or left alone, whom no failure stands before.
      have hclosed : ∀ j, (flagAt (planFor graph request).candidates j = true → sound j) →
          ∀ u ∈ graph.preds j, flagAt (planFor graph request).candidates u = true → sound u := by
        intro j hj u hu hcandidate
        have hsuccessor := (planned_planFor hgraph).closed u j hcandidate hu
        exact (hsound j (hj hsuccessor)).2 u (mem_opPreds.mpr ⟨hu, hcandidate⟩)
      have hsame := settles_same (S := fun j => j < graph.ops.length ∧
          (flagAt (planFor graph request).candidates j = true → sound j)) hgraph.toCompiled
        (fun j hj u hu => ⟨(hgraph.preds_lt j u hu).trans hj.1, hclosed j hj.2 u hu⟩)
        (fun j hj => hsettled j hj.1)
        (fun j hj => settles_of_sound hgraph hsound h.kept hfollows hj.1 hj.2)
        (fun value hvalue => by
          rw [h.kept value fun u hu => absurd hu (hvalue u), hleaves value hvalue]) i
        fun u hu => ⟨(hgraph.preds_lt i u hu).trans hlt, fun hcandidate =>
          hpreds u (mem_opPreds.mpr ⟨hu, hcandidate⟩)⟩
      obtain ⟨outputs, houtputs, -⟩ := hsettled i hlt
      rw [← seen_values hsame, heval] at houtputs
      cases houtputs

theorem Settled.same (hcompiled : Compiled graph) (h : Settled graph family values)
    (h' : Settled graph family values')
    (hleaves : ∀ value, (∀ i, value ∉ graph.writes i) →
      (values' value).value = (values value).value) :
    ∀ value, (values' value).value = (values value).value := by
  intro value
  by_cases hwritten : ∃ i, value ∈ graph.writes i
  · obtain ⟨i, hwrite⟩ := hwritten
    have hi := lt_of_mem_writes hwrite
    have hsame := settles_same (S := fun i => i < graph.ops.length) hcompiled
      (fun i hi u hu => (hcompiled.preds_lt i u hu).trans hi) (fun i hi => h i hi)
      (fun i hi => h' i hi) hleaves i fun u hu => (hcompiled.preds_lt i u hu).trans hi
    exact (h i hi).same (h' i hi) hsame value hwrite
  · exact hleaves value fun i hi => hwritten ⟨i, hi⟩

/-! ## Generations -/

/-- Executions one after another, over one record and workspace that may have served other graphs:
after each, the memory, and the bodies that have settled its values, if it succeeded.  Between them
the caller does to the memory what it likes, within what it owes. -/
inductive Generations (graph : CompiledGraph) (cells : σ → Cells V) :
    OpExecution → OpWorkspace → σ → Option (OpFamily V) → Prop where
  | fresh {out : OpExecution} {workspace : OpWorkspace} (hreused : Reused out workspace)
      (memory : σ) : Generations graph cells out workspace memory none
  | execute {out : OpExecution} {workspace : OpWorkspace} {memory before : σ}
      {last : Option (OpFamily V)} {family : OpFamily V} {callbacks : OpCallbacks σ}
      {request : OpRequest} {executed : Executed σ}
      (h : Generations graph cells out workspace memory last)
      (howed : request.force = true ∨ ∃ settled, last = some settled ∧
        Covers graph settled family request (cells memory) (cells before))
      (hbacked : Backed graph family cells callbacks)
      (hexecutes : Executes graph callbacks request before out workspace executed) :
      Generations graph cells executed.out executed.workspace executed.memory
        (executed.outcome.toOption.map fun _ => family)

theorem Generations.reused {last : Option (OpFamily V)}
    (h : Generations graph cells out workspace memory last) : Reused out workspace := by
  induction h with
  | fresh hreused memory => exact hreused
  | execute _ _ _ hexecutes ih =>
      cases hexecutes with
      | serial => exact .serial ih _ _ _ _
      | dispatched hdispatched => exact .dispatched ih hdispatched

/-- **The values are settled after every execution that succeeded.** -/
theorem Generations.settled {last : Option (OpFamily V)} (hgraph : Executable graph)
    (h : Generations graph cells out workspace memory last) :
    ∀ settled, last = some settled → Settled graph settled (cells memory) := by
  induction h with
  | fresh hreused memory =>
      intro settled he
      cases he
  | execute h howed hbacked hexecutes ih =>
      intro settled he
      rcases executes_wave hgraph hbacked h.reused hexecutes with
        ⟨message, -, houtcome⟩ | ⟨-, succeeded, -, houtcome, hwave⟩
      · rw [houtcome] at he
        cases he
      · cases succeeded with
        | false =>
            rw [houtcome] at he
            cases he
        | true =>
            rw [houtcome] at he
            cases he
            refine hwave.settles hgraph ?_
            rcases howed with hforce | ⟨last, rfl, hcovers⟩
            · exact .inl hforce
            · exact .inr ⟨last, _, ih last rfl, hcovers⟩

/-- An execution within what it owes settles the values if it succeeds; and it succeeds if the values
it starts from can be settled. -/
theorem executes_settles (hgraph : Executable graph)
    (hbacked : Backed graph family cells callbacks) (hreused : Reused out workspace)
    (hfollows : Follows graph family request (cells memory))
    (h : Executes graph callbacks request memory out workspace executed) :
    (∃ message, checkRequest graph callbacks request = .error message ∧
      executed.outcome = .error message) ∨
    checkRequest graph callbacks request = .ok () ∧
      (executed.outcome = .ok () ∨ executed.outcome = .error "an operation failed") ∧
      (executed.outcome = .ok () → Settled graph family (cells executed.memory)) ∧
      (∀ values, Settled graph family values →
        (∀ value, (∀ i, value ∉ graph.writes i) →
          (values value).value = (cells memory value).value) → executed.outcome = .ok ()) ∧
      ∀ value, (∀ i, value ∉ graph.writes i) → cells executed.memory value = cells memory value := by
  rcases executes_wave hgraph hbacked hreused h with
    hrefused | ⟨hcheck, succeeded, -, houtcome, hwave⟩
  · exact .inl hrefused
  · refine .inr ⟨hcheck, ?_, fun hok => ?_, fun values hsettled hleaves => ?_, fun value hvalue =>
      hwave.kept value fun i hi => absurd hi (hvalue i)⟩
    · rw [houtcome]
      cases succeeded with
      | true => exact .inl rfl
      | false => exact .inr rfl
    · cases succeeded with
      | true => exact hwave.settles hgraph hfollows
      | false =>
          rw [houtcome] at hok
          cases hok
    · obtain rfl := hwave.succeeds_of_settled hgraph hfollows hsettled hleaves
      exact houtcome

/-- **An incremental execution leaves what a forced one would.**  After any executions, each within
what it owes, one more comes to the outcome that a forced execution of the same request comes to from
the same values, on any schedule; and where they succeed, every value is the same. -/
theorem incremental_eq_forced {last : Option (OpFamily V)} {start : σ} {out' : OpExecution}
    {workspace' : OpWorkspace} {forced : Executed σ} (hcompiled : Compiled graph)
    (hvalid : validateOpClusters graph = .ok ())
    (h : Generations graph cells out workspace memory last)
    (howed : request.force = true ∨ ∃ settled, last = some settled ∧
      Covers graph settled family request (cells memory) (cells start))
    (hbacked : Backed graph family cells callbacks)
    (hexecutes : Executes graph callbacks request start out workspace executed)
    (hreused : Reused out' workspace')
    (hforced : Executes graph callbacks { request with force := true } start out' workspace' forced)
    :
    forced.outcome = executed.outcome ∧ (executed.outcome = .ok () →
      ∀ value, (cells forced.memory value).value = (cells executed.memory value).value) := by
  have hgraph : Executable graph := ⟨hcompiled, clustering_of_valid hvalid⟩
  have hfollows : Follows graph family request (cells start) := by
    rcases howed with hforce | ⟨settled, rfl, hcovers⟩
    · exact .inl hforce
    · exact .inr ⟨settled, _, h.settled hgraph settled rfl, hcovers⟩
  have hsame : checkRequest graph callbacks { request with force := true } =
      checkRequest graph callbacks request := rfl
  have hone := executes_settles hgraph hbacked h.reused hfollows hexecutes
  have hother := executes_settles hgraph hbacked hreused (.inl rfl) hforced
  rw [hsame] at hother
  rcases hone with ⟨message, hrefused, houtcome⟩ | ⟨hcheck, hends, hsettles, hsucceeds, hkept⟩
  · rcases hother with ⟨message', hrefused', houtcome'⟩ | ⟨hcheck', -⟩
    · rw [hrefused] at hrefused'
      cases hrefused'
      rw [houtcome, houtcome']
      exact ⟨rfl, fun he => by cases he⟩
    · rw [hrefused] at hcheck'
      cases hcheck'
  · rcases hother with ⟨message', hrefused', -⟩ | ⟨-, hends', hsettles', hsucceeds', hkept'⟩
    · rw [hcheck] at hrefused'
      cases hrefused'
    · have hok : executed.outcome = .ok () → forced.outcome = .ok () := fun hok =>
        hsucceeds' _ (hsettles hok) fun value hvalue => by rw [hkept value hvalue]
      have hok' : forced.outcome = .ok () → executed.outcome = .ok () := fun hok =>
        hsucceeds _ (hsettles' hok) fun value hvalue => by rw [hkept' value hvalue]
      refine ⟨?_, fun hsuccess => ?_⟩
      · rcases hends with hsuccess | hfailed
        · rw [hsuccess, hok hsuccess]
        · rcases hends' with hsuccess' | hfailed'
          · rw [hok' hsuccess', hsuccess']
          · rw [hfailed, hfailed']
      · exact (hsettles hsuccess).same hcompiled (hsettles' (hok hsuccess)) fun value hvalue => by
          rw [hkept value hvalue, hkept' value hvalue]

/-- A forced execution of the relay. -/
def relayFirst : Executed (Cells Nat) :=
  executeSerial relayGraph (relayFamily.callbacks relayGraph) { force := true }
    (fun _ => ⟨5, false⟩) {} {}

/-- Then the leaf is another. -/
def relayNext : Cells Nat :=
  fun value => ⟨if value = 2 then 7 else (relayFirst.memory value).value, value == 2⟩

theorem incremental_eq_forced_relay :
    ((executeSerial relayGraph (relayFamily.callbacks relayGraph) { force := true }
        relayNext {} {}).memory 1).value =
      ((executeSerial relayGraph (relayFamily.callbacks relayGraph) { changedLeaves := [2] }
        relayNext relayFirst.out relayFirst.workspace).memory 1).value := by
  have hbacked := backed_callbacks relayGraph relayFamily
  have hbodies : ∀ i seen, relayFamily.eval i seen ≠ none := by simp [relayFamily]
  have hfirst : relayFirst.outcome = .ok () :=
    executes_ok executable_relayGraph hbacked .fresh rfl hbodies .serial
  have hrun : Generations relayGraph id relayFirst.out relayFirst.workspace relayFirst.memory
      (some relayFamily) := by
    have hstart : Generations relayGraph id {} {} (fun _ => (⟨5, false⟩ : Cell Nat)) none :=
      .fresh .fresh _
    have hstep : Generations relayGraph id relayFirst.out relayFirst.workspace relayFirst.memory
        (relayFirst.outcome.toOption.map fun _ => relayFamily) :=
      hstart.execute (.inl rfl) hbacked .serial
    rwa [hfirst] at hstep
  have hcovers : Covers relayGraph relayFamily relayFamily { changedLeaves := [2] }
      relayFirst.memory relayNext := by
    refine ⟨fun i value hvalue => ?_, fun i value hvalue hleaf => ?_, fun i hi => .inl rfl⟩
    · obtain ⟨hi, rfl⟩ := (mem_relayWrites i value).mp hvalue
      have hne : value ≠ 2 := Nat.ne_of_lt hi
      simp [relayNext, hne]
    · rcases (mem_relayReads i value).mp hvalue with ⟨-, rfl⟩ | ⟨-, rfl⟩
      · exact .inr ⟨List.mem_singleton_self 2, rfl⟩
      · exact absurd ((mem_relayWrites 0 0).mpr ⟨by decide, rfl⟩) (hleaf 0)
  have hnext : (executeSerial relayGraph (relayFamily.callbacks relayGraph) { changedLeaves := [2] }
      relayNext relayFirst.out relayFirst.workspace).outcome = .ok () :=
    executes_ok executable_relayGraph hbacked hrun.reused rfl hbodies
      .serial
  exact (incremental_eq_forced compiled_relayGraph validateOpClusters_relayGraph hrun
    (.inr ⟨relayFamily, rfl, hcovers⟩) hbacked .serial .fresh .serial).2 hnext 1

end RigExec.OpGraph
