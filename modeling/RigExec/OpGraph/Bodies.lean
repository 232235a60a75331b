/-
# `RigExec.OpGraph.Bodies` — what every execution preserves

A property of what the bodies change holds after an execution, on one thread or on
many, if the two halves of a body and the numbering of an op preserve it, for ops
that are candidates (`BodyInvariant`).  The halves of different bodies interleave,
so each is a step of its own.
-/
import RigExec.OpGraph.Plans

namespace RigExec.OpGraph

variable {σ : Type} {graph : CompiledGraph} {callbacks : OpCallbacks σ} {plan : Plan}
  {P : Running σ → Prop}

/-- What the bodies and the numbering of candidates preserve. -/
structure BodyInvariant (graph : CompiledGraph) (callbacks : OpCallbacks σ) (plan : Plan)
    (P : Running σ → Prop) : Prop where
  start : ∀ {running : Running σ} {i : Nat}, P running → flagAt plan.candidates i = true →
    P (startBody graph callbacks plan.seeded running i).1
  finish : ∀ {running : Running σ} {i : Nat} (needed : Bool), P running →
    flagAt plan.candidates i = true → P (finishBody callbacks running i needed)
  number : ∀ {running : Running σ} {i : Nat} (n : Nat), P running →
    flagAt plan.candidates i = true → P { running with completion := running.completion.set i n }

theorem candidate_of_mem_members {c op : Nat} (hop : op ∈ plan.members graph c) :
    flagAt plan.candidates op = true := (List.mem_filter.mp hop).2

namespace BodyInvariant

section

variable {running : Running σ} (h : BodyInvariant graph callbacks plan P)
include h

theorem bodies {members : List Nat} (hmembers : ∀ op ∈ members, flagAt plan.candidates op = true)
    (hrunning : P running) : P (members.foldl (body graph callbacks plan.seeded) running) := by
  induction members generalizing running with
  | nil => exact hrunning
  | cons op members ih =>
      have hop : flagAt plan.candidates op = true := hmembers op List.mem_cons_self
      have hbody : P (body graph callbacks plan.seeded running op) :=
        h.finish _ (h.start hrunning hop) hop
      exact ih (fun x hx => hmembers x (List.mem_cons_of_mem op hx)) hbody

theorem complete {members : List Nat}
    (hmembers : ∀ op ∈ members, flagAt plan.candidates op = true) (before : Nat)
    (hrunning : P running) :
    P { running with completion := complete members before running.completion } := by
  unfold OpGraph.complete
  induction members generalizing running before with
  | nil => exact hrunning
  | cons op members ih =>
      have hop : flagAt plan.candidates op = true := hmembers op List.mem_cons_self
      exact ih (fun x hx => hmembers x (List.mem_cons_of_mem op hx)) (before + 1)
        (h.number (before + 1) hrunning hop)

/-! ## One thread -/

theorem serialCluster {serial : Serial σ} (hserial : P serial.toRunning) (c : Nat) :
    P (serialCluster graph callbacks plan serial c).toRunning := by
  have hmembers : ∀ op ∈ plan.members graph c, flagAt plan.candidates op = true := by
    intro op hop
    exact candidate_of_mem_members hop
  exact h.complete hmembers serial.finished (h.bodies hmembers hserial)

theorem serialLoop {serial : Serial σ} (hserial : P serial.toRunning) (head : Nat) :
    P (serialLoop graph callbacks plan serial head).toRunning := by
  induction serial, head using serialLoop.induct graph callbacks plan with
  | case1 serial head hlt ih =>
      rw [OpGraph.serialLoop, dif_pos hlt]
      exact ih (h.serialCluster hserial _)
  | case2 serial head hlt =>
      rw [OpGraph.serialLoop, dif_neg hlt]
      exact hserial

end

end BodyInvariant

/-! ## Dispatch and wait -/

/-- The ops a task has still to start, or is at, or has still to number. -/
def Phase.ops : Phase → List Nat
  | .bodies left _ => left
  | .acting op _ left _ => op :: left
  | .numbering left _ => left
  | _ => []

/-- Tasks hold candidates only. -/
structure PoolKeeps (plan : Plan) (P : Running σ → Prop) (pool : Pool σ) : Prop where
  running : P pool.toRunning
  phase : ∀ k, ∀ op ∈ (pool.phase k).ops, flagAt plan.candidates op = true

section

variable {pool pool' : Pool σ}

theorem phase_update {phase : Nat → Phase} {k : Nat} {next : Phase}
    (h : ∀ k, ∀ op ∈ (phase k).ops, flagAt plan.candidates op = true)
    (hnext : ∀ op ∈ next.ops, flagAt plan.candidates op = true) :
    ∀ j, ∀ op ∈ (Function.update phase k next j).ops, flagAt plan.candidates op = true := by
  intro j op hop
  rcases eq_or_ne j k with rfl | hne
  · rw [Function.update_self] at hop
    exact hnext op hop
  · rw [Function.update_of_ne hne] at hop
    exact h j op hop

theorem PoolKeeps.advance {k c : Nat} (hinv : BodyInvariant graph callbacks plan P)
    (h : PoolKeeps plan P pool) (hstep : advanceTask graph callbacks plan pool k c = some pool') :
    PoolKeeps plan P pool' := by
  have hphase := h.phase k
  unfold advanceTask at hstep
  split at hstep
  · cases hstep
  · next op left count heq =>
      cases hstep
      rw [heq] at hphase
      exact ⟨hinv.start h.running (hphase op List.mem_cons_self), phase_update h.phase hphase⟩
  · next op needed left count heq =>
      cases hstep
      rw [heq] at hphase
      refine ⟨hinv.finish needed h.running (hphase op List.mem_cons_self), ?_⟩
      exact phase_update h.phase fun x hx => hphase x (List.mem_cons_of_mem op hx)
  · cases hstep
    refine ⟨h.running, ?_⟩
    exact phase_update h.phase fun x hx => candidate_of_mem_members hx
  · next op left before heq =>
      cases hstep
      rw [heq] at hphase
      refine ⟨hinv.number (before + 1) h.running (hphase op List.mem_cons_self), ?_⟩
      exact phase_update h.phase fun x hx => hphase x (List.mem_cons_of_mem op hx)
  · cases hstep
    exact ⟨h.running, phase_update h.phase fun x hx => absurd hx List.not_mem_nil⟩
  · cases hstep
    exact ⟨h.running, phase_update h.phase fun x hx => absurd hx List.not_mem_nil⟩
  · cases hstep
    exact ⟨h.running, phase_update h.phase fun x hx => absurd hx List.not_mem_nil⟩
  · cases hstep

theorem PoolKeeps.step {event : PoolEvent} (hinv : BodyInvariant graph callbacks plan P)
    (h : PoolKeeps plan P pool) (hstep : poolStep graph callbacks plan pool event = some pool') :
    PoolKeeps plan P pool' := by
  cases event with
  | submit =>
      simp only [poolStep] at hstep
      split at hstep
      · cases hstep
      · cases hstep
        exact ⟨h.running, h.phase⟩
  | take k =>
      simp only [poolStep] at hstep
      split at hstep
      · cases hstep
        refine ⟨h.running, ?_⟩
        exact phase_update h.phase fun x hx => candidate_of_mem_members hx
      · cases hstep
  | advance k =>
      simp only [poolStep] at hstep
      split at hstep
      · exact PoolKeeps.advance hinv h hstep
      · cases hstep
  | join =>
      simp only [poolStep] at hstep
      split at hstep
      · cases hstep
        exact ⟨h.running, h.phase⟩
      · cases hstep

end

/-! ## Whole executions -/

/-- `RigExecExecuteOpGraph`, on one thread or dispatched. -/
inductive Executes (graph : CompiledGraph) (callbacks : OpCallbacks σ) (request : OpRequest)
    (memory : σ) (out : OpExecution) (workspace : OpWorkspace) : Executed σ → Prop where
  | serial : Executes graph callbacks request memory out workspace
      (executeSerial graph callbacks request memory out workspace)
  | dispatched {executed : Executed σ}
      (h : ExecutesDispatched graph callbacks request memory out workspace executed) :
      Executes graph callbacks request memory out workspace executed

theorem Executes.cases {request : OpRequest} {memory : σ} {out : OpExecution}
    {workspace : OpWorkspace} {executed : Executed σ}
    (h : Executes graph callbacks request memory out workspace executed) :
    prepare graph callbacks request memory out workspace = .error executed ∨
      ∃ prepared, prepare graph callbacks request memory out workspace = .ok prepared ∧
        ∀ P : Running σ → Prop, BodyInvariant graph callbacks prepared.plan P →
          P prepared.running → ∃ running counted, P running ∧
            executed = finish graph prepared running counted := by
  cases h with
  | serial =>
      unfold executeSerial
      cases hprepare : prepare graph callbacks request memory out workspace with
      | error refused => exact .inl rfl
      | ok prepared =>
          refine .inr ⟨prepared, rfl, ?_⟩
          intro P hinv hrunning
          refine ⟨_, _, ?_, rfl⟩
          exact hinv.serialLoop hrunning 0
  | dispatched hdispatched =>
      cases hdispatched with
      | refused hprepare => exact .inl hprepare
      | joined hprepare hrun _ =>
          rename_i prepared _ _ _
          refine .inr ⟨prepared, hprepare, ?_⟩
          intro P hinv hrunning
          have hstart : PoolKeeps prepared.plan P prepared.pool :=
            ⟨hrunning, fun k op hop => absurd hop List.not_mem_nil⟩
          have hpool := Lib.run_preserves (fun s e s' hs hstep => PoolKeeps.step hinv hs hstep)
            hstart hrun
          exact ⟨_, _, hpool.running, rfl⟩

/-! ## What the callbacks keep -/

/-- What every callback keeps of the memory. -/
structure CallbacksKeep (callbacks : OpCallbacks σ) (Q : σ → Prop) : Prop where
  run : ∀ c memory, Q memory → Q (callbacks.run c memory).1
  skip : ∀ c memory, Q memory → Q (callbacks.skip c memory)
  inputsChanged : ∀ test, callbacks.inputsChanged = some test →
    ∀ c memory, Q memory → Q (test c memory).1

section Keeps

variable {Q : σ → Prop} (hkeep : CallbacksKeep callbacks Q)

include hkeep

theorem CallbacksKeep.bodyInvariant (plan : Plan) :
    BodyInvariant graph callbacks plan fun running => Q running.memory where
  start := by
    intro running i h hi
    unfold startBody
    split
    · split
      · rename_i test htest
        exact hkeep.inputsChanged test htest i running.memory h
      · exact h
    · exact h
  finish := by
    intro running i needed h hi
    unfold finishBody
    split
    · exact hkeep.run i running.memory h
    · exact hkeep.skip i running.memory h
  number := fun _ h _ => h

theorem CallbacksKeep.skipOthers (candidates : List Bool) {memory : σ} (hmemory : Q memory) :
    Q (skipOthers graph callbacks candidates memory) := by
  unfold OpGraph.skipOthers
  generalize callbacks.skipEffects.getD (List.range graph.ops.length) = ids
  induction ids generalizing memory with
  | nil => exact hmemory
  | cons i ids ih =>
      refine ih ?_
      dsimp only
      split
      · exact hmemory
      · exact hkeep.skip i memory hmemory

/-- **What every callback keeps, an execution keeps.** -/
theorem CallbacksKeep.executes {request : OpRequest} {memory : σ} {out : OpExecution}
    {workspace : OpWorkspace} {executed : Executed σ}
    (h : Executes graph callbacks request memory out workspace executed) (hmemory : Q memory) :
    Q executed.memory := by
  rcases h.cases with hrefused | ⟨prepared, hprepared, hinv⟩
  · unfold prepare at hrefused
    split at hrefused
    · cases hrefused
      exact hmemory
    · split at hrefused
      · cases hrefused
        exact hmemory
      · cases hrefused
  · obtain ⟨running, counted, hrunning, rfl⟩ :=
      hinv _ (hkeep.bodyInvariant prepared.plan) (by
        unfold prepare at hprepared
        split at hprepared
        · cases hprepared
        · split at hprepared
          · cases hprepared
          · cases hprepared
            exact hkeep.skipOthers _ hmemory)
    exact hrunning

end Keeps

end RigExec.OpGraph
