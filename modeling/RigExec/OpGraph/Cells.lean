/-
# `RigExec.OpGraph.Cells` — what the ops leave in the values

A backend keeps, for every value, what was published last and whether this execution published
another.  Its bodies are functions of the values their ops read, whatever its memory is.

    OpFamily   the functions, and the comparison of a publication
    Backed     callbacks that run them
    Acted      what an op leaves: what it makes of its inputs, or what it held
    Values     so far, on whatever schedule

An op that starts after another one has failed is skipped, and so may be what follows it; `sound`
are the ops before which nothing of the kind happened.
-/
import RigExec.OpGraph.Joins

namespace RigExec.OpGraph

/-! ## Values -/

/-- What a backend keeps of a value. -/
structure Cell (V : Type) where
  value : V
  changed : Bool

/-- All values. -/
abbrev Cells (V : Type) := ValueId → Cell V

/-- Op bodies that are functions of the values their ops read. -/
structure OpFamily (V : Type) where
  /-- What an op makes of what it reads; none when it fails. -/
  eval : Nat → (ValueId → Option V) → Option (ValueId → V)
  /-- A publication is compared with what was there. -/
  differs : V → V → Bool
  /-- Different values are never taken for the same. -/
  eq_of_differs : ∀ {old new : V}, differs old new = false → old = new

section

variable {V σ : Type} (graph : CompiledGraph)

/-- What an op sees of the values: those it reads. -/
def seen (i : Nat) (values : Cells V) : ValueId → Option V :=
  fun value => if value ∈ graph.reads i then some (values value).value else none

def OpFamily.publish (family : OpFamily V) (i : Nat) (outputs : ValueId → V) (values : Cells V) :
    Cells V :=
  fun value =>
    if value ∈ graph.writes i then
      ⟨outputs value, family.differs (values value).value (outputs value)⟩
    else values value

/-- Callbacks that run a family over some memory. -/
structure Backed (family : OpFamily V) (cells : σ → Cells V) (callbacks : OpCallbacks σ) :
    Prop where
  inputChanged : callbacks.inputChanged = none
  inputsChanged : callbacks.inputsChanged = none
  changed : ∀ value memory, callbacks.changed value memory = (cells memory value).changed
  skip : ∀ i memory, cells (callbacks.skip i memory) = cells memory
  run : ∀ i memory outputs, family.eval i (seen graph i (cells memory)) = some outputs →
    (callbacks.run i memory).2 = true ∧
      cells (callbacks.run i memory).1 = family.publish graph i outputs (cells memory)
  /-- What a failing op leaves in its own values is open. -/
  fails : ∀ i memory, family.eval i (seen graph i (cells memory)) = none →
    (callbacks.run i memory).2 = false ∧
      ∀ value, value ∉ graph.writes i → cells (callbacks.run i memory).1 value = cells memory value

/-- The plainest backend: the values themselves. -/
def OpFamily.callbacks (family : OpFamily V) : OpCallbacks (Cells V) where
  run i values :=
    match family.eval i (seen graph i values) with
    | some outputs => (family.publish graph i outputs values, true)
    | none => (values, false)
  skip _ values := values
  changed value values := (values value).changed

theorem backed_callbacks (family : OpFamily V) :
    Backed graph family id (family.callbacks graph) := by
  refine ⟨rfl, rfl, fun _ _ => rfl, fun _ _ => rfl, fun i values outputs heval => ?_,
    fun i values heval => ?_⟩
  · simp only [id] at heval
    simp [OpFamily.callbacks, heval]
  · simp only [id] at heval
    simp [OpFamily.callbacks, heval]

/-- An op is run: it is seeded, or a value it reads is new. -/
def Needed (seeded : List Bool) (values : Cells V) (i : Nat) : Prop :=
  flagAt seeded i = true ∨ ∃ value ∈ graph.reads i, (values value).changed = true

/-- What an op leaves behind. -/
structure Acted (family : OpFamily V) (seeded : List Bool) (before values : Cells V)
    (ran : List Bool) (i : Nat) : Prop where
  needed : Needed graph seeded values i →
    ∃ outputs, family.eval i (seen graph i values) = some outputs ∧
      ∀ value ∈ graph.writes i,
        values value = ⟨outputs value, family.differs (before value).value (outputs value)⟩
  kept : ¬Needed graph seeded values i → ∀ value ∈ graph.writes i, values value = before value
  ran : flagAt ran i = true ↔ Needed graph seeded values i

variable {graph} {family : OpFamily V} {seeded : List Bool} {before values values' : Cells V}
  {ran ran' : List Bool} {i : Nat}

theorem seen_values (h : ∀ value ∈ graph.reads i, (values' value).value = (values value).value) :
    seen graph i values' = seen graph i values := by
  funext value
  unfold seen
  split
  · next hread => rw [h value hread]
  · rfl

theorem seen_congr (h : ∀ value ∈ graph.reads i, values' value = values value) :
    seen graph i values' = seen graph i values :=
  seen_values fun value hread => by rw [h value hread]

theorem needed_congr (h : ∀ value ∈ graph.reads i, values' value = values value) :
    Needed graph seeded values' i ↔ Needed graph seeded values i := by
  refine or_congr Iff.rfl (exists_congr fun value => and_congr_right fun hread => ?_)
  rw [h value hread]

theorem Acted.congr (h : Acted graph family seeded before values ran i)
    (hreads : ∀ value ∈ graph.reads i, values' value = values value)
    (hwrites : ∀ value ∈ graph.writes i, values' value = values value)
    (hran : flagAt ran' i = flagAt ran i) : Acted graph family seeded before values' ran' i := by
  refine ⟨fun hneeded => ?_, fun hnot value hvalue => ?_, ?_⟩
  · obtain ⟨outputs, heval, houtputs⟩ := h.needed ((needed_congr hreads).mp hneeded)
    refine ⟨outputs, by rw [seen_congr hreads, heval], fun value hvalue => ?_⟩
    rw [hwrites value hvalue, houtputs value hvalue]
  · rw [hwrites value hvalue]
    exact h.kept (fun hneeded => hnot ((needed_congr hreads).mpr hneeded)) value hvalue
  · rw [hran, h.ran, needed_congr hreads]

/-- What `body` asks of the inputs. -/
theorem startBody_backed (seeded : List Bool) (i : Nat) {cells : σ → Cells V}
    {callbacks : OpCallbacks σ} (hbacked : Backed graph family cells callbacks)
    {running : Running σ}
    (hsucceeded : running.succeeded = true) :
    (startBody graph callbacks seeded running i).1 = running ∧
      ((startBody graph callbacks seeded running i).2 = true ↔
        Needed graph seeded (cells running.memory) i) := by
  have hfold : ∀ (reads : List ValueId) (needed : Bool),
      (reads.foldl (fun needed input => callbacks.changed input running.memory || needed) needed =
        true ↔ needed = true ∨ ∃ value ∈ reads, (cells running.memory value).changed = true) := by
    intro reads
    induction reads with
    | nil => simp
    | cons value reads ih =>
        intro needed
        rw [List.foldl_cons, ih, hbacked.changed]
        simp only [Bool.or_eq_true, List.mem_cons, exists_eq_or_imp]
        exact ⟨fun h => by tauto, fun h => by tauto⟩
  unfold startBody
  rw [if_pos hsucceeded, hbacked.inputsChanged, hbacked.inputChanged]
  exact ⟨rfl, hfold (graph.reads i) (flagAt seeded i)⟩

theorem startBody_failed {callbacks : OpCallbacks σ} {running : Running σ}
    (hfailed : running.succeeded = false) :
    startBody graph callbacks seeded running i = (running, false) := by
  unfold startBody
  rw [hfailed, if_neg Bool.false_ne_true]

end

/-! ## The invariant -/

section

variable {V σ : Type} {graph : CompiledGraph} {family : OpFamily V} {cells : σ → Cells V}
  {callbacks : OpCallbacks σ} {plan : Plan} {before : Cells V} {pool pool' : Pool σ}
  {sound : Nat → Prop} {k c op : Nat}

/-- **What the ops have left so far.** -/
structure Values (graph : CompiledGraph) (family : OpFamily V) (cells : σ → Cells V) (plan : Plan)
    (before : Cells V) (pool : Pool σ) (sound : Nat → Prop) : Prop where
  ran_length : pool.ran.length = graph.ops.length
  ran_acted : ∀ i, flagAt pool.ran i = true → .acted i ∈ pool.log
  /-- A value whose writer has not acted is as it was. -/
  kept : ∀ value, (∀ i, value ∈ graph.writes i → .acted i ∉ pool.log) →
    cells pool.memory value = before value
  acted : ∀ i, sound i → .acted i ∈ pool.log
  preds : ∀ i, sound i → ∀ u ∈ plan.opPreds graph i, sound u
  result : ∀ i, sound i →
    Acted graph family plan.seeded before (cells pool.memory) pool.ran i
  succeeded : pool.succeeded = true → ∀ i, .acted i ∈ pool.log → sound i
  /-- A failure has an op that fails on sound inputs. -/
  failed : pool.succeeded = false → ∃ i, flagAt plan.candidates i = true ∧
    (∀ u ∈ plan.opPreds graph i, sound u) ∧ Needed graph plan.seeded (cells pool.memory) i ∧
    family.eval i (seen graph i (cells pool.memory)) = none
  acting : ∀ k i needed left count, pool.phase k = .acting i needed left count →
    (needed = true → (∀ u ∈ plan.opPreds graph i, sound u) ∧
      Needed graph plan.seeded (cells pool.memory) i) ∧
    (needed = false → pool.succeeded = true →
      ¬Needed graph plan.seeded (cells pool.memory) i)

theorem Values.frame (h : Values graph family cells plan before pool sound)
    (hmemory : pool'.memory = pool.memory) (hsucceeded : pool'.succeeded = pool.succeeded)
    (hran : pool'.ran = pool.ran) (hlog : pool'.log = pool.log)
    (hphase : ∀ k i needed left count, pool'.phase k = .acting i needed left count →
      pool.phase k = .acting i needed left count) :
    Values graph family cells plan before pool' sound := by
  refine ⟨by rw [hran]; exact h.ran_length, ?_, ?_, ?_, h.preds, ?_, ?_, ?_, ?_⟩
  · rw [hran, hlog]
    exact h.ran_acted
  · rw [hlog, hmemory]
    exact h.kept
  · rw [hlog]
    exact h.acted
  · rw [hmemory, hran]
    exact h.result
  · rw [hsucceeded, hlog]
    exact h.succeeded
  · rw [hsucceeded, hmemory]
    exact h.failed
  · intro k i needed left count hk
    rw [hsucceeded, hmemory]
    exact h.acting k i needed left count (hphase k i needed left count hk)

theorem acting_of_update {next : Phase} (hphase : pool'.phase = Function.update pool.phase k next)
    (hnext : ∀ i needed left count, next ≠ .acting i needed left count) :
    ∀ j i needed left count, pool'.phase j = .acting i needed left count →
      pool.phase j = .acting i needed left count := by
  intro j i needed left count hj
  rw [hphase] at hj
  by_cases hjk : j = k
  · rw [hjk, Function.update_self] at hj
    exact absurd hj (hnext i needed left count)
  · rw [Function.update_of_ne hjk] at hj
    exact hj

section

variable (hgraph : Executable graph) (hplan : Planned graph plan)

theorem InOrder.acting (h : InOrder graph plan pool) {needed : Bool} {left : List Nat} {count : Nat}
    (hphase : pool.phase k = .acting op needed left count) :
    flagAt plan.candidates op = true ∧ .acted op ∉ pool.log ∧
      ∀ u ∈ plan.opPreds graph op, .acted u ∈ pool.log := by
  have hlt : k < pool.counted.2.length := by
    by_contra hge
    rw [h.idle k (by omega)] at hphase
    cases hphase
  have hk := List.getElem?_eq_getElem hlt
  have htask := h.task _ (h.candidate_of_dispatched (List.mem_of_getElem? hk))
  rw [h.phaseOf_eq hk, hphase] at htask
  obtain ⟨-, hstarted, hacted, -⟩ := htask
  refine ⟨h.candidate op hstarted, hacted, fun u hu => ?_⟩
  obtain ⟨pre, post, hsplit⟩ := List.append_of_mem hstarted
  rw [hsplit]
  exact List.mem_append_left _ (h.log_order pre op post hsplit u hu)

include hgraph in
/-- **What an op reads stands still** from when its predecessors have acted: another op that acts
writes none of it. -/
theorem reads_frame {values values' : Cells V} (hop : flagAt plan.candidates op = true)
    (hsame : ∀ value, value ∉ graph.writes op → values' value = values value) {i : Nat}
    (hpred : op ∉ plan.opPreds graph i) :
    ∀ value ∈ graph.reads i, values' value = values value := by
  intro value hread
  refine hsame value fun hwrite => hpred ?_
  exact mem_opPreds.mpr ⟨hgraph.produced i op value hread hwrite, hop⟩

include hgraph in
theorem writes_frame {values values' : Cells V}
    (hsame : ∀ value, value ∉ graph.writes op → values' value = values value) {i : Nat}
    (hne : i ≠ op) : ∀ value ∈ graph.writes i, values' value = values value := by
  intro value hwrite
  exact hsame value fun hwrite' => hne (hgraph.single i op value hwrite hwrite')

include hgraph in
theorem notMem_opPreds_self (i : Nat) : i ∉ plan.opPreds graph i := by
  intro hin
  exact absurd (hgraph.preds_lt i i (mem_opPreds.mp hin).1) (Nat.lt_irrefl i)

/-- What every act of an op keeps, whatever it does to the values it writes. -/
structure ActsOn (graph : CompiledGraph) (cells : σ → Cells V) (pool pool' : Pool σ) (k op : Nat) :
    Prop where
  others : ∀ value, value ∉ graph.writes op → cells pool'.memory value = cells pool.memory value
  ran_length : pool'.ran.length = pool.ran.length
  ran : ∀ i, i ≠ op → flagAt pool'.ran i = flagAt pool.ran i
  succeeded : pool'.succeeded = true → pool.succeeded = true
  log : pool'.log = pool.log ++ [.acted op]
  phase : ∃ left count, pool'.phase = Function.update pool.phase k (.bodies left count)

include hgraph in
/-- **An op acts**: the others' results stand, and its own is added when it is sound. -/
theorem Values.act (h : Values graph family cells plan before pool sound)
    (horder : InOrder graph plan pool) {needed : Bool} {left : List Nat} {count : Nat}
    (hold : pool.phase k = .acting op needed left count)
    (hact : ActsOn graph cells pool pool' k op) (joins : Prop)
    (hsound : joins → (∀ u ∈ plan.opPreds graph op, sound u) ∧
      Acted graph family plan.seeded before (cells pool'.memory) pool'.ran op)
    (hsucceeded : pool'.succeeded = true → joins)
    (hfailed : pool'.succeeded = false → pool.succeeded = false ∨
      (∀ u ∈ plan.opPreds graph op, sound u) ∧
        Needed graph plan.seeded (cells pool'.memory) op ∧
        family.eval op (seen graph op (cells pool'.memory)) = none) :
    Values graph family cells plan before pool' (fun i => sound i ∨ i = op ∧ joins) := by
  obtain ⟨hcandidate, hfresh, -⟩ := horder.acting hold
  have hacted : ∀ i, .acted i ∈ pool'.log ↔ .acted i ∈ pool.log ∨ i = op := by
    intro i
    rw [hact.log, List.mem_append, List.mem_singleton, Mark.acted.injEq]
  -- An op whose predecessors have acted does not read what this one writes.
  have hstill : ∀ i, (∀ u ∈ plan.opPreds graph i, .acted u ∈ pool.log) →
      ∀ value ∈ graph.reads i, cells pool'.memory value = cells pool.memory value := by
    intro i hi
    exact reads_frame hgraph hcandidate hact.others fun hin => hfresh (hi op hin)
  have hpreds : ∀ i, (∀ u ∈ plan.opPreds graph i, sound u) →
      ∀ u ∈ plan.opPreds graph i, .acted u ∈ pool.log := fun i hi u hu => h.acted u (hi u hu)
  refine ⟨hact.ran_length.trans h.ran_length, ?_, ?_, ?_, ?_, ?_, ?_, ?_, ?_⟩
  · intro i hi
    rw [hacted]
    by_cases hiop : i = op
    · exact .inr hiop
    · rw [hact.ran i hiop] at hi
      exact .inl (h.ran_acted i hi)
  · intro value hvalue
    have hnot : value ∉ graph.writes op := fun hin => hvalue op hin ((hacted op).mpr (.inr rfl))
    rw [hact.others value hnot]
    exact h.kept value fun i hi hin => hvalue i hi ((hacted i).mpr (.inl hin))
  · rintro i (hi | ⟨rfl, -⟩)
    · exact (hacted i).mpr (.inl (h.acted i hi))
    · exact (hacted i).mpr (.inr rfl)
  · rintro i (hi | ⟨rfl, hjoins⟩) u hu
    · exact .inl (h.preds i hi u hu)
    · exact .inl ((hsound hjoins).1 u hu)
  · rintro i (hi | ⟨rfl, hjoins⟩)
    · have hne : i ≠ op := by
        rintro rfl
        exact hfresh (h.acted i hi)
      exact (h.result i hi).congr (hstill i (hpreds i (h.preds i hi)))
        (writes_frame hgraph hact.others hne) (hact.ran i hne)
    · exact (hsound hjoins).2
  · intro hsuccess i hi
    rcases (hacted i).mp hi with hi | rfl
    · exact .inl (h.succeeded (hact.succeeded hsuccess) i hi)
    · exact .inr ⟨rfl, hsucceeded hsuccess⟩
  · intro hfail
    rcases hfailed hfail with hbefore | ⟨hpred, hneeded, heval⟩
    · obtain ⟨i, hi, hpred, hneeded, heval⟩ := h.failed hbefore
      have hsame := hstill i (hpreds i hpred)
      exact ⟨i, hi, fun u hu => .inl (hpred u hu), (needed_congr hsame).mpr hneeded,
        by rw [seen_congr hsame]; exact heval⟩
    · exact ⟨op, hcandidate, fun u hu => .inl (hpred u hu), hneeded, heval⟩
  · intro j i needed left count hj
    obtain ⟨left', count', hphase⟩ := hact.phase
    have hj' := acting_of_update hphase (fun _ _ _ _ he => by cases he) j i needed left count hj
    have hsame := hstill i (horder.acting hj').2.2
    obtain ⟨hneeded, hnot⟩ := h.acting j i needed left count hj'
    refine ⟨fun he => ⟨fun u hu => .inl ((hneeded he).1 u hu),
      (needed_congr hsame).mpr (hneeded he).2⟩, fun he hsuccess hneeded' => ?_⟩
    exact hnot he (hact.succeeded hsuccess) ((needed_congr hsame).mp hneeded')

/-- A body starts: what it found stands until it ends. -/
theorem Values.start (h : Values graph family cells plan before pool sound)
    (hbacked : Backed graph family cells callbacks) {needed : Bool} {left : List Nat} {count : Nat}
    (hpreds : ∀ u ∈ plan.opPreds graph op, .acted u ∈ pool.log)
    (hstart : startBody graph callbacks plan.seeded pool.toRunning op =
      (pool'.toRunning, needed))
    (hlog : pool'.log = pool.log ++ [.started op])
    (hphase : pool'.phase = Function.update pool.phase k (.acting op needed left count)) :
    Values graph family cells plan before pool' sound := by
  have hsame : pool'.toRunning = pool.toRunning ∧ (needed = true → pool.succeeded = true ∧
      Needed graph plan.seeded (cells pool.memory) op) ∧ (needed = false →
      pool.succeeded = true → ¬Needed graph plan.seeded (cells pool.memory) op) := by
    cases hsucceeded : pool.succeeded with
    | true =>
        obtain ⟨hrunning, hneeded⟩ := startBody_backed plan.seeded op hbacked hsucceeded
        rw [hstart] at hrunning hneeded
        refine ⟨hrunning, fun he => ⟨rfl, hneeded.mp he⟩, fun he _ hin => ?_⟩
        rw [he] at hneeded
        exact Bool.false_ne_true (hneeded.mpr hin)
    | false =>
        rw [startBody_failed hsucceeded] at hstart
        obtain ⟨hrunning, hneeded⟩ := Prod.mk.inj hstart
        refine ⟨hrunning.symm, fun he => ?_, fun _ he => by cases he⟩
        rw [← hneeded] at he
        cases he
  obtain ⟨hrunning, hneeded, hnot⟩ := hsame
  have hacted : ∀ i, .acted i ∈ pool'.log ↔ .acted i ∈ pool.log := by
    intro i
    rw [hlog, List.mem_append, List.mem_singleton]
    exact or_iff_left fun he => by cases he
  refine ⟨by rw [hrunning]; exact h.ran_length, ?_, ?_, ?_, h.preds, ?_, ?_, ?_, ?_⟩
  · intro i hi
    rw [hrunning] at hi
    exact (hacted i).mpr (h.ran_acted i hi)
  · intro value hvalue
    rw [hrunning]
    exact h.kept value fun i hi hin => hvalue i hi ((hacted i).mpr hin)
  · exact fun i hi => (hacted i).mpr (h.acted i hi)
  · rw [hrunning]
    exact h.result
  · intro hsucceeded i hi
    rw [hrunning] at hsucceeded
    exact h.succeeded hsucceeded i ((hacted i).mp hi)
  · rw [hrunning]
    exact h.failed
  · intro j i needed' left' count' hj
    rw [hrunning]
    rw [hphase] at hj
    by_cases hjk : j = k
    · rw [hjk, Function.update_self] at hj
      cases hj
      refine ⟨fun he => ⟨fun u hu => ?_, (hneeded he).2⟩, hnot⟩
      exact h.succeeded (hneeded he).1 u (hpreds u hu)
    · rw [Function.update_of_ne hjk] at hj
      exact h.acting j i needed' left' count' hj

include hgraph in
theorem Values.finish (h : Values graph family cells plan before pool sound)
    (hbacked : Backed graph family cells callbacks) (horder : InOrder graph plan pool)
    {needed : Bool} {left : List Nat} {count : Nat}
    (hold : pool.phase k = .acting op needed left count) (hop : op < graph.ops.length)
    (hrunning : pool'.toRunning = finishBody callbacks pool.toRunning op needed)
    (hlog : pool'.log = pool.log ++ [.acted op])
    (hphase : pool'.phase = Function.update pool.phase k (.bodies left (count + 1))) :
    ∃ sound', Values graph family cells plan before pool' sound' := by
  obtain ⟨hcandidate, hfresh, hpreds⟩ := horder.acting hold
  obtain ⟨hneeded, hnot⟩ := h.acting k op needed left count hold
  have hnever : flagAt pool.ran op = false :=
    Bool.eq_false_iff.mpr fun hran => hfresh (h.ran_acted op hran)
  have hstill : ∀ {values : Cells V},
      (∀ value, value ∉ graph.writes op → values value = cells pool.memory value) →
      ∀ value ∈ graph.reads op, values value = cells pool.memory value :=
    fun hothers => reads_frame hgraph hcandidate hothers (notMem_opPreds_self hgraph op)
  -- The values of the op are as they were before the execution.
  have hbefore : ∀ value ∈ graph.writes op, cells pool.memory value = before value := by
    intro value hvalue
    refine h.kept value fun i hi => ?_
    rwa [hgraph.single i op value hi hvalue]
  cases needed with
  | false =>
      simp only [finishBody, Bool.false_eq_true, if_false] at hrunning
      have hmemory : cells pool'.memory = cells pool.memory := by rw [hrunning, hbacked.skip]
      have hran : pool'.ran = pool.ran := by rw [hrunning]
      have hsucceeded : pool'.succeeded = pool.succeeded := by rw [hrunning]
      refine ⟨_, h.act hgraph horder hold ⟨fun value _ => by rw [hmemory], by rw [hran],
        fun i _ => by rw [hran], fun he => by rwa [← hsucceeded], hlog, left, count + 1, hphase⟩
        (pool.succeeded = true) (fun hjoins => ⟨fun u hu => ?_, ?_⟩)
        (fun he => by rwa [← hsucceeded]) (fun he => .inl (by rwa [← hsucceeded]))⟩
      · exact h.succeeded hjoins u (hpreds u hu)
      · have hquiet := hnot rfl hjoins
        rw [hmemory, hran]
        refine ⟨fun hin => absurd hin hquiet, fun _ => hbefore, ?_⟩
        rw [hnever]
        exact ⟨fun he => absurd he Bool.false_ne_true, fun hin => absurd hin hquiet⟩
  | true =>
      obtain ⟨hsoundPreds, hin⟩ := hneeded rfl
      simp only [finishBody, if_true] at hrunning
      have hmemory : pool'.memory = (callbacks.run op pool.memory).1 := by rw [hrunning]
      have hran : pool'.ran = pool.ran.set op true := by rw [hrunning]
      have hsucceeded : pool'.succeeded = (pool.succeeded && (callbacks.run op pool.memory).2) := by
        rw [hrunning]
      have hothers : ∀ value, value ∉ graph.writes op →
          cells pool'.memory value = cells pool.memory value := by
        intro value hvalue
        rw [hmemory]
        cases heval : family.eval op (seen graph op (cells pool.memory)) with
        | none => exact (hbacked.fails op pool.memory heval).2 value hvalue
        | some outputs =>
            rw [(hbacked.run op pool.memory outputs heval).2, OpFamily.publish, if_neg hvalue]
      have hacts : ActsOn graph cells pool pool' k op := by
        refine ⟨hothers, by rw [hran, List.length_set], fun i hi => ?_, fun he => ?_, hlog, left,
          count + 1, hphase⟩
        · rw [hran, Bool.eq_iff_iff, flagAt_set]
          exact or_iff_left fun he => hi he.1.symm
        · rw [hsucceeded] at he
          exact (Bool.and_eq_true_iff.mp he).1
      have hsame := hstill hothers
      cases heval : family.eval op (seen graph op (cells pool.memory)) with
      | none =>
          have hfails := (hbacked.fails op pool.memory heval).1
          refine ⟨_, h.act hgraph horder hold hacts False (fun he => he.elim) (fun he => ?_)
            (fun _ => .inr ⟨hsoundPreds, ?_, ?_⟩)⟩
          · rw [hsucceeded, hfails, Bool.and_false] at he
            exact Bool.false_ne_true he
          · exact (needed_congr hsame).mpr hin
          · rw [seen_congr hsame]
            exact heval
      | some outputs =>
          obtain ⟨hok, hpublish⟩ := hbacked.run op pool.memory outputs heval
          refine ⟨_, h.act hgraph horder hold hacts True (fun _ => ⟨hsoundPreds, ?_⟩)
            (fun _ => trivial) (fun he => .inl ?_)⟩
          · have hin' : Needed graph plan.seeded (cells pool'.memory) op :=
              (needed_congr hsame).mpr hin
            refine ⟨fun _ => ⟨outputs, by rw [seen_congr hsame, heval], fun value hvalue => ?_⟩,
              fun hquiet => absurd hin' hquiet, ?_⟩
            · rw [hmemory, hpublish, OpFamily.publish, if_pos hvalue, hbefore value hvalue]
            · rw [hran, flagAt_set, h.ran_length]
              exact iff_of_true (.inr ⟨rfl, hop⟩) hin'
          · rwa [hsucceeded, hok, Bool.and_true] at he

include hgraph hplan in
/-- **The step lemma.** -/
theorem values_step {event : PoolEvent} (hbacked : Backed graph family cells callbacks)
    (horder : InOrder graph plan pool)
    (h : ∃ sound, Values graph family cells plan before pool sound)
    (hstep : poolStep graph callbacks plan pool event = some pool') :
    ∃ sound, Values graph family cells plan before pool' sound := by
  obtain ⟨sound, h⟩ := h
  have hafter := inOrder_step hgraph hplan horder hstep
  cases happens_of_poolStep hstep with
  | submit _ | join _ _ => exact ⟨sound, h.frame rfl rfl rfl rfl fun _ _ _ _ _ hj => hj⟩
  | take _ _ =>
      refine ⟨sound, h.frame rfl rfl rfl rfl (acting_of_update rfl fun _ _ _ _ he => ?_)⟩
      cases he
  | advance _ hmoves =>
      cases hmoves with
      | start hphase =>
          refine ⟨sound, h.start hbacked (fun u hu => ?_) rfl rfl rfl⟩
          have hin := (hafter.acting (Function.update_self _ _ _)).2.2 u hu
          exact (List.mem_append.mp hin).resolve_right fun he => by
            cases List.mem_singleton.mp he
      | act hphase =>
          have hop := hplan.candidate_lt (horder.acting hphase).1
          exact h.finish hgraph hbacked horder hphase hop rfl rfl rfl
      | claim hphase | number hphase | opens hphase | release hphase | finish hphase =>
          refine ⟨sound, h.frame rfl rfl rfl rfl (acting_of_update rfl fun _ _ _ _ he => ?_)⟩
          cases he

include hgraph hplan in
/-- **The run lemma.** -/
theorem values_run {events : List PoolEvent} (hbacked : Backed graph family cells callbacks)
    (horder : InOrder graph plan pool)
    (h : ∃ sound, Values graph family cells plan before pool sound)
    (hrun : Lib.run (poolStep graph callbacks plan) pool events = some pool') :
    ∃ sound, Values graph family cells plan before pool' sound := by
  have hboth := Lib.run_preserves
    (P := fun s => InOrder graph plan s ∧ ∃ sound, Values graph family cells plan before s sound)
    (fun s event s' hs hstep => ⟨inOrder_step hgraph hplan hs.1 hstep,
      values_step hgraph hplan hbacked hs.1 hs.2 hstep⟩) ⟨horder, h⟩ hrun
  exact hboth.2

end

end

end RigExec.OpGraph
