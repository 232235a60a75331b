/-
# `RigExec.OpGraph.Interleavings` — every interleaving keeps the order

What one step of the machine can do is said once (`Advances`, `Happens`); each kind of step then
keeps `InOrder`.

    start     a body begins: what its op waits for has acted
    act       it ends
    claim     a task claims the numbers of its members
    number    one of them is numbered
    open      the task turns to its successors
    release   one of them is counted down, and dispatched at zero
    finish    the task is over
-/
import RigExec.OpGraph.Bodies
import RigExec.OpGraph.Tasks
import RigExec.Lib.LeastOrder

namespace RigExec.OpGraph

open Lib (Ascending Countdown Topological)

variable {σ : Type} {graph : CompiledGraph} {callbacks : OpCallbacks σ} {plan : Plan}
  {pool pool' : Pool σ} {a b c k u v op : Nat}

/-! ## Steps -/

/-- What a step of the `k`th task, whose cluster is `c`, does. -/
inductive Advances (graph : CompiledGraph) (callbacks : OpCallbacks σ) (plan : Plan)
    (pool : Pool σ) (k c : Nat) : Pool σ → Prop where
  | start {op : Nat} {left : List Nat} {count : Nat}
      (hphase : pool.phase k = .bodies (op :: left) count) :
      Advances graph callbacks plan pool k c { pool with
        toRunning := (startBody graph callbacks plan.seeded pool.toRunning op).1
        phase := Function.update pool.phase k
          (.acting op (startBody graph callbacks plan.seeded pool.toRunning op).2 left count)
        log := pool.log ++ [.started op] }
  | act {op : Nat} {needed : Bool} {left : List Nat} {count : Nat}
      (hphase : pool.phase k = .acting op needed left count) :
      Advances graph callbacks plan pool k c { pool with
        toRunning := finishBody callbacks pool.toRunning op needed
        phase := Function.update pool.phase k (.bodies left (count + 1))
        log := pool.log ++ [.acted op] }
  | claim {count : Nat} (hphase : pool.phase k = .bodies [] count) :
      Advances graph callbacks plan pool k c { pool with
        sequence := pool.sequence + count
        phase := Function.update pool.phase k (.numbering (plan.members graph c) pool.sequence)
        claimed := pool.claimed ++ plan.members graph c }
  | number {op : Nat} {left : List Nat} {before : Nat}
      (hphase : pool.phase k = .numbering (op :: left) before) :
      Advances graph callbacks plan pool k c { pool with
        completion := pool.completion.set op (before + 1)
        phase := Function.update pool.phase k (.numbering left (before + 1)) }
  | opens {before : Nat} (hphase : pool.phase k = .numbering [] before) :
      Advances graph callbacks plan pool k c { pool with
        phase := Function.update pool.phase k (.releasing (plan.succs graph c)) }
  | release {next : Nat} {left : List Nat}
      (hphase : pool.phase k = .releasing (next :: left)) :
      Advances graph callbacks plan pool k c { pool with
        counted := Lib.release pool.counted next
        phase := Function.update pool.phase k (.releasing left) }
  | finish (hphase : pool.phase k = .releasing []) :
      Advances graph callbacks plan pool k c { pool with
        phase := Function.update pool.phase k .finished }

theorem advances_of_advanceTask (h : advanceTask graph callbacks plan pool k c = some pool') :
    Advances graph callbacks plan pool k c pool' := by
  unfold advanceTask at h
  split at h
  · cases h
  · next op left count heq =>
      cases h
      exact .start heq
  · next op needed left count heq =>
      cases h
      exact .act heq
  · next count heq =>
      cases h
      exact .claim heq
  · next op left before heq =>
      cases h
      exact .number heq
  · next before heq =>
      cases h
      exact .opens heq
  · next next left heq =>
      cases h
      exact .release heq
  · next heq =>
      cases h
      exact .finish heq
  · cases h

theorem Advances.advanceTask (h : Advances graph callbacks plan pool k c pool') :
    advanceTask graph callbacks plan pool k c = some pool' := by
  cases h with
  | start hphase => rw [OpGraph.advanceTask, hphase]
  | act hphase => rw [OpGraph.advanceTask, hphase]
  | claim hphase => rw [OpGraph.advanceTask, hphase]
  | number hphase => rw [OpGraph.advanceTask, hphase]
  | opens hphase => rw [OpGraph.advanceTask, hphase]
  | release hphase => rw [OpGraph.advanceTask, hphase]
  | finish hphase => rw [OpGraph.advanceTask, hphase]

/-- What an event of the pool does. -/
inductive Happens (graph : CompiledGraph) (callbacks : OpCallbacks σ) (plan : Plan)
    (pool : Pool σ) : Pool σ → Prop where
  | submit {c : Nat} {waiting : List Nat} (hwaiting : pool.waiting = c :: waiting) :
      Happens graph callbacks plan pool { pool with
        waiting := waiting
        counted := (pool.counted.1, pool.counted.2 ++ [c]) }
  | take {k c : Nat} (hk : pool.counted.2[k]? = some c) (hold : pool.phase k = .idle) :
      Happens graph callbacks plan pool { pool with
        phase := Function.update pool.phase k (.bodies (plan.members graph c) 0) }
  | advance {k c : Nat} {pool' : Pool σ} (hk : pool.counted.2[k]? = some c)
      (hstep : Advances graph callbacks plan pool k c pool') :
      Happens graph callbacks plan pool pool'
  | join (hjoined : pool.joined = false) (hdrained : pool.drained = true) :
      Happens graph callbacks plan pool { pool with joined := true }

theorem happens_of_poolStep {event : PoolEvent}
    (h : poolStep graph callbacks plan pool event = some pool') :
    Happens graph callbacks plan pool pool' := by
  cases event with
  | submit =>
      simp only [poolStep] at h
      split at h
      · cases h
      · next hwaiting =>
          cases h
          exact .submit hwaiting
  | take k =>
      simp only [poolStep] at h
      split at h
      · next hk hold =>
          cases h
          exact .take hk hold
      · cases h
  | advance k =>
      simp only [poolStep] at h
      split at h
      · next hk => exact .advance hk (advances_of_advanceTask h)
      · cases h
  | join =>
      simp only [poolStep, Option.ite_none_right_eq_some, Bool.and_eq_true,
        Bool.not_eq_true'] at h
      obtain ⟨⟨hjoined, hdrained⟩, he⟩ := h
      cases he
      exact .join hjoined hdrained

@[simp] theorem startBody_completion (seeded : List Bool) (running : Running σ) (i : Nat) :
    (startBody graph callbacks seeded running i).1.completion = running.completion := by
  unfold startBody
  split
  · split <;> rfl
  · rfl

@[simp] theorem finishBody_completion (running : Running σ) (i : Nat) (needed : Bool) :
    (finishBody callbacks running i needed).completion = running.completion := by
  unfold finishBody
  split <;> rfl

/-! ## The tasks -/

theorem TaskAt.same {phase : Phase} (h : TaskAt graph plan pool c phase)
    (hlog : pool'.log = pool.log) (hclaimed : pool'.claimed = pool.claimed)
    (hcompletion : pool'.completion = pool.completion) : TaskAt graph plan pool' c phase := by
  refine h.frame (fun _ _ => by rw [hlog]; exact ⟨Iff.rfl, Iff.rfl⟩)
    ⟨[], by rw [hclaimed, List.append_nil], fun _ _ => List.not_mem_nil⟩ fun _ _ => ?_
  rw [hcompletion]

theorem Chronicle.same (h : Chronicle graph plan pool) (hlog : pool'.log = pool.log)
    (hclaimed : pool'.claimed = pool.claimed) (hcompletion : pool'.completion = pool.completion)
    (hsequence : pool'.sequence = pool.sequence) : Chronicle graph plan pool' := by
  constructor <;> simp only [hlog, hclaimed, hcompletion, hsequence]
  exacts [h.log_nodup, h.log_order, h.started, h.candidate, h.claimed_nodup, h.claimed_order,
    h.claimed_candidate, h.sequence_eq, h.completion_length, h.completion_other]


section

variable (hgraph : Executable graph) (hplan : Planned graph plan)

theorem phaseOf_update_self (h : Tasks graph plan pool) (hk : pool.counted.2[k]? = some c)
    (hcounted : pool'.counted = pool.counted) {next : Phase}
    (hphase : pool'.phase = Function.update pool.phase k next) : pool'.phaseOf c = next := by
  rw [Pool.phaseOf, hcounted, h.idxOf_eq hk, hphase, Function.update_self]

theorem phaseOf_update_ne (hk : pool.counted.2[k]? = some c)
    (hcounted : pool'.counted = pool.counted) {next : Phase}
    (hphase : pool'.phase = Function.update pool.phase k next) (hne : a ≠ c) :
    pool'.phaseOf a = pool.phaseOf a := by
  rw [Pool.phaseOf, hcounted, hphase, Function.update_of_ne (idxOf_ne_of_ne hk hne), Pool.phaseOf]

theorem Tasks.at_place (h : Tasks graph plan pool) (hk : pool.counted.2[k]? = some c) :
    TaskAt graph plan pool c (pool.phase k) := by
  have htask := h.task c (h.candidate_of_dispatched (List.mem_of_getElem? hk))
  rwa [h.phaseOf_eq hk] at htask

/-- **A step that releases nothing**: its task moves on, and the others keep what they did. -/
theorem Tasks.move (h : Tasks graph plan pool) (hk : pool.counted.2[k]? = some c)
    {next : Phase} (hcounted : pool'.counted = pool.counted)
    (hwaiting : pool'.waiting = pool.waiting)
    (hphase : pool'.phase = Function.update pool.phase k next)
    (hreleased : ∀ b, CandidateCluster plan b → c ∈ plan.preds graph b →
      next.released b = (pool.phase k).released b)
    (hself : TaskAt graph plan pool' c next)
    (hother : ∀ a, CandidateCluster plan a → a ≠ c →
      TaskAt graph plan pool a (pool.phaseOf a) → TaskAt graph plan pool' a (pool.phaseOf a)) :
    Tasks graph plan pool' := by
  refine ⟨?_, ?_, ?_⟩
  · rw [hcounted, hwaiting]
    refine h.countdown.congr fun b hb p hp => ?_
    by_cases hpc : p = c
    · subst hpc
      rw [phaseOf_update_self h hk hcounted hphase, h.phaseOf_eq hk, hreleased b hb hp]
    · rw [phaseOf_update_ne hk hcounted hphase hpc]
  · intro j hj
    rw [hcounted] at hj
    have hne : j ≠ k := fun he => by
      have := (List.getElem?_eq_some_iff.mp hk).1
      omega
    rw [hphase, Function.update_of_ne hne]
    exact h.idle j hj
  · intro a ha
    by_cases hac : a = c
    · subst hac
      rw [phaseOf_update_self h hk hcounted hphase]
      exact hself
    · rw [phaseOf_update_ne hk hcounted hphase hac]
      exact hother a ha hac (h.task a ha)

theorem phaseOf_append (hidle : ∀ j, pool.counted.2.length ≤ j → pool.phase j = .idle)
    (hk : pool.counted.2[k]? = some c) {more : List Nat} {next : Phase}
    (hcounted : pool'.counted.2 = pool.counted.2 ++ more)
    (hphase : pool'.phase = Function.update pool.phase k next) (hne : a ≠ c) :
    pool'.phaseOf a = pool.phaseOf a := by
  have hlt := (List.getElem?_eq_some_iff.mp hk).1
  by_cases ha : a ∈ pool.counted.2
  · rw [Pool.phaseOf, hcounted, List.idxOf_append_of_mem ha, hphase,
      Function.update_of_ne (idxOf_ne_of_ne hk hne), Pool.phaseOf]
  · have hplace : pool.counted.2.length ≤ pool'.counted.2.idxOf a := by
      rw [hcounted, List.idxOf_append_of_notMem ha]
      exact Nat.le_add_right _ _
    rw [Pool.phaseOf, hphase, Function.update_of_ne (by omega), hidle _ hplace, Pool.phaseOf,
      List.idxOf_eq_length_iff.mpr ha, hidle _ (Nat.le_refl _)]

theorem phaseOf_release (h : Tasks graph plan pool) (hk : pool.counted.2[k]? = some c)
    (next : Nat) (phase : Phase) :
    Pool.phaseOf { pool with
      counted := Lib.release pool.counted next
      phase := Function.update pool.phase k phase } c = phase := by
  obtain ⟨more, hmore⟩ : ∃ more, (Lib.release pool.counted next).2 = pool.counted.2 ++ more :=
    Lib.foldl_release_append [next] pool.counted
  show Function.update pool.phase k phase ((Lib.release pool.counted next).2.idxOf c) = phase
  rw [hmore, List.idxOf_append_of_mem (List.mem_of_getElem? hk), h.idxOf_eq hk,
    Function.update_self]

include hgraph hplan in
/-- **A release**: the successor is counted down, and dispatched at zero. -/
theorem Tasks.release (h : Tasks graph plan pool) (hk : pool.counted.2[k]? = some c)
    {next : Nat} {left : List Nat} (hold : pool.phase k = .releasing (next :: left)) :
    Tasks graph plan { pool with
      counted := Lib.release pool.counted next
      phase := Function.update pool.phase k (.releasing left) } := by
  have hcandidate : CandidateCluster plan c :=
    h.candidate_of_dispatched (List.mem_of_getElem? hk)
  have htask := h.at_place hk
  rw [hold] at htask
  obtain ⟨⟨done, hsplit⟩, hnumbered, hacted⟩ := htask
  have hlinks := links_plan hgraph hplan
  have hnodup : (next :: left).Nodup := by
    have hall := hlinks.nodup_succs c hcandidate
    rw [hsplit] at hall
    exact (List.nodup_append.mp hall).2.1
  have hnext : next ∈ plan.succs graph c := hsplit ▸ List.mem_append_right _ List.mem_cons_self
  obtain ⟨hscope, hpred⟩ := hlinks.mem_succs c hcandidate next hnext
  have hfresh : (pool.phaseOf c).released next = false := by
    rw [h.phaseOf_eq hk, hold]
    simp [Phase.released]
  have hdown := h.countdown.release hscope (hlinks.nodup_preds next hscope) hpred hfresh
  obtain ⟨more, hmore⟩ : ∃ more, (Lib.release pool.counted next).2 = pool.counted.2 ++ more :=
    Lib.foldl_release_append [next] pool.counted
  have hother : ∀ a, a ≠ c → Pool.phaseOf { pool with
      counted := Lib.release pool.counted next
      phase := Function.update pool.phase k (.releasing left) } a = pool.phaseOf a := by
    intro a hne
    exact phaseOf_append h.idle hk hmore rfl hne
  have hself := phaseOf_release h hk next (.releasing left)
  refine ⟨?_, ?_, ?_⟩
  · have happend : Lib.release (pool.counted.1, pool.waiting ++ pool.counted.2) next =
        ((Lib.release pool.counted next).1,
          pool.waiting ++ (Lib.release pool.counted next).2) :=
      Lib.release_append pool.counted.1 pool.waiting pool.counted.2 next
    rw [happend] at hdown
    refine hdown.congr fun w hw p hp => ?_
    by_cases hpc : p = c
    · subst hpc
      rw [hself]
      show ((pool.phaseOf p).released w || (p == p && w == next)) = _
      rw [h.phaseOf_eq hk, hold]
      by_cases hwn : w = next
      · subst hwn
        simpa [Phase.released] using (List.nodup_cons.mp hnodup).1
      · simp [Phase.released, hwn]
    · rw [hother p hpc]
      show ((pool.phaseOf p).released w || (p == c && w == next)) = _
      simp [hpc]
  · intro j hj
    replace hj : (Lib.release pool.counted next).2.length ≤ j := hj
    have hlt := (List.getElem?_eq_some_iff.mp hk).1
    rw [hmore, List.length_append] at hj
    show Function.update pool.phase k _ j = .idle
    rw [Function.update_of_ne (by omega)]
    exact h.idle j (by omega)
  · intro a ha
    by_cases hac : a = c
    · subst hac
      rw [hself]
      exact ⟨⟨done ++ [next], by rw [hsplit]; simp⟩, hnumbered, hacted⟩
    · rw [hother a hac]
      exact (h.task a ha).same rfl rfl rfl

theorem phaseOf_submit (hidle : ∀ j, pool.counted.2.length ≤ j → pool.phase j = .idle)
    (waiting : List Nat) (a : Nat) :
    Pool.phaseOf { pool with
      waiting := waiting
      counted := (pool.counted.1, pool.counted.2 ++ [c]) } a = pool.phaseOf a := by
  show pool.phase ((pool.counted.2 ++ [c]).idxOf a) = pool.phase (pool.counted.2.idxOf a)
  by_cases ha : a ∈ pool.counted.2
  · rw [List.idxOf_append_of_mem ha]
  · rw [List.idxOf_append_of_notMem ha, List.idxOf_eq_length_iff.mpr ha,
      hidle _ (Nat.le_add_right _ _), hidle _ (Nat.le_refl _)]

/-- **A submission**: a ready cluster is dispatched, and its task is idle. -/
theorem Tasks.submit (h : Tasks graph plan pool) {waiting : List Nat}
    (hwaiting : pool.waiting = c :: waiting) :
    Tasks graph plan { pool with
      waiting := waiting
      counted := (pool.counted.1, pool.counted.2 ++ [c]) } := by
  refine ⟨?_, ?_, ?_⟩
  · have hdown := h.countdown
    rw [hwaiting] at hdown
    refine (hdown.perm ?_).congr fun w _ p _ => by rw [phaseOf_submit h.idle]
    rw [List.cons_append, ← List.append_assoc]
    exact (List.perm_append_singleton c _).symm
  · intro j hj
    replace hj : (pool.counted.2 ++ [c]).length ≤ j := hj
    rw [List.length_append] at hj
    exact h.idle j (by omega)
  · intro a ha
    rw [phaseOf_submit h.idle]
    exact (h.task a ha).same rfl rfl rfl

end

/-! ## The invariant -/

section

variable (hgraph : Executable graph) (hplan : Planned graph plan)

theorem InOrder.take (h : InOrder graph plan pool) (hk : pool.counted.2[k]? = some c)
    (hold : pool.phase k = .idle) :
    InOrder graph plan { pool with
      phase := Function.update pool.phase k (.bodies (plan.members graph c) 0) } := by
  have htask := h.toTasks.at_place hk
  rw [hold] at htask
  refine ⟨h.toTasks.move hk rfl rfl rfl (fun _ _ _ => by rw [hold]; rfl) ?_ ?_, ?_⟩
  · exact ⟨⟨[], rfl, rfl, fun _ hop => absurd hop List.not_mem_nil⟩,
      fun op hop => (htask op hop).1, fun op hop => (htask op hop).2⟩
  · exact fun a _ _ hat => hat.same rfl rfl rfl
  · exact h.toChronicle.same rfl rfl rfl rfl

theorem log_order_append {log : List Mark} {mark : Mark}
    (h : ∀ pre v post, log = pre ++ .started v :: post →
      ∀ u ∈ plan.opPreds graph v, .acted u ∈ pre)
    (hmark : ∀ v, mark = .started v → ∀ u ∈ plan.opPreds graph v, .acted u ∈ log) :
    ∀ pre v post, log ++ [mark] = pre ++ .started v :: post →
      ∀ u ∈ plan.opPreds graph v, .acted u ∈ pre := by
  intro pre v post he
  rcases List.eq_nil_or_concat post with rfl | ⟨init, last, rfl⟩
  · obtain ⟨rfl, hlast⟩ := List.append_inj' he rfl
    exact hmark v (List.cons.inj hlast).1
  · rw [List.concat_eq_append, ← List.cons_append, ← List.append_assoc] at he
    obtain ⟨rfl, -⟩ := List.append_inj' he rfl
    exact h pre v init rfl

include hgraph in
theorem mem_append_mark {mark : Nat → Mark} (hinj : ∀ u v, mark u = mark v → u = v)
    (hop : op ∈ plan.members graph c) (hac : a ≠ c) (hv : v ∈ plan.members graph a)
    {log : List Mark} : mark v ∈ log ++ [mark op] ↔ mark v ∈ log := by
  rw [List.mem_append, List.mem_singleton, or_iff_left]
  intro he
  exact members_disjoint hgraph hac hv (hinj v op he ▸ hop)

section

variable (h : InOrder graph plan pool)
include h

include hgraph hplan in
theorem InOrder.acted_preds (hc : c ∈ pool.counted.2)
    {done left : List Nat} (hsplit : plan.members graph c = done ++ op :: left)
    (hdone : ∀ op ∈ done, .acted op ∈ pool.log) (hu : u ∈ plan.opPreds graph op) :
    .acted u ∈ pool.log := by
  have hop : op ∈ plan.members graph c := hsplit ▸ by simp
  rcases h.toTasks.preds_done hgraph hplan hc hop hu with ⟨hmem, hlt⟩ | ⟨hacted, -⟩
  · have hascending : Ascending (plan.members graph c) := ascending_planMembers hgraph c
    rw [hsplit] at hmem hascending
    rcases List.mem_append.mp hmem with hmem | hmem
    · exact hdone u hmem
    · rcases List.mem_cons.mp hmem with rfl | hmem
      · exact absurd hlt (Nat.lt_irrefl _)
      · have hafter := (List.pairwise_cons.mp (List.pairwise_append.mp hascending).2.1).1 u hmem
        omega
  · exact hacted

section

variable (hk : pool.counted.2[k]? = some c)
include hk

include hgraph hplan in
theorem InOrder.start
    {left : List Nat} {count : Nat} (hold : pool.phase k = .bodies (op :: left) count) :
    InOrder graph plan { pool with
      toRunning := (startBody graph callbacks plan.seeded pool.toRunning op).1
      phase := Function.update pool.phase k
        (.acting op (startBody graph callbacks plan.seeded pool.toRunning op).2 left count)
      log := pool.log ++ [.started op] } := by
  have hc := List.mem_of_getElem? hk
  have htask := h.toTasks.at_place hk
  rw [hold] at htask
  obtain ⟨⟨done, hsplit, hcount, hdone⟩, hleft, hnot⟩ := htask
  have hop : op ∈ plan.members graph c := hsplit ▸ by simp
  have hstarted : .started op ∉ pool.log := hleft op List.mem_cons_self
  have hnodup : op ∉ left := by
    have hascending : (plan.members graph c).Nodup := (ascending_planMembers hgraph c).nodup
    rw [hsplit] at hascending
    exact (List.nodup_cons.mp (List.nodup_append.mp hascending).2.1).1
  have hinj : ∀ u v, Mark.started u = Mark.started v → u = v := fun _ _ he => Mark.started.inj he
  refine ⟨h.toTasks.move hk rfl rfl rfl (fun _ _ _ => by rw [hold]; rfl) ?_ ?_, ?_⟩
  · refine ⟨⟨done, hsplit, hcount, fun v hv => List.mem_append_left _ (hdone v hv)⟩,
      List.mem_append_right _ List.mem_cons_self, ?_, ?_, hnot⟩
    · intro hin
      rcases List.mem_append.mp hin with hin | hin
      · exact hstarted (h.started op hin)
      · cases List.mem_singleton.mp hin
    · intro v hv hin
      rcases List.mem_append.mp hin with hin | hin
      · exact hleft v (List.mem_cons_of_mem _ hv) hin
      · exact hnodup (hinj v op (List.mem_singleton.mp hin) ▸ hv)
  · intro a _ hac hat
    refine hat.frame (fun v hv => ⟨mem_append_mark hgraph hinj hop hac hv, ?_⟩)
      ⟨[], (List.append_nil _).symm, fun _ _ => List.not_mem_nil⟩ fun _ _ => by
        rw [startBody_completion]
    simp
  · refine ⟨?_, ?_, ?_, ?_, h.claimed_nodup, h.claimed_order, h.claimed_candidate, h.sequence_eq,
      ?_, ?_⟩
    · exact List.nodup_append.mpr ⟨h.log_nodup, List.nodup_singleton _, fun x hx y hy hxy =>
        hstarted (List.mem_singleton.mp hy ▸ hxy ▸ hx)⟩
    · refine log_order_append h.log_order fun v hv u hu => ?_
      obtain rfl := Mark.started.inj hv
      exact h.acted_preds hgraph hplan hc hsplit hdone hu
    · intro v hv
      rcases List.mem_append.mp hv with hv | hv
      · exact List.mem_append_left _ (h.started v hv)
      · cases List.mem_singleton.mp hv
    · intro v hv
      rcases List.mem_append.mp hv with hv | hv
      · exact h.candidate v hv
      · obtain rfl := Mark.started.inj (List.mem_singleton.mp hv)
        exact candidate_of_mem_members hop
    · rw [startBody_completion]
      exact h.completion_length
    · rw [startBody_completion]
      exact h.completion_other

include hgraph in
theorem InOrder.act {needed : Bool} {left : List Nat} {count : Nat}
    (hold : pool.phase k = .acting op needed left count) :
    InOrder graph plan { pool with
      toRunning := finishBody callbacks pool.toRunning op needed
      phase := Function.update pool.phase k (.bodies left (count + 1))
      log := pool.log ++ [.acted op] } := by
  have htask := h.toTasks.at_place hk
  rw [hold] at htask
  obtain ⟨⟨done, hsplit, hcount, hdone⟩, hstarted, hacted, hleft, hnot⟩ := htask
  have hop : op ∈ plan.members graph c := hsplit ▸ by simp
  have hinj : ∀ u v, Mark.acted u = Mark.acted v → u = v := fun _ _ he => Mark.acted.inj he
  refine ⟨h.toTasks.move hk rfl rfl rfl (fun _ _ _ => by rw [hold]; rfl) ?_ ?_, ?_⟩
  · refine ⟨⟨done ++ [op], by rw [hsplit]; simp, by simp [hcount], ?_⟩, ?_, hnot⟩
    · intro v hv
      rcases List.mem_append.mp hv with hv | hv
      · exact List.mem_append_left _ (hdone v hv)
      · rw [List.mem_singleton.mp hv]
        exact List.mem_append_right _ List.mem_cons_self
    · intro v hv hin
      rcases List.mem_append.mp hin with hin | hin
      · exact hleft v hv hin
      · cases List.mem_singleton.mp hin
  · intro a _ hac hat
    refine hat.frame (fun v hv => ⟨?_, mem_append_mark hgraph hinj hop hac hv⟩)
      ⟨[], (List.append_nil _).symm, fun _ _ => List.not_mem_nil⟩ fun _ _ => by
        rw [finishBody_completion]
    simp
  · refine ⟨?_, ?_, ?_, ?_, h.claimed_nodup, h.claimed_order, h.claimed_candidate, h.sequence_eq,
      ?_, ?_⟩
    · exact List.nodup_append.mpr ⟨h.log_nodup, List.nodup_singleton _, fun x hx y hy hxy =>
        hacted (List.mem_singleton.mp hy ▸ hxy ▸ hx)⟩
    · exact log_order_append h.log_order fun v hv => by cases hv
    · intro v hv
      rcases List.mem_append.mp hv with hv | hv
      · exact List.mem_append_left _ (h.started v hv)
      · obtain rfl := Mark.acted.inj (List.mem_singleton.mp hv)
        exact List.mem_append_left _ hstarted
    · intro v hv
      rcases List.mem_append.mp hv with hv | hv
      · exact h.candidate v hv
      · cases List.mem_singleton.mp hv
    · rw [finishBody_completion]
      exact h.completion_length
    · rw [finishBody_completion]
      exact h.completion_other

include hgraph hplan in
theorem InOrder.claim {count : Nat} (hold : pool.phase k = .bodies [] count) :
    InOrder graph plan { pool with
      sequence := pool.sequence + count
      phase := Function.update pool.phase k (.numbering (plan.members graph c) pool.sequence)
      claimed := pool.claimed ++ plan.members graph c } := by
  have hc := List.mem_of_getElem? hk
  have htask := h.toTasks.at_place hk
  rw [hold] at htask
  obtain ⟨⟨done, hsplit, hcount, hdone⟩, -, hnot⟩ := htask
  rw [List.append_nil] at hsplit
  have hascending : Ascending (plan.members graph c) := ascending_planMembers hgraph c
  refine ⟨h.toTasks.move hk rfl rfl rfl (fun _ _ _ => by rw [hold]; rfl) ?_ ?_, ?_⟩
  · refine ⟨⟨pool.claimed, [], [], rfl, (List.append_nil _).symm, ?_, ?_⟩, ?_⟩
    · rw [h.sequence_eq]
      rfl
    · exact fun _ hop => absurd hop List.not_mem_nil
    · intro op hop
      exact hdone op (hsplit ▸ hop)
  · intro a _ hac hat
    refine hat.frame (fun _ _ => ⟨Iff.rfl, Iff.rfl⟩) ⟨_, rfl, ?_⟩ fun _ _ => rfl
    intro op hop
    exact members_disjoint hgraph hac hop
  · refine ⟨h.log_nodup, h.log_order, h.started, h.candidate, ?_, ?_, ?_, ?_,
      h.completion_length, h.completion_other⟩
    · exact List.nodup_append.mpr ⟨h.claimed_nodup, hascending.nodup, fun x hx y hy hxy =>
        hnot y hy (hxy ▸ hx)⟩
    · refine h.claimed_order.append fun pre v post he p hp => ?_
      have hv : v ∈ plan.members graph c := he ▸ by simp
      rcases h.toTasks.preds_done hgraph hplan hc hv hp with ⟨hmem, hlt⟩ | ⟨-, hclaimed⟩
      · refine List.mem_append_right _ ?_
        rw [he] at hmem hascending
        rcases List.mem_append.mp hmem with hmem | hmem
        · exact hmem
        · rcases List.mem_cons.mp hmem with rfl | hmem
          · exact absurd hlt (Nat.lt_irrefl _)
          · have := (List.pairwise_cons.mp (List.pairwise_append.mp hascending).2.1).1 p hmem
            omega
      · exact List.mem_append_left _ hclaimed
    · intro op hop
      rcases List.mem_append.mp hop with hop | hop
      · exact h.claimed_candidate op hop
      · exact candidate_of_mem_members hop
    · show pool.sequence + count = (pool.claimed ++ plan.members graph c).length
      rw [List.length_append, h.sequence_eq, hcount, hsplit]

include hgraph hplan in
theorem InOrder.number
    {left : List Nat} {before : Nat} (hold : pool.phase k = .numbering (op :: left) before) :
    InOrder graph plan { pool with
      completion := pool.completion.set op (before + 1)
      phase := Function.update pool.phase k (.numbering left (before + 1)) } := by
  have htask := h.toTasks.at_place hk
  rw [hold] at htask
  obtain ⟨⟨pre, done, post, hsplit, hclaimed, hbefore, hdone⟩, hacted⟩ := htask
  have hop : op ∈ plan.members graph c := hsplit ▸ by simp
  have hcandidate : flagAt plan.candidates op = true := candidate_of_mem_members hop
  have hplace : pool.claimed = (pre ++ done) ++ op :: (left ++ post) := by
    rw [hclaimed, hsplit]
    simp
  have hnodup := h.claimed_nodup
  rw [hplace, List.nodup_middle, List.nodup_cons, List.mem_append] at hnodup
  have hidx : pool.claimed.idxOf op = before := by
    rw [hplace, List.idxOf_append_of_notMem fun hin => hnodup.1 (.inl hin), List.idxOf_cons_self,
      Nat.add_zero, List.length_append, hbefore]
  have hlt : op < pool.completion.length := by
    rw [h.completion_length]
    exact hplan.candidate_lt hcandidate
  refine ⟨h.toTasks.move hk rfl rfl rfl (fun _ _ _ => by rw [hold]; rfl) ?_ ?_, ?_⟩
  · refine ⟨⟨pre, done ++ [op], post, by rw [hsplit]; simp, hclaimed, ?_, ?_⟩, hacted⟩
    · rw [hbefore, List.length_append]
      rfl
    · intro v hv
      show (pool.completion.set op (before + 1))[v]? = some (pool.claimed.idxOf v + 1)
      rcases List.mem_append.mp hv with hv | hv
      · have hne : op ≠ v := fun he => hnodup.1 (.inl (List.mem_append_right pre (he ▸ hv)))
        rw [List.getElem?_set_ne hne]
        exact hdone v hv
      · rw [List.mem_singleton.mp hv, List.getElem?_set_self hlt, hidx]
  · intro a _ hac hat
    refine hat.frame (fun _ _ => ⟨Iff.rfl, Iff.rfl⟩)
      ⟨[], (List.append_nil _).symm, fun _ _ => List.not_mem_nil⟩ fun v hv => ?_
    refine List.getElem?_set_ne ?_
    rintro rfl
    exact members_disjoint hgraph hac hv hop
  · refine ⟨h.log_nodup, h.log_order, h.started, h.candidate, h.claimed_nodup, h.claimed_order,
      h.claimed_candidate, h.sequence_eq, List.length_set.trans h.completion_length, ?_⟩
    intro v hv
    have hne : op ≠ v := by
      rintro rfl
      rw [hcandidate] at hv
      cases hv
    show (pool.completion.set op (before + 1))[v]?.getD 0 = 0
    rw [List.getElem?_set_ne hne]
    exact h.completion_other v hv

include hgraph hplan in
theorem InOrder.opens {before : Nat} (hold : pool.phase k = .numbering [] before) :
    InOrder graph plan { pool with
      phase := Function.update pool.phase k (.releasing (plan.succs graph c)) } := by
  have hcandidate := h.candidate_of_dispatched (List.mem_of_getElem? hk)
  have htask := h.toTasks.at_place hk
  rw [hold] at htask
  obtain ⟨⟨pre, done, post, hsplit, hclaimed, -, hdone⟩, hacted⟩ := htask
  rw [List.append_nil] at hsplit
  refine ⟨h.toTasks.move hk rfl rfl rfl (fun b hb hpred => ?_) ⟨⟨[], rfl⟩, ?_, hacted⟩
    (fun a _ _ hat => hat.same rfl rfl rfl),
    h.toChronicle.same rfl rfl rfl rfl⟩
  · have hsucc := ((links_plan hgraph hplan).mem_preds b hb c hpred).2
    rw [hold]
    simpa [Phase.released] using hsucc
  · intro op hop
    refine ⟨?_, hdone op (hsplit ▸ hop)⟩
    show op ∈ pool.claimed
    rw [hclaimed]
    simp [hop]

theorem InOrder.finish (hold : pool.phase k = .releasing []) :
    InOrder graph plan { pool with phase := Function.update pool.phase k .finished } := by
  have htask := h.toTasks.at_place hk
  rw [hold] at htask
  exact ⟨h.toTasks.move hk rfl rfl rfl (fun _ _ _ => by rw [hold]; rfl) ⟨htask.2.1, htask.2.2⟩
    (fun a _ _ hat => hat.same rfl rfl rfl),
    h.toChronicle.same rfl rfl rfl rfl⟩

include hgraph hplan in
theorem InOrder.advance
    (hstep : Advances graph callbacks plan pool k c pool') : InOrder graph plan pool' := by
  cases hstep with
  | start hphase => exact h.start hgraph hplan hk hphase
  | act hphase => exact h.act hgraph hk hphase
  | claim hphase => exact h.claim hgraph hplan hk hphase
  | number hphase => exact h.number hgraph hplan hk hphase
  | opens hphase => exact h.opens hgraph hplan hk hphase
  | release hphase =>
      exact ⟨h.toTasks.release hgraph hplan hk hphase, h.toChronicle.same rfl rfl rfl rfl⟩
  | finish hphase => exact h.finish hk hphase

end

include hgraph hplan in
/-- **The step lemma.** -/
theorem inOrder_step {event : PoolEvent}
    (hstep : poolStep graph callbacks plan pool event = some pool') : InOrder graph plan pool' := by
  cases happens_of_poolStep hstep with
  | submit hwaiting =>
      exact ⟨h.toTasks.submit hwaiting, h.toChronicle.same rfl rfl rfl rfl⟩
  | take hk hold => exact h.take hk hold
  | advance hk hstep => exact h.advance hgraph hplan hk hstep
  | join _ _ =>
      exact ⟨⟨h.countdown, h.idle, h.task⟩, h.toChronicle.same rfl rfl rfl rfl⟩

include hgraph hplan in
/-- **The run lemma.** -/
theorem inOrder_run {events : List PoolEvent}
    (hrun : Lib.run (poolStep graph callbacks plan) pool events = some pool') :
    InOrder graph plan pool' :=
  Lib.run_preserves (fun _ _ _ hs hstep => inOrder_step hgraph hplan hs hstep) h hrun

end

end

end RigExec.OpGraph
