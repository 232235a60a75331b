/-
# `RigExec.OpGraph.SerialRun` — one thread is one schedule

The serial loop goes through the ready clusters one after another.  The machine does the same when a
single thread takes each dispatched task in turn and ends it before the next, so what a serial
execution leaves is what some dispatched execution leaves.

    bodies_run     the bodies of a task, without others between them
    cluster_run    a whole task is `serialCluster`
    loop_run       all of them are `serialLoop`
-/
import RigExec.OpGraph.Interleavings

namespace RigExec.OpGraph

variable {σ : Type} {graph : CompiledGraph} {callbacks : OpCallbacks σ} {plan : Plan}
  {pool : Pool σ} {c k : Nat}

/-! ## One task -/

/-- Some events of the `k`th task lead from one pool to another. -/
def Alone (graph : CompiledGraph) (callbacks : OpCallbacks σ) (plan : Plan)
    (pool pool' : Pool σ) : Prop :=
  ∃ events, Lib.run (poolStep graph callbacks plan) pool events = some pool'

theorem Alone.refl (pool : Pool σ) : Alone graph callbacks plan pool pool := ⟨[], rfl⟩

theorem Alone.trans {pool pool' pool'' : Pool σ} (h : Alone graph callbacks plan pool pool')
    (h' : Alone graph callbacks plan pool' pool'') : Alone graph callbacks plan pool pool'' := by
  obtain ⟨events, hrun⟩ := h
  obtain ⟨more, hmore⟩ := h'
  exact ⟨events ++ more, by rw [Lib.run_append, hrun]; exact hmore⟩

theorem Alone.step {pool pool' : Pool σ} (event : PoolEvent)
    (h : poolStep graph callbacks plan pool event = some pool') :
    Alone graph callbacks plan pool pool' :=
  ⟨[event], by rw [Lib.run_cons, h]; rfl⟩

/-- A pool whose `k`th task stands at a phase, the others as in `base`; the log and the numbers
claimed may be any. -/
structure Stands (base : Pool σ) (k : Nat) (phase : Phase) (running : Running σ) (sequence : Nat)
    (counted : List Int × List Nat) (pool : Pool σ) : Prop where
  running : pool.toRunning = running
  sequence : pool.sequence = sequence
  counted : pool.counted = counted
  phase : pool.phase = Function.update base.phase k phase
  waiting : pool.waiting = base.waiting
  joined : pool.joined = base.joined

section

variable {base : Pool σ} {running : Running σ} {sequence : Nat} {counted : List Int × List Nat}

theorem Stands.next {phase phase' : Phase} {running' : Running σ} {sequence' : Nat}
    {counted' : List Int × List Nat} {pool' : Pool σ}
    (h : Stands base k phase running sequence counted pool) (hk : counted.2[k]? = some c)
    (hstep : Advances graph callbacks plan pool k c pool')
    (hphase : pool'.phase = Function.update pool.phase k phase')
    (hwaiting : pool'.waiting = pool.waiting) (hjoined : pool'.joined = pool.joined)
    (hrunning : pool'.toRunning = running') (hsequence : pool'.sequence = sequence')
    (hcounted : pool'.counted = counted') :
    Alone graph callbacks plan pool pool' ∧
      Stands base k phase' running' sequence' counted' pool' := by
  rw [← h.counted] at hk
  refine ⟨.step (.advance k) (by simp only [poolStep, hk, hstep.advanceTask]), hrunning, hsequence,
    hcounted, ?_, hwaiting.trans h.waiting, hjoined.trans h.joined⟩
  rw [hphase, h.phase, Function.update_idem]

theorem Stands.at {phase : Phase} (h : Stands base k phase running sequence counted pool) :
    pool.phase k = phase := by
  rw [h.phase, Function.update_self]

variable (graph callbacks plan)

/-- **The bodies of a task**, one after another. -/
theorem bodies_run {left : List Nat} {count : Nat} (hk : counted.2[k]? = some c)
    (h : Stands base k (.bodies left count) running sequence counted pool) :
    ∃ pool', Alone graph callbacks plan pool pool' ∧
      Stands base k (.bodies [] (count + left.length))
        (left.foldl (body graph callbacks plan.seeded) running) sequence counted pool' := by
  induction left generalizing pool running count with
  | nil => exact ⟨pool, .refl pool, h⟩
  | cons op left ih =>
      cases h.running
      cases h.sequence
      cases h.counted
      obtain ⟨hrun₁, h₁⟩ := h.next hk (@Advances.start _ graph callbacks plan _ _ c _ _ _ h.at)
        rfl rfl rfl rfl rfl rfl
      obtain ⟨hrun₂, h₂⟩ := h₁.next hk (@Advances.act _ graph callbacks plan _ _ c _ _ _ _ h₁.at)
        rfl rfl rfl rfl rfl rfl
      obtain ⟨pool₃, hrun₃, h₃⟩ := ih h₂
      refine ⟨pool₃, hrun₁.trans (hrun₂.trans hrun₃), ?_⟩
      rw [List.length_cons, Nat.add_comm left.length 1, ← Nat.add_assoc]
      exact h₃

theorem numbers_run {left : List Nat} {before : Nat} (hk : counted.2[k]? = some c)
    (h : Stands base k (.numbering left before) running sequence counted pool) :
    ∃ pool', Alone graph callbacks plan pool pool' ∧
      Stands base k (.numbering [] (before + left.length))
        { running with completion := complete left before running.completion } sequence counted
        pool' := by
  induction left generalizing pool running before with
  | nil => exact ⟨pool, .refl pool, h⟩
  | cons op left ih =>
      cases h.running
      cases h.sequence
      cases h.counted
      obtain ⟨hrun₁, h₁⟩ := h.next hk (@Advances.number _ graph callbacks plan _ _ c _ _ _ h.at)
        rfl rfl rfl rfl rfl rfl
      obtain ⟨pool₂, hrun₂, h₂⟩ := ih h₁
      refine ⟨pool₂, hrun₁.trans hrun₂, ?_⟩
      rw [List.length_cons, Nat.add_comm left.length 1, ← Nat.add_assoc]
      exact h₂

theorem getElem?_release (hk : counted.2[k]? = some c) (next : Nat) :
    (Lib.release counted next).2[k]? = some c := by
  obtain ⟨more, hmore⟩ : ∃ more, (Lib.release counted next).2 = counted.2 ++ more :=
    Lib.foldl_release_append [next] counted
  rw [hmore, List.getElem?_append_left (List.getElem?_eq_some_iff.mp hk).1]
  exact hk

theorem releases_run {left : List Nat} (hk : counted.2[k]? = some c)
    (h : Stands base k (.releasing left) running sequence counted pool) :
    ∃ pool', Alone graph callbacks plan pool pool' ∧
      (left.foldl Lib.release counted).2[k]? = some c ∧
      Stands base k (.releasing []) running sequence (left.foldl Lib.release counted) pool' := by
  induction left generalizing pool counted with
  | nil => exact ⟨pool, .refl pool, hk, h⟩
  | cons next left ih =>
      cases h.running
      cases h.sequence
      cases h.counted
      obtain ⟨hrun₁, h₁⟩ := h.next hk (@Advances.release _ graph callbacks plan _ _ c _ _ h.at)
        rfl rfl rfl rfl rfl rfl
      obtain ⟨pool₂, hrun₂, h₂⟩ := ih (getElem?_release hk next) h₁
      exact ⟨pool₂, hrun₁.trans hrun₂, h₂⟩

/-- **A whole task is one cluster of the serial loop.** -/
theorem cluster_run {serial : Serial σ} (hk : serial.counted.2[k]? = some c)
    (h : Stands base k .idle serial.toRunning serial.finished serial.counted pool) :
    ∃ pool', Alone graph callbacks plan pool pool' ∧
      Stands base k .finished (serialCluster graph callbacks plan serial c).toRunning
        (serialCluster graph callbacks plan serial c).finished
        (serialCluster graph callbacks plan serial c).counted pool' := by
  have htake : Alone graph callbacks plan pool { pool with
      phase := Function.update pool.phase k (.bodies (plan.members graph c) 0) } :=
    .step (.take k) (by simp only [poolStep, h.counted, hk, h.at])
  have hbodies : Stands base k (.bodies (plan.members graph c) 0) serial.toRunning serial.finished
      serial.counted { pool with
        phase := Function.update pool.phase k (.bodies (plan.members graph c) 0) } :=
    ⟨h.running, h.sequence, h.counted, by rw [h.phase, Function.update_idem], h.waiting, h.joined⟩
  obtain ⟨pool₁, hrun₁, h₁⟩ := bodies_run graph callbacks plan hk hbodies
  obtain ⟨hrun₂, h₂⟩ := h₁.next hk (@Advances.claim _ graph callbacks plan _ _ c _ h₁.at)
    rfl rfl rfl h₁.running rfl h₁.counted
  simp only [h₁.sequence, Nat.zero_add] at hrun₂ h₂
  obtain ⟨pool₃, hrun₃, h₃⟩ := numbers_run graph callbacks plan hk h₂
  obtain ⟨hrun₄, h₄⟩ := h₃.next hk (@Advances.opens _ graph callbacks plan _ _ c _ h₃.at)
    rfl rfl rfl h₃.running h₃.sequence h₃.counted
  obtain ⟨pool₅, hrun₅, hk₅, h₅⟩ := releases_run graph callbacks plan hk h₄
  obtain ⟨hrun₆, h₆⟩ := h₅.next hk₅ (@Advances.finish _ graph callbacks plan _ _ c h₅.at)
    rfl rfl rfl h₅.running h₅.sequence h₅.counted
  exact ⟨_, htake.trans (hrun₁.trans (hrun₂.trans (hrun₃.trans (hrun₄.trans (hrun₅.trans hrun₆))))),
    h₆⟩

end

/-! ## All tasks -/

section

variable (graph : CompiledGraph) (callbacks : OpCallbacks σ) (plan : Plan)

/-- The tasks before `head` are over, and no other has been taken. -/
structure Turn (head : Nat) (serial : Serial σ) (pool : Pool σ) : Prop where
  running : pool.toRunning = serial.toRunning
  sequence : pool.sequence = serial.finished
  counted : pool.counted = serial.counted
  before : ∀ j, j < head → pool.phase j = .finished
  after : ∀ j, head ≤ j → pool.phase j = .idle
  waiting : pool.waiting = []
  joined : pool.joined = false

/-- **One task after another is the serial loop.** -/
theorem loop_run {serial : Serial σ} {head : Nat} (hhead : head ≤ serial.counted.2.length)
    (h : Turn head serial pool) :
    ∃ pool', Alone graph callbacks plan pool pool' ∧
      Turn (serialLoop graph callbacks plan serial head).counted.2.length
        (serialLoop graph callbacks plan serial head) pool' := by
  induction serial, head using serialLoop.induct graph callbacks plan generalizing pool with
  | case1 serial head hlt ih =>
      rw [serialLoop, dif_pos hlt]
      have hstands : Stands pool head .idle serial.toRunning serial.finished serial.counted pool := by
        refine ⟨h.running, h.sequence, h.counted, ?_, rfl, rfl⟩
        rw [← h.after head (Nat.le_refl _), Function.update_eq_self]
      obtain ⟨pool', hrun, hpool⟩ := cluster_run graph callbacks plan
        (List.getElem?_eq_getElem hlt) hstands
      have hgrown : head + 1 ≤ (serialCluster graph callbacks plan serial
          serial.counted.2[head]).counted.2.length := by
        obtain ⟨more, hmore⟩ := Lib.foldl_release_append
          (plan.succs graph serial.counted.2[head]) serial.counted
        have hlength : (serialCluster graph callbacks plan serial
            serial.counted.2[head]).counted.2 = serial.counted.2 ++ more := hmore
        rw [hlength, List.length_append]
        omega
      have hnext : Turn (head + 1) (serialCluster graph callbacks plan serial
          serial.counted.2[head]) pool' := by
        refine ⟨hpool.running, hpool.sequence, hpool.counted, fun j hj => ?_, fun j hj => ?_,
          hpool.waiting.trans h.waiting, hpool.joined.trans h.joined⟩
        · rw [hpool.phase]
          rcases Nat.lt_succ_iff_lt_or_eq.mp hj with hj | rfl
          · rw [Function.update_of_ne (by omega)]
            exact h.before j hj
          · rw [Function.update_self]
        · rw [hpool.phase, Function.update_of_ne (by omega)]
          exact h.after j (by omega)
      obtain ⟨pool'', hrun', hpool'⟩ := ih hgrown hnext
      exact ⟨pool'', hrun.trans hrun', hpool'⟩
  | case2 serial head hlt =>
      rw [serialLoop, dif_neg hlt]
      obtain rfl : head = serial.counted.2.length := by omega
      exact ⟨pool, .refl pool, h⟩

theorem submits_run {waiting : List Nat} (hwaiting : pool.waiting = waiting) :
    Alone graph callbacks plan pool
      { pool with
        waiting := []
        counted := (pool.counted.1, pool.counted.2 ++ waiting) } := by
  induction waiting generalizing pool with
  | nil =>
      rw [List.append_nil, ← hwaiting]
      exact .refl pool
  | cons c waiting ih =>
      have hstep : Alone graph callbacks plan pool { pool with
          waiting := waiting
          counted := (pool.counted.1, pool.counted.2 ++ [c]) } :=
        .step .submit (by simp only [poolStep, hwaiting])
      have hrest := hstep.trans (@ih { pool with
          waiting := waiting
          counted := (pool.counted.1, pool.counted.2 ++ [c]) } rfl)
      rw [List.append_assoc] at hrest
      exact hrest

end

/-! ## A whole execution -/

/-- The serial loop before its first cluster. -/
def Prepared.serial (prepared : Prepared σ) : Serial σ :=
  { prepared.running with
    finished := 0
    counted := prepared.counted }

/-- **One thread is one schedule.**  What `RigExecExecuteOpGraph` leaves on one thread, some run of
its dispatched clusters leaves up to the join, but for the list of clusters that were ready. -/
theorem executeSerial_dispatched (graph : CompiledGraph) (callbacks : OpCallbacks σ)
    (request : OpRequest) (memory : σ) (out : OpExecution) (workspace : OpWorkspace) :
    ∃ executed, ExecutesDispatched graph callbacks request memory out workspace executed ∧
      ∃ ready, executeSerial graph callbacks request memory out workspace =
        { executed with workspace := { executed.workspace with ready := ready } } := by
  unfold executeSerial
  cases hprepare : prepare graph callbacks request memory out workspace with
  | error refused => exact ⟨refused, .refused hprepare, refused.workspace.ready, rfl⟩
  | ok prepared =>
      have hsubmits : Alone graph callbacks prepared.plan prepared.pool { prepared.pool with
          waiting := []
          counted := prepared.counted } := submits_run graph callbacks prepared.plan rfl
      have hstart : Turn 0 prepared.serial
          { prepared.pool with waiting := [], counted := prepared.counted } :=
        ⟨rfl, rfl, rfl, fun j hj => absurd hj (Nat.not_lt_zero j), fun _ _ => rfl, rfl, rfl⟩
      obtain ⟨pool, hrun, hpool⟩ := loop_run graph callbacks prepared.plan (Nat.zero_le _) hstart
      have hdrained : pool.drained = true := by
        rw [Pool.drained, hpool.waiting, hpool.counted]
        refine List.all_eq_true.mpr fun j hj => ?_
        rw [hpool.before j (List.mem_range.mp hj)]
        rfl
      have hjoin : Alone graph callbacks prepared.plan pool { pool with joined := true } :=
        .step .join (by simp only [poolStep, hpool.joined, hdrained]; rfl)
      obtain ⟨events, hevents⟩ := hsubmits.trans (hrun.trans hjoin)
      refine ⟨_, .joined hprepare hevents rfl, pool.counted.2, ?_⟩
      show finish graph prepared
          (serialLoop graph callbacks prepared.plan prepared.serial 0).toRunning
          (serialLoop graph callbacks prepared.plan prepared.serial 0).counted = _
      rw [← hpool.running, ← hpool.counted]
      rfl

end RigExec.OpGraph
