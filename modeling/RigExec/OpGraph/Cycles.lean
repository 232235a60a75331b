/-
# `RigExec.OpGraph.Cycles` — the loops that are reported, and what is left out

`Loop` searches one strong component from its member with the least key and stops at
the first edge back to the stack (`loopFrom_closedWalk`): the stack is a path, so
what lies above that vertex, with the edge, is a closed walk.  It does stop: a vertex
that is closed has only closed successors in the component and so lies on no cycle,
and the first member searched lies on one.

`cycleHandling` is about whole compilations, in terms of `Depends` alone: which
descriptors are left out, in what order the others come, what is reported, and when
a rejecting compilation fails.
-/
import Mathlib.Data.List.Chain
import RigExec.OpGraph.Clusters

namespace RigExec.OpGraph

open Lib (sortUnique Ascending OrderOf Mutual)

/-! ## The loop search -/

/-- A walk that ends where it started. -/
structure ClosedWalk (edge : Nat → Nat → Prop) (walk : List Nat) : Prop where
  chain : walk.IsChain edge
  closed : walk.head? = walk.getLast?
  length : 2 ≤ walk.length

/-- The edges of every stack entry: still to be followed, out of the component, to a closed vertex,
or to the entry above. -/
def Scanned (members : List Nat) (edges : Nat → List Nat) (state : Nat → Colour) :
    Option Nat → List (Nat × List Nat) → Prop
  | _, [] => True
  | above, entry :: stack =>
      (∀ v ∈ edges entry.1, v ∈ entry.2 ∨ v ∉ members ∨ state v = .closed ∨ above = some v) ∧
        Scanned members edges state (some entry.1) stack

/-- The invariant of the loop search. -/
structure Looping (members : List Nat) (edges : Nat → List Nat) (state : Nat → Colour)
    (position : Nat → Int) (stack : List (Nat × List Nat)) : Prop where
  open_iff : ∀ v, state v = .open_ ↔ v ∈ stack.map Prod.fst
  member : ∀ v ∈ stack.map Prod.fst, v ∈ members
  left : ∀ entry ∈ stack, ∀ v ∈ entry.2, v ∈ edges entry.1
  path : (stack.map Prod.fst).IsChain fun upper lower => upper ∈ edges lower
  /-- A vertex's position is its place from the bottom. -/
  place : ∀ i v, (stack.map Prod.fst).reverse[i]? = some v → position v = (i : Nat)
  scanned : Scanned members edges state none stack
  closed : ∀ v, state v = .closed → ¬ Cyclic edges v
  /-- The search has come to a vertex on a cycle. -/
  started : ∃ v, Cyclic edges v ∧ state v ≠ .unseen

section

variable {members : List Nat} {edges : Nat → List Nat} {state : Nat → Colour}
  {position : Nat → Int} {stack : List (Nat × List Nat)} {above : Option Nat} {u v : Nat}

theorem Scanned.mono {state' : Nat → Colour} (h : Scanned members edges state above stack)
    (hstate : ∀ v, state v = .closed → state' v = .closed) :
    Scanned members edges state' above stack := by
  induction stack generalizing above with
  | nil => trivial
  | cons entry stack ih =>
      refine ⟨fun v hv => ?_, ih h.2⟩
      exact (h.1 v hv).imp_right fun h => h.imp_right fun h => h.imp_left (hstate v)

theorem Scanned.close {top : Nat} (h : Scanned members edges state (some top) stack)
    (htop : state top = .closed) : Scanned members edges state above stack := by
  cases stack with
  | nil => trivial
  | cons entry stack =>
      refine ⟨fun v hv => ?_, h.2⟩
      rcases h.1 v hv with h | h | h | h
      · exact .inl h
      · exact .inr (.inl h)
      · exact .inr (.inr (.inl h))
      · cases h
        exact .inr (.inr (.inl htop))

theorem Looping.not_cyclic (hcomponent : CyclicComponent edges members)
    (h : Looping members edges state position ((u, []) :: stack)) : ¬ Cyclic edges u := by
  intro hcycle
  obtain ⟨w, hedge, hback⟩ := Relation.TransGen.head'_iff.mp hcycle
  have hsame : Mutual edges u w := ⟨Relation.ReflTransGen.single hedge, hback⟩
  have hu : u ∈ members := h.member u List.mem_cons_self
  rcases h.scanned.1 w hedge with hw | hw | hw | hw
  · cases hw
  · exact hw ((hcomponent.mem_iff u hu w).mpr hsame)
  · exact h.closed w hw (hcycle.congr hsame)
  · cases hw

theorem Looping.pop (hcomponent : CyclicComponent edges members)
    (h : Looping members edges state position ((u, []) :: stack)) :
    Looping members edges (Function.update state u .closed) (Function.update position u (-1))
      stack := by
  have hu : u ∉ stack.map Prod.fst := by
    intro hin
    obtain ⟨i, hi⟩ := List.mem_iff_getElem?.mp (List.mem_reverse.mpr hin)
    have hlt := (List.getElem?_eq_some_iff.mp hi).1
    have hrev : (((u, ([] : List Nat)) :: stack).map Prod.fst).reverse =
        (stack.map Prod.fst).reverse ++ [u] := by simp
    have hbelow := h.place i u (by rw [hrev, List.getElem?_append_left hlt, hi])
    have htop := h.place (stack.map Prod.fst).reverse.length u (by rw [hrev]; simp)
    omega
  refine {
    open_iff := fun v => ?_
    member := fun v hv => h.member v (List.mem_cons_of_mem u hv)
    left := fun entry hentry => h.left entry (List.mem_cons_of_mem _ hentry)
    path := h.path.tail
    place := fun i v hv => ?_
    scanned := ?_
    closed := fun v hv => ?_
    started := ?_ }
  · by_cases he : v = u
    · subst he
      simp [hu]
    · rw [Function.update_of_ne he, h.open_iff]
      simp [he]
  · have hvu : v ≠ u := by
      rintro rfl
      exact hu (List.mem_reverse.mp (List.mem_of_getElem? hv))
    rw [Function.update_of_ne hvu]
    refine h.place i v ?_
    rw [List.map_cons, List.reverse_cons, List.getElem?_append_left
      (List.getElem?_eq_some_iff.mp hv).1, hv]
  · refine (h.scanned.2.mono fun v hv => ?_).close (Function.update_self ..)
    by_cases he : v = u
    · subst he
      exact Function.update_self ..
    · rwa [Function.update_of_ne he]
  · by_cases he : v = u
    · exact he ▸ h.not_cyclic hcomponent
    · exact h.closed v (by rwa [Function.update_of_ne he] at hv)
  · obtain ⟨v, hcycle, hstate⟩ := h.started
    refine ⟨v, hcycle, ?_⟩
    by_cases he : v = u
    · subst he
      simp
    · rwa [Function.update_of_ne he]

theorem Looping.pass {rest : List Nat}
    (h : Looping members edges state position ((u, v :: rest) :: stack))
    (hv : v ∉ members ∨ state v = .closed) :
    Looping members edges state position ((u, rest) :: stack) := by
  refine {
    open_iff := h.open_iff
    member := h.member
    left := fun entry hentry w hw => ?_
    path := h.path
    place := h.place
    scanned := ⟨fun w hw => ?_, h.scanned.2⟩
    closed := h.closed
    started := h.started }
  · rcases List.mem_cons.mp hentry with rfl | hentry
    · exact h.left (u, v :: rest) List.mem_cons_self w (List.mem_cons_of_mem v hw)
    · exact h.left entry (List.mem_cons_of_mem _ hentry) w hw
  · rcases h.scanned.1 w hw with hin | hin
    · rcases List.mem_cons.mp hin with rfl | hin
      · exact .inr (hv.imp_right .inl)
      · exact .inl hin
    · exact .inr hin

theorem Looping.push {rest : List Nat}
    (h : Looping members edges state position ((u, v :: rest) :: stack)) (hv : v ∈ members)
    (hstate : state v = .unseen) :
    Looping members edges (Function.update state v .open_)
      (Function.update position v (((u, rest) :: stack).length : Nat))
      ((v, edges v) :: (u, rest) :: stack) := by
  have hnew : v ∉ u :: stack.map Prod.fst := by
    intro hin
    cases hstate.symm.trans ((h.open_iff v).mpr hin)
  have hedge : v ∈ edges u := h.left (u, v :: rest) List.mem_cons_self v List.mem_cons_self
  refine {
    open_iff := fun w => ?_
    member := fun w hw => ?_
    left := fun entry hentry w hw => ?_
    path := List.IsChain.cons_cons hedge h.path
    place := fun i w hw => ?_
    scanned := ⟨fun w hw => .inl hw, fun w hw => ?_, ?_⟩
    closed := fun w hw => ?_
    started := ?_ }
  · by_cases he : w = v
    · subst he
      simp
    · rw [Function.update_of_ne he, h.open_iff]
      simp [he]
  · rcases List.mem_cons.mp hw with rfl | hw
    · exact hv
    · exact h.member w hw
  · rcases List.mem_cons.mp hentry with rfl | hentry
    · exact hw
    · rcases List.mem_cons.mp hentry with rfl | hentry
      · exact h.left (u, v :: rest) List.mem_cons_self w (List.mem_cons_of_mem v hw)
      · exact h.left entry (List.mem_cons_of_mem _ hentry) w hw
  · simp only [List.map_cons, List.reverse_cons] at hw
    by_cases hi : i < ((stack.map Prod.fst).reverse ++ [u]).length
    · rw [List.getElem?_append_left hi] at hw
      have hwv : w ≠ v := by
        rintro rfl
        refine hnew (List.mem_reverse.mp ?_)
        rw [List.reverse_cons]
        exact List.mem_of_getElem? hw
      rw [Function.update_of_ne hwv]
      exact h.place i w (by simpa using hw)
    · have hlt := (List.getElem?_eq_some_iff.mp hw).1
      simp only [List.length_append, List.length_singleton, List.length_reverse,
        List.length_map] at hi hlt
      have hi' : i = ((stack.map Prod.fst).reverse ++ [u]).length := by
        simp only [List.length_append, List.length_singleton, List.length_reverse, List.length_map]
        omega
      rw [hi', List.getElem?_concat_length, Option.some.injEq] at hw
      subst hw
      rw [Function.update_self, hi']
      simp
  · rcases h.scanned.1 w hw with hin | hin | hin | hin
    · rcases List.mem_cons.mp hin with rfl | hin
      · exact .inr (.inr (.inr rfl))
      · exact .inl hin
    · exact .inr (.inl hin)
    · refine .inr (.inr (.inl ?_))
      rwa [Function.update_of_ne]
      rintro rfl
      cases hstate.symm.trans hin
    · cases hin
  · refine h.scanned.2.mono fun w hw => ?_
    rwa [Function.update_of_ne]
    rintro rfl
    cases hstate.symm.trans hw
  · refine h.closed w ?_
    by_cases he : w = v
    · subst he
      simp at hw
    · rwa [Function.update_of_ne he] at hw
  · obtain ⟨w, hcycle, hw⟩ := h.started
    refine ⟨w, hcycle, ?_⟩
    by_cases he : w = v
    · subst he
      simp
    · rwa [Function.update_of_ne he]

theorem Looping.back {rest : List Nat}
    (h : Looping members edges state position ((u, v :: rest) :: stack))
    (hstate : state v = .open_) :
    ClosedWalk (fun a b => b ∈ edges a)
        (((((u, rest) :: stack).reverse.drop (position v).toNat).map Prod.fst) ++ [v]) ∧
      ∀ w ∈ ((((u, rest) :: stack).reverse.drop (position v).toNat).map Prod.fst) ++ [v],
        w ∈ members := by
  have hedge : v ∈ edges u := h.left (u, v :: rest) List.mem_cons_self v List.mem_cons_self
  have hin : v ∈ u :: stack.map Prod.fst := (h.open_iff v).mp hstate
  obtain ⟨i, hi⟩ := List.mem_iff_getElem?.mp (List.mem_reverse.mpr hin)
  have hplace := h.place i v hi
  have hlt := (List.getElem?_eq_some_iff.mp hi).1
  -- the stack from its bottom on is a path that ends at `u`
  have hmap : ((((u, rest) :: stack).reverse.drop (position v).toNat).map Prod.fst) =
      (u :: stack.map Prod.fst).reverse.drop i := by
    rw [hplace, Int.toNat_natCast, List.map_drop, List.map_reverse, List.map_cons]
  have hpath : (u :: stack.map Prod.fst).reverse.IsChain fun a b => b ∈ edges a :=
    List.isChain_reverse.mpr h.path
  have hlast : ((u :: stack.map Prod.fst).reverse.drop i).getLast? = some u := by
    rw [List.getLast?_drop, if_neg (Nat.not_le.mpr hlt), List.getLast?_reverse, List.head?_cons]
  have hhead : ((u :: stack.map Prod.fst).reverse.drop i).head? = some v := by
    rw [List.head?_drop, hi]
  rw [hmap]
  refine ⟨⟨?_, ?_, ?_⟩, fun w hw => ?_⟩
  · refine List.isChain_append.mpr ⟨hpath.drop i, List.IsChain.singleton v, fun a ha b hb => ?_⟩
    rw [hlast] at ha
    cases ha
    cases hb
    exact hedge
  · rw [List.head?_append, hhead, List.getLast?_concat]
    rfl
  · rw [List.length_append, List.length_drop, List.length_singleton]
    omega
  · refine h.member w ?_
    rcases List.mem_append.mp hw with hw | hw
    · exact List.mem_reverse.mp (List.mem_of_mem_drop hw)
    · exact List.mem_singleton.mp hw ▸ hin

/-- **The loop search ends with a closed walk in the component.** -/
theorem loopFrom_closedWalk (hcomponent : CyclicComponent edges members)
    (h : Looping members edges state position stack) :
    ClosedWalk (fun a b => b ∈ edges a) (loopFrom members edges state position stack) ∧
      ∀ w ∈ loopFrom members edges state position stack, w ∈ members := by
  induction state, position, stack using loopFrom.induct members edges with
  | case1 state position =>
      obtain ⟨v, hcycle, hstate⟩ := h.started
      cases hv : state v with
      | unseen => exact absurd hv hstate
      | open_ => cases (h.open_iff v).mp hv
      | closed => exact absurd hcycle (h.closed v hv)
  | case2 state position top stack ih =>
      rw [loopFrom]
      exact ih (h.pop hcomponent)
  | case3 state position top next rest stack hmem ih =>
      rw [loopFrom, dif_pos hmem]
      exact ih (h.pass (.inl hmem))
  | case4 state position top next rest stack hmem hstate =>
      rw [loopFrom, dif_neg hmem]
      split
      · exact h.back hstate
      · rename_i hunseen
        cases hstate.symm.trans hunseen
      · rename_i hclosed
        cases hstate.symm.trans hclosed
  | case5 state position top next rest stack hmem hstate ih =>
      rw [loopFrom, dif_neg hmem]
      split
      · rename_i hopen
        cases hstate.symm.trans hopen
      · exact ih (h.push (not_not.mp hmem) hstate)
      · rename_i hclosed
        cases hstate.symm.trans hclosed
  | case6 state position top next rest stack hmem hstate ih =>
      rw [loopFrom, dif_neg hmem]
      split
      · rename_i hopen
        cases hstate.symm.trans hopen
      · rename_i hunseen
        cases hstate.symm.trans hunseen
      · exact ih (h.pass (.inr hstate))

end

/-! ## What is reported of a component -/

section

variable {succs next : Nat → List Nat} {component : List Nat}

theorem CyclicComponent.congr (h : CyclicComponent succs component)
    (hnext : ∀ u v, v ∈ next u ↔ v ∈ succs u) : CyclicComponent next component := by
  have hsame : (fun u w => w ∈ next u) = fun u w => w ∈ succs u := by
    funext u w
    exact propext (hnext u w)
  have hreach : Lib.Reach next = Lib.Reach succs := by
    unfold Lib.Reach
    rw [hsame]
  refine ⟨h.nodup, h.nonempty, fun v hv u => ?_, fun v hv => ?_⟩
  · rw [h.mem_iff v hv u, Mutual, Mutual, hreach]
  · have := h.cyclic v hv
    rw [Cyclic] at this ⊢
    rwa [hsame]

/-- **The reported loop of a component** is a closed walk along its edges. -/
theorem loop_closedWalk (descriptors : List OpDescriptor)
    (h : CyclicComponent succs component) :
    ∃ walk, loop descriptors succs component = walk.map (keyOf descriptors) ∧
      ClosedWalk (fun a b => b ∈ succs a) walk ∧ ∀ w ∈ walk, w ∈ component := by
  unfold loop
  dsimp only
  split
  · rename_i hnil
    have hlength := congrArg List.length hnil
    rw [sortByKey, List.length_insertionSort, List.length_nil] at hlength
    exact absurd (List.eq_nil_of_length_eq_zero hlength) h.nonempty
  · rename_i start rest hstart
    have hmem : start ∈ component := by
      have : start ∈ sortByKey (keyOf descriptors) component := hstart ▸ List.mem_cons_self
      exact (List.mem_insertionSort _).mp this
    generalize hedges : (fun v => if component.contains v then
      sortByKey (keyOf descriptors) (succs v) else succs v) = edges
    have hiff : ∀ u v, v ∈ edges u ↔ v ∈ succs u := by
      intro u v
      rw [← hedges]
      dsimp only
      split
      · exact List.mem_insertionSort _
      · exact Iff.rfl
    have hcomponent := h.congr hiff
    have hstarted : Looping component edges (Function.update (fun _ => .unseen) start .open_)
        (Function.update (fun _ => -1) start 0) [(start, edges start)] := by
      refine {
        open_iff := fun v => ?_
        member := fun v hv => List.mem_singleton.mp hv ▸ hmem
        left := fun entry hentry v hv => by
          rw [List.mem_singleton.mp hentry] at hv ⊢
          exact hv
        path := List.IsChain.singleton start
        place := fun i v hv => ?_
        scanned := ⟨fun v hv => .inl hv, trivial⟩
        closed := fun v hv => ?_
        started := ⟨start, hcomponent.cyclic start hmem, by simp⟩ }
      · by_cases he : v = start
        · subst he
          simp
        · simp [he]
      · cases i with
        | zero =>
            cases hv
            simp
        | succ i => simp at hv
      · by_cases he : v = start
        · subst he
          simp at hv
        · simp [Function.update_of_ne he] at hv
    obtain ⟨hwalk, hin⟩ := loopFrom_closedWalk hcomponent hstarted
    rw [show (if component.contains start = true then sortByKey (keyOf descriptors) (succs start)
      else succs start) = edges start from congrFun hedges start]
    refine ⟨_, rfl, ⟨hwalk.chain.imp fun a b hab => (hiff a b).mp hab, hwalk.closed, hwalk.length⟩,
      hin⟩

end

/-! ## Whole compilations -/

section

variable {descriptors : List OpDescriptor} {leaves : List ValueId} {policy : CyclePolicy}
  {retained : Option OpExclusionProof} {edges : Nat → List Nat} {graph : CompiledGraph}

theorem orderGraph_ok (hdeclared : Declared descriptors leaves)
    (hedges : Dependencies descriptors edges) :
    orderGraph descriptors retained edges policy =
      if cycleReports descriptors retained edges ≠ [] ∧ policy = .reject then
        .error (cycleMessage ((cycleReports descriptors retained edges).map
          fun report => (ofLex report).1))
      else
        .ok (singly (emitted descriptors retained edges
          (cycleReports descriptors retained edges) (orderOf descriptors retained edges))) := by
  have horder := (orderOf_spec retained hdeclared hedges).1
  have hcompiled := @compiled_emitted _ _ retained edges _
    (cycleReports descriptors retained edges) hdeclared hedges horder
  have hlength : (orderOf descriptors retained edges).length ≤ descriptors.length := by
    have hsub := List.subperm_of_subset horder.nodup
      fun v hv => List.mem_range.mpr ((horder.mem_iff v).mp hv).1
    simpa using hsub.length_le
  refine if_congr Iff.rfl rfl (lowerOpClusters_zero hcompiled.toTopology ?_)
  rw [emitGraph, List.length_map]
  exact Nat.le_trans hlength hdeclared.few


/-! ## Cycle handling -/

/-- A descriptor that depends on itself, through others or at once. -/
def OnCycle (descriptors : List OpDescriptor) (i : Nat) : Prop :=
  Relation.TransGen (Depends descriptors) i i

/-- Two descriptors of one strong component of the dependency graph. -/
def SameComponent (descriptors : List OpDescriptor) (i j : Nat) : Prop :=
  Relation.ReflTransGen (Depends descriptors) i j ∧ Relation.ReflTransGen (Depends descriptors) j i

/-- What setting cycles aside leaves and reports. -/
structure CyclesSetAside (descriptors : List OpDescriptor) (graph : CompiledGraph) : Prop where
  /-- Left out are the descriptors on cycles. -/
  kept_iff : ∀ i < descriptors.length,
    (∃ op ∈ graph.ops, op.originalIndex = i) ↔ ¬ OnCycle descriptors i
  descriptor : ∀ op ∈ graph.ops, ∃ d, descriptors[op.originalIndex]? = some d ∧
    op.descriptor = { d with predecessors := [] }
  /-- The others come once, after all the kept ones they depend on. -/
  once : (graph.ops.map CompiledOp.originalIndex).Nodup
  after : ∀ (k : Nat) (op : CompiledOp), graph.ops[k]? = some op →
    ∀ j, Depends descriptors op.originalIndex j → ¬ OnCycle descriptors j →
      ∃ (l : Nat) (other : CompiledOp), l < k ∧ graph.ops[l]? = some other ∧ other.originalIndex = j
  aligned : graph.cycles.length = graph.cycleMembers.length
  /-- A reported loop is a closed walk inside one component, reported with all its members. -/
  reported : ∀ report ∈ graph.cycles.zip graph.cycleMembers,
    ∃ i walk, OnCycle descriptors i ∧ report.1 = walk.map (keyOf descriptors) ∧
      ClosedWalk (fun a b => Depends descriptors b a) walk ∧
      (∀ w ∈ walk, SameComponent descriptors i w) ∧ Ascending report.2 ∧
      ∀ key, key ∈ report.2 ↔ ∃ j, SameComponent descriptors i j ∧ keyOf descriptors j = key
  /-- Every component with a cycle is reported. -/
  complete : ∀ i, OnCycle descriptors i → ∃ members ∈ graph.cycleMembers, keyOf descriptors i ∈ members

section

variable {i j : Nat}

section

variable (hdeclared : Declared descriptors leaves)
include hdeclared

section

variable (hedges : Dependencies descriptors edges)
include hedges

theorem mem_activeSuccs_none :
    j ∈ activeSuccs descriptors none edges i ↔ Depends descriptors j i := by
  rw [mem_activeSuccs hdeclared hedges]
  simp [retainedExcluded]

theorem swap_activeSuccs_none :
    (fun u w => w ∈ activeSuccs descriptors none edges u) =
      Function.swap (Depends descriptors) := by
  funext u w
  exact propext (mem_activeSuccs_none hdeclared hedges)

theorem cyclic_iff_onCycle :
    Cyclic (activeSuccs descriptors none edges) i ↔ OnCycle descriptors i := by
  rw [Cyclic, swap_activeSuccs_none hdeclared hedges, Relation.transGen_swap, OnCycle]

theorem mutual_iff_sameComponent :
    Mutual (activeSuccs descriptors none edges) i j ↔ SameComponent descriptors i j := by
  have hswap : ∀ a b, Lib.Reach (activeSuccs descriptors none edges) a b ↔
      Relation.ReflTransGen (Depends descriptors) b a := by
    intro a b
    rw [Lib.Reach, swap_activeSuccs_none hdeclared hedges, Relation.reflTransGen_swap]
  rw [Mutual, hswap, hswap, SameComponent, and_comm]

theorem kept_iff_not_onCycle :
    Kept descriptors none edges i ↔ i < descriptors.length ∧ ¬ OnCycle descriptors i := by
  rw [Kept, ← Bool.not_eq_true, excludedOps_iff none hdeclared hedges,
    cyclic_iff_onCycle hdeclared hedges]
  simp [retainedExcluded]

theorem foundComponents_spec {component : List Nat}
    (hin : component ∈ foundComponents descriptors none edges) :
    ∃ i, OnCycle descriptors i ∧ component.Nodup ∧
      ∀ j, j ∈ component ↔ SameComponent descriptors i j := by
  have hcomponent := cyclicComponent_of_mem (edges_active none hdeclared hedges) hin
  obtain ⟨i, hi⟩ := List.exists_mem_of_ne_nil component hcomponent.nonempty
  refine ⟨i, (cyclic_iff_onCycle hdeclared hedges).mp (hcomponent.cyclic i hi), hcomponent.nodup,
    fun j => ?_⟩
  rw [hcomponent.mem_iff i hi j, mutual_iff_sameComponent hdeclared hedges]

end

theorem SameComponent.lt (hi : OnCycle descriptors i)
    (h : SameComponent descriptors i j) : j < descriptors.length := by
  rcases Relation.ReflTransGen.cases_tail h.1 with rfl | ⟨w, -, hdep⟩
  · obtain ⟨w, -, hdep⟩ := Relation.TransGen.tail'_iff.mp hi
    exact (hdep.lt hdeclared).2
  · exact (hdep.lt hdeclared).2

/-- The sorted keys of a component ascend strictly: its keys are distinct. -/
theorem ascending_members {component : List Nat}
    (hnodup : component.Nodup) (hlt : ∀ v ∈ component, v < descriptors.length) :
    Ascending ((component.map (keyOf descriptors)).insertionSort (· ≤ ·)) := by
  have hkeys : (component.map (keyOf descriptors)).Nodup :=
    hnodup.map_on fun v hv w hw hkey =>
      keyOf_injective hdeclared.toRegistered (hlt v hv) (hlt w hw) hkey
  have hsorted := List.pairwise_insertionSort (· ≤ ·) (component.map (keyOf descriptors))
  have hnodup' := (List.perm_insertionSort (· ≤ ·) (component.map (keyOf descriptors))).nodup_iff.mpr
    hkeys
  exact (hsorted.and hnodup').imp fun hab => lt_of_le_of_ne hab.1 hab.2

end

theorem mem_cycleReports_none {report : CycleReport} :
    report ∈ cycleReports descriptors none edges ↔
      ∃ component ∈ foundComponents descriptors none edges,
        reportOf descriptors (activeSuccs descriptors none edges) component = report := by
  simp [cycleReports, retainedReports]

theorem cycleReports_none_eq_nil_iff (hdeclared : Declared descriptors leaves)
    (hedges : Dependencies descriptors edges) :
    cycleReports descriptors none edges = [] ↔ ¬ ∃ i, OnCycle descriptors i := by
  have hnil : cycleReports descriptors none edges = [] ↔
      foundComponents descriptors none edges = [] := by
    rw [List.eq_nil_iff_forall_not_mem, List.eq_nil_iff_forall_not_mem]
    simp only [mem_cycleReports_none]
    exact ⟨fun h component hin => h _ ⟨component, hin, rfl⟩,
      fun h report ⟨component, hin, _⟩ => h component hin⟩
  rw [hnil, List.eq_nil_iff_forall_not_mem]
  constructor
  · rintro h ⟨i, hi⟩
    obtain ⟨component, hin, -⟩ := (mem_components_iff (edges_active none hdeclared hedges)).mpr
      ((cyclic_iff_onCycle hdeclared hedges).mpr hi)
    exact h component hin
  · intro h component hin
    obtain ⟨i, hi, -⟩ := foundComponents_spec hdeclared hedges hin
    exact h ⟨i, hi⟩

theorem cyclesSetAside (hdeclared : Declared descriptors leaves)
    (hedges : Dependencies descriptors edges) :
    CyclesSetAside descriptors (singly (emitted descriptors none edges
      (cycleReports descriptors none edges) (orderOf descriptors none edges))) := by
  have horder := (orderOf_spec none hdeclared hedges).1
  have hops : ∀ {k : Nat} {op : CompiledOp},
      (emitted descriptors none edges (cycleReports descriptors none edges)
        (orderOf descriptors none edges)).ops[k]? = some op →
      (orderOf descriptors none edges)[k]? = some op.originalIndex ∧
        ∃ d, descriptors[op.originalIndex]? = some d ∧
          op.descriptor = { d with predecessors := [] } := by
    intro k op hop
    rw [emitted_ops, Option.map_eq_some_iff] at hop
    obtain ⟨v, hv, rfl⟩ := hop
    refine ⟨hv, ?_⟩
    have hlt := ((horder.mem_iff v).mp (List.mem_of_getElem? hv)).1
    exact ⟨descriptors[v], List.getElem?_eq_getElem hlt, by
      simp [emitOp, List.getElem?_eq_getElem hlt]⟩
  have hplace : ∀ {k v : Nat}, (orderOf descriptors none edges)[k]? = some v →
      ∃ op, (emitted descriptors none edges (cycleReports descriptors none edges)
        (orderOf descriptors none edges)).ops[k]? = some op ∧ op.originalIndex = v := by
    intro k v hv
    exact ⟨_, by rw [emitted_ops, hv, Option.map_some], rfl⟩
  refine {
    kept_iff := fun i hi => ?_
    descriptor := fun op hop => ?_
    once := ?_
    after := fun k op hop j hdep hj => ?_
    aligned := by simp [singly, emitted, emitGraph]
    reported := fun report hreport => ?_
    complete := fun i hi => ?_ }
  · have hkept := horder.mem_iff i
    rw [kept_iff_not_onCycle hdeclared hedges] at hkept
    rw [← and_iff_right hi (b := ¬ OnCycle descriptors i), ← hkept]
    constructor
    · rintro ⟨op, hop, rfl⟩
      obtain ⟨k, hk⟩ := List.mem_iff_getElem?.mp hop
      exact List.mem_of_getElem? (hops hk).1
    · intro hin
      obtain ⟨k, hk⟩ := List.mem_iff_getElem?.mp hin
      obtain ⟨op, hop, he⟩ := hplace hk
      exact ⟨op, List.mem_of_getElem? hop, he⟩
  · obtain ⟨k, hk⟩ := List.mem_iff_getElem?.mp hop
    exact (hops hk).2
  · have hmap : (singly (emitted descriptors none edges (cycleReports descriptors none edges)
        (orderOf descriptors none edges))).ops.map CompiledOp.originalIndex =
        orderOf descriptors none edges := by
      simp [singly, emitted, emitGraph, Function.comp_def, emitOp]
    rw [hmap]
    exact horder.nodup
  · obtain ⟨hk, -⟩ := hops hop
    have hkept := (horder.mem_iff _).mp (List.mem_of_getElem? hk)
    have hj' : Kept descriptors none edges j :=
      (kept_iff_not_onCycle hdeclared hedges).mpr ⟨(hdep.lt hdeclared).2, hj⟩
    obtain ⟨hin, hlt⟩ := horder.topological.idxOf_lt (List.mem_of_getElem? hk)
      ((mem_keptPreds hdeclared hedges hkept).mpr ⟨hj', hdep⟩)
    rw [(getElem?_idxOf_iff horder.nodup (List.mem_of_getElem? hk)).mp hk] at hlt
    obtain ⟨other, hother, he⟩ := hplace ((getElem?_idxOf_iff horder.nodup hin).mpr rfl)
    exact ⟨_, other, hlt, hother, he⟩
  · have hzip : (singly (emitted descriptors none edges (cycleReports descriptors none edges)
        (orderOf descriptors none edges))).cycles.zip
        (singly (emitted descriptors none edges (cycleReports descriptors none edges)
          (orderOf descriptors none edges))).cycleMembers =
        (cycleReports descriptors none edges).map fun report =>
          ((ofLex report).1, (ofLex report).2) := by
      simp only [singly, emitted, emitGraph]
      rw [List.zip_map']
    rw [hzip, List.mem_map] at hreport
    obtain ⟨_, hin, rfl⟩ := hreport
    obtain ⟨component, hfound, rfl⟩ := mem_cycleReports_none.mp hin
    obtain ⟨i, hi, hnodup, hmem⟩ := foundComponents_spec hdeclared hedges hfound
    obtain ⟨walk, hloop, hwalk, hinside⟩ := loop_closedWalk descriptors
      (cyclicComponent_of_mem (edges_active none hdeclared hedges) hfound)
    refine ⟨i, walk, hi, hloop, ⟨hwalk.chain.imp fun a b hab =>
      (mem_activeSuccs_none hdeclared hedges).mp hab, hwalk.closed, hwalk.length⟩,
      fun w hw => (hmem w).mp (hinside w hw),
      ascending_members hdeclared hnodup fun v hv => ((hmem v).mp hv).lt hdeclared hi,
      fun key => ?_⟩
    simp only [reportOf, ofLex_toLex, List.mem_insertionSort, List.mem_map, hmem]
  · obtain ⟨component, hfound, hiin⟩ := (mem_components_iff (edges_active none hdeclared hedges)).mpr
      ((cyclic_iff_onCycle hdeclared hedges).mpr hi)
    refine ⟨(component.map (keyOf descriptors)).insertionSort (· ≤ ·), ?_, ?_⟩
    · refine List.mem_map.mpr ⟨_, mem_cycleReports_none.mpr ⟨component, hfound, rfl⟩, rfl⟩
    · exact (List.mem_insertionSort _).mpr (List.mem_map_of_mem hiin)

end

/-- **Cycle handling.**  A declared list compiles with its cycles set aside; with cycles rejected it
fails, and on the cycle check, exactly when there is one; and a failure leaves the output alone. -/
theorem cycleHandling (descriptors : List OpDescriptor) (leaves : List ValueId) :
    (∀ graph, compileOpGraph descriptors leaves .setAside none = .ok graph →
      CyclesSetAside descriptors graph) ∧
    (Declared descriptors leaves →
      (∃ graph, compileOpGraph descriptors leaves .setAside none = .ok graph) ∧
      ((∃ cycles, compileOpGraph descriptors leaves .reject none = .error (cycleMessage cycles)) ↔
        ∃ i, OnCycle descriptors i) ∧
      ((∃ graph, compileOpGraph descriptors leaves .reject none = .ok graph) ↔
        ¬ ∃ i, OnCycle descriptors i)) ∧
    (∀ policy graph, compileOpGraph descriptors leaves policy none = .ok graph →
      Declared descriptors leaves) ∧
    (∀ policy retained out message,
      (compileOpGraphInto descriptors leaves policy retained out).1 = .error message →
      (compileOpGraphInto descriptors leaves policy retained out).2 = out) := by
  refine ⟨fun graph hgraph => ?_, fun hdeclared => ?_, fun policy graph hgraph =>
    (compileOpGraph_ok.mp hgraph).1, fun policy retained out message herror => ?_⟩
  · obtain ⟨hdeclared, -, edges, hedges, horder⟩ := compileOpGraph_ok.mp hgraph
    rw [orderGraph_ok hdeclared hedges, if_neg (by simp)] at horder
    cases horder
    exact cyclesSetAside hdeclared hedges
  · obtain ⟨edges, hedges, hcompile⟩ := @compileOpGraph_of_declared _ _ none hdeclared rfl
    have hcycles := cycleReports_none_eq_nil_iff hdeclared hedges
    simp only [hcompile, orderGraph_ok hdeclared hedges, and_true]
    refine ⟨⟨_, if_neg (by simp)⟩, ?_⟩
    by_cases hcycle : ∃ i, OnCycle descriptors i
    · have hreports : cycleReports descriptors none edges ≠ [] := fun hnil => hcycles.mp hnil hcycle
      simp only [if_pos hreports, hcycle, iff_true, not_true_eq_false, iff_false]
      exact ⟨⟨_, rfl⟩, fun ⟨graph, hgraph⟩ => (nomatch hgraph)⟩
    · have hreports : ¬ cycleReports descriptors none edges ≠ [] := not_not.mpr (hcycles.mpr hcycle)
      simp only [if_neg hreports, hcycle, iff_false, not_false_eq_true, iff_true]
      exact ⟨fun ⟨cycles, herror⟩ => (nomatch herror), ⟨_, rfl⟩⟩
  · unfold compileOpGraphInto at herror ⊢
    split
    · rfl
    · rename_i graph hgraph
      rw [hgraph] at herror
      cases herror

end

end RigExec.OpGraph
