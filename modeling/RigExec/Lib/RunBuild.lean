/-
# `RigExec.Lib.RunBuild` — building a tree over runs with a stack of leaves

A build keeps a table of nodes, an order of the items and a stack of leaves that wait.  A
turn takes a leaf off the stack and gives it its box.  It then leaves it as it is, or puts
the items of its run in another order, splits it, and puts both halves on the stack.

    shape      the child and the count of a node
    good       `good node t`: the box of the node holds item `t`
    Building   what every turn keeps, whatever order and cut it picks
    RunsOver   the finished tables

The cut and the reordering are arbitrary, so a median split and a cost split are both turns.
-/
import RigExec.Lib.RunTree

namespace Lib

section

variable {N : Type} {shape : N → RunNode}

theorem map_set_shape {nodes : List N} {i : Nat} {node node' : N} (h : nodes[i]? = some node)
    (hshape : shape node' = shape node) : (nodes.set i node').map shape = nodes.map shape := by
  refine List.ext_getElem? fun j => ?_
  rw [List.getElem?_map, List.getElem?_map]
  rcases eq_or_ne i j with rfl | hne
  · rw [List.getElem?_set_self (List.getElem?_eq_some_iff.mp h).1, h, Option.map_some,
      Option.map_some, hshape]
  · rw [List.getElem?_set_ne hne]

theorem getElem?_map_shape {nodes : List N} {i : Nat} {node : N} (h : nodes[i]? = some node) :
    (nodes.map shape)[i]? = some (shape node) := by
  rw [List.getElem?_map, h, Option.map_some]

theorem getElem?_of_map_shape {nodes : List N} {i : Nat} {run : RunNode}
    (h : (nodes.map shape)[i]? = some run) : ∃ node, nodes[i]? = some node ∧ shape node = run := by
  rw [List.getElem?_map, Option.map_eq_some_iff] at h
  exact h

theorem map_splice_shape {nodes : List N} {i first count cut : Nat} {inner left right : N}
    (hinner : shape inner = ⟨nodes.length, 0⟩) (hleft : shape left = ⟨first, cut⟩)
    (hright : shape right = ⟨first + cut, count - cut⟩) :
    (splice nodes i inner left right).map shape =
      splitLeaf (nodes.map shape) i first count cut := by
  rw [map_splice, hinner, hleft, hright, splitLeaf, List.length_map]

end

/-- What every turn keeps of the tables over `n` items. -/
structure Building {N : Type} (shape : N → RunNode) (good : N → Nat → Prop)
    (leafSize n weight : Nat) (nodes : List N) (order stack : List Nat) : Prop where
  tiles : Tiles (nodes.map shape) n
  perm : order.Perm (List.range n)
  weighs : Weighs (nodes.map shape) stack weight
  small : nodes.length + 2 * weight ≤ 4 * n
  /-- The nodes on the stack are still leaves. -/
  pending : ∀ i ∈ stack, ∃ node, nodes[i]? = some node ∧ 0 < (shape node).count
  nodup : stack.Nodup
  box : ∀ i node first count, nodes[i]? = some node → i ∉ stack →
    HasRun (nodes.map shape) i first count → ∀ t ∈ runItems order first count, good node t
  leaf : ∀ i node, nodes[i]? = some node → i ∉ stack → (shape node).count ≤ leafSize

/-- Finished tables over `n` items. -/
structure RunsOver {N : Type} (shape : N → RunNode) (good : N → Nat → Prop) (leafSize n : Nat)
    (nodes : List N) (order : List Nat) : Prop where
  tiles : Tiles (nodes.map shape) n
  perm : order.Perm (List.range n)
  box : ∀ i node first count, nodes[i]? = some node → HasRun (nodes.map shape) i first count →
    ∀ t ∈ runItems order first count, good node t
  leaf : ∀ node ∈ nodes, (shape node).count ≤ leafSize

section

variable {N : Type} {shape : N → RunNode} {good : N → Nat → Prop} {leafSize n weight : Nat}
  {nodes : List N} {order stack : List Nat}

theorem Building.length_order (h : Building shape good leafSize n weight nodes order stack) :
    order.length = n := by
  rw [h.perm.length_eq, List.length_range]

theorem building_start {root : N} (hroot : shape root = ⟨0, n⟩) (hn : 0 < n) :
    Building shape good leafSize n (2 * n - 1) [root] (List.range n) [0] := by
  have hshape : [root].map shape = [⟨0, n⟩] := by
    rw [List.map_singleton, hroot]
  refine {
    tiles := hshape ▸ tiles_single hn
    perm := List.Perm.refl _
    weighs := hshape ▸ Weighs.root ((tiles_single hn).root hn)
    small := by rw [List.length_singleton]; omega
    pending := fun i hi => ?_
    nodup := List.pairwise_singleton _ 0
    box := fun i node first count hnode hout _ => ?_
    leaf := fun i node hnode hout => ?_ }
  · cases List.mem_singleton.mp hi
    exact ⟨root, rfl, by rw [hroot]; exact hn⟩
  · have hlt := (List.getElem?_eq_some_iff.mp hnode).1
    exact absurd (List.mem_singleton.mpr (Nat.lt_one_iff.mp hlt)) hout
  · have hlt := (List.getElem?_eq_some_iff.mp hnode).1
    exact absurd (List.mem_singleton.mpr (Nat.lt_one_iff.mp hlt)) hout

/-- **A turn that keeps the leaf.** -/
theorem Building.keepLeaf {index : Nat} {node box : N}
    (h : Building shape good leafSize n weight nodes order (index :: stack))
    (hnode : nodes[index]? = some node) (hpos : 0 < (shape node).count)
    (hshape : shape box = shape node)
    (hbox : ∀ t ∈ runItems order (shape node).child (shape node).count, good box t)
    (hleaf : (shape node).count ≤ leafSize) :
    ∃ lighter < weight,
      Building shape good leafSize n lighter (nodes.set index box) order stack := by
  have hshapes := map_set_shape hnode hshape
  obtain ⟨lighter, hlt, hweighs⟩ := h.weighs.tail
  obtain ⟨hindex, hnodup⟩ := List.nodup_cons.mp h.nodup
  have hne : ∀ i ∈ stack, index ≠ i := by
    rintro i hi rfl
    exact hindex hi
  have hself : (nodes.set index box)[index]? = some box :=
    List.getElem?_set_self (List.getElem?_eq_some_iff.mp hnode).1
  refine ⟨lighter, hlt, {
    tiles := hshapes ▸ h.tiles
    perm := h.perm
    weighs := hshapes ▸ hweighs
    small := by
      rw [List.length_set]
      exact le_trans (by omega) h.small
    pending := fun i hi => ?_
    nodup := hnodup
    box := fun i node' first count hi hout hrun => ?_
    leaf := fun i node' hi hout => ?_ }⟩
  · obtain ⟨node', hnode', hcount'⟩ := h.pending i (List.mem_cons_of_mem _ hi)
    exact ⟨node', (List.getElem?_set_ne (hne i hi)).trans hnode', hcount'⟩
  · rw [hshapes] at hrun
    rcases eq_or_ne i index with rfl | hi'
    · cases hself.symm.trans hi
      obtain ⟨rfl, rfl⟩ := hrun.of_leaf (getElem?_map_shape hnode) hpos
      exact hbox
    · rw [List.getElem?_set_ne (Ne.symm hi')] at hi
      exact h.box i node' first count hi (List.not_mem_cons_of_ne_of_not_mem hi' hout) hrun
  · rcases eq_or_ne i index with rfl | hi'
    · cases hself.symm.trans hi
      rw [hshape]
      exact hleaf
    · rw [List.getElem?_set_ne (Ne.symm hi')] at hi
      exact h.leaf i node' hi (List.not_mem_cons_of_ne_of_not_mem hi' hout)

theorem off_stack_of_splice {index : Nat} {inner left right : N}
    (hlt : index < nodes.length) {i : Nat} {node : N}
    (hi : (splice nodes index inner left right)[i]? = some node) (hleft : i ≠ nodes.length)
    (hright : i ≠ nodes.length + 1) (hout : i ∉ stack) :
    i = index ∧ node = inner ∨ i ≠ index ∧ nodes[i]? = some node ∧ i ∉ index :: stack := by
  rcases splice_cases hlt hi with ⟨hne, hold⟩ | ⟨heq, hinner⟩ | ⟨heq, -⟩ | ⟨heq, -⟩
  · exact Or.inr ⟨hne, hold, List.not_mem_cons_of_ne_of_not_mem hne hout⟩
  · exact Or.inl ⟨heq, hinner⟩
  · exact absurd heq hleft
  · exact absurd heq hright

/-- **A turn that splits the leaf**, with either half on top of the stack. -/
theorem Building.split {index cut : Nat} {node inner left right : N} {run top : List Nat}
    (h : Building shape good leafSize n weight nodes order (index :: stack))
    (hnode : nodes[index]? = some node) (hinner : shape inner = ⟨nodes.length, 0⟩)
    (hbox : ∀ t ∈ runItems order (shape node).child (shape node).count, good inner t)
    (hperm : run.Perm (runItems order (shape node).child (shape node).count))
    (hcut : 0 < cut) (hless : cut < (shape node).count)
    (hleft : shape left = ⟨(shape node).child, cut⟩)
    (hright : shape right = ⟨(shape node).child + cut, (shape node).count - cut⟩)
    (htop : top = [nodes.length, nodes.length + 1] ∨ top = [nodes.length + 1, nodes.length]) :
    ∃ lighter < weight, Building shape good leafSize n lighter
      (splice nodes index inner left right)
      (reorder order (shape node).child (shape node).count run) (top ++ stack) := by
  have hindex : (nodes.map shape)[index]? = some (shape node) := getElem?_map_shape hnode
  have hlt : index < nodes.length := (List.getElem?_eq_some_iff.mp hnode).1
  have hshapes : (splice nodes index inner left right).map shape =
      splitLeaf (nodes.map shape) index (shape node).child (shape node).count cut :=
    map_splice_shape hinner hleft hright
  obtain ⟨hnotin, hnodup⟩ := List.nodup_cons.mp h.nodup
  have hpending : ∀ i ∈ stack, i < nodes.length ∧ i ≠ index := by
    intro i hi
    obtain ⟨node', hnode', -⟩ := h.pending i (List.mem_cons_of_mem _ hi)
    exact ⟨(List.getElem?_eq_some_iff.mp hnode').1, fun heq => hnotin (heq ▸ hi)⟩
  have hmem : ∀ i, i ∈ top ++ stack ↔ i = nodes.length ∨ i = nodes.length + 1 ∨ i ∈ stack := by
    intro i
    rcases htop with rfl | rfl
    · simp only [List.cons_append, List.nil_append, List.mem_cons]
    · simp only [List.cons_append, List.nil_append, List.mem_cons]
      exact or_left_comm
  have hoff : ∀ {i node'}, (splice nodes index inner left right)[i]? = some node' →
      i ∉ top ++ stack →
      i = index ∧ node' = inner ∨ i ≠ index ∧ nodes[i]? = some node' ∧ i ∉ index :: stack := by
    intro i node' hi hout
    rw [hmem, not_or, not_or] at hout
    exact off_stack_of_splice hlt hi hout.1 hout.2.1 hout.2.2
  obtain ⟨lighter, hlighter, hweighs⟩ : ∃ lighter, lighter < weight ∧
      Weighs (splitLeaf (nodes.map shape) index (shape node).child (shape node).count cut)
        (top ++ stack) lighter := by
    obtain ⟨lighter, hlighter, hboth⟩ := (h.weighs.splitLeaf hindex hcut hless).children
      (splice_self (by rw [List.length_map]; exact hlt)) rfl
    rw [List.length_map] at hboth
    refine ⟨lighter, hlighter, ?_⟩
    rcases htop with rfl | rfl
    · exact hboth.1
    · exact hboth.2
  refine ⟨lighter, hlighter, {
    tiles := hshapes ▸ h.tiles.splitLeaf hindex hcut hless
    perm := (reorder_perm hperm).trans h.perm
    weighs := hshapes ▸ hweighs
    small := ?_
    pending := fun i hi => ?_
    nodup := ?_
    box := fun i node' first count hi hout hrun t ht => ?_
    leaf := fun i node' hi hout => ?_ }⟩
  · have := h.small
    rw [length_splice]
    omega
  · rcases (hmem i).mp hi with rfl | rfl | hi
    · exact ⟨left, splice_left .., by rw [hleft]; exact hcut⟩
    · exact ⟨right, splice_right .., by rw [hright]; exact Nat.sub_pos_of_lt hless⟩
    · obtain ⟨node', hnode', hcount'⟩ := h.pending i (List.mem_cons_of_mem _ hi)
      obtain ⟨hbelow, hne⟩ := hpending i hi
      exact ⟨node', (splice_of_ne hbelow hne).trans hnode', hcount'⟩
  · have hnew : ∀ i ∈ stack, i ≠ nodes.length ∧ i ≠ nodes.length + 1 := by
      intro i hi
      have := (hpending i hi).1
      exact ⟨by omega, by omega⟩
    refine List.nodup_append.mpr ⟨?_, hnodup, ?_⟩
    · rcases htop with rfl | rfl <;> simp
    · rintro i hi j hj rfl
      rcases htop with rfl | rfl
      · rcases List.mem_pair.mp hi with rfl | rfl
        · exact (hnew _ hj).1 rfl
        · exact (hnew _ hj).2 rfl
      · rcases List.mem_pair.mp hi with rfl | rfl
        · exact (hnew _ hj).2 rfl
        · exact (hnew _ hj).1 rfl
  · have hbelow : i < nodes.length := by
      rcases hoff hi hout with ⟨rfl, -⟩ | ⟨-, hold, -⟩
      · exact hlt
      · exact (List.getElem?_eq_some_iff.mp hold).1
    rw [hshapes, h.tiles.hasRun_splitLeaf hindex hcut hless
      (by rw [List.length_map]; exact hbelow)] at hrun
    have hpos : 0 < (shape node).count := by omega
    have hle : (shape node).child + (shape node).count ≤ order.length := by
      rw [h.length_order]
      exact h.tiles.run_le (HasRun.leaf hindex hpos)
    have hin := (runItems_reorder hle hperm (h.tiles.laminar hindex hpos hrun)).mem_iff.mp ht
    rcases hoff hi hout with ⟨rfl, rfl⟩ | ⟨-, hold, hout'⟩
    · obtain ⟨rfl, rfl⟩ := hrun.of_leaf hindex hpos
      exact hbox t hin
    · exact h.box i node' first count hold hout' hrun t hin
  · rcases hoff hi hout with ⟨-, rfl⟩ | ⟨-, hold, hout'⟩
    · rw [hinner]
      exact Nat.zero_le _
    · exact h.leaf i node' hold hout'

theorem Building.finish (h : Building shape good leafSize n weight nodes order []) :
    RunsOver shape good leafSize n nodes order where
  tiles := h.tiles
  perm := h.perm
  box i node first count hnode hrun := h.box i node first count hnode List.not_mem_nil hrun
  leaf node hnode := by
    obtain ⟨i, hi⟩ := List.mem_iff_getElem?.mp hnode
    exact h.leaf i node hi List.not_mem_nil

theorem runsOver_empty : RunsOver shape good leafSize 0 [] [] where
  tiles := ⟨fun h => absurd h (lt_irrefl 0), fun i hi => absurd hi (Nat.not_lt_zero i),
    fun p hp => absurd hp (Nat.not_lt_zero p)⟩
  perm := List.Perm.refl _
  box _ _ _ _ h := nomatch h
  leaf _ h := nomatch h

end

/-! ## Finished tables -/

section

variable {N : Type} {shape : N → RunNode} {good : N → Nat → Prop} {leafSize n : Nat}
  {nodes : List N} {order : List Nat}

section

variable (h : RunsOver shape good leafSize n nodes order)
include h

theorem RunsOver.length_order :
    order.length = n := by
  rw [h.perm.length_eq, List.length_range]

theorem RunsOver.lt_of_mem {first count t : Nat} (ht : t ∈ runItems order first count) : t < n := by
  have hin : t ∈ order := List.mem_of_mem_drop (List.mem_of_mem_take ht)
  exact List.mem_range.mp (h.perm.mem_iff.mp hin)

theorem RunsOver.mem_root {t : Nat} (ht : t < n) :
    t ∈ runItems order 0 n := by
  rw [← h.length_order, runItems_self]
  exact h.perm.mem_iff.mpr (List.mem_range.mpr ht)

theorem RunsOver.eq_nil_iff :
    nodes = [] ↔ n = 0 := by
  constructor
  · rintro rfl
    by_contra hn
    exact absurd (h.tiles.root (Nat.pos_of_ne_zero hn)).lt_length (Nat.not_lt_zero 0)
  · rintro rfl
    by_contra hne
    obtain ⟨first, count, hrun, hle⟩ := h.tiles.within 0
      (by rw [List.length_map]; exact List.length_pos_iff.mpr hne)
    have := hrun.pos
    omega

/-- The tree alone: the same nodes with any boxes that fit. -/
theorem RunsOver.rebox {good' : N → Nat → Prop}
    {nodes' : List N} (hshape : nodes'.map shape = nodes.map shape)
    (hbox : ∀ i node first count, nodes'[i]? = some node → HasRun (nodes.map shape) i first count →
      ∀ t ∈ runItems order first count, good' node t) :
    RunsOver shape good' leafSize n nodes' order where
  tiles := hshape ▸ h.tiles
  perm := h.perm
  box i node first count hnode hrun := hbox i node first count hnode (hshape ▸ hrun)
  leaf node hnode := by
    obtain ⟨i, hi⟩ := List.mem_iff_getElem?.mp hnode
    have hi' : (nodes'.map shape)[i]? = some (shape node) := getElem?_map_shape hi
    rw [hshape] at hi'
    obtain ⟨old, hold, heq⟩ := getElem?_of_map_shape hi'
    rw [← heq]
    exact h.leaf old (List.mem_of_getElem? hold)

end

end

end Lib
