/-
# `RigExec.Lib.RunTree` — binary trees over the runs of an order, kept in a table

A tree over `n` items is a table of nodes beside an order of the items.  A node with a
positive count is a leaf and stands for that many items of the order from `child` on; any
other node is an interior one, and its children lie at `child` and `child + 1`.

    HasRun      the run of the order a node stands for
    Tiles       the nodes' runs lie in the order, and the leaves' runs tile it
    splitLeaf   a leaf becomes an interior node over two new leaves
    reorder     the items of one run are put in another order

A tree is built by splitting leaves, each time after reordering the items of the leaf.
Neither changes which items any other run holds (`HasRun.splitLeaf`, `runItems_reorder`):
a leaf's run lies inside another node's run or apart from it (`Tiles.laminar`).
-/
import Mathlib.Data.List.Basic
import Mathlib.Data.List.TakeWhile
import Mathlib.Logic.ExistsUnique
import Mathlib.Tactic.Ring

namespace Lib

/-- A node: a leaf with its run, or an interior node with its first child. -/
structure RunNode where
  child : Nat
  count : Nat
deriving DecidableEq

/-- Node `i` stands for the run of `count` items from `first` on. -/
inductive HasRun (nodes : List RunNode) : Nat → Nat → Nat → Prop
  | leaf {i : Nat} {node : RunNode} : nodes[i]? = some node → 0 < node.count →
      HasRun nodes i node.child node.count
  | interior {i first left right : Nat} {node : RunNode} : nodes[i]? = some node →
      node.count = 0 → i < node.child → HasRun nodes node.child first left →
      HasRun nodes (node.child + 1) (first + left) right → HasRun nodes i first (left + right)

/-- Leaf `i` holds the item at position `p`. -/
def LeafAt (nodes : List RunNode) (i p : Nat) : Prop :=
  ∃ node, nodes[i]? = some node ∧ node.child ≤ p ∧ p < node.child + node.count

section

variable {nodes : List RunNode} {i first count : Nat}

section

variable (h : HasRun nodes i first count)
include h

theorem HasRun.pos : 0 < count := by
  induction h with
  | leaf _ hcount => exact hcount
  | interior _ _ _ _ _ ihl _ => omega

theorem HasRun.get : ∃ node, nodes[i]? = some node := by
  cases h with
  | leaf hnode _ => exact ⟨_, hnode⟩
  | interior hnode _ _ _ _ => exact ⟨_, hnode⟩

theorem HasRun.lt_length : i < nodes.length := by
  obtain ⟨node, hnode⟩ := h.get
  exact (List.getElem?_eq_some_iff.mp hnode).1

theorem HasRun.unique {first' count' : Nat}
    (h' : HasRun nodes i first' count') : first = first' ∧ count = count' := by
  induction h generalizing first' count' with
  | leaf hnode hcount =>
      cases h' with
      | leaf hnode' _ =>
          cases hnode.symm.trans hnode'
          exact ⟨rfl, rfl⟩
      | interior hnode' hzero _ _ _ =>
          cases hnode.symm.trans hnode'
          omega
  | interior hnode hzero _ _ _ ihl ihr =>
      cases h' with
      | leaf hnode' hcount =>
          cases hnode.symm.trans hnode'
          omega
      | interior hnode' _ _ hl hr =>
          cases hnode.symm.trans hnode'
          obtain ⟨rfl, rfl⟩ := ihl hl
          obtain ⟨-, rfl⟩ := ihr hr
          exact ⟨rfl, rfl⟩

theorem HasRun.of_leaf {node : RunNode} (hnode : nodes[i]? = some node) (hcount : 0 < node.count) :
    node.child = first ∧ node.count = count :=
  (HasRun.leaf hnode hcount).unique h

theorem HasRun.children {node : RunNode} (hnode : nodes[i]? = some node) (hcount : node.count = 0) :
    i < node.child ∧ ∃ left right, HasRun nodes node.child first left ∧
      HasRun nodes (node.child + 1) (first + left) right ∧ count = left + right := by
  cases h with
  | leaf hnode' hpos =>
      cases hnode.symm.trans hnode'
      omega
  | interior hnode' _ hlt hl hr =>
      cases hnode.symm.trans hnode'
      exact ⟨hlt, _, _, hl, hr, rfl⟩

end

end

/-! ## Splitting a leaf -/

/-- Entry `i` is replaced, and two entries are appended. -/
def splice {A : Type} (nodes : List A) (i : Nat) (inner left right : A) : List A :=
  nodes.set i inner ++ [left, right]

section

variable {A : Type} {nodes : List A} {i : Nat} {inner left right : A}

@[simp] theorem length_splice : (splice nodes i inner left right).length = nodes.length + 2 := by
  simp only [splice, List.length_append, List.length_set, List.length_cons, List.length_nil]

theorem splice_of_ne {j : Nat} (hlt : j < nodes.length) (hne : j ≠ i) :
    (splice nodes i inner left right)[j]? = nodes[j]? := by
  rw [splice, List.getElem?_append_left (by rw [List.length_set]; exact hlt),
    List.getElem?_set_ne (Ne.symm hne)]

theorem splice_self (hlt : i < nodes.length) :
    (splice nodes i inner left right)[i]? = some inner := by
  rw [splice, List.getElem?_append_left (by rw [List.length_set]; exact hlt),
    List.getElem?_set_self hlt]

theorem splice_left (nodes : List A) (i : Nat) (inner left right : A) :
    (splice nodes i inner left right)[nodes.length]? = some left := by
  rw [splice, List.getElem?_append_right (by rw [List.length_set]), List.length_set,
    Nat.sub_self]
  rfl

theorem splice_right (nodes : List A) (i : Nat) (inner left right : A) :
    (splice nodes i inner left right)[nodes.length + 1]? = some right := by
  rw [splice, List.getElem?_append_right (by rw [List.length_set]; omega), List.length_set,
    Nat.add_sub_cancel_left]
  rfl

theorem splice_cases {j : Nat} {node : A} (hlt : i < nodes.length)
    (h : (splice nodes i inner left right)[j]? = some node) :
    j ≠ i ∧ nodes[j]? = some node ∨ j = i ∧ node = inner ∨
      j = nodes.length ∧ node = left ∨ j = nodes.length + 1 ∧ node = right := by
  have hbound := (List.getElem?_eq_some_iff.mp h).1
  rw [length_splice] at hbound
  rcases Nat.lt_or_ge j nodes.length with hj | hj
  · rcases eq_or_ne j i with rfl | hne
    · rw [splice_self hlt] at h
      exact Or.inr (Or.inl ⟨rfl, (Option.some.inj h).symm⟩)
    · rw [splice_of_ne hj hne] at h
      exact Or.inl ⟨hne, h⟩
  · rcases (show j = nodes.length ∨ j = nodes.length + 1 by omega) with rfl | rfl
    · rw [splice_left] at h
      exact Or.inr (Or.inr (Or.inl ⟨rfl, (Option.some.inj h).symm⟩))
    · rw [splice_right] at h
      exact Or.inr (Or.inr (Or.inr ⟨rfl, (Option.some.inj h).symm⟩))

theorem map_splice {B : Type} (f : A → B) :
    (splice nodes i inner left right).map f =
      splice (nodes.map f) i (f inner) (f left) (f right) := by
  rw [splice, splice, List.map_append, List.map_set]
  rfl

end

/-- Leaf `i` with its run becomes interior over two new leaves, the first of `cut` items. -/
def splitLeaf (nodes : List RunNode) (i first count cut : Nat) : List RunNode :=
  splice nodes i ⟨nodes.length, 0⟩ ⟨first, cut⟩ ⟨first + cut, count - cut⟩

section

variable {nodes : List RunNode} {i first count cut : Nat}

@[simp] theorem length_splitLeaf :
    (splitLeaf nodes i first count cut).length = nodes.length + 2 :=
  length_splice

theorem hasRun_splitLeaf_left (nodes : List RunNode) (i first count : Nat) (hcut : 0 < cut) :
    HasRun (splitLeaf nodes i first count cut) nodes.length first cut :=
  @HasRun.leaf _ _ ⟨first, cut⟩ (splice_left ..) hcut

theorem hasRun_splitLeaf_right (nodes : List RunNode) (i first : Nat) (hcount : cut < count) :
    HasRun (splitLeaf nodes i first count cut) (nodes.length + 1) (first + cut) (count - cut) :=
  @HasRun.leaf _ _ ⟨first + cut, count - cut⟩ (splice_right ..) (Nat.sub_pos_of_lt hcount)

/-- **A split keeps every run.** -/
theorem HasRun.splitLeaf (hi : nodes[i]? = some ⟨first, count⟩) (hcut : 0 < cut)
    (hcount : cut < count) {j first' count' : Nat} (h : HasRun nodes j first' count') :
    HasRun (Lib.splitLeaf nodes i first count cut) j first' count' := by
  have hlt := (List.getElem?_eq_some_iff.mp hi).1
  induction h with
  | @leaf j node hnode hpos =>
      rcases eq_or_ne j i with rfl | hne
      · cases hi.symm.trans hnode
        have hrun := HasRun.interior (splice_self hlt) rfl hlt
          (hasRun_splitLeaf_left nodes j first count hcut)
          (hasRun_splitLeaf_right nodes j first hcount)
        rwa [show cut + (count - cut) = count by omega] at hrun
      · have hj := (List.getElem?_eq_some_iff.mp hnode).1
        exact HasRun.leaf ((splice_of_ne hj hne).trans hnode) hpos
  | @interior j _ _ _ node hnode hzero hlater _ _ ihl ihr =>
      have hne : j ≠ i := by
        rintro rfl
        cases hi.symm.trans hnode
        exact absurd hzero (by dsimp only; omega)
      have hj := (List.getElem?_eq_some_iff.mp hnode).1
      exact HasRun.interior ((splice_of_ne hj hne).trans hnode) hzero hlater ihl ihr

end

/-! ## Tilings -/

/-- Every node's run lies in the order, and every position belongs to one leaf. -/
structure Tiles (nodes : List RunNode) (n : Nat) : Prop where
  root : 0 < n → HasRun nodes 0 0 n
  within : ∀ i < nodes.length, ∃ first count, HasRun nodes i first count ∧ first + count ≤ n
  leaves : ∀ p < n, ∃! i, LeafAt nodes i p

section

variable {nodes : List RunNode} {n i first count cut : Nat}

theorem tiles_single (hn : 0 < n) : Tiles [⟨0, n⟩] n := by
  have hrun : HasRun [⟨0, n⟩] 0 0 n := @HasRun.leaf [⟨0, n⟩] 0 ⟨0, n⟩ rfl hn
  refine ⟨fun _ => hrun, fun i hi => ?_, fun p hp => ?_⟩
  · cases Nat.lt_one_iff.mp hi
    exact ⟨0, n, hrun, by omega⟩
  · refine ⟨0, ⟨⟨0, n⟩, rfl, Nat.zero_le p, by dsimp only; omega⟩, ?_⟩
    rintro i ⟨node, hnode, -, -⟩
    exact Nat.lt_one_iff.mp (List.getElem?_eq_some_iff.mp hnode).1

theorem Tiles.run_le (h : Tiles nodes n) (hrun : HasRun nodes i first count) :
    first + count ≤ n := by
  obtain ⟨first', count', hrun', hle⟩ := h.within i hrun.lt_length
  obtain ⟨rfl, rfl⟩ := hrun.unique hrun'
  exact hle

theorem Tiles.leaf_unique (h : Tiles nodes n) {j p : Nat} (hp : p < n) (hi : LeafAt nodes i p)
    (hj : LeafAt nodes j p) : i = j :=
  (h.leaves p hp).unique hi hj

/-- **A split keeps the tiling.** -/
theorem Tiles.splitLeaf (h : Tiles nodes n) (hi : nodes[i]? = some ⟨first, count⟩)
    (hcut : 0 < cut) (hcount : cut < count) :
    Tiles (Lib.splitLeaf nodes i first count cut) n := by
  have hlt := (List.getElem?_eq_some_iff.mp hi).1
  have hpos : 0 < count := by omega
  have hle := h.run_le (HasRun.leaf hi hpos)
  refine ⟨fun hn => (h.root hn).splitLeaf hi hcut hcount, fun j hj => ?_, fun p hp => ?_⟩
  · rw [length_splitLeaf] at hj
    rcases Nat.lt_or_ge j nodes.length with hold | hnew
    · obtain ⟨first', count', hrun, hbound⟩ := h.within j hold
      exact ⟨first', count', hrun.splitLeaf hi hcut hcount, hbound⟩
    · rcases (show j = nodes.length ∨ j = nodes.length + 1 by omega) with rfl | rfl
      · exact ⟨first, cut, hasRun_splitLeaf_left nodes i first count hcut,
          by dsimp only at hle; omega⟩
      · exact ⟨first + cut, count - cut, hasRun_splitLeaf_right nodes i first hcount,
          by dsimp only at hle; omega⟩
  · obtain ⟨k, ⟨node, hnode, hlow, hhigh⟩, hunique⟩ := h.leaves p hp
    have hold : ∀ j node, j ≠ i → nodes[j]? = some node → node.child ≤ p →
        p < node.child + node.count → j = k := by
      intro j node _ hnode hlow hhigh
      exact hunique j ⟨node, hnode, hlow, hhigh⟩
    rcases eq_or_ne k i with rfl | hne
    · -- the position was in the leaf that is split: it is in one of the halves
      cases hi.symm.trans hnode
      dsimp only at hlow hhigh
      rcases Nat.lt_or_ge p (first + cut) with hp' | hp'
      · refine ⟨nodes.length, ⟨_, splice_left nodes k _ _ _, hlow, hp'⟩, ?_⟩
        rintro j ⟨node, hj, hlow', hhigh'⟩
        rcases splice_cases hlt hj with ⟨hjk, hj⟩ | ⟨-, rfl⟩ | ⟨rfl, -⟩ | ⟨-, rfl⟩
        · exact absurd (hold j node hjk hj hlow' hhigh') hjk
        · dsimp only at hlow' hhigh'
          omega
        · rfl
        · dsimp only at hlow'
          omega
      · refine ⟨nodes.length + 1, ⟨_, splice_right nodes k _ _ _, hp',
          by dsimp only; omega⟩, ?_⟩
        rintro j ⟨node, hj, hlow', hhigh'⟩
        rcases splice_cases hlt hj with ⟨hjk, hj⟩ | ⟨-, rfl⟩ | ⟨-, rfl⟩ | ⟨rfl, -⟩
        · exact absurd (hold j node hjk hj hlow' hhigh') hjk
        · dsimp only at hlow' hhigh'
          omega
        · dsimp only at hhigh'
          omega
        · rfl
    · have hk := (List.getElem?_eq_some_iff.mp hnode).1
      have hout : ¬ (first ≤ p ∧ p < first + count) := by
        rintro ⟨hp₁, hp₂⟩
        exact hne (hunique i ⟨_, hi, hp₁, hp₂⟩).symm
      refine ⟨k, ⟨node, (splice_of_ne hk hne).trans hnode, hlow, hhigh⟩, ?_⟩
      rintro j ⟨node', hj, hlow', hhigh'⟩
      rcases splice_cases hlt hj with ⟨hji, hj⟩ | ⟨-, rfl⟩ | ⟨-, rfl⟩ | ⟨-, rfl⟩
      · exact hold j node' hji hj hlow' hhigh'
      · dsimp only at hlow' hhigh'
        omega
      · dsimp only at hlow' hhigh'
        omega
      · dsimp only at hlow' hhigh'
        omega

theorem Tiles.hasRun_splitLeaf (h : Tiles nodes n) (hi : nodes[i]? = some ⟨first, count⟩)
    (hcut : 0 < cut) (hcount : cut < count) {j first' count' : Nat} (hj : j < nodes.length) :
    HasRun (Lib.splitLeaf nodes i first count cut) j first' count' ↔
      HasRun nodes j first' count' := by
  refine ⟨fun hrun => ?_, fun hrun => hrun.splitLeaf hi hcut hcount⟩
  obtain ⟨first'', count'', hold, -⟩ := h.within j hj
  obtain ⟨rfl, rfl⟩ := (hold.splitLeaf hi hcut hcount).unique hrun
  exact hold

/-- **A leaf's run lies inside another node's run or apart from it.** -/
theorem Tiles.laminar (h : Tiles nodes n) (hi : nodes[i]? = some ⟨first, count⟩)
    (hcount : 0 < count) {j first' count' : Nat} (hrun : HasRun nodes j first' count') :
    (first' ≤ first ∧ first + count ≤ first' + count') ∨ first + count ≤ first' ∨
      first' + count' ≤ first := by
  induction hrun with
  | @leaf j node hnode hpos =>
      rcases eq_or_ne j i with rfl | hne
      · cases hi.symm.trans hnode
        exact Or.inl ⟨le_rfl, le_rfl⟩
      · refine Or.inr ?_
        by_contra hover
        have hle := h.run_le (HasRun.leaf hnode hpos)
        have hle' := h.run_le (HasRun.leaf hi hcount)
        have hp : max first node.child < n := by omega
        refine hne (h.leaf_unique hp ⟨node, hnode, ?_, ?_⟩ ⟨_, hi, ?_, ?_⟩)
        all_goals dsimp only at *; omega
  | interior _ _ _ hl hr ihl ihr =>
      have := hl.pos
      have := hr.pos
      omega

end

/-! ## The items of a run -/

section

variable {A : Type}

def runItems (order : List A) (first count : Nat) : List A :=
  (order.drop first).take count

theorem runItems_append (order : List A) (first left right : Nat) :
    runItems order first (left + right) =
      runItems order first left ++ runItems order (first + left) right := by
  rw [runItems, List.take_add, List.drop_drop]
  rfl

theorem getElem?_runItems (order : List A) (first count k : Nat) :
    (runItems order first count)[k]? = if k < count then order[first + k]? else none := by
  rw [runItems, List.getElem?_take]
  split
  · rw [List.getElem?_drop]
  · rfl

theorem runItems_self (order : List A) : runItems order 0 order.length = order := by
  rw [runItems, List.drop_zero, List.take_length]

theorem foldlM_runItems {B : Type} {f : B → A → Option B} {l : List A}
    {first count : Nat} (hle : first + count ≤ l.length) (b : B) :
    (List.range count).foldlM (fun b j => (l[first + j]?).bind (f b)) b =
      (runItems l first count).foldlM f b := by
  induction count generalizing first b with
  | zero => rfl
  | succ count ih =>
      have hlt : first < l.length := by omega
      have hrun : runItems l first (count + 1) = l[first] :: runItems l (first + 1) count := by
        rw [runItems, List.drop_eq_getElem_cons hlt, List.take_succ_cons]
        rfl
      rw [hrun, List.range_succ_eq_map, List.foldlM_cons, List.foldlM_cons, Nat.add_zero,
        List.getElem?_eq_getElem hlt, Option.bind_some]
      refine congrArg _ (funext fun b' => ?_)
      rw [List.foldlM_map, ← ih (by omega)]
      refine congrArg (fun g => List.foldlM g b' (List.range count)) (funext fun b'' => ?_)
      refine funext fun j => ?_
      rw [Nat.add_right_comm, Nat.add_assoc]

/-- The items of a run in another order. -/
def reorder (order : List A) (first count : Nat) (run : List A) : List A :=
  order.take first ++ run ++ order.drop (first + count)

variable {order run : List A} {first count : Nat}

theorem reorder_perm (hrun : run.Perm (runItems order first count)) :
    (reorder order first count run).Perm order := by
  have hsplit : order = order.take first ++ runItems order first count ++
      order.drop (first + count) := by
    rw [List.append_assoc, runItems, ← List.drop_drop, List.take_append_drop,
      List.take_append_drop]
  rw [reorder]
  exact ((hrun.append_left _).append_right _).trans (List.Perm.of_eq hsplit.symm)

theorem length_reorder_run (hle : first + count ≤ order.length)
    (hrun : run.Perm (runItems order first count)) : run.length = count := by
  rw [hrun.length_eq, runItems, List.length_take, List.length_drop]
  omega

theorem getElem?_reorder_of_out (hle : first + count ≤ order.length)
    (hrun : run.Perm (runItems order first count)) {p : Nat}
    (hp : p < first ∨ first + count ≤ p) : (reorder order first count run)[p]? = order[p]? := by
  have hlength := length_reorder_run hle hrun
  have htake : (order.take first).length = first := by
    rw [List.length_take]
    omega
  rw [reorder, List.append_assoc]
  rcases hp with hp | hp
  · rw [List.getElem?_append_left (by omega), List.getElem?_take, if_pos hp]
  · rw [List.getElem?_append_right (by omega), List.getElem?_append_right (by omega),
      List.getElem?_drop]
    congr 1
    omega

theorem runItems_reorder_self (hle : first + count ≤ order.length)
    (hrun : run.Perm (runItems order first count)) :
    runItems (reorder order first count run) first count = run := by
  have hlength := length_reorder_run hle hrun
  have htake : (order.take first).length = first := by
    rw [List.length_take]
    omega
  rw [runItems, reorder, List.append_assoc, List.drop_left' htake, List.take_left' hlength]

/-- **Reordering one run keeps the items of every run that contains it or is apart from it.** -/
theorem runItems_reorder (hle : first + count ≤ order.length)
    (hrun : run.Perm (runItems order first count)) {first' count' : Nat}
    (h : (first' ≤ first ∧ first + count ≤ first' + count') ∨ first + count ≤ first' ∨
      first' + count' ≤ first) :
    (runItems (reorder order first count run) first' count').Perm
      (runItems order first' count') := by
  have hapart : ∀ first' count', (first + count ≤ first' ∨ first' + count' ≤ first) →
      runItems (reorder order first count run) first' count' = runItems order first' count' := by
    intro first' count' h
    refine List.ext_getElem? fun k => ?_
    rw [getElem?_runItems, getElem?_runItems]
    split
    · exact getElem?_reorder_of_out hle hrun (by omega)
    · rfl
  rcases h with ⟨hlow, hhigh⟩ | h
  · obtain ⟨before, rfl⟩ := Nat.exists_eq_add_of_le hlow
    obtain ⟨after, hafter⟩ := Nat.exists_eq_add_of_le hhigh
    obtain rfl : count' = before + count + after := by omega
    rw [runItems_append, runItems_append, runItems_append, runItems_append]
    have hbefore := hapart first' before (Or.inr le_rfl)
    have hbehind := hapart (first' + (before + count)) after (Or.inl (by omega))
    rw [hbefore, hbehind, runItems_reorder_self hle hrun]
    exact (hrun.append_left _).append_right _
  · exact List.Perm.of_eq (hapart first' count' h)

end

/-! ## Stacks of nodes -/

/-- A stack of nodes, with twice the items they stand for less one each. -/
inductive Weighs (nodes : List RunNode) : List Nat → Nat → Prop
  | nil : Weighs nodes [] 0
  | cons {i first count weight : Nat} {stack : List Nat} : HasRun nodes i first count →
      Weighs nodes stack weight → Weighs nodes (i :: stack) (2 * count - 1 + weight)

section

variable {nodes : List RunNode} {i weight : Nat} {stack : List Nat}

theorem Weighs.root {n : Nat} (h : HasRun nodes 0 0 n) : Weighs nodes [0] (2 * n - 1) :=
  Weighs.cons h Weighs.nil

theorem Weighs.tail (h : Weighs nodes (i :: stack) weight) :
    ∃ lighter < weight, Weighs nodes stack lighter := by
  cases h with
  | cons hrun hrest =>
      have := hrun.pos
      exact ⟨_, by omega, hrest⟩

theorem Weighs.children (h : Weighs nodes (i :: stack) weight) {node : RunNode}
    (hnode : nodes[i]? = some node) (hcount : node.count = 0) :
    ∃ lighter < weight, Weighs nodes (node.child :: (node.child + 1) :: stack) lighter ∧
      Weighs nodes ((node.child + 1) :: node.child :: stack) lighter := by
  cases h with
  | cons hrun hrest =>
      obtain ⟨-, left, right, hleft, hright, rfl⟩ := hrun.children hnode hcount
      have := hleft.pos
      have := hright.pos
      refine ⟨2 * left - 1 + (2 * right - 1 + _), ?_, Weighs.cons hleft (Weighs.cons hright hrest),
        ?_⟩
      · omega
      · have hswap := Weighs.cons hright (Weighs.cons hleft hrest)
        rwa [Nat.add_left_comm] at hswap

theorem Weighs.splitLeaf (h : Weighs nodes stack weight) {first count cut : Nat}
    (hi : nodes[i]? = some ⟨first, count⟩) (hcut : 0 < cut) (hcount : cut < count) :
    Weighs (Lib.splitLeaf nodes i first count cut) stack weight := by
  induction h with
  | nil => exact Weighs.nil
  | cons hrun _ ih => exact Weighs.cons (hrun.splitLeaf hi hcut hcount) ih

end

/-! ## Halving trees

Where every interior node halves its run, a stack of a depth-first walk is as deep as the tree at
most: its entry above `k` others stands for at most `leafSize * 2 ^ (depth - k)` items. -/

/-- Every interior node has more than `leafSize` items, and its first child the lower half. -/
def Halves (nodes : List RunNode) (leafSize : Nat) : Prop :=
  ∀ i node first count, nodes[i]? = some node → node.count = 0 → HasRun nodes i first count →
    leafSize < count ∧ HasRun nodes node.child first (count / 2)

/-- A stack, from the top down. -/
inductive Fits (nodes : List RunNode) (leafSize depth : Nat) : List Nat → Prop
  | nil : Fits nodes leafSize depth []
  | cons {i first count : Nat} {stack : List Nat} : HasRun nodes i first count →
      stack.length ≤ depth → count ≤ leafSize * 2 ^ (depth - stack.length) →
      Fits nodes leafSize depth stack → Fits nodes leafSize depth (i :: stack)

section

variable {nodes : List RunNode} {leafSize depth i : Nat} {stack : List Nat}

theorem Fits.length_le (h : Fits nodes leafSize depth stack) : stack.length ≤ depth + 1 := by
  cases h with
  | nil => exact Nat.zero_le _
  | cons _ hle _ _ => exact Nat.succ_le_succ hle

theorem Fits.tail (h : Fits nodes leafSize depth (i :: stack))
    : Fits nodes leafSize depth stack := by
  cases h with
  | cons _ _ _ hrest => exact hrest

theorem Fits.children (h : Fits nodes leafSize depth (i :: stack)) (hhalves : Halves nodes leafSize)
    {node : RunNode} (hnode : nodes[i]? = some node) (hzero : node.count = 0) :
    Fits nodes leafSize depth (node.child :: (node.child + 1) :: stack) ∧
      Fits nodes leafSize depth ((node.child + 1) :: node.child :: stack) := by
  cases h with
  | @cons _ first count _ hrun hle hcount hrest =>
      obtain ⟨hlarge, hhalf⟩ := hhalves i node first count hnode hzero hrun
      obtain ⟨-, left, right, hleft, hright, rfl⟩ := hrun.children hnode hzero
      obtain ⟨-, hleftCount⟩ := hleft.unique hhalf
      have hdeep : stack.length < depth := by
        refine lt_of_le_of_ne hle fun heq => ?_
        rw [heq, Nat.sub_self, Nat.pow_zero, Nat.mul_one] at hcount
        omega
      have hpow : leafSize * 2 ^ (depth - stack.length) =
          2 * (leafSize * 2 ^ (depth - (stack.length + 1))) := by
        rw [show depth - stack.length = depth - (stack.length + 1) + 1 by omega, Nat.pow_succ]
        ring
      have hl : left ≤ leafSize * 2 ^ (depth - (stack.length + 1)) := by omega
      have hr : right ≤ leafSize * 2 ^ (depth - (stack.length + 1)) := by omega
      have hwide : ∀ c, c ≤ leafSize * 2 ^ (depth - (stack.length + 1)) →
          c ≤ leafSize * 2 ^ (depth - stack.length) := by
        intro c hc
        omega
      exact ⟨Fits.cons hleft hdeep hl (Fits.cons hright hle (hwide _ hr) hrest),
        Fits.cons hright hdeep hr (Fits.cons hleft hle (hwide _ hl) hrest)⟩

theorem Halves.splitLeaf {n first count : Nat} (h : Halves nodes leafSize) (htiles : Tiles nodes n)
    (hi : nodes[i]? = some ⟨first, count⟩) (hlarge : leafSize < count) (hcut : 0 < count / 2) :
    Halves (Lib.splitLeaf nodes i first count (count / 2)) leafSize := by
  have hcount : count / 2 < count := by omega
  have hlt := (List.getElem?_eq_some_iff.mp hi).1
  intro j node first' count' hnode hzero hrun
  rcases splice_cases hlt hnode with ⟨-, hj⟩ | ⟨rfl, rfl⟩ | ⟨-, rfl⟩ | ⟨-, rfl⟩
  · have hj' := (List.getElem?_eq_some_iff.mp hj).1
    obtain ⟨hbig, hhalf⟩ := h j node first' count' hj hzero
      ((htiles.hasRun_splitLeaf hi hcut hcount hj').mp hrun)
    exact ⟨hbig, hhalf.splitLeaf hi hcut hcount⟩
  · have hold := (htiles.hasRun_splitLeaf hi hcut hcount hlt).mp hrun
    obtain ⟨rfl, rfl⟩ := hold.of_leaf hi (by dsimp only; omega)
    exact ⟨hlarge, hasRun_splitLeaf_left nodes j first count hcut⟩
  · exact absurd hzero (by dsimp only; omega)
  · exact absurd hzero (by dsimp only; omega)

end

end Lib
