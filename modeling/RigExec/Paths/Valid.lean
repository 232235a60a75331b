/-
# `RigExec.Paths.Valid` — the trees the validator accepts

`Valid` says in its own words what `checkPaths` checks, and `checkPaths_eq_ok` that it checks
that.  In a valid tree every parent is below its node, so a walk to the root ends, and a text is
the text of the parent with one piece more.
-/
import RigExec.Paths.Model
import RigExec.Lib.Checks
import Mathlib.Data.List.Induction
import Mathlib.Data.List.Sort

namespace RigExec.Paths

open Lib (Bytes)

/-! ## Valid trees -/

/-- A prim or a property. -/
def File.Tree (f : File) (i : Nat) : Prop :=
  0 < i ∧ i < f.paths.length ∧ ((f.node i).kind = .prim ∨ (f.node i).kind = .property)

/-- What is checked of one node. -/
structure File.NodeValid (f : File) (i : Nat) : Prop where
  name_ne : (f.node i).name ≠ 0
  name_lt : (f.node i).name < f.names.length
  parent_lt : (f.node i).parent < i
  kind :
    ((f.node i).kind = .prim ∧
      ((f.node i).parent = 0 ∨ (f.node (f.node i).parent).kind = .prim) ∧
      isComponent (f.nameOf i) = true) ∨
    ((f.node i).kind = .property ∧ (f.node i).parent ≠ 0 ∧
      (f.node (f.node i).parent).kind = .prim ∧ isComponent (f.nameOf i) = true) ∨
    ((f.node i).kind = .token ∧ (f.node i).parent = 0)

/-- What is checked of the names and the nodes. -/
structure File.Valid (f : File) : Prop where
  names_head : f.names.head? = some []
  names_ne : [] ∉ f.names.tail
  names_nodup : f.names.tail.Nodup
  root : f.paths.head? = some rootNode
  node : ∀ i, 0 < i → i < f.paths.length → f.NodeValid i
  nodup : f.paths.tail.Nodup

/-! ## What the checks check -/

section Checks

variable {f : File}

theorem checkNames_eq_ok {seen rest : List Bytes} {k : Nat} :
    checkNames seen k rest = .ok () ↔ [] ∉ rest ∧ rest.Nodup ∧ ∀ name ∈ rest, name ∉ seen := by
  induction rest generalizing seen k with
  | nil => simp [checkNames]
  | cons name rest ih =>
      unfold checkNames
      by_cases bad : name = [] ∨ name ∈ seen
      · rw [if_pos bad]
        constructor
        · intro h
          cases h
        · rintro ⟨nonempty, -, fresh⟩
          rcases bad with rfl | inSeen
          · exact absurd List.mem_cons_self nonempty
          · exact absurd inSeen (fresh name List.mem_cons_self)
      · rw [if_neg bad, ih]
        push Not at bad
        rw [List.mem_cons, not_or, List.nodup_cons, List.forall_mem_cons]
        simp only [List.mem_cons, not_or]
        constructor
        · rintro ⟨nonempty, nodup, fresh⟩
          exact ⟨⟨Ne.symm bad.1, nonempty⟩, ⟨fun mem => (fresh name mem).1 rfl, nodup⟩, bad.2,
            fun other mem => (fresh other mem).2⟩
        · rintro ⟨⟨-, nonempty⟩, ⟨notMem, nodup⟩, -, fresh⟩
          exact ⟨nonempty, nodup, fun other mem =>
            ⟨fun same => notMem (same ▸ mem), fresh other mem⟩⟩

theorem checkNode_eq_ok {i : Nat} (hi : 0 < i) : f.checkNode i = .ok () ↔ f.NodeValid i := by
  unfold File.checkNode
  dsimp only
  by_cases range : (f.node i).name = 0 ∨ (f.node i).name ≥ f.names.length
  · rw [if_pos range]
    constructor
    · intro h
      cases h
    · intro valid
      have lt := valid.name_lt
      rcases range with zero | large
      · exact absurd zero valid.name_ne
      · omega
  · rw [if_neg range]
    push Not at range
    cases kind : (f.node i).kind with
    | prim =>
        dsimp only
        by_cases bad : (f.node i).parent ≥ i ∨
            ((f.node i).parent ≠ 0 ∧ (f.node (f.node i).parent).kind ≠ .prim) ∨
            isComponent (f.nameOf i) = false
        · rw [if_pos bad]
          constructor
          · intro h
            cases h
          · intro valid
            have below := valid.parent_lt
            have cases := valid.kind
            simp only [kind] at cases
            rcases bad with high | stray | name
            · omega
            · simp [stray.1, stray.2] at cases
            · simp [name] at cases
        · rw [if_neg bad]
          push Not at bad
          refine ⟨fun _ => ⟨range.1, range.2, bad.1, Or.inl ⟨kind, ?_, ?_⟩⟩, fun _ => rfl⟩
          · by_cases top : (f.node i).parent = 0
            · exact Or.inl top
            · exact Or.inr (bad.2.1 top)
          · exact Bool.eq_true_of_not_eq_false bad.2.2
    | property =>
        dsimp only
        by_cases bad : (f.node i).parent = 0 ∨ (f.node i).parent ≥ i ∨
            (f.node (f.node i).parent).kind ≠ .prim ∨ isComponent (f.nameOf i) = false
        · rw [if_pos bad]
          constructor
          · intro h
            cases h
          · intro valid
            have below := valid.parent_lt
            have cases := valid.kind
            simp only [kind] at cases
            rcases bad with top | high | stray | name
            · simp [top] at cases
            · omega
            · simp [stray] at cases
            · simp [name] at cases
        · rw [if_neg bad]
          push Not at bad
          refine ⟨fun _ => ⟨range.1, range.2, bad.2.1, Or.inr (Or.inl ⟨kind, bad.1, bad.2.2.1, ?_⟩)⟩,
            fun _ => rfl⟩
          exact Bool.eq_true_of_not_eq_false bad.2.2.2
    | token =>
        dsimp only
        by_cases bad : (f.node i).parent ≠ 0
        · rw [if_pos bad]
          constructor
          · intro h
            cases h
          · intro valid
            have cases := valid.kind
            simp [kind, bad] at cases
        · rw [if_neg bad]
          push Not at bad
          exact ⟨fun _ => ⟨range.1, range.2, by omega, Or.inr (Or.inr ⟨kind, bad⟩)⟩, fun _ => rfl⟩
    | none | other code =>
        constructor
        · intro h
          cases h
        · intro valid
          have cases := valid.kind
          simp [kind] at cases

theorem adjacentEqual_eq_false {keys : List (Nat ×ₗ Nat ×ₗ Nat)}
    (sorted : keys.Pairwise (· ≤ ·)) : adjacentEqual keys = false ↔ keys.Nodup := by
  induction keys with
  | nil => simp [adjacentEqual]
  | cons a rest ih =>
      cases rest with
      | nil => simp [adjacentEqual]
      | cons b rest =>
          rw [List.pairwise_cons] at sorted
          have later := ih sorted.2
          rw [adjacentEqual, Bool.or_eq_false_iff, decide_eq_false_iff_not, later,
            List.nodup_cons (a := a)]
          refine and_congr_left fun _ => ⟨fun ne mem => ?_, fun notMem same => ?_⟩
          · -- a key that comes back stands above the one between
            rcases List.mem_cons.mp mem with same | inRest
            · exact ne same
            · have up := sorted.1 b List.mem_cons_self
              have down := (List.pairwise_cons.mp sorted.2).1 a inRest
              exact ne (le_antisymm up down)
          · exact notMem (same ▸ List.mem_cons_self)

theorem mem_tail {node : PathNode} (mem : node ∈ f.paths.tail) :
    ∃ i, 0 < i ∧ i < f.paths.length ∧ f.node i = node := by
  obtain ⟨k, hk, rfl⟩ := List.mem_iff_getElem.mp mem
  rw [List.length_tail] at hk
  refine ⟨k + 1, by omega, by omega, ?_⟩
  rw [File.node, List.getElem_tail, List.getD_eq_getElem _ _ (by omega)]

theorem key_injective {i j : Nat} (hi : f.NodeValid i) (hj : f.NodeValid j)
    (same : (f.node i).key = (f.node j).key) : f.node i = f.node j := by
  have fields := congrArg ofLex same
  simp only [PathNode.key, ofLex_toLex, Prod.mk.injEq] at fields
  have inner := congrArg ofLex fields.2
  simp only [ofLex_toLex, Prod.mk.injEq] at inner
  have kind : (f.node i).kind = (f.node j).kind := by
    rcases hi.kind with ⟨ki, -⟩ | ⟨ki, -⟩ | ⟨ki, -⟩ <;>
      rcases hj.kind with ⟨kj, -⟩ | ⟨kj, -⟩ | ⟨kj, -⟩ <;>
        simp_all [PathKind.code]
  calc f.node i = ⟨(f.node i).parent, (f.node i).name, (f.node i).kind⟩ := rfl
    _ = ⟨(f.node j).parent, (f.node j).name, (f.node j).kind⟩ := by
        rw [fields.1, inner.1, kind]
    _ = f.node j := rfl

theorem nodup_keys (node : ∀ i, 0 < i → i < f.paths.length → f.NodeValid i) :
    (f.paths.tail.map PathNode.key).Nodup ↔ f.paths.tail.Nodup := by
  refine ⟨List.Nodup.of_map _, fun nodup => nodup.map_on ?_⟩
  intro x hx y hy same
  obtain ⟨i, hi, li, rfl⟩ := mem_tail hx
  obtain ⟨j, hj, lj, rfl⟩ := mem_tail hy
  exact key_injective (node i hi li) (node j hj lj) same

theorem adjacentEqual_sorted {keys : List (Nat ×ₗ Nat ×ₗ Nat)} :
    adjacentEqual keys.mergeSort = false ↔ keys.Nodup := by
  have sorted : keys.mergeSort.Pairwise (· ≤ ·) := by
    refine (@List.pairwise_mergeSort _ (fun a b => decide (a ≤ b)) ?_ ?_ keys).imp ?_
    · intro a b c ab bc
      simp only [decide_eq_true_eq] at ab bc ⊢
      exact le_trans ab bc
    · intro a b
      simpa using le_total a b
    · intro a b ab
      simpa using ab
  rw [adjacentEqual_eq_false sorted]
  exact (List.mergeSort_perm keys _).nodup_iff

theorem checkPaths_eq_ok {depth : List Nat} :
    f.checkPaths = .ok depth ↔
      f.Valid ∧ f.pathId f.rig rolePrim "file" "rig" = .ok () ∧
        depth = depthsOf f.paths.tail := by
  have loop : (List.range' 1 (f.paths.length - 1)).forM f.checkNode = .ok () ↔
      ∀ i, 0 < i → i < f.paths.length → f.NodeValid i := by
    rw [Lib.forM_eq_ok]
    constructor
    · intro h i hi li
      exact (checkNode_eq_ok hi).mp (h i (List.mem_range'_1.mpr ⟨hi, by omega⟩))
    · intro h i mem
      have range := List.mem_range'_1.mp mem
      exact (checkNode_eq_ok range.1).mpr (h i range.1 (by omega))
  have names : checkNames [] 1 f.names.tail = .ok () ↔ [] ∉ f.names.tail ∧ f.names.tail.Nodup := by
    rw [checkNames_eq_ok]
    exact ⟨fun h => ⟨h.1, h.2.1⟩, fun h => ⟨h.1, h.2, fun _ _ => List.not_mem_nil⟩⟩
  unfold File.checkPaths
  dsimp only
  simp only [Lib.throw_bind_eq_ok, Lib.bind_eq_ok, loop, names, not_not,
    Bool.not_eq_true, adjacentEqual_sorted]
  constructor
  · rintro ⟨head, -, ⟨ne, nodup⟩, root, -, node, keys, u, rig, last⟩
    exact ⟨⟨head, ne, nodup, root, node, (nodup_keys node).mp keys⟩, rig, (Except.ok.inj last).symm⟩
  · rintro ⟨valid, rig, rfl⟩
    exact ⟨valid.names_head, ⟨⟩, ⟨valid.names_ne, valid.names_nodup⟩, valid.root, ⟨⟩, valid.node,
      (nodup_keys valid.node).mpr valid.nodup, ⟨⟩, rig, rfl⟩

end Checks

/-! ## Walks to the root -/

section Walks

variable {f : File}

theorem File.Tree.valid {i : Nat} (tree : f.Tree i) (valid : f.Valid) : f.NodeValid i :=
  valid.node i tree.1 tree.2.1

theorem File.Tree.parent {i : Nat} (tree : f.Tree i) (valid : f.Valid) :
    (f.node i).parent = 0 ∨ f.Tree (f.node i).parent := by
  have node := tree.valid valid
  by_cases top : (f.node i).parent = 0
  · exact Or.inl top
  · refine Or.inr ⟨Nat.pos_of_ne_zero top, lt_trans node.parent_lt tree.2.1, Or.inl ?_⟩
    rcases node.kind with ⟨-, prim, -⟩ | ⟨-, -, prim, -⟩ | ⟨-, zero⟩
    · exact prim.resolve_left top
    · exact prim
    · exact absurd zero top

/-- A walk to the root ends: it takes no more steps than the node's number. -/
theorem walk_ends (valid : f.Valid) {i : Nat} (hi : i < f.paths.length) :
    ∃ k ≤ i, (fun i => (f.node i).parent)^[k] i = 0 := by
  induction i using Nat.strong_induction_on with
  | _ i ih =>
      by_cases top : i = 0
      · exact ⟨0, Nat.zero_le i, top⟩
      · have below := (valid.node i (Nat.pos_of_ne_zero top) hi).parent_lt
        obtain ⟨k, hk, ends⟩ := ih _ below (lt_trans below hi)
        exact ⟨k + 1, by omega, ends⟩

theorem File.Tree.component {i : Nat} (tree : f.Tree i) (valid : f.Valid) :
    isComponent (f.nameOf i) = true := by
  rcases (tree.valid valid).kind with ⟨-, -, name⟩ | ⟨-, -, -, name⟩ | ⟨token, -⟩
  · exact name
  · exact name
  · rcases tree.2.2 with prim | property
    · rw [token] at prim
      cases prim
    · rw [token] at property
      cases property

theorem piece_eq {i : Nat} (tree : f.Tree i) :
    piece (f.node i).kind (f.nameOf i) = f.separator i :: f.nameOf i := by
  rcases tree.2.2 with prim | property
  · rw [prim, File.separator, if_pos prim]
    rfl
  · rw [property, File.separator, if_neg (by rw [property]; decide)]
    rfl

theorem pathText_zero : f.pathText 0 = [] := by
  rw [File.pathText, File.chain, if_neg (fun h => h.1 rfl)]
  rfl

theorem pathText_eq {i : Nat} (tree : f.Tree i) (valid : f.Valid) :
    f.pathText i = f.pathText (f.node i).parent ++ f.separator i :: f.nameOf i := by
  have named : (f.node i).kind ≠ .none ∧ (f.node i).kind ≠ .token := by
    rcases tree.2.2 with prim | property
    · rw [prim]
      decide
    · rw [property]
      decide
  have step : f.chain i = i :: f.chain (f.node i).parent := by
    have below := (tree.valid valid).parent_lt
    rw [File.chain, if_pos ⟨Nat.ne_of_gt tree.1, tree.2.1, named.1⟩, if_neg]
    push Not
    exact ⟨named.2, below⟩
  rw [File.pathText, step, List.reverse_cons, List.foldl_append]
  exact congrArg (f.pathText (f.node i).parent ++ ·) (piece_eq tree)

theorem pathText_token {i : Nat} (hi : 0 < i) (bound : i < f.paths.length)
    (token : (f.node i).kind = .token) : f.pathText i = f.nameOf i := by
  have step : f.chain i = [i] := by
    rw [File.chain, if_pos ⟨Nat.ne_of_gt hi, bound, by rw [token]; decide⟩, if_pos (Or.inl token)]
  rw [File.pathText, step, List.reverse_singleton, List.foldl_cons, List.foldl_nil, token]
  rfl

end Walks

/-! ## Depths -/

section Depths

theorem depthsOf_append (nodes : List PathNode) (node : PathNode) :
    depthsOf (nodes ++ [node]) = depthsOf nodes ++ [(depthsOf nodes).getD node.parent 0 + 1] := by
  rw [depthsOf, List.foldl_append]
  rfl

theorem length_depthsOf (nodes : List PathNode) : (depthsOf nodes).length = nodes.length + 1 := by
  induction nodes using List.reverseRecOn with
  | nil => rfl
  | append_singleton nodes node ih =>
      rw [depthsOf_append, List.length_append, ih, List.length_append]
      rfl

theorem getD_depthsOf {nodes : List PathNode} {i : Nat} (hi : i < nodes.length)
    (below : nodes[i].parent ≤ i) :
    (depthsOf nodes).getD (i + 1) 0 = (depthsOf nodes).getD nodes[i].parent 0 + 1 := by
  induction nodes using List.reverseRecOn with
  | nil => exact absurd hi (Nat.not_lt_zero i)
  | append_singleton nodes node ih =>
      have keeps : ∀ k ≤ nodes.length,
          (depthsOf (nodes ++ [node])).getD k 0 = (depthsOf nodes).getD k 0 := by
        intro k hk
        rw [depthsOf_append, List.getD_append _ _ _ _ (by rw [length_depthsOf]; omega)]
      rw [List.length_append, List.length_singleton] at hi
      by_cases last : i < nodes.length
      · have same : (nodes ++ [node])[i] = nodes[i] := List.getElem_append_left last
        rw [same] at below ⊢
        rw [keeps (i + 1) (by omega), keeps _ (by omega)]
        exact ih last below
      · have here : i = nodes.length := by omega
        subst here
        have same : (nodes ++ [node])[nodes.length] = node := List.getElem_concat_length rfl _
        rw [same] at below ⊢
        rw [keeps _ below, depthsOf_append, List.getD_append_right _ _ _ _
          (by rw [length_depthsOf]), length_depthsOf, Nat.sub_self]
        rfl

theorem depth_eq {f : File} {i : Nat} (tree : f.Tree i) (valid : f.Valid) :
    (depthsOf f.paths.tail).getD i 0 =
      (depthsOf f.paths.tail).getD (f.node i).parent 0 + 1 := by
  have node := tree.valid valid
  obtain ⟨k, rfl⟩ : ∃ k, i = k + 1 := ⟨i - 1, by have := tree.1; omega⟩
  have bound := tree.2.1
  have inTail : k < f.paths.tail.length := by rw [List.length_tail]; omega
  have same : f.paths.tail[k] = f.node (k + 1) := by
    rw [List.getElem_tail, File.node, List.getD_eq_getElem _ _ bound]
  have below := node.parent_lt
  rw [getD_depthsOf inTail (by rw [same]; omega), same]

theorem depth_zero (nodes : List PathNode) : (depthsOf nodes).getD 0 0 = 0 := by
  induction nodes using List.reverseRecOn with
  | nil => rfl
  | append_singleton nodes node ih =>
      rw [depthsOf_append, List.getD_append _ _ _ _ (by rw [length_depthsOf]; omega)]
      exact ih

end Depths

end RigExec.Paths
