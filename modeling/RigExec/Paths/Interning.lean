/-
# `RigExec.Paths.Interning` — an interned table is a valid path tree

A table only grows, at the end of its vectors.  While the sizes fit 32 bits an id is the place of
its entry, the maps say where every name and node stands, and the names and nodes are a valid tree.

    Grows          the vectors of one table begin with those of another
    WF             the invariant of a table
    Interned       what an id keeps of the call that gave it
-/
import RigExec.Paths.Valid
import RigExec.Paths.Table

namespace RigExec.Paths

open Lib (Bytes)

/-! ## Growing trees -/

section Growing

variable {f g : File}

/-- The names and nodes of `f` are the first ones of `g`. -/
def File.Grows (f g : File) : Prop :=
  f.names <+: g.names ∧ f.paths <+: g.paths

theorem getD_of_isPrefix {α : Type} {l m : List α} (h : l <+: m) {i : Nat} (hi : i < l.length)
    (d : α) : m.getD i d = l.getD i d := by
  obtain ⟨rest, rfl⟩ := h
  exact List.getD_append _ _ _ _ hi

theorem File.Grows.refl (f : File) : f.Grows f :=
  ⟨List.prefix_rfl, List.prefix_rfl⟩

theorem File.Grows.trans {h : File} (fg : f.Grows g) (gh : g.Grows h) : f.Grows h :=
  ⟨fg.1.trans gh.1, fg.2.trans gh.2⟩

theorem File.Grows.node (h : f.Grows g) {i : Nat} (hi : i < f.paths.length) :
    g.node i = f.node i :=
  getD_of_isPrefix h.2 hi rootNode

theorem File.Grows.nameOf (h : f.Grows g) {i : Nat} (hi : i < f.paths.length)
    (named : (f.node i).name < f.names.length) : g.nameOf i = f.nameOf i := by
  rw [File.nameOf, h.node hi]
  exact getD_of_isPrefix h.1 named []

theorem File.Grows.nodeValid (h : f.Grows g) {i : Nat} (hi : i < f.paths.length)
    (valid : f.NodeValid i) : g.NodeValid i := by
  have below := valid.parent_lt
  have node := h.node hi
  have name := h.nameOf hi valid.name_lt
  have parent := h.node (lt_trans below hi)
  have names := h.1.length_le
  refine ⟨?_, ?_, ?_, ?_⟩
  · rw [node]
    exact valid.name_ne
  · rw [node]
    exact lt_of_lt_of_le valid.name_lt names
  · rw [node]
    exact below
  · rw [node, name, parent]
    exact valid.kind

theorem File.Grows.tree (h : f.Grows g) {i : Nat} (tree : f.Tree i) : g.Tree i := by
  refine ⟨tree.1, lt_of_lt_of_le tree.2.1 h.2.length_le, ?_⟩
  rw [h.node tree.2.1]
  exact tree.2.2

theorem tree_or_token (valid : f.Valid) {i : Nat} (hi : i < f.paths.length) :
    i = 0 ∨ f.Tree i ∨ (0 < i ∧ (f.node i).kind = .token) := by
  by_cases top : i = 0
  · exact Or.inl top
  · have pos := Nat.pos_of_ne_zero top
    rcases (valid.node i pos hi).kind with ⟨kind, -⟩ | ⟨kind, -⟩ | ⟨kind, -⟩
    · exact Or.inr (Or.inl ⟨pos, hi, Or.inl kind⟩)
    · exact Or.inr (Or.inl ⟨pos, hi, Or.inr kind⟩)
    · exact Or.inr (Or.inr ⟨pos, kind⟩)

theorem File.Grows.pathText (h : f.Grows g) (vf : f.Valid) (vg : g.Valid) {i : Nat}
    (hi : i < f.paths.length) : g.pathText i = f.pathText i := by
  induction i using Nat.strong_induction_on with
  | _ i ih =>
      have named : 0 < i → g.nameOf i = f.nameOf i := fun pos =>
        h.nameOf hi (vf.node i pos hi).name_lt
      rcases tree_or_token vf hi with rfl | tree | ⟨pos, token⟩
      · rw [pathText_zero, pathText_zero]
      · have below := (tree.valid vf).parent_lt
        rw [pathText_eq (h.tree tree) vg, pathText_eq tree vf, h.node hi,
          ih _ below (lt_trans below hi), named tree.1]
        simp only [File.separator, h.node hi]
      · have far := lt_of_lt_of_le hi h.2.length_le
        rw [pathText_token pos far (by rw [h.node hi]; exact token),
          pathText_token pos hi token, named pos]

theorem valid_push_name (valid : f.Valid) {text : Bytes} (nonempty : text ≠ [])
    (fresh : text ∉ f.names.tail) : File.Valid { f with names := f.names ++ [text] } := by
  have grows : f.Grows { f with names := f.names ++ [text] } :=
    ⟨List.prefix_append _ _, List.prefix_rfl⟩
  have filled : f.names ≠ [] := by
    intro empty
    have head := valid.names_head
    rw [empty] at head
    cases head
  refine ⟨?_, ?_, ?_, valid.root, ?_, valid.nodup⟩
  · rw [List.head?_append_of_ne_nil _ filled]
    exact valid.names_head
  · rw [List.tail_append_of_ne_nil filled, List.mem_append, List.mem_singleton, not_or]
    exact ⟨valid.names_ne, fun same => nonempty same.symm⟩
  · rw [List.tail_append_of_ne_nil filled]
    exact List.nodup_append.mpr ⟨valid.names_nodup, List.nodup_singleton _, fun a ha b hb same =>
      fresh (List.mem_singleton.mp hb ▸ same ▸ ha)⟩
  · intro i hi bound
    exact grows.nodeValid bound (valid.node i hi bound)

theorem valid_push_node (valid : f.Valid) {node : PathNode}
    (here : File.NodeValid { f with paths := f.paths ++ [node] } f.paths.length)
    (fresh : node ∉ f.paths.tail) : File.Valid { f with paths := f.paths ++ [node] } := by
  have grows : f.Grows { f with paths := f.paths ++ [node] } :=
    ⟨List.prefix_rfl, List.prefix_append _ _⟩
  have filled : f.paths ≠ [] := by
    intro empty
    have head := valid.root
    rw [empty] at head
    cases head
  refine ⟨valid.names_head, valid.names_ne, valid.names_nodup, ?_, ?_, ?_⟩
  · rw [List.head?_append_of_ne_nil _ filled]
    exact valid.root
  · intro i hi bound
    by_cases old : i < f.paths.length
    · exact grows.nodeValid old (valid.node i hi old)
    · have last : i = f.paths.length := by
        have length : i < (f.paths ++ [node]).length := bound
        rw [List.length_append, List.length_singleton] at length
        omega
      rw [last]
      exact here
  · rw [List.tail_append_of_ne_nil filled]
    exact List.nodup_append.mpr ⟨valid.nodup, List.nodup_singleton _, fun a ha b hb same =>
      fresh (List.mem_singleton.mp hb ▸ same ▸ ha)⟩

end Growing

/-! ## Maps -/

section Maps

variable {K : Type} [BEq K] [LawfulBEq K] (map : List (K × Nat)) (key : K) (value : Nat)

omit [LawfulBEq K] in
theorem emplace_of_some {held : Nat} (h : map.lookup key = some held) :
    emplace map key value = (held, false, map) := by
  rw [emplace, h]

omit [LawfulBEq K] in
theorem emplace_of_none (h : map.lookup key = none) :
    emplace map key value = (value, true, (key, value) :: map) := by
  rw [emplace, h]

theorem emplace_self :
    (emplace map key value).2.2.lookup key = some (emplace map key value).1 := by
  cases held : map.lookup key with
  | some id =>
      rw [emplace_of_some map key value held]
      exact held
  | none =>
      rw [emplace_of_none map key value held]
      exact List.lookup_cons_self

theorem emplace_of_ne {other : K} (differ : other ≠ key) :
    (emplace map key value).2.2.lookup other = map.lookup other := by
  cases held : map.lookup key with
  | some id => rw [emplace_of_some map key value held]
  | none =>
      rw [emplace_of_none map key value held]
      dsimp only
      rw [List.lookup_cons, beq_eq_false_iff_ne.mpr differ]

theorem emplace_keeps {other : K} {held : Nat} (h : map.lookup other = some held) :
    (emplace map key value).2.2.lookup other = some held := by
  by_cases same : other = key
  · subst same
    rw [emplace_of_some map other value h]
    exact h
  · rw [emplace_of_ne map key value same, h]

end Maps

/-! ## The invariant -/

section Invariant

variable {P : Type} [DecidableEq P] {sdf : SdfPaths P}

/-- The names and nodes of a table. -/
def Table.file (t : Table P) : File :=
  ⟨t.names, t.paths, 0⟩

/-- The sizes fit 32 bits. -/
def Table.Small (t : Table P) : Prop :=
  t.names.length ≤ 2 ^ 32 ∧ t.paths.length ≤ 2 ^ 32

/-- The invariant of a table. -/
structure Table.WF (sdf : SdfPaths P) (t : Table P) : Prop where
  valid : t.file.Valid
  nameIds : ∀ text id, t.nameIds.lookup text = some id ↔ 0 < id ∧ t.names[id]? = some text
  nodeIds : ∀ parent name code id, t.nodeIds.lookup (parent, name, code) = some id ↔
    0 < id ∧ ∃ kind, t.paths[id]? = some ⟨parent, name, kind⟩ ∧ kind.code = code
  pathIds : ∀ p id, t.pathIds.lookup p = some id →
    0 < id ∧ id < t.paths.length ∧ t.file.pathText id = sdf.getString p

omit [DecidableEq P] in
theorem Table.Small.of_grows {t t' : Table P} (h : t.file.Grows t'.file) (small : t'.Small) :
    t.Small :=
  ⟨le_trans h.1.length_le small.1, le_trans h.2.length_le small.2⟩

theorem uint32_of_lt {n : Nat} (h : n < 2 ^ 32) : uint32 n = n :=
  Nat.mod_eq_of_lt h

theorem getElem?_push {α : Type} (l : List α) (a b : α) (i : Nat) :
    (l ++ [a])[i]? = some b ↔ l[i]? = some b ∨ (i = l.length ∧ a = b) := by
  rw [List.getElem?_append]
  by_cases old : i < l.length
  · rw [if_pos old]
    exact ⟨Or.inl, fun h => h.resolve_right fun last => absurd last.1 (Nat.ne_of_lt old)⟩
  · rw [if_neg old, List.getElem?_eq_none (Nat.le_of_not_lt old)]
    by_cases last : i = l.length
    · rw [last, Nat.sub_self]
      simp
    · have far : i - l.length ≠ 0 := by omega
      rw [List.getElem?_eq_none (by rw [List.length_singleton]; omega)]
      simp [last]

theorem mem_tail_iff {α : Type} {l : List α} {a : α}
    : a ∈ l.tail ↔ ∃ i, 0 < i ∧ l[i]? = some a := by
  rw [List.mem_iff_getElem?]
  constructor
  · rintro ⟨i, h⟩
    rw [List.getElem?_tail] at h
    exact ⟨i + 1, Nat.succ_pos i, h⟩
  · rintro ⟨i, pos, h⟩
    obtain ⟨k, rfl⟩ := Nat.exists_eq_succ_of_ne_zero (Nat.ne_of_gt pos)
    exact ⟨k, by rw [List.getElem?_tail]; exact h⟩

/-! ## Names -/

omit [DecidableEq P] in
theorem name_grows (t : Table P) (text : Bytes) : t.file.Grows (t.name text).2.file := by
  refine ⟨?_, List.prefix_rfl⟩
  show t.names <+: if _ then t.names ++ [text] else t.names
  split
  · exact List.prefix_append _ _
  · exact List.prefix_rfl

theorem name_spec {t : Table P} (wf : t.WF sdf) {text : Bytes} (nonempty : text ≠ [])
    (small : (t.name text).2.Small) :
    (t.name text).2.WF sdf ∧ 0 < (t.name text).1 ∧
      (t.name text).2.names[(t.name text).1]? = some text := by
  cases held : t.nameIds.lookup text with
  | some id =>
      have same : t.name text = (id, t) := by
        rw [Table.name, emplace_of_some _ _ _ held]
        rfl
      rw [same]
      exact ⟨wf, (wf.nameIds text id).mp held⟩
  | none =>
      have pushed : t.name text = (uint32 t.names.length,
          { t with
            names := t.names ++ [text]
            nameIds := (text, uint32 t.names.length) :: t.nameIds }) := by
        rw [Table.name, emplace_of_none _ _ _ held]
        rfl
      have grows := name_grows t text
      rw [pushed] at small grows ⊢
      have room : t.names.length < 2 ^ 32 := by
        have size := small.1
        rw [List.length_append, List.length_singleton] at size
        omega
      rw [uint32_of_lt room] at *
      have absent : ∀ id, 0 < id → t.names[id]? ≠ some text := by
        intro id pos here
        have found := (wf.nameIds text id).mpr ⟨pos, here⟩
        rw [held] at found
        cases found
      have fresh : text ∉ t.names.tail := fun mem => by
        obtain ⟨i, pos, here⟩ := mem_tail_iff.mp mem
        exact absent i pos here
      have filled : 0 < t.names.length := by
        have head := wf.valid.names_head
        refine List.length_pos_iff.mpr fun empty => ?_
        rw [show t.file.names = t.names from rfl, empty] at head
        cases head
      have valid := valid_push_name wf.valid nonempty fresh
      refine ⟨⟨valid, ?_, wf.nodeIds, ?_⟩, filled, ?_⟩
      · intro other id
        rw [List.lookup_cons, getElem?_push]
        by_cases same : other = text
        · subst same
          rw [beq_self_eq_true]
          constructor
          · intro h
            have last := Option.some.inj h
            exact ⟨by omega, Or.inr ⟨last.symm, rfl⟩⟩
          · rintro ⟨pos, old | ⟨last, -⟩⟩
            · exact absurd old (absent id pos)
            · exact congrArg some last.symm
        · rw [beq_eq_false_iff_ne.mpr same, wf.nameIds]
          exact and_congr_right fun _ =>
            ⟨Or.inl, fun h => h.resolve_right fun last => same last.2.symm⟩
      · intro p id h
        obtain ⟨pos, bound, holds⟩ := wf.pathIds p id h
        exact ⟨pos, bound, (grows.pathText wf.valid valid bound).trans holds⟩
      · exact (getElem?_push _ _ _ _).mpr (Or.inr ⟨rfl, rfl⟩)

/-! ## Nodes -/

/-- A node that may stand at the end of a tree. -/
structure Table.Fits (t : Table P) (parent name : Nat) (kind : PathKind) : Prop where
  name_ne : name ≠ 0
  name_lt : name < t.names.length
  parent_lt : parent < t.paths.length
  kind :
    (kind = .prim ∧ (parent = 0 ∨ (t.file.node parent).kind = .prim) ∧
      isComponent (t.names.getD name []) = true) ∨
    (kind = .property ∧ parent ≠ 0 ∧ (t.file.node parent).kind = .prim ∧
      isComponent (t.names.getD name []) = true) ∨
    (kind = .token ∧ parent = 0)

omit [DecidableEq P] in
theorem node_grows (t : Table P) (parent name : Nat) (kind : PathKind) :
    t.file.Grows (t.node parent name kind).2.file := by
  refine ⟨List.prefix_rfl, ?_⟩
  show t.paths <+: if _ then t.paths ++ [(⟨parent, name, kind⟩ : PathNode)] else t.paths
  split
  · exact List.prefix_append _ _
  · exact List.prefix_rfl

theorem code_injective {k l : PathKind} (hk : k = .prim ∨ k = .property ∨ k = .token)
    (hl : l = .prim ∨ l = .property ∨ l = .token) (same : k.code = l.code) : k = l := by
  rcases hk with rfl | rfl | rfl <;> rcases hl with rfl | rfl | rfl <;>
    first | rfl | exact absurd same (by decide)

theorem node_spec {t : Table P} (wf : t.WF sdf) {parent name : Nat} {kind : PathKind}
    (fits : t.Fits parent name kind) (small : (t.node parent name kind).2.Small) :
    (t.node parent name kind).2.WF sdf ∧ 0 < (t.node parent name kind).1 ∧
      (t.node parent name kind).2.paths[(t.node parent name kind).1]? =
        some ⟨parent, name, kind⟩ := by
  have kinds : kind = .prim ∨ kind = .property ∨ kind = .token := by
    rcases fits.kind with ⟨h, -⟩ | ⟨h, -⟩ | ⟨h, -⟩
    · exact Or.inl h
    · exact Or.inr (Or.inl h)
    · exact Or.inr (Or.inr h)
  have oldKinds : ∀ id node, 0 < id → t.paths[id]? = some node →
      node.kind = .prim ∨ node.kind = .property ∨ node.kind = .token := by
    intro id node pos here
    obtain ⟨bound, at_⟩ := List.getElem?_eq_some_iff.mp here
    have same : t.file.node id = node := by
      rw [File.node]
      exact (List.getD_eq_getElem _ _ bound).trans at_
    rw [← same]
    rcases (wf.valid.node id pos bound).kind with ⟨h, -⟩ | ⟨h, -⟩ | ⟨h, -⟩
    · exact Or.inl h
    · exact Or.inr (Or.inl h)
    · exact Or.inr (Or.inr h)
  cases held : t.nodeIds.lookup (parent, name, kind.code) with
  | some id =>
      have same : t.node parent name kind = (id, t) := by
        rw [Table.node, emplace_of_some _ _ _ held]
        rfl
      rw [same]
      obtain ⟨pos, kind', here, code⟩ := (wf.nodeIds parent name kind.code id).mp held
      have whole := code_injective (oldKinds id _ pos here) kinds code
      exact ⟨wf, pos, whole ▸ here⟩
  | none =>
      have pushed : t.node parent name kind = (uint32 t.paths.length,
          { t with
            paths := t.paths ++ [⟨parent, name, kind⟩]
            nodeIds := ((parent, name, kind.code), uint32 t.paths.length) :: t.nodeIds }) := by
        rw [Table.node, emplace_of_none _ _ _ held]
        rfl
      have grows := node_grows t parent name kind
      rw [pushed] at small grows ⊢
      have room : t.paths.length < 2 ^ 32 := by
        have size := small.2
        rw [List.length_append, List.length_singleton] at size
        omega
      rw [uint32_of_lt room] at *
      have absent : ∀ id, 0 < id → t.paths[id]? ≠ some ⟨parent, name, kind⟩ := by
        intro id pos here
        have found := (wf.nodeIds parent name kind.code id).mpr ⟨pos, kind, here, rfl⟩
        rw [held] at found
        cases found
      have fresh : (⟨parent, name, kind⟩ : PathNode) ∉ t.paths.tail := fun mem => by
        obtain ⟨i, pos, here⟩ := mem_tail_iff.mp mem
        exact absent i pos here
      have filled : 0 < t.paths.length := Nat.zero_lt_of_lt fits.parent_lt
      have here : File.NodeValid
          { t.file with paths := t.file.paths ++ [⟨parent, name, kind⟩] } t.file.paths.length := by
        have last : File.node { t.file with paths := t.file.paths ++ [⟨parent, name, kind⟩] }
            t.file.paths.length = ⟨parent, name, kind⟩ := by
          rw [File.node, List.getD_append_right _ _ _ _ (Nat.le_refl _), Nat.sub_self]
          rfl
        have below : File.node { t.file with paths := t.file.paths ++ [⟨parent, name, kind⟩] }
            parent = t.file.node parent := grows.node fits.parent_lt
        refine ⟨?_, ?_, ?_, ?_⟩
        · rw [last]
          exact fits.name_ne
        · rw [last]
          exact fits.name_lt
        · rw [last]
          exact fits.parent_lt
        · rw [File.nameOf, last]
          dsimp only
          rw [below]
          exact fits.kind
      have valid := valid_push_node wf.valid here fresh
      refine ⟨⟨valid, wf.nameIds, ?_, ?_⟩, filled, ?_⟩
      · intro parent' name' code' id
        rw [List.lookup_cons]
        by_cases same : (parent', name', code') = (parent, name, kind.code)
        · rw [same, beq_self_eq_true]
          obtain ⟨rfl, rfl, rfl⟩ : parent' = parent ∧ name' = name ∧ code' = kind.code := by
            simpa only [Prod.mk.injEq] using same
          constructor
          · intro h
            have last := Option.some.inj h
            exact ⟨by omega, kind, (getElem?_push _ _ _ _).mpr (Or.inr ⟨last.symm, rfl⟩), rfl⟩
          · rintro ⟨pos, kind', entry, code⟩
            rcases (getElem?_push _ _ _ _).mp entry with old | ⟨last, -⟩
            · have whole := code_injective (oldKinds id _ pos old) kinds code
              exact absurd (whole ▸ old) (absent id pos)
            · exact congrArg some last.symm
        · rw [beq_eq_false_iff_ne.mpr same, wf.nodeIds]
          refine and_congr_right fun _ => exists_congr fun kind' => and_congr_left fun code => ?_
          rw [getElem?_push]
          refine ⟨Or.inl, fun h => h.resolve_right fun last => same ?_⟩
          have fields := last.2
          rw [PathNode.mk.injEq] at fields
          rw [← code, fields.1, fields.2.1, fields.2.2]
      · intro p id h
        obtain ⟨pos, bound, holds⟩ := wf.pathIds p id h
        refine ⟨pos, lt_of_lt_of_le bound grows.2.length_le, ?_⟩
        exact (grows.pathText wf.valid valid bound).trans holds
      · exact (getElem?_push _ _ _ _).mpr (Or.inr ⟨rfl, rfl⟩)

/-! ## Tokens and children -/

omit [DecidableEq P] in
theorem token_grows (t : Table P) (text : Bytes) : t.file.Grows (t.token text).2.file := by
  unfold Table.token
  split
  · exact File.Grows.refl _
  · exact (name_grows t text).trans (node_grows _ _ _ _)

/-- The token of a text. -/
def Table.IsToken (t : Table P) (id : Nat) (text : Bytes) : Prop :=
  ∃ name, t.paths[id]? = some ⟨0, name, .token⟩ ∧ name ≠ 0 ∧ t.names[name]? = some text

theorem getD_of_getElem? {α : Type} {l : List α} {i : Nat} {a : α} (h : l[i]? = some a) (d : α) :
    l.getD i d = a := by
  rw [List.getD_eq_getElem?_getD, h]
  rfl

theorem lt_of_getElem? {α : Type} {l : List α} {i : Nat} {a : α} (h : l[i]? = some a) :
    i < l.length :=
  (List.getElem?_eq_some_iff.mp h).1

omit [DecidableEq P] in
theorem Table.IsToken.pathText {t : Table P} {id : Nat} {text : Bytes} (pos : 0 < id)
    (h : t.IsToken id text) : t.file.pathText id = text := by
  obtain ⟨name, here, -, named⟩ := h
  have node : t.file.node id = ⟨0, name, .token⟩ := getD_of_getElem? here rootNode
  rw [pathText_token pos (lt_of_getElem? here) (by rw [node]), File.nameOf, node]
  exact getD_of_getElem? named []

theorem token_spec {t : Table P} (wf : t.WF sdf) {text : Bytes} (nonempty : text ≠ [])
    (small : (t.token text).2.Small) :
    (t.token text).2.WF sdf ∧ 0 < (t.token text).1 ∧
      (t.token text).2.IsToken (t.token text).1 text := by
  have token : t.token text = (t.name text).2.node 0 (t.name text).1 .token := if_neg nonempty
  rw [token] at small ⊢
  obtain ⟨named, pos, here⟩ := name_spec wf nonempty (small.of_grows (node_grows _ _ _ _))
  have filled : 0 < (t.name text).2.paths.length := by
    refine List.length_pos_iff.mpr fun empty => ?_
    have head := named.valid.root
    rw [show (t.name text).2.file.paths = (t.name text).2.paths from rfl, empty] at head
    cases head
  have fits : (t.name text).2.Fits 0 (t.name text).1 .token :=
    ⟨Nat.ne_of_gt pos, lt_of_getElem? here, filled, Or.inr (Or.inr ⟨rfl, rfl⟩)⟩
  obtain ⟨wf', pos', node⟩ := node_spec named fits small
  exact ⟨wf', pos', (t.name text).1, node, Nat.ne_of_gt pos, here⟩

omit [DecidableEq P] in
theorem child_grows (parent : Nat × Table P) (name : Bytes) (kind : PathKind) :
    parent.2.file.Grows (Table.child parent name kind).2.file :=
  (name_grows _ _).trans (node_grows _ _ _ _)

theorem child_spec {parent : Nat × Table P} (wf : parent.2.WF sdf)
    (bound : parent.1 < parent.2.paths.length) {name : Bytes} (nonempty : name ≠ [])
    (component : isComponent name = true) {kind : PathKind}
    (below : (kind = .prim ∧ (parent.1 = 0 ∨ (parent.2.file.node parent.1).kind = .prim)) ∨
      (kind = .property ∧ parent.1 ≠ 0 ∧ (parent.2.file.node parent.1).kind = .prim))
    (small : (Table.child parent name kind).2.Small) :
    (Table.child parent name kind).2.WF sdf ∧ 0 < (Table.child parent name kind).1 ∧
      (Table.child parent name kind).1 < (Table.child parent name kind).2.paths.length ∧
      (Table.child parent name kind).2.file.pathText (Table.child parent name kind).1 =
        parent.2.file.pathText parent.1 ++ piece kind name := by
  have grows := child_grows parent name kind
  obtain ⟨named, pos, here⟩ := name_spec wf nonempty (small.of_grows (node_grows _ _ _ _))
  have component' :
      isComponent ((parent.2.name name).2.names.getD (parent.2.name name).1 []) = true := by
    rw [getD_of_getElem? here]
    exact component
  have fits : (parent.2.name name).2.Fits parent.1 (parent.2.name name).1 kind := by
    refine ⟨Nat.ne_of_gt pos, lt_of_getElem? here, bound, ?_⟩
    rcases below with ⟨prim, up⟩ | ⟨property, up, prim⟩
    · exact Or.inl ⟨prim, up, component'⟩
    · exact Or.inr (Or.inl ⟨property, up, prim, component'⟩)
  obtain ⟨wf', pos', node⟩ := node_spec named fits small
  have inside := lt_of_getElem? node
  refine ⟨wf', pos', inside, ?_⟩
  have entry : (Table.child parent name kind).2.file.node (Table.child parent name kind).1 =
      ⟨parent.1, (parent.2.name name).1, kind⟩ := getD_of_getElem? node rootNode
  have tree : (Table.child parent name kind).2.file.Tree (Table.child parent name kind).1 := by
    refine ⟨pos', inside, ?_⟩
    rw [entry]
    rcases below with ⟨prim, -⟩ | ⟨property, -⟩
    · exact Or.inl prim
    · exact Or.inr property
  have nameOf : (Table.child parent name kind).2.file.nameOf (Table.child parent name kind).1 =
      name := by
    rw [File.nameOf, entry]
    exact getD_of_getElem? here []
  rw [pathText_eq tree wf'.valid, ← piece_eq tree, entry, nameOf,
    grows.pathText wf.valid wf'.valid bound]

end Invariant

end RigExec.Paths
