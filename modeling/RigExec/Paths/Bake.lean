/-
# `RigExec.Paths.Bake` — a bake's path table, read back

`SdfPaths.Contract` is what the interning relies on in `SdfPath`: a path is known by its text, and
the text of a prim or of its property ends in its name.  Then every id keeps the text of its call,
and the names and nodes pass the validator.

    path_spec      `Path` gives a node with the text of the path
    run_spec       every id of a run of calls keeps what its call interned
    text_eq        the table's own text is the format's
-/
import RigExec.Lib.Hex
import RigExec.Paths.Interning

namespace RigExec.Paths

open Lib (Bytes)

variable {P : Type} [DecidableEq P] {sdf : SdfPaths P}

/-- What is relied on in `SdfPath`. -/
structure SdfPaths.Contract (sdf : SdfPaths P) : Prop where
  /-- a path is known by its text -/
  string_injective : ∀ p q, sdf.getString p = sdf.getString q → p = q
  /-- the empty path has no text -/
  empty_iff : ∀ p, sdf.isEmpty p = true ↔ sdf.getString p = []
  /-- the text of a prim ends in `/` and its name -/
  prim_string : ∀ p, sdf.isAbsolutePath p = true → sdf.isPrimPath p = true →
    sdf.containsPrimVariantSelection p = false →
    sdf.getString p =
      (if sdf.isAbsoluteRootPath (sdf.getParentPath p) then []
        else sdf.getString (sdf.getParentPath p)) ++ 47 :: sdf.getNameToken p
  /-- the text of a prim's property ends in `.` and its name -/
  property_string : ∀ p, sdf.isAbsolutePath p = true → sdf.isPrimPropertyPath p = true →
    sdf.containsPrimVariantSelection p = false →
    sdf.getString p = sdf.getString (sdf.getPrimPath p) ++ 46 :: sdf.getNameToken p

/-! ## `Path` -/

section Path

/-- A path whose name is one component below its parent or its prim. -/
structure SdfPaths.Component (sdf : SdfPaths P) (p : P) : Prop where
  nonempty : sdf.isEmpty p = false
  noVariant : sdf.containsPrimVariantSelection p = false
  named : sdf.getNameToken p ≠ []
  component : isComponent (sdf.getNameToken p) = true
  absolute : sdf.isAbsolutePath p = true

/-- The rule of `Path` on one table: what holds of the branches, the parent's or the prim's path
interned before, holds of the result. -/
theorem path_rule {t : Table P} {motive : P → Nat × Table P → Prop}
    (empty : ∀ p, sdf.isEmpty p = true → motive p (0, t))
    (held : ∀ p id, sdf.isEmpty p = false → t.pathIds.lookup p = some id → motive p (id, t))
    (outside : ∀ p, sdf.isEmpty p = false → t.pathIds.lookup p = none →
      motive p (Table.place sdf p (0, t)))
    (top : ∀ p, sdf.Component p → t.pathIds.lookup p = none → sdf.isPrimPath p = true →
      sdf.isAbsoluteRootPath (sdf.getParentPath p) = true →
      motive p (Table.place sdf p (Table.primIn (0, t) (sdf.getNameToken p))))
    (prim : ∀ p, sdf.Component p → t.pathIds.lookup p = none → sdf.isPrimPath p = true →
      sdf.isAbsoluteRootPath (sdf.getParentPath p) = false →
      motive (sdf.getParentPath p) (t.path sdf (sdf.getParentPath p)) →
      motive p (Table.place sdf p
        (Table.primIn (t.path sdf (sdf.getParentPath p)) (sdf.getNameToken p))))
    (property : ∀ p, sdf.Component p → t.pathIds.lookup p = none →
      sdf.isPrimPropertyPath p = true →
      motive (sdf.getPrimPath p) (t.path sdf (sdf.getPrimPath p)) →
      motive p (Table.place sdf p
        (Table.propertyIn (t.path sdf (sdf.getPrimPath p)) (sdf.getNameToken p)))) :
    ∀ p, motive p (t.path sdf p) := by
  intro p
  induction hn : sdf.getPathElementCount p using Nat.strong_induction_on generalizing p with
  | _ n ih =>
      subst hn
      rw [Table.path]
      split
      · rename_i h
        exact empty p h
      · rename_i h
        have nonempty : sdf.isEmpty p = false := by simpa using h
        split
        · rename_i id h
          exact held p id nonempty h
        · rename_i new
          dsimp only
          split
          · rename_i name
            split
            · rename_i isPrim
              have whole : sdf.Component p := ⟨nonempty, name.1, name.2.1, name.2.2, isPrim.1⟩
              split
              · rename_i root
                exact top p whole new isPrim.2 root
              · rename_i root
                refine prim p whole new isPrim.2 (by simpa using root) ?_
                exact ih _ (sdf.parent_lt p isPrim.1 isPrim.2) _ rfl
            · split
              · rename_i isProperty
                have whole : sdf.Component p :=
                  ⟨nonempty, name.1, name.2.1, name.2.2, isProperty.1⟩
                refine property p whole new isProperty.2 ?_
                exact ih _ (sdf.prim_lt p isProperty.1 isProperty.2) _ rfl
              · exact outside p nonempty new
          · exact outside p nonempty new

omit [DecidableEq P] in
theorem primIn_grows (parent : Nat × Table P) (name : Bytes) :
    parent.2.file.Grows (Table.primIn parent name).2.file := by
  unfold Table.primIn
  split
  · exact child_grows parent name .prim
  · exact File.Grows.refl _

omit [DecidableEq P] in
theorem propertyIn_grows (parent : Nat × Table P) (name : Bytes) :
    parent.2.file.Grows (Table.propertyIn parent name).2.file := by
  unfold Table.propertyIn
  split
  · exact child_grows parent name .property
  · exact File.Grows.refl _

theorem place_grows (p : P) (inTree : Nat × Table P) :
    inTree.2.file.Grows (Table.place sdf p inTree).2.file := by
  unfold Table.place
  by_cases none : inTree.1 = 0
  · rw [if_pos none]
    exact token_grows _ _
  · rw [if_neg none]
    exact File.Grows.refl _

theorem path_grows (t : Table P) (p : P) : t.file.Grows (t.path sdf p).2.file := by
  refine path_rule (motive := fun _ r => t.file.Grows r.2.file) ?_ ?_ ?_ ?_ ?_ ?_ p
  · intro p h
    exact File.Grows.refl _
  · intro p id h held
    exact File.Grows.refl _
  · intro p h new
    exact place_grows p (0, t)
  · intro p h new isPrim root
    exact (primIn_grows (0, t) _).trans (place_grows p _)
  · intro p h new isPrim root ih
    exact (ih.trans (primIn_grows _ _)).trans (place_grows p _)
  · intro p h new isProperty ih
    exact (ih.trans (propertyIn_grows _ _)).trans (place_grows p _)

omit [DecidableEq P] in
theorem pathIds_primIn (parent : Nat × Table P) (name : Bytes) :
    (Table.primIn parent name).2.pathIds = parent.2.pathIds := by
  unfold Table.primIn
  split <;> rfl

omit [DecidableEq P] in
theorem pathIds_propertyIn (parent : Nat × Table P) (name : Bytes) :
    (Table.propertyIn parent name).2.pathIds = parent.2.pathIds := by
  unfold Table.propertyIn
  split <;> rfl

omit [DecidableEq P] in
theorem pathIds_token (t : Table P) (text : Bytes) : (t.token text).2.pathIds = t.pathIds := by
  unfold Table.token
  split <;> rfl

theorem pathIds_place (p : P) (inTree : Nat × Table P) :
    (Table.place sdf p inTree).2.pathIds =
      (emplace inTree.2.pathIds p (Table.place sdf p inTree).1).2.2 := by
  unfold Table.place
  dsimp only
  by_cases none : inTree.1 = 0
  · rw [if_pos none, pathIds_token]
  · rw [if_neg none]

theorem path_keeps (t : Table P) {q : P} {id : Nat} (h : t.pathIds.lookup q = some id) (p : P) :
    (t.path sdf p).2.pathIds.lookup q = some id := by
  refine path_rule (motive := fun _ r => r.2.pathIds.lookup q = some id) ?_ ?_ ?_ ?_ ?_ ?_ p
  · intro p _
    exact h
  · intro p _ _ _
    exact h
  · intro p _ _
    rw [pathIds_place]
    exact emplace_keeps _ _ _ h
  · intro p _ _ _ _
    rw [pathIds_place, pathIds_primIn]
    exact emplace_keeps _ _ _ h
  · intro p _ _ _ _ ih
    rw [pathIds_place, pathIds_primIn]
    exact emplace_keeps _ _ _ ih
  · intro p _ _ _ ih
    rw [pathIds_place, pathIds_propertyIn]
    exact emplace_keeps _ _ _ ih

theorem path_frame (t : Table P) (p : P) : ∀ q,
    sdf.getPathElementCount p < sdf.getPathElementCount q →
      (t.path sdf p).2.pathIds.lookup q = t.pathIds.lookup q := by
  have differ : ∀ {p q : P}, sdf.getPathElementCount p < sdf.getPathElementCount q → q ≠ p := by
    intro p q longer same
    rw [same] at longer
    exact lt_irrefl _ longer
  refine path_rule (motive := fun p r => ∀ q,
    sdf.getPathElementCount p < sdf.getPathElementCount q →
      r.2.pathIds.lookup q = t.pathIds.lookup q) ?_ ?_ ?_ ?_ ?_ ?_ p
  · intro p _ q _
    rfl
  · intro p _ _ _ q _
    rfl
  · intro p _ _ q longer
    rw [pathIds_place, emplace_of_ne _ _ _ (differ longer)]
  · intro p _ _ _ _ q longer
    rw [pathIds_place, emplace_of_ne _ _ _ (differ longer), pathIds_primIn]
  · intro p h _ isPrim _ ih q longer
    rw [pathIds_place, emplace_of_ne _ _ _ (differ longer), pathIds_primIn]
    exact ih q (lt_trans (sdf.parent_lt p h.absolute isPrim) longer)
  · intro p h _ isProperty ih q longer
    rw [pathIds_place, emplace_of_ne _ _ _ (differ longer), pathIds_propertyIn]
    exact ih q (lt_trans (sdf.prim_lt p h.absolute isProperty) longer)

/-- What `Path` leaves. -/
structure Interns (sdf : SdfPaths P) (p : P) (r : Nat × Table P) : Prop where
  wf : r.2.WF sdf
  bound : r.1 < r.2.paths.length
  text : r.2.file.pathText r.1 = sdf.getString p
  zero : sdf.isEmpty p = true → r.1 = 0
  held : sdf.isEmpty p = false → 0 < r.1 ∧ r.2.pathIds.lookup p = some r.1

theorem length_pos {t : Table P} (wf : t.WF sdf) : 0 < t.paths.length := by
  refine List.length_pos_iff.mpr fun empty => ?_
  have head := wf.valid.root
  rw [show t.file.paths = t.paths from rfl, empty] at head
  cases head

theorem remember_spec {p : P} {r : Nat × Table P} (nonempty : sdf.isEmpty p = false)
    (wf : r.2.WF sdf) (pos : 0 < r.1) (bound : r.1 < r.2.paths.length)
    (text : r.2.file.pathText r.1 = sdf.getString p) (new : r.2.pathIds.lookup p = none) :
    Interns sdf p (r.1, { r.2 with pathIds := (emplace r.2.pathIds p r.1).2.2 }) := by
  have first : (emplace r.2.pathIds p r.1).1 = r.1 := by rw [emplace_of_none _ _ _ new]
  refine ⟨⟨wf.valid, wf.nameIds, wf.nodeIds, ?_⟩, bound, text, ?_, ?_⟩
  · intro q id h
    by_cases same : q = p
    · subst same
      rw [emplace_self, first] at h
      obtain rfl := Option.some.inj h
      exact ⟨pos, bound, text⟩
    · rw [emplace_of_ne _ _ _ same] at h
      exact wf.pathIds q id h
  · intro empty
    rw [nonempty] at empty
    cases empty
  · intro _
    refine ⟨pos, ?_⟩
    dsimp only
    rw [emplace_self, first]

theorem place_spec (contract : sdf.Contract) {p : P} {inTree : Nat × Table P}
    (nonempty : sdf.isEmpty p = false) (wf : inTree.2.WF sdf)
    (node : inTree.1 ≠ 0 → inTree.1 < inTree.2.paths.length ∧
      inTree.2.file.pathText inTree.1 = sdf.getString p)
    (new : inTree.2.pathIds.lookup p = none) (small : (Table.place sdf p inTree).2.Small) :
    Interns sdf p (Table.place sdf p inTree) := by
  have text : sdf.getString p ≠ [] := by
    intro empty
    rw [(contract.empty_iff p).mpr empty] at nonempty
    cases nonempty
  unfold Table.place at small ⊢
  dsimp only at small ⊢
  by_cases none : inTree.1 = 0
  · rw [if_pos none] at small ⊢
    obtain ⟨wf', pos, token⟩ := token_spec wf text small
    have text' := token.pathText pos
    obtain ⟨name, here, -⟩ := token
    exact remember_spec nonempty wf' pos (lt_of_getElem? here) text'
      (by rw [pathIds_token]; exact new)
  · rw [if_neg none] at small ⊢
    obtain ⟨bound, holds⟩ := node none
    exact remember_spec nonempty wf (Nat.pos_of_ne_zero none) bound holds new

theorem primIn_spec {parent : Nat × Table P} (wf : parent.2.WF sdf)
    (bound : parent.1 < parent.2.paths.length) {name : Bytes} (named : name ≠ [])
    (component : isComponent name = true) (small : (Table.primIn parent name).2.Small) :
    (Table.primIn parent name).2.WF sdf ∧
      ((Table.primIn parent name).1 ≠ 0 →
        (Table.primIn parent name).1 < (Table.primIn parent name).2.paths.length ∧
        (Table.primIn parent name).2.file.pathText (Table.primIn parent name).1 =
          parent.2.file.pathText parent.1 ++ 47 :: name) := by
  unfold Table.primIn at small ⊢
  split
  · rename_i below
    rw [if_pos below] at small
    obtain ⟨wf', -, bound', text⟩ := child_spec wf bound named component
      (Or.inl ⟨rfl, below⟩) small
    exact ⟨wf', fun _ => ⟨bound', text⟩⟩
  · exact ⟨wf, fun h => absurd rfl h⟩

theorem propertyIn_spec {parent : Nat × Table P} (wf : parent.2.WF sdf)
    (bound : parent.1 < parent.2.paths.length) {name : Bytes} (named : name ≠ [])
    (component : isComponent name = true) (small : (Table.propertyIn parent name).2.Small) :
    (Table.propertyIn parent name).2.WF sdf ∧
      ((Table.propertyIn parent name).1 ≠ 0 →
        (Table.propertyIn parent name).1 < (Table.propertyIn parent name).2.paths.length ∧
        (Table.propertyIn parent name).2.file.pathText (Table.propertyIn parent name).1 =
          parent.2.file.pathText parent.1 ++ 46 :: name) := by
  unfold Table.propertyIn at small ⊢
  split
  · rename_i below
    rw [if_pos below] at small
    obtain ⟨wf', -, bound', text⟩ := child_spec wf bound named component
      (Or.inr ⟨rfl, below⟩) small
    exact ⟨wf', fun _ => ⟨bound', text⟩⟩
  · exact ⟨wf, fun h => absurd rfl h⟩

/-- `Path` gives a node with the path's text, and remembers it. -/
theorem path_spec (contract : sdf.Contract) {t : Table P} (wf : t.WF sdf) (p : P)
    (small : (t.path sdf p).2.Small) : Interns sdf p (t.path sdf p) := by
  have frame : ∀ p q, sdf.getPathElementCount p < sdf.getPathElementCount q →
      (t.path sdf p).2.pathIds.lookup q = t.pathIds.lookup q := path_frame t
  revert small
  refine path_rule (motive := fun p r => r.2.Small → Interns sdf p r) ?_ ?_ ?_ ?_ ?_ ?_ p
  · intro p empty _
    refine ⟨wf, length_pos wf, ?_, fun _ => rfl, fun nonempty => ?_⟩
    · rw [pathText_zero, (contract.empty_iff p).mp empty]
    · rw [empty] at nonempty
      cases nonempty
  · intro p id nonempty held _
    obtain ⟨pos, bound, text⟩ := wf.pathIds p id held
    refine ⟨wf, bound, text, fun empty => ?_, fun _ => ⟨pos, held⟩⟩
    rw [nonempty] at empty
    cases empty
  · intro p nonempty new small
    exact place_spec contract nonempty wf (fun h => absurd rfl h) new small
  · intro p h new isPrim root small
    have text := contract.prim_string p h.absolute isPrim h.noVariant
    rw [if_pos root] at text
    have wfTop : ((0, t) : Nat × Table P).2.WF sdf := wf
    obtain ⟨wf', node⟩ := primIn_spec wfTop (length_pos wf) h.named h.component
      (small.of_grows (place_grows p _))
    refine place_spec contract h.nonempty wf' (fun ne => ?_)
      (by rw [pathIds_primIn]; exact new) small
    obtain ⟨bound, holds⟩ := node ne
    exact ⟨bound, by rw [holds, pathText_zero, text]⟩
  · intro p h new isPrim root ih small
    have text := contract.prim_string p h.absolute isPrim h.noVariant
    rw [if_neg (by rw [root]; decide)] at text
    have smallIn := small.of_grows (place_grows p _)
    have parent := ih (smallIn.of_grows (primIn_grows _ _))
    obtain ⟨wf', node⟩ := primIn_spec parent.wf parent.bound h.named h.component smallIn
    refine place_spec contract h.nonempty wf' (fun ne => ?_) ?_ small
    · obtain ⟨bound, holds⟩ := node ne
      exact ⟨bound, by rw [holds, parent.text, text]⟩
    · rw [pathIds_primIn, frame _ p (sdf.parent_lt p h.absolute isPrim)]
      exact new
  · intro p h new isProperty ih small
    have text := contract.property_string p h.absolute isProperty h.noVariant
    have smallIn := small.of_grows (place_grows p _)
    have parent := ih (smallIn.of_grows (propertyIn_grows _ _))
    obtain ⟨wf', node⟩ := propertyIn_spec parent.wf parent.bound h.named h.component smallIn
    refine place_spec contract h.nonempty wf' (fun ne => ?_) ?_ small
    · obtain ⟨bound, holds⟩ := node ne
      exact ⟨bound, by rw [holds, parent.text, text]⟩
    · rw [pathIds_propertyIn, frame _ p (sdf.prim_lt p h.absolute isProperty)]
      exact new

end Path

/-! ## Runs of calls -/

section Runs

/-- What an id keeps of the call that gave it. -/
def Table.Interned (sdf : SdfPaths P) (t : Table P) (id : Nat) : Call P → Prop
  | .path p => (sdf.isEmpty p = true ∧ id = 0) ∨
      (sdf.isEmpty p = false ∧ t.pathIds.lookup p = some id)
  | .token text => (text = [] ∧ id = 0) ∨ (0 < id ∧ t.IsToken id text)

theorem fresh_wf : (Table.fresh : Table P).WF sdf := by
  refine ⟨⟨rfl, List.not_mem_nil, List.nodup_nil, rfl, ?_, List.nodup_nil⟩, ?_, ?_, ?_⟩
  · intro i pos bound
    have one : i < 1 := bound
    omega
  · intro text id
    constructor
    · intro h
      cases h
    · rintro ⟨pos, here⟩
      rw [show (Table.fresh : Table P).names = [[]] from rfl,
        List.getElem?_eq_none (by rw [List.length_singleton]; omega)] at here
      cases here
  · intro parent name code id
    constructor
    · intro h
      cases h
    · rintro ⟨pos, kind, here, -⟩
      rw [show (Table.fresh : Table P).paths = [rootNode] from rfl,
        List.getElem?_eq_none (by rw [List.length_singleton]; omega)] at here
      cases here
  · intro p id h
    cases h

theorem call_grows (t : Table P) (c : Call P) : t.file.Grows (t.call sdf c).2.file := by
  cases c with
  | path p => exact path_grows t p
  | token text => exact token_grows t text

theorem run_grows (t : Table P) (calls : List (Call P)) :
    t.file.Grows (t.run sdf calls).2.file := by
  induction calls generalizing t with
  | nil => exact File.Grows.refl _
  | cons c calls ih => exact (call_grows t c).trans (ih _)

theorem call_spec (contract : sdf.Contract) {t : Table P} (wf : t.WF sdf) (c : Call P)
    (small : (t.call sdf c).2.Small) :
    (t.call sdf c).2.WF sdf ∧ (t.call sdf c).2.Interned sdf (t.call sdf c).1 c := by
  cases c with
  | path p =>
      have interns := path_spec contract wf p small
      refine ⟨interns.wf, ?_⟩
      cases empty : sdf.isEmpty p with
      | true => exact Or.inl ⟨empty, interns.zero empty⟩
      | false => exact Or.inr ⟨empty, (interns.held empty).2⟩
  | token text =>
      by_cases empty : text = []
      · have same : t.call sdf (.token text) = (0, t) := if_pos empty
        rw [same]
        exact ⟨wf, Or.inl ⟨empty, rfl⟩⟩
      · obtain ⟨wf', pos, token⟩ := token_spec wf empty small
        exact ⟨wf', Or.inr ⟨pos, token⟩⟩

theorem getElem?_of_isPrefix {α : Type} {l m : List α} (h : l <+: m) {i : Nat} {a : α}
    (here : l[i]? = some a) : m[i]? = some a := by
  obtain ⟨rest, rfl⟩ := h
  rw [List.getElem?_append_left (lt_of_getElem? here), here]

theorem Table.Interned.call {t : Table P} {id : Nat} {c : Call P} (h : t.Interned sdf id c)
    (later : Call P) : (t.call sdf later).2.Interned sdf id c := by
  have grows : t.file.Grows (t.call sdf later).2.file := call_grows t later
  cases c with
  | path p =>
      refine h.imp_right fun held => ⟨held.1, ?_⟩
      cases later with
      | path q => exact path_keeps t held.2 q
      | token text =>
          show (t.token text).2.pathIds.lookup p = some id
          rw [pathIds_token]
          exact held.2
  | token text =>
      refine h.imp_right fun held => ⟨held.1, ?_⟩
      obtain ⟨name, here, ne, named⟩ := held.2
      exact ⟨name, getElem?_of_isPrefix grows.2 here, ne, getElem?_of_isPrefix grows.1 named⟩

theorem Table.Interned.run {t : Table P} {id : Nat} {c : Call P} (h : t.Interned sdf id c)
    (calls : List (Call P)) : (t.run sdf calls).2.Interned sdf id c := by
  induction calls generalizing t with
  | nil => exact h
  | cons later calls ih => exact ih (h.call later)

theorem length_run (t : Table P) (calls : List (Call P)) :
    (t.run sdf calls).1.length = calls.length := by
  induction calls generalizing t with
  | nil => rfl
  | cons c calls ih => exact congrArg Nat.succ (ih _)

theorem run_spec (contract : sdf.Contract) {t : Table P} (wf : t.WF sdf) (calls : List (Call P))
    (small : (t.run sdf calls).2.Small) :
    (t.run sdf calls).2.WF sdf ∧
      ∀ (k : Nat) (id : Nat) (c : Call P), (t.run sdf calls).1[k]? = some id →
        calls[k]? = some c → (t.run sdf calls).2.Interned sdf id c := by
  induction calls generalizing t with
  | nil =>
      refine ⟨wf, fun k id c here _ => ?_⟩
      cases here
  | cons first calls ih =>
      obtain ⟨wf', interned⟩ := call_spec contract wf first
        (small.of_grows (run_grows _ calls))
      obtain ⟨wf'', later⟩ := ih wf' small
      refine ⟨wf'', fun k id c here call => ?_⟩
      cases k with
      | zero =>
          cases here
          cases call
          exact interned.run calls
      | succ k => exact later k id c here call

theorem Table.Interned.text (contract : sdf.Contract) {t : Table P} (wf : t.WF sdf) {id : Nat}
    {c : Call P} (h : t.Interned sdf id c) :
    id < t.paths.length ∧ t.file.pathText id = c.text sdf := by
  cases c with
  | path p =>
      rcases h with ⟨empty, rfl⟩ | ⟨-, held⟩
      · exact ⟨length_pos wf, by rw [pathText_zero]; exact ((contract.empty_iff p).mp empty).symm⟩
      · exact (wf.pathIds p id held).2
  | token text =>
      rcases h with ⟨rfl, rfl⟩ | ⟨pos, token⟩
      · exact ⟨length_pos wf, pathText_zero⟩
      · have text := token.pathText pos
        obtain ⟨name, here, -⟩ := token
        exact ⟨lt_of_getElem? here, text⟩

/-- Two calls of `Path` agree exactly on one path. -/
theorem Table.Interned.path_inj (contract : sdf.Contract) {t : Table P} (wf : t.WF sdf)
    {id id' : Nat} {p q : P} (hp : t.Interned sdf id (.path p))
    (hq : t.Interned sdf id' (.path q)) : id = id' ↔ p = q := by
  constructor
  · rintro rfl
    have textP := (hp.text contract wf).2
    have textQ := (hq.text contract wf).2
    exact contract.string_injective p q (textP.symm.trans textQ)
  · rintro rfl
    rcases hp with ⟨empty, rfl⟩ | ⟨nonempty, held⟩ <;>
      rcases hq with ⟨empty', rfl⟩ | ⟨nonempty', held'⟩
    · rfl
    · rw [empty] at nonempty'
      cases nonempty'
    · rw [empty'] at nonempty
      cases nonempty
    · rw [held] at held'
      exact Option.some.inj held'

/-- Two calls of `Token` agree exactly on one text. -/
theorem Table.Interned.token_inj (contract : sdf.Contract) {t : Table P} (wf : t.WF sdf)
    {id id' : Nat} {text text' : Bytes} (h : t.Interned sdf id (.token text))
    (h' : t.Interned sdf id' (.token text')) : id = id' ↔ text = text' := by
  constructor
  · rintro rfl
    have one := (h.text contract wf).2
    have other := (h'.text contract wf).2
    exact one.symm.trans other
  · rintro rfl
    rcases h with ⟨rfl, rfl⟩ | ⟨pos, name, here, ne, named⟩ <;>
      rcases h' with ⟨empty, rfl⟩ | ⟨pos', name', here', ne', named'⟩
    · rfl
    · exact absurd (List.mem_iff_getElem?.mpr
        ⟨name' - 1, by rw [List.getElem?_tail, Nat.sub_add_cancel (Nat.pos_of_ne_zero ne')]
                       exact named'⟩) wf.valid.names_ne
    · subst empty
      exact absurd (List.mem_iff_getElem?.mpr
        ⟨name - 1, by rw [List.getElem?_tail, Nat.sub_add_cancel (Nat.pos_of_ne_zero ne)]
                      exact named⟩) wf.valid.names_ne
    · -- one name, so one key, so one node
      have one := (wf.nameIds text name).mpr ⟨Nat.pos_of_ne_zero ne, named⟩
      have other := (wf.nameIds text name').mpr ⟨Nat.pos_of_ne_zero ne', named'⟩
      rw [one] at other
      obtain rfl := Option.some.inj other
      have node := (wf.nodeIds 0 name _ id).mpr ⟨pos, _, here, rfl⟩
      have node' := (wf.nodeIds 0 name _ id').mpr ⟨pos', _, here', rfl⟩
      rw [node] at node'
      exact Option.some.inj node'

end Runs

/-! ## The table's own text -/

section Texts

omit [DecidableEq P] in
/-- The loop of `Text` collects the chain the format collects. -/
theorem loop_textStep {t : Table P} (valid : t.file.Valid) {id : Nat} (hid : id < t.paths.length)
    {fuel : Nat} (hfuel : id ≤ fuel) (acc : List Nat) :
    ∃ last, Lib.loop t.textStep fuel (id, acc) = some (last, acc ++ t.file.chain id) := by
  have ended : ∀ fuel acc, Lib.loop t.textStep fuel (0, acc) = some (0, acc) := by
    intro fuel acc
    refine Lib.loop_of_none ?_ fuel
    rw [Table.textStep, if_neg (fun h => h.1 rfl)]
  induction id using Nat.strong_induction_on generalizing fuel acc with
  | _ id ih =>
      by_cases top : id = 0
      · subst top
        refine ⟨0, ?_⟩
        rw [ended, File.chain, if_neg (fun h => h.1 rfl), List.append_nil]
      · obtain ⟨fuel, rfl⟩ := Nat.exists_eq_succ_of_ne_zero (n := fuel) (by omega)
        have node := valid.node id (Nat.pos_of_ne_zero top) hid
        have below := node.parent_lt
        have notNone : (t.file.node id).kind ≠ .none := by
          rcases node.kind with ⟨h, -⟩ | ⟨h, -⟩ | ⟨h, -⟩ <;> rw [h] <;> decide
        by_cases token : (t.file.node id).kind = .token
        · have step : t.textStep (id, acc) = some (0, acc ++ [id]) := by
            rw [Table.textStep, if_pos ⟨top, hid⟩]
            exact if_pos token
          refine ⟨0, ?_⟩
          rw [Lib.loop_of_some step, ended, File.chain, if_pos ⟨top, hid, notNone⟩,
            if_pos (Or.inl token)]
        · have step : t.textStep (id, acc) = some ((t.file.node id).parent, acc ++ [id]) := by
            rw [Table.textStep, if_pos ⟨top, hid⟩]
            exact if_neg token
          obtain ⟨last, rest⟩ := ih _ below (lt_trans below hid)
            (show (t.file.node id).parent ≤ fuel by omega) (acc ++ [id])
          refine ⟨last, ?_⟩
          have chain : t.file.chain id = id :: t.file.chain (t.file.node id).parent := by
            rw [File.chain, if_pos ⟨top, hid, notNone⟩,
              if_neg (by push Not; exact ⟨token, below⟩)]
          rw [Lib.loop_of_some step, rest, List.append_assoc, List.singleton_append, chain]

omit [DecidableEq P] in
theorem text_eq {t : Table P} (valid : t.file.Valid) {fuel : Nat}
    (hfuel : t.paths.length ≤ fuel) (id : Nat) :
    t.text fuel id = some (t.file.pathText id) := by
  by_cases hid : id < t.paths.length
  · obtain ⟨last, run⟩ := loop_textStep valid hid (show id ≤ fuel by omega) []
    rw [Table.text, run]
    refine congrArg some ?_
    show List.foldl _ [] _ = List.foldl _ [] _
    congr 1
    funext text i
    show _ = text ++ piece (t.paths.getD i rootNode).kind
      (t.names.getD (t.paths.getD i rootNode).name [])
    dsimp only
    cases (t.paths.getD i rootNode).kind <;> simp [piece]
  · have stops : t.textStep (id, []) = none := by
      rw [Table.textStep, if_neg fun h => hid h.2]
    rw [Table.text, Lib.loop_of_none stops, File.pathText, File.chain,
      if_neg fun h => hid h.2.1]
    rfl

end Texts

/-! ## Round trip -/

section RoundTrip

omit [DecidableEq P] in
theorem valid_moveInto {t : Table P} (valid : t.file.Valid) (rig : Nat) :
    (t.moveInto rig).1.Valid where
  names_head := valid.names_head
  names_ne := valid.names_ne
  names_nodup := valid.names_nodup
  root := valid.root
  node i pos bound := by
    have node := valid.node i pos bound
    exact ⟨node.name_ne, node.name_lt, node.parent_lt, node.kind⟩
  nodup := valid.nodup

omit [DecidableEq P] in
theorem pathText_moveInto {t : Table P} (valid : t.file.Valid) (rig id : Nat) :
    (t.moveInto rig).1.pathText id = t.file.pathText id := by
  have grows : t.file.Grows (t.moveInto rig).1 := ⟨List.prefix_rfl, List.prefix_rfl⟩
  by_cases hid : id < t.paths.length
  · exact grows.pathText valid (valid_moveInto valid rig) hid
  · rw [File.pathText, File.pathText, File.chain, if_neg fun h => hid h.2.1, File.chain,
      if_neg fun h => hid h.2.1]
    rfl

/-- **A bake's path table.**  While a table's sizes fit 32 bits: the text of an id is that of its
call, then and after any more calls; two calls of `Path` give one id exactly for one path, two
calls of `Token` exactly for one text; a parent is below its node and every walk to the root
ends; and the file the table is moved into passes the validator's rules on paths, with the same
texts. -/
theorem pathTable_roundTrip (sdf : SdfPaths P) (contract : sdf.Contract)
    (before after : List (Call P))
    (small : (((Table.fresh : Table P).run sdf before).2.run sdf after).2.Small) :
    let ids := ((Table.fresh : Table P).run sdf before).1
    let table := ((Table.fresh : Table P).run sdf before).2
    let later := (table.run sdf after).2
    (∀ (k id : Nat) (c : Call P), ids[k]? = some id → before[k]? = some c →
      ∀ fuel, later.paths.length ≤ fuel →
        table.text fuel id = some (c.text sdf) ∧ later.text fuel id = some (c.text sdf)) ∧
    (∀ (j k id id' : Nat) (p q : P), ids[j]? = some id → before[j]? = some (.path p) →
      ids[k]? = some id' → before[k]? = some (.path q) → (id = id' ↔ p = q)) ∧
    (∀ (j k id id' : Nat) (text text' : Bytes), ids[j]? = some id → before[j]? = some (.token text) →
      ids[k]? = some id' → before[k]? = some (.token text') → (id = id' ↔ text = text')) ∧
    (∀ i, i < table.paths.length →
      (0 < i → (table.paths.getD i rootNode).parent < i) ∧
      ∃ k ≤ i, (fun i => (table.paths.getD i rootNode).parent)^[k] i = 0) ∧
    (∀ rig, (table.moveInto rig).1.pathId rig rolePrim "file" "rig" = .ok () →
      ∃ depth, (table.moveInto rig).1.checkPaths = .ok depth) ∧
    (∀ rig id fuel, table.paths.length ≤ fuel →
      table.text fuel id = some ((table.moveInto rig).1.pathText id)) := by
  intro ids table later
  have growsLater : table.file.Grows later.file := run_grows table after
  obtain ⟨wf, interned⟩ := run_spec contract fresh_wf before (small.of_grows growsLater)
  obtain ⟨wfLater, -⟩ := run_spec contract wf after small
  have longer : table.paths.length ≤ later.paths.length := growsLater.2.length_le
  refine ⟨?_, ?_, ?_, ?_, ?_, ?_⟩
  · intro k id c here call fuel hfuel
    have held := interned k id c here call
    rw [text_eq wf.valid (le_trans longer hfuel), text_eq wfLater.valid hfuel]
    exact ⟨congrArg some (held.text contract wf).2,
      congrArg some ((held.run after).text contract wfLater).2⟩
  · intro j k id id' p q hj cj hk ck
    exact (interned j id _ hj cj).path_inj contract wf (interned k id' _ hk ck)
  · intro j k id id' text text' hj cj hk ck
    exact (interned j id _ hj cj).token_inj contract wf (interned k id' _ hk ck)
  · intro i hi
    exact ⟨fun pos => (wf.valid.node i pos hi).parent_lt, walk_ends wf.valid hi⟩
  · intro rig isRig
    exact ⟨_, checkPaths_eq_ok.mpr ⟨valid_moveInto wf.valid rig, isRig, rfl⟩⟩
  · intro rig id fuel hfuel
    rw [pathText_moveInto wf.valid, text_eq wf.valid hfuel]

/-- The paths of a small stage: the empty path, `/`, `/a`, `/a/b` and `/a.x`. -/
inductive StagePath where
  | empty
  | root
  | prim
  | child
  | property
  deriving DecidableEq

/-- `SdfPath` on them. -/
def stagePaths : SdfPaths StagePath where
  isEmpty p := p = .empty
  isAbsolutePath p := p ≠ .empty
  isAbsoluteRootPath p := p = .root
  containsPrimVariantSelection _ := false
  isPrimPath p := p = .prim || p = .child
  isPrimPropertyPath p := p = .property
  getNameToken p := match p with
    | .empty => []
    | .root => []
    | .prim => [97]
    | .child => [98]
    | .property => [120]
  getParentPath p := match p with
    | .empty => .empty
    | .root => .empty
    | .prim => .root
    | .child => .prim
    | .property => .prim
  getPrimPath p := match p with
    | .property => .prim
    | p => p
  getString p := match p with
    | .empty => []
    | .root => [47]
    | .prim => [47, 97]
    | .child => [47, 97, 47, 98]
    | .property => [47, 97, 46, 120]
  getPathElementCount p := match p with
    | .empty => 0
    | .root => 0
    | .prim => 1
    | .child => 2
    | .property => 2
  parent_lt p := by cases p <;> decide
  prim_lt p := by cases p <;> decide

theorem stagePaths_contract : stagePaths.Contract where
  string_injective p q := by cases p <;> cases q <;> decide
  empty_iff p := by cases p <;> decide
  prim_string p := by cases p <;> decide
  property_string p := by cases p <;> decide

/-- A property interned before its prim, and a token spelled like it. -/
def stageCalls : List (Call StagePath) :=
  [.path .property, .token [47, 97, 46, 120], .path .child, .path .root, .path .property]

theorem pathTable_roundTrip_stage :
    ((Table.fresh : Table StagePath).run stagePaths stageCalls).1 = [2, 3, 4, 5, 2] ∧
      ((Table.fresh : Table StagePath).run stagePaths stageCalls).2.text 6 2 =
        some [47, 97, 46, 120] ∧
      ((Table.fresh : Table StagePath).run stagePaths stageCalls).2.text 6 5 = some [47] := by
  have ids : ((Table.fresh : Table StagePath).run stagePaths stageCalls).1 = [2, 3, 4, 5, 2] := by
    decide +kernel
  have small : (((Table.fresh : Table StagePath).run stagePaths stageCalls).2.run stagePaths
      []).2.Small := by
    constructor <;> decide +kernel
  have size : ((Table.fresh : Table StagePath).run stagePaths stageCalls).2.paths.length ≤ 6 := by
    decide +kernel
  have texts := (pathTable_roundTrip stagePaths stagePaths_contract stageCalls [] small).1
  rw [ids] at texts
  exact ⟨ids, (texts 0 2 (.path .property) rfl rfl 6 size).1,
    (texts 3 5 (.path .root) rfl rfl 6 size).1⟩

end RoundTrip

/-! ## Beyond 32 bits -/

section Overflow

theorem run_append (t : Table P) (before after : List (Call P)) :
    t.run sdf (before ++ after) =
      ((t.run sdf before).1 ++ ((t.run sdf before).2.run sdf after).1,
        ((t.run sdf before).2.run sdf after).2) := by
  induction before generalizing t with
  | nil => rfl
  | cons c before ih =>
      rw [List.cons_append, Table.run, ih]
      rfl

theorem token_of_new {t : Table P} (wf : t.WF sdf) (small : t.names.length ≤ 2 ^ 32)
    {text : Bytes} (nonempty : text ≠ []) (new : text ∉ t.names) :
    (t.token text).1 = uint32 t.paths.length ∧ (t.token text).2.names = t.names ++ [text] ∧
      (t.token text).2.paths.length = t.paths.length + 1 := by
  have noName : t.nameIds.lookup text = none := by
    refine Option.eq_none_iff_forall_ne_some.mpr fun id h => new ?_
    exact List.mem_of_getElem? ((wf.nameIds text id).mp h).2
  have named : t.name text = (uint32 t.names.length,
      { t with
        names := t.names ++ [text]
        nameIds := (text, uint32 t.names.length) :: t.nameIds }) := by
    rw [Table.name, emplace_of_none _ _ _ noName]
    rfl
  -- no node has the new name's id: it is past every name's, or 0
  have noNode : t.nodeIds.lookup (0, uint32 t.names.length, PathKind.token.code) = none := by
    refine Option.eq_none_iff_forall_ne_some.mpr fun id h => ?_
    obtain ⟨pos, kind, here, -⟩ := (wf.nodeIds _ _ _ id).mp h
    have node : t.file.node id = ⟨0, uint32 t.names.length, kind⟩ := getD_of_getElem? here rootNode
    have valid := wf.valid.node id pos (lt_of_getElem? here)
    have ne := valid.name_ne
    have lt : (t.file.node id).name < t.names.length := valid.name_lt
    rw [node] at ne lt
    dsimp only at ne lt
    rcases Nat.lt_or_eq_of_le small with below | full
    · rw [uint32_of_lt below] at lt
      exact absurd lt (lt_irrefl _)
    · rw [full, uint32, Nat.mod_self] at ne
      exact ne rfl
  have token : t.token text = (t.name text).2.node 0 (t.name text).1 .token := if_neg nonempty
  rw [token, named, Table.node]
  dsimp only
  rw [emplace_of_none _ _ _ noNode]
  refine ⟨rfl, rfl, ?_⟩
  rw [if_pos rfl, List.length_append, List.length_singleton]

/-- The `i`th token, in eight digits. -/
def spelled (i : Nat) : Bytes := (Lib.hexDigits 8 i).map fun c => UInt8.ofNat c.toNat

theorem spelled_ne_nil (i : Nat) : spelled i ≠ [] := by
  intro empty
  have length := congrArg List.length empty
  rw [spelled, List.length_map, Lib.length_hexDigits] at length
  cases length

theorem spelled_inj {i j : Nat} (hi : i < 2 ^ 32) (hj : j < 2 ^ 32) (same : spelled i = spelled j) :
    i = j := by
  have back : Lib.hexAlphabet.all (fun c => Char.ofNat (UInt8.ofNat c.toNat).toNat == c) = true := by
    decide
  have digits : ∀ i, (spelled i).map (fun byte => Char.ofNat byte.toNat) = Lib.hexDigits 8 i := by
    intro i
    rw [spelled, List.map_map]
    refine (List.map_congr_left fun c mem => ?_).trans (List.map_id _)
    exact eq_of_beq (List.all_eq_true.mp back c
      (Lib.isHexDigit_iff.mp (Lib.isHexDigit_of_mem_hexDigits mem)))
  have span : Lib.hexSpan 8 = 2 ^ 32 := by decide
  calc
    i = Lib.readHex (Lib.hexDigits 8 i) := (Lib.readHex_hexDigits (span ▸ hi)).symm
    _ = Lib.readHex (Lib.hexDigits 8 j) := by rw [← digits i, ← digits j, same]
    _ = j := Lib.readHex_hexDigits (span ▸ hj)

/-- The first `n` tokens. -/
def manyTokens (n : Nat) : List (Call P) := (List.range n).map fun i => .token (spelled i)

omit [DecidableEq P] in
theorem manyTokens_succ (n : Nat) :
    manyTokens (P := P) (n + 1) = manyTokens n ++ [.token (spelled n)] := by
  rw [manyTokens, List.range_succ, List.map_append]
  rfl

omit [DecidableEq P] in
theorem manyTokens_new {t : Table P} {n : Nat} (hn : n < 2 ^ 32)
    (names : t.names = [] :: (List.range n).map spelled) : spelled n ∉ t.names := by
  rw [names]
  intro mem
  rcases List.mem_cons.mp mem with empty | mem
  · exact spelled_ne_nil n empty
  · obtain ⟨i, hi, same⟩ := List.mem_map.mp mem
    have bound := List.mem_range.mp hi
    exact bound.ne (spelled_inj (by omega) hn same)

theorem manyTokens_run (contract : sdf.Contract) (n : Nat) (hn : n < 2 ^ 32) :
    ((Table.fresh : Table P).run sdf (manyTokens n)).2.names = [] :: (List.range n).map spelled ∧
      ((Table.fresh : Table P).run sdf (manyTokens n)).2.paths.length = n + 1 ∧
      ((Table.fresh : Table P).run sdf (manyTokens n)).2.WF sdf := by
  induction n with
  | zero => exact ⟨rfl, rfl, fresh_wf⟩
  | succ n ih =>
      obtain ⟨names, paths, wf⟩ := ih (by omega)
      have length : ((Table.fresh : Table P).run sdf (manyTokens n)).2.names.length = n + 1 := by
        rw [names, List.length_cons, List.length_map, List.length_range]
      obtain ⟨-, names', paths'⟩ := token_of_new wf (by omega) (spelled_ne_nil n)
        (manyTokens_new (by omega) names)
      have run : ((Table.fresh : Table P).run sdf (manyTokens (n + 1))).2 =
          (((Table.fresh : Table P).run sdf (manyTokens n)).2.token (spelled n)).2 := by
        rw [manyTokens_succ, run_append]
        rfl
      have names'' : ((Table.fresh : Table P).run sdf (manyTokens (n + 1))).2.names =
          [] :: (List.range (n + 1)).map spelled := by
        rw [run, names', names, List.range_succ, List.map_append]
        rfl
      have paths'' : ((Table.fresh : Table P).run sdf (manyTokens (n + 1))).2.paths.length =
          n + 1 + 1 := by
        rw [run, paths', paths]
      have small : ((Table.fresh : Table P).run sdf (manyTokens (n + 1))).2.Small := by
        refine ⟨?_, ?_⟩
        · rw [names'', List.length_cons, List.length_map, List.length_range]
          omega
        · rw [paths'']
          omega
      exact ⟨names'', paths'', (run_spec contract fresh_wf _ small).1⟩

theorem manyTokens_overflow (contract : sdf.Contract) (n : Nat) (hn : n + 1 = 2 ^ 32) :
    ((Table.fresh : Table P).run sdf (manyTokens (n + 1))).1[n]? = some 0 := by
  obtain ⟨names, paths, wf⟩ := manyTokens_run (P := P) contract n (by omega)
  have length : ((Table.fresh : Table P).run sdf (manyTokens n)).2.names.length = n + 1 := by
    rw [names, List.length_cons, List.length_map, List.length_range]
  obtain ⟨id, -, -⟩ := token_of_new wf (by omega) (spelled_ne_nil n)
    (manyTokens_new (by omega) names)
  have ids : ((Table.fresh : Table P).run sdf (manyTokens n)).1.length = n := by
    rw [length_run, manyTokens, List.length_map, List.length_range]
  rw [manyTokens_succ, run_append, List.getElem?_append_right (by omega), ids, Nat.sub_self]
  refine congrArg some (id.trans ?_)
  rw [paths, hn, uint32, Nat.mod_self]

/-- After 2^32 different tokens of eight digits the last one has id 0, whose text is empty. -/
theorem pathTable_overflows :
    (manyTokens (2 ^ 32))[2 ^ 32 - 1]? =
        some (Call.token (P := StagePath) (spelled (2 ^ 32 - 1))) ∧
      ((Table.fresh : Table StagePath).run stagePaths (manyTokens (2 ^ 32))).1[2 ^ 32 - 1]? =
        some 0 ∧
      ∀ fuel, ((Table.fresh : Table StagePath).run stagePaths (manyTokens (2 ^ 32))).2.text fuel 0 ≠
        some (spelled (2 ^ 32 - 1)) := by
  have last : 2 ^ 32 - 1 + 1 = 2 ^ 32 := by omega
  refine ⟨?_, ?_, fun fuel => ?_⟩
  · rw [manyTokens, List.getElem?_map, List.getElem?_range (by omega), Option.map_some]
  · have overflow := manyTokens_overflow stagePaths_contract (2 ^ 32 - 1) last
    rwa [last] at overflow
  · have stops : ∀ t : Table StagePath, t.textStep (0, []) = none := by
      intro t
      rw [Table.textStep, if_neg fun h => h.1 rfl]
    have text : ∀ t : Table StagePath, t.text fuel 0 = some [] := by
      intro t
      rw [Table.text, Lib.loop_of_none (stops t)]
      rfl
    rw [text]
    intro empty
    exact spelled_ne_nil _ (Option.some.inj empty).symm

end Overflow

end RigExec.Paths
