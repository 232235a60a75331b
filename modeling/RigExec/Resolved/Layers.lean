/-
# `RigExec.Resolved.Layers` — resolved inputs over a chain of bases

`RigExecResolvedInputs` holds the values that a generation has computed, by path.  An overlay stands
over a base that it borrows: what it holds hides what the base holds, and so does the mark of what
it erased.

    find            the first layer that holds the path, or has erased it, answers
    detachedCopy    the same answers in one layer without marks
    flat            what the layers come to: one map
-/
import RigExec.Lib.OrderedMap

namespace RigExec.Resolved

open Lib (OrderedMap)

/-! ## Values -/

/-- The C++ type that a read asks for, or that a value or an attribute has. -/
inductive ValueType where
  | float
  | double
  | other (name : String)
  deriving DecidableEq

/-- `VtValue`, with a value in it. -/
structure VtValue (V : Type) where
  type : ValueType
  payload : V
  deriving DecidableEq

/-- `VtValue::operator==`. -/
instance {V : Type} [BEq V] : BEq (VtValue V) where
  beq v w := v.type == w.type && v.payload == w.payload

variable {Path V : Type} [LinearOrder Path]

/-- `value.IsHolding<T>()`, and the value. -/
def VtValue.holding (T : ValueType) (value : VtValue V) : Option V :=
  if value.type = T then some value.payload else none

/-! ## The chain -/

/-- What one `RigExecResolvedInputs` holds of its own. -/
structure Layer (Path V : Type) [LinearOrder Path] where
  /-- `_values`. -/
  values : OrderedMap Path (VtValue V) := ∅
  /-- `_erased`. -/
  erased : List Path := []

structure ResolvedInputs (Path V : Type) [LinearOrder Path] where
  own : Layer Path V := {}
  /-- `_base`, its base, and so on. -/
  bases : List (Layer Path V) := []
  /-- Whether the owner's static-input cache is attached: `_cache`. -/
  cached : Bool := false

/-- `Find`, over the layers from the top. -/
def findIn (path : Path) : List (Layer Path V) → Option (VtValue V)
  | [] => none
  | layer :: bases =>
      match layer.values.find? path with
      | some value => some value
      | none => if layer.erased.contains path then none else findIn path bases

/-- The `_values` of a layer over those of what it stands on: `DetachedCopy`. -/
def overlaid (layer : Layer Path V) (values : OrderedMap Path (VtValue V)) :
    OrderedMap Path (VtValue V) :=
  layer.values.rows.foldl (fun values entry => values.insert entry.1 entry.2)
    (layer.erased.foldl (fun values path => values.erase path) values)

/-- The `_values` of a detached copy. -/
def detachedIn : List (Layer Path V) → OrderedMap Path (VtValue V)
  | [] => ∅
  | layer :: bases => overlaid layer (detachedIn bases)

namespace ResolvedInputs

variable (r : ResolvedInputs Path V)

/-- The layers, from the top. -/
def layers : List (Layer Path V) := r.own :: r.bases

def find (path : Path) : Option (VtValue V) := findIn path r.layers

/-- `_base->Find`. -/
def findInBase (path : Path) : Option (VtValue V) := findIn path r.bases

def get (T : ValueType) (path : Path) : Option V := (r.find path).bind (VtValue.holding T)

def setProperty (path : Path) (value : VtValue V) : ResolvedInputs Path V :=
  { r with
    own :=
      { values := r.own.values.insert path value
        erased := r.own.erased.filter (· ≠ path) } }

def clearProperty (path : Path) : ResolvedInputs Path V :=
  { r with
    own :=
      { values := r.own.values.erase path
        erased :=
          if (r.findInBase path).isSome then r.own.erased.insert path else r.own.erased } }

/-- `SetChainedBase`; no base stands for a null one, and for the object itself. -/
def setChainedBase : Option (ResolvedInputs Path V) → ResolvedInputs Path V
  | none => { r with own := {}, bases := [] }
  | some base => { own := {}, bases := base.layers, cached := base.cached }

def detachedCopy : ResolvedInputs Path V where
  own := { values := detachedIn r.layers }
  cached := r.cached

def clear : ResolvedInputs Path V := { r with own := {}, bases := [] }

def getSize : Nat :=
  if r.bases = [] then r.own.values.size else r.detachedCopy.own.values.size

def isEmpty : Bool := r.getSize = 0

def hasSameValues [BEq V] (other : ResolvedInputs Path V) : Bool :=
  r.detachedCopy.own.values == other.detachedCopy.own.values

def setStaticCache (attached : Bool) : ResolvedInputs Path V := { r with cached := attached }

end ResolvedInputs

/-! ## What the layers come to -/

theorem find?_foldl_insert {entries : List (Path × VtValue V)}
    (values : OrderedMap Path (VtValue V)) (hnodup : (entries.map Prod.fst).Nodup) (path : Path) :
    (entries.foldl (fun values entry => values.insert entry.1 entry.2) values).find? path
      = ((entries.find? fun entry => entry.1 = path).map Prod.snd).or (values.find? path) := by
  induction entries generalizing values with
  | nil => rfl
  | cons entry entries ih =>
      rw [List.map_cons, List.nodup_cons] at hnodup
      rw [List.foldl_cons, ih _ hnodup.2, OrderedMap.find?_insert, List.find?_cons]
      by_cases heq : entry.1 = path
      · have hnone : (entries.find? fun other => other.1 = path) = none := by
          refine List.find?_eq_none.mpr fun other hother hsame => hnodup.1 ?_
          rw [heq, ← of_decide_eq_true hsame]
          exact List.mem_map_of_mem hother
        rw [hnone, if_pos heq.symm, decide_eq_true heq]
        rfl
      · rw [if_neg (Ne.symm heq), decide_eq_false heq]

theorem find?_foldl_erase {paths : List Path} (values : OrderedMap Path (VtValue V))
    (path : Path) : (paths.foldl (fun values erased => values.erase erased) values).find? path
      = if paths.contains path then none else values.find? path := by
  induction paths generalizing values with
  | nil => rfl
  | cons erased paths ih =>
      rw [List.foldl_cons, ih, OrderedMap.find?_erase, List.contains_cons]
      by_cases heq : path = erased
      · simp [heq]
      · simp [heq]

theorem find?_overlaid (layer : Layer Path V) (values : OrderedMap Path (VtValue V))
    (path : Path) : (overlaid layer values).find? path
      = (layer.values.find? path).or
          (if layer.erased.contains path then none else values.find? path) := by
  rw [overlaid, find?_foldl_insert _ layer.values.keys_nodup, find?_foldl_erase]
  rfl

/-- **The layers and their detached copy give the same answers.** -/
theorem find?_detachedIn (layers : List (Layer Path V)) (path : Path) :
    (detachedIn layers).find? path = findIn path layers := by
  induction layers with
  | nil => rfl
  | cons layer bases ih =>
      rw [detachedIn, find?_overlaid, ih, findIn]
      cases layer.values.find? path <;> rfl

namespace ResolvedInputs

/-- What the layers come to. -/
def flat (r : ResolvedInputs Path V) : OrderedMap Path (VtValue V) := detachedIn r.layers

variable (r : ResolvedInputs Path V)

theorem find?_flat (path : Path) : r.flat.find? path = r.find path :=
  find?_detachedIn r.layers path

theorem find_detachedCopy (path : Path) : r.detachedCopy.find path = r.find path := by
  rw [← find?_flat r, find, layers, findIn]
  show (match r.flat.find? path with
    | some value => some value
    | none => none) = r.flat.find? path
  cases r.flat.find? path <;> rfl

theorem flat_eq_of_find {r s : ResolvedInputs Path V} (h : ∀ path, r.find path = s.find path) :
    r.flat = s.flat := by
  refine OrderedMap.ext_find? fun path => ?_
  rw [find?_flat, find?_flat, h]

theorem flat_detachedCopy : r.detachedCopy.flat = r.flat :=
  flat_eq_of_find r.find_detachedCopy

theorem getSize_eq : r.getSize = r.flat.size := by
  unfold getSize
  split
  · rename_i hbase
    have hown : ∀ path, r.own.values.find? path = r.find path := by
      intro path
      rw [find, layers, findIn, hbase]
      cases r.own.values.find? path with
      | some value => rfl
      | none => simp [findIn]
    have hsame : r.own.values = r.flat := OrderedMap.ext_find? fun path => by
      rw [hown, find?_flat]
    rw [hsame]
  · rfl

theorem isEmpty_iff : r.isEmpty = true ↔ ∀ path, r.find path = none := by
  rw [isEmpty, decide_eq_true_eq, getSize_eq]
  constructor
  · intro hsize path
    have hrows : r.flat.rows = [] := List.eq_nil_of_length_eq_zero hsize
    rw [← find?_flat, OrderedMap.find?, hrows]
    rfl
  · intro hnone
    have hempty : r.flat = ∅ := OrderedMap.ext_find? fun path => by
      rw [find?_flat, hnone]
      rfl
    rw [hempty]
    rfl

/-! ## The operations -/

/-- What is done to the top layer. -/
inductive Edit (Path V : Type) [LinearOrder Path] where
  | setProperty (path : Path) (value : VtValue V)
  | clearProperty (path : Path)
  | setChainedBase (base : Option (ResolvedInputs Path V))
  | clear

/-- One operation. -/
def edit : Edit Path V → ResolvedInputs Path V
  | .setProperty path value => r.setProperty path value
  | .clearProperty path => r.clearProperty path
  | .setChainedBase base => r.setChainedBase base
  | .clear => r.clear

/-- The same operation on one map. -/
def editFlat (values : OrderedMap Path (VtValue V)) : Edit Path V → OrderedMap Path (VtValue V)
  | .setProperty path value => values.insert path value
  | .clearProperty path => values.erase path
  | .setChainedBase none => ∅
  | .setChainedBase (some base) => base.flat
  | .clear => ∅

theorem find_setProperty (path other : Path) (value : VtValue V) :
    (r.setProperty path value).find other = if other = path then some value else r.find other := by
  rw [find, layers, findIn, find, layers, findIn, setProperty, OrderedMap.find?_insert]
  by_cases heq : other = path
  · rw [if_pos heq, if_pos heq]
  · rw [if_neg heq, if_neg heq]
    cases r.own.values.find? other with
    | some found => rfl
    | none => simp [heq]

theorem find_clearProperty (path other : Path) :
    (r.clearProperty path).find other = if other = path then none else r.find other := by
  rw [find, layers, findIn, find, layers, findIn, clearProperty, OrderedMap.find?_erase]
  by_cases heq : other = path
  · rw [if_pos heq, if_pos heq, heq]
    cases hbase : r.findInBase path with
    | some found => simp
    | none =>
        rw [findInBase] at hbase
        simp [hbase]
  · rw [if_neg heq, if_neg heq]
    cases r.own.values.find? other with
    | some found => rfl
    | none =>
        have hmark : (if (r.findInBase path).isSome then r.own.erased.insert path
            else r.own.erased).contains other = r.own.erased.contains other := by
          split
          · simp [heq]
          · rfl
        rw [hmark]

theorem flat_edit (e : Edit Path V) : (r.edit e).flat = editFlat r.flat e := by
  refine OrderedMap.ext_find? fun other => ?_
  rw [find?_flat]
  cases e with
  | setProperty path value =>
      rw [edit, editFlat, find_setProperty, OrderedMap.find?_insert, find?_flat]
  | clearProperty path =>
      rw [edit, editFlat, find_clearProperty, OrderedMap.find?_erase, find?_flat]
  | setChainedBase base =>
      cases base with
      | none => rfl
      | some base =>
          rw [editFlat, find?_flat]
          rfl
  | clear => rfl

/-- **Any operations on the layers are the operations on one map.** -/
theorem flat_foldl_edit (edits : List (Edit Path V)) :
    (edits.foldl edit r).flat = edits.foldl editFlat r.flat := by
  induction edits generalizing r with
  | nil => rfl
  | cons e edits ih => rw [List.foldl_cons, List.foldl_cons, ih, flat_edit]

end ResolvedInputs

end RigExec.Resolved
