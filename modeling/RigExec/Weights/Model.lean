/-
# `RigExec.Weights.Model` — weight records, their fields and their packets

A field is resolved by recursion over the records, to one weight for each element.  A packet is
built from the packets its record names, and is resolved to its elements at the end.

    float           any type with the operations in `Floats`
    TfToken         `String`
    int             `Int`
    a packet        kept as it was when a check rejected it, `valid` unset
    an error        the `string` the field writes, `""` where none was written
    scratch         `seen` is the list of the indices of the call; the sorted support is not kept

Volumes are left out: a record is static, dynamic or a combine.  An element's number is
compared with an `int` index as it is.
-/
import Mathlib.Data.List.Sort
import Mathlib.Data.Fin.Basic
import Mathlib.Data.Rat.Defs
import Mathlib.Algebra.Ring.Nat
import Mathlib.Algebra.Ring.Int.Defs

namespace RigExec.Weights

/-- The scalars of a record. -/
scoped instance scalarCount : NeZero 19 := ⟨Nat.succ_ne_zero 18⟩

/-! ## Floats -/

/-- The `float` operations of both evaluators, and what finite values promise of the
comparisons. -/
structure Floats (F : Type) where
  zero : F
  half : F
  one : F
  two : F
  isFinite : F → Bool
  /-- `a < b`. -/
  lt : F → F → Bool
  /-- `a <= b`. -/
  le : F → F → Bool
  /-- `a == b`. -/
  eq : F → F → Bool
  add : F → F → F
  sub : F → F → F
  mul : F → F → F
  /-- `1.0f / float(count)`. -/
  reciprocal : Nat → F
  finite_zero : isFinite zero = true
  finite_one : isFinite one = true
  le_of_finite : ∀ a b, isFinite a = true → isFinite b = true → le a b = !lt b a
  zero_not_lt : lt zero zero = false
  one_not_lt : lt one one = false
  one_not_lt_zero : lt one zero = false

section

variable {F : Type} (fl : Floats F)

/-- `std::max(a, b)`. -/
def Floats.max (a b : F) : F := if fl.lt a b = true then b else a

/-- `std::min(a, b)`. -/
def Floats.min (a b : F) : F := if fl.lt b a = true then b else a

/-- `std::min(std::max(w, 0.0f), 1.0f)`. -/
def Floats.clamp (w : F) : F := fl.min (fl.max w fl.zero) fl.one

/-- `w < 0 || w > 1`. -/
def Floats.outside (w : F) : Bool := fl.lt w fl.zero || fl.lt fl.one w

/-! ## Folds of fields -/

inductive WeightCombine where
  | multiply | add | subtract | max | min | average | overlay
deriving DecidableEq

/-- The mode a token names. -/
def combineModeOf (token : String) : Option WeightCombine :=
  if token = "multiply" then some .multiply
  else if token = "add" then some .add
  else if token = "subtract" then some .subtract
  else if token = "max" then some .max
  else if token = "min" then some .min
  else if token = "average" then some .average
  else if token = "overlay" then some .overlay
  else none

/-- `RigExecWeightCombineIdentity`, `none` a mode outside the enumeration. -/
def weightCombineIdentity : Option WeightCombine → F
  | some .multiply | some .min => fl.one
  | _ => fl.zero

def foldWeight (mode : Option WeightCombine) (acc value : F) : F :=
  match mode with
  | some .multiply => fl.mul acc value
  | some .add => fl.add acc value
  | some .subtract => fl.sub acc value
  | some .max => fl.max acc value
  | some .min => fl.min acc value
  | some .average => fl.add acc value
  | some .overlay =>
      if fl.lt acc fl.half = true then fl.mul (fl.mul fl.two acc) value
      else fl.sub fl.one
        (fl.mul (fl.mul fl.two (fl.sub fl.one acc)) (fl.sub fl.one value))
  | none => acc

/-- Whether the first input seeds the fold. -/
def seedFromFirst (mode : Option WeightCombine) : Bool :=
  mode = some .subtract || mode = some .overlay

/-- An input of a fold, refused without a text when its size is another. -/
def readInput {ι : Type} (resolve : ι → Except String (List F)) (elementCount : Nat) (input : ι) :
    Except String (List F) := do
  let data ← resolve input
  if data.length ≠ elementCount then throw "" else return data

/-- The inputs folded into a field that was seeded. -/
def foldInputs {ι : Type} (mode : Option WeightCombine) (elementCount : Nat)
    (resolve : ι → Except String (List F)) (seed : List F) (inputs : List ι) :
    Except String (List F) :=
  inputs.foldlM (fun out input => do
    let data ← readInput resolve elementCount input
    return out.zipWith (foldWeight fl mode) data) seed

def combineWeightFieldsStreamed {ι : Type} (mode : Option WeightCombine) (inputs : List ι)
    (elementCount : Nat) (resolve : ι → Except String (List F)) : Except String (List F) :=
  match inputs with
  | [] => .ok (List.replicate elementCount (weightCombineIdentity fl mode))
  | first :: rest =>
      let folded :=
        if seedFromFirst mode = true then
          (readInput resolve elementCount first).bind fun seed =>
            foldInputs fl mode elementCount resolve seed rest
        else
          foldInputs fl mode elementCount resolve
            (List.replicate elementCount (weightCombineIdentity fl mode)) (first :: rest)
      folded.map fun out =>
        if mode = some .average then
          out.map fun w => fl.mul w (fl.reciprocal (first :: rest).length)
        else out

/-- What a combine makes of a folded weight. -/
def combineRemap (strength invert w : F) : F :=
  fl.mul (fl.add w (fl.mul (fl.sub fl.one (fl.mul fl.two w)) invert)) strength

end

/-! ## Records -/

/-- The kinds of a record that is no volume. -/
inductive WeightKind where
  | static | dynamic | combine
deriving DecidableEq

structure WeightRecord (F : Type) where
  name : String
  kind : WeightKind
  representationToken : String := "constant"
  rangePolicy : String := "strict"
  combineToken : String := "multiply"
  /-- `-1` for none. -/
  base : Int := -1
  inputs : List Int := []
  indices : List Int := []
  values : List F := []
  staticError : String := ""

/-- `representation`, `-1` for another token. -/
def WeightRecord.representation {F : Type} (record : WeightRecord F) : Int :=
  if record.representationToken = "constant" then 0
  else if record.representationToken = "dense" then 1
  else if record.representationToken = "sparse" then 2
  else -1

def WeightRecord.clamp {F : Type} (record : WeightRecord F) : Bool :=
  record.rangePolicy = "clamp"

def WeightRecord.combineMode {F : Type} (record : WeightRecord F) : Option WeightCombine :=
  combineModeOf record.combineToken

structure WeightFieldInputs (F : Type) where
  scalars : Fin 19 → F
  blocked : Bool := false
  paintedArraysDeclared : Bool := false
  paintedValues : List F := []
  paintedIndices : List Int := []

/-- The scalars nothing was read for: the fallbacks of the driver, the scale and the strength
are `1`, those of the default weight, the bias and the invert `0`. -/
def unsetScalars {F : Type} (fl : Floats F) (member : Fin 19) : F :=
  if member = 0 ∨ member = 3 ∨ member = 5 ∨ member = 6 then fl.zero else fl.one

/-- The records and their inputs. -/
structure WeightProgram (F : Type) where
  records : List (WeightRecord F)
  inputs : List (WeightFieldInputs F)

section

variable {F : Type}

/-- A record with its inputs; none where one of the two is missing. -/
def WeightProgram.node (program : WeightProgram F) (id : Int) :
    Option (WeightRecord F × WeightFieldInputs F) :=
  if id < 0 then none
  else do
    let object ← program.records[id.toNat]?
    let input ← program.inputs[id.toNat]?
    return (object, input)

/-- The records a record names. -/
def WeightRecord.refs (record : WeightRecord F) : List Int :=
  match record.kind with
  | .static => []
  | .dynamic => if 0 ≤ record.base then [record.base] else []
  | .combine => record.inputs

/-- `id` names `child`. -/
def WeightProgram.Names (program : WeightProgram F) (id child : Int) : Prop :=
  ∃ object input, program.node id = some (object, input) ∧ child ∈ object.refs

/-- No record leads back to itself. -/
def WeightProgram.Acyclic (program : WeightProgram F) : Prop :=
  ∀ id, ¬ Relation.TransGen program.Names id id

/-- The painted values, or the record's own. -/
def paintedValues (object : WeightRecord F) (input : WeightFieldInputs F) : List F :=
  if input.paintedArraysDeclared = true then input.paintedValues else object.values

/-- The painted indices, or the record's own. -/
def paintedIndices (object : WeightRecord F) (input : WeightFieldInputs F) : List Int :=
  if input.paintedArraysDeclared = true then input.paintedIndices else object.indices

/-! ## Fields -/

variable (fl : Floats F)

/-- `(b * d) * s + a`. -/
def driven (driver scale bias b : F) : F := fl.add (fl.mul (fl.mul b driver) scale) bias

/-- The range check of a weight that was computed. -/
def checkWeight (clamp : Bool) (who nonFinite : String) (w : F) : Except String F :=
  if fl.isFinite w = false then throw (nonFinite ++ who)
  else if fl.outside w = true then
    if clamp = false then throw ("strict range violation on " ++ who) else return fl.clamp w
  else return w

/-- The range check of a weight that was painted. -/
def checkPainted (clamp : Bool) (who : String) (w : F) : Except String F :=
  if fl.isFinite w = false ∨ (clamp = false ∧ fl.outside w = true) then
    throw ("weight range violation on " ++ who)
  else if clamp = true then return fl.clamp w
  else return w

/-- The sparse entries written over the default, one after another. -/
def scatter (who : String) (count : Nat) (seen : List Int) (out : List F) :
    List (Int × F) → Except String (List F)
  | [] => return out
  | (index, value) :: entries =>
      if index < 0 ∨ (count : Int) ≤ index then throw ("sparse index out of range on " ++ who)
      else if index ∈ seen then throw ("duplicate sparse index on " ++ who)
      else scatter who count (index :: seen) (out.set index.toNat value) entries

/-- The field of a static record, before its range check. -/
def paintedField (object : WeightRecord F) (input : WeightFieldInputs F) (count : Nat) :
    Except String (List F) :=
  let defaultWeight := input.scalars 0
  let values := paintedValues object input
  let indices := paintedIndices object input
  if object.representation = 0 then
    if values.length ≠ 0 then throw ("constant weight must not author values on " ++ object.name)
    else return List.replicate count defaultWeight
  else if object.representation = 1 then
    if values.length ≠ count then throw ("dense weight cardinality mismatch on " ++ object.name)
    else if fl.eq defaultWeight fl.zero = false then
      throw ("dense weight requires canonical defaultWeight 0 on " ++ object.name)
    else return values
  else if object.representation = 2 then
    if indices.length ≠ values.length then
      throw ("sparse index/value size mismatch on " ++ object.name)
    else scatter object.name count [] (List.replicate count defaultWeight) (indices.zip values)
  else throw ("unknown weight representation on " ++ object.name)

/-- The static case of `Resolve`. -/
def resolveStatic (object : WeightRecord F) (input : WeightFieldInputs F) (count : Nat) :
    Except String (List F) :=
  (paintedField fl object input count).bind fun out =>
    out.mapM (checkPainted fl object.clamp object.name)

/-- `Resolve`, with `resolve` for the calls of it. -/
def resolveStep (program : WeightProgram F) (count : Nat) (resolve : Int → Except String (List F))
    (id : Int) : Except String (List F) :=
  match program.node id with
  | none => throw "weight input unavailable"
  | some (object, input) =>
      if input.blocked = true then throw "operation cycle"
      else if object.staticError ≠ "" then throw object.staticError
      else
        match object.kind with
        | .combine =>
            match combineWeightFieldsStreamed fl object.combineMode object.inputs count resolve with
            | .error error =>
                if error = "" then
                  throw (object.name ++ ": combine inputs disagree on element count")
                else throw error
            | .ok out =>
                (out.map (combineRemap fl (input.scalars 4) (input.scalars 5))).mapM
                  (checkWeight fl object.clamp object.name "non-finite weight on ")
        | .dynamic =>
            (if 0 ≤ object.base then resolve object.base
              else return List.replicate count fl.one).bind fun out =>
              out.mapM fun b =>
                checkWeight fl object.clamp object.name "non-finite dynamic weight on "
                  (driven fl (input.scalars 1) (input.scalars 2) (input.scalars 3) b)
        | .static => resolveStatic fl object input count

end

end RigExec.Weights
