/-
# `RigExec.Skin.Model` — skin layouts as a file stores them

A layout is rows of influence indices and weights, an element size wide.  A file keeps each row up
to its trailing run of index `0` and weight `+0`, or, where the arrays are no rows, the arrays as
they are (`RigExecFormatTopology`).

    float              its 32 bits
    int32_t            `Int`
    a null pointer     `none`, of `out` and `error`
    uint8_t(i)         `UInt8.ofInt`
    an entry           an index with its weight

`RigExecFormatExpandTopology` writes a row at a time, and so does the model.
-/
import Mathlib.Data.List.DropRight
import Mathlib.Data.Int.Order.Basic
import Mathlib.Algebra.Group.Nat.Defs
import Mathlib.Algebra.Ring.Int.Defs

namespace RigExec.Skin

/-! ## The evaluator's rules -/

/-- `std::isfinite`. -/
def isFinite (weight : BitVec 32) : Bool := weight.toNat / 2 ^ 23 % 2 ^ 8 != 255

/-- `weight < 0.0f`. -/
def isBelowZero (weight : BitVec 32) : Bool :=
  2 ^ 31 < weight.toNat && weight.toNat ≤ 2 ^ 31 + 255 * 2 ^ 23

/-- `RigExecFormatSkinShapeValidates`. -/
def shapeValidates (indexCount weightCount : Nat) (elementSize : Int) (influenceCount : Nat) :
    Bool :=
  1 ≤ elementSize && indexCount == weightCount && indexCount % elementSize.toNat == 0 &&
    1 ≤ influenceCount

/-- `RigExecFormatSkinEntryValidates`. -/
def entryValidates (index : Int) (weight : BitVec 32) (influenceCount : Nat) : Bool :=
  0 ≤ index && index < influenceCount && isFinite weight && !isBelowZero weight

/-- `RigExecFormatSkinLayoutValidates`. -/
def layoutValidates (indices : List Int) (weights : List (BitVec 32)) (elementSize : Int)
    (influenceCount : Nat) : Bool :=
  if shapeValidates indices.length weights.length elementSize influenceCount = false then false
  else (indices.zip weights).all fun entry => entryValidates entry.1 entry.2 influenceCount

/-! ## The stored form -/

/-- `RigExecWireSkinTopology`. -/
structure SkinTopology where
  elementSize : Int := 0
  pointCount : Nat := 0
  influenceCount : Nat := 0
  validated : Bool := false
  counts8 : List UInt8 := []
  counts16 : List UInt16 := []
  indexWidth : Nat := 0
  indices8 : List UInt8 := []
  indices16 : List UInt16 := []
  indices32 : List Int := []
  weights : List (BitVec 32) := []
  raw : Bool := false
  rawIndices : List Int := []
  rawWeights : List (BitVec 32) := []
deriving DecidableEq

abbrev Entry := Int × BitVec 32

/-- `_TopologyIndex` at each place below `_TopologyIndexCount`. -/
def SkinTopology.keptIndices (topology : SkinTopology) : List Int :=
  match topology.indexWidth with
  | 1 => topology.indices8.map fun index => (index.toNat : Int)
  | 2 => topology.indices16.map fun index => (index.toNat : Int)
  | _ => topology.indices32

/-- The counts of the points, from the vector the element size selects. -/
def SkinTopology.counts (topology : SkinTopology) : List Nat :=
  if topology.elementSize ≤ 255 then topology.counts8.map UInt8.toNat
  else topology.counts16.map UInt16.toNat

def sparseCanHold (indices weights : Nat) (elementSize : Int) : Bool :=
  if elementSize < 0 ∨ 65535 < elementSize ∨ indices ≠ weights then false
  else if elementSize = 0 then indices == 0
  else indices % elementSize.toNat == 0

def rows (indices weights : Nat) (elementSize : Int) : Bool :=
  1 ≤ elementSize && indices == weights && indices % elementSize.toNat == 0

def rowCount (indices weights : Nat) (elementSize : Int) : Nat :=
  if rows indices weights elementSize = true then indices / elementSize.toNat else 0

def isPositiveZero (weight : BitVec 32) : Bool := weight.toNat == 0

/-- The entry a row is padded with. -/
def isPadding (entry : Entry) : Bool := entry.1 == 0 && isPositiveZero entry.2

/-! ## Writing -/

/-- What a call leaves in its answer, in `*out` and in `*error`. -/
structure Call where
  ok : Bool
  out : Option SkinTopology
  error : Option String

def fail (out : Option SkinTopology) (error : Option String) (what : String) : Call :=
  ⟨false, out, error.map fun _ => what⟩

/-- The rows up to their trailing padding. -/
def keptRows (width : Nat) : Nat → List Entry → List (List Entry)
  | 0, _ => []
  | points + 1, entries =>
      (entries.take width).rdropWhile isPadding :: keptRows width points (entries.drop width)

/-- `int32_t largest`. -/
def largestIndex (kept : List Int) : Int := kept.foldl max 0

/-- The kept indices in the narrowest vector. -/
def SkinTopology.withIndices (topology : SkinTopology) (kept : List Int) : SkinTopology :=
  if kept.any (· < 0) = true ∨ 65535 < largestIndex kept then
    { topology with indexWidth := 4, indices32 := kept }
  else if 255 < largestIndex kept then
    { topology with indexWidth := 2, indices16 := kept.map UInt16.ofInt }
  else { topology with indexWidth := 1, indices8 := kept.map UInt8.ofInt }

/-- `FLATBUFFERS_MAX_BUFFER_SIZE`. -/
def maxBufferSize : Nat := 2 ^ 31 - 1

/-- Whether the arrays are so many rows of the width. -/
def rectangular (indices weights width pointCount : Nat) : Bool :=
  indices == weights &&
    if width = 0 then indices == 0 else indices % width == 0 && indices / width == pointCount

/-- The sparse form of rows. -/
def sparseForm (indices : List Int) (weights : List (BitVec 32)) (elementSize : Int)
    (pointCount influenceCount : Nat) (validated : Bool) : SkinTopology :=
  let kept := keptRows elementSize.toNat pointCount (indices.zip weights)
  let topology : SkinTopology :=
    { elementSize := elementSize
      pointCount := pointCount
      influenceCount := influenceCount
      validated := validated
      counts8 := if elementSize ≤ 255 then kept.map fun row => UInt8.ofNat row.length else []
      counts16 := if elementSize ≤ 255 then [] else kept.map fun row => UInt16.ofNat row.length
      weights := kept.flatten.map (·.2) }
  topology.withIndices (kept.flatten.map (·.1))

/-- `RigExecFormatSparseTopology`. -/
def sparseTopology (indices : List Int) (weights : List (BitVec 32)) (elementSize : Int)
    (pointCount influenceCount : Nat) (validated : Bool) (out : Option SkinTopology)
    (error : Option String) : Call :=
  if out = none then fail out error "no skin topology to write into"
  else if elementSize < 0 ∨ 65535 < elementSize then
    fail out error
      ("skin topology: element size " ++ toString elementSize ++ " is outside [0, 65535]")
  else if maxBufferSize < pointCount then
    fail out error ("skin topology: " ++ toString pointCount ++ " points do not fit a .rigexec")
  else if rectangular indices.length weights.length elementSize.toNat pointCount = false then
    fail out error
      ("skin topology: " ++ toString indices.length ++ " indices and " ++
        toString weights.length ++ " weights are not " ++ toString pointCount ++ " points of " ++
        toString elementSize.toNat ++ " entries")
  else
    ⟨true, some (sparseForm indices weights elementSize pointCount influenceCount validated), error⟩

def formatTopology (indices : List Int) (weights : List (BitVec 32)) (elementSize : Int)
    (pointCount influenceCount : Nat) (validated : Bool) (out : Option SkinTopology)
    (error : Option String) : Call :=
  if sparseCanHold indices.length weights.length elementSize = true then
    sparseTopology indices weights elementSize pointCount influenceCount validated out error
  else if out = none then fail out error "no skin topology to write into"
  else if pointCount ≠ rowCount indices.length weights.length elementSize then
    fail out error
      ("skin topology: " ++ toString indices.length ++ " indices and " ++
        toString weights.length ++ " weights at element size " ++ toString elementSize ++
        " hold " ++ toString (rowCount indices.length weights.length elementSize) ++
        " point(s), not " ++ toString pointCount)
  else
    ⟨true, some
      { elementSize := elementSize
        pointCount := pointCount
        influenceCount := influenceCount
        validated := validated
        raw := true
        rawIndices := indices
        rawWeights := weights }, error⟩

/-! ## Expanding -/

/-- A row of the entries it keeps, padded to the width; then the other rows. -/
def expandRows (width : Nat) : List Nat → List Entry → List Entry
  | [], _ => []
  | count :: counts, kept =>
      let row := kept.take (min count width)
      row ++ List.replicate (width - row.length) (0, 0) ++
        expandRows width counts (kept.drop (min count width))

/-- `RigExecFormatExpandTopology`. -/
def expandTopology (topology : SkinTopology) : List Int × List (BitVec 32) :=
  if topology.raw = true then (topology.rawIndices, topology.rawWeights)
  else
    let dense := expandRows topology.elementSize.toNat topology.counts
      (topology.keptIndices.zip topology.weights)
    (dense.map (·.1), dense.map (·.2))

end RigExec.Skin
