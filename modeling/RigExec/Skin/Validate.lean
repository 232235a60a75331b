/-
# `RigExec.Skin.Validate` — the validator's rule on a stored layout

The validator accepts one stored form for each layout, and its `validated` only where the
evaluator's rules give it.  The rules are read off the stored entries alone: an entry that a
row dropped is `(0, +0)`, which passes wherever there is an influence.

    _Bad               the text of an error
    SIZE_MAX           the index count where another index vector holds some
    size_t, uint64_t   `Nat`; the product of points and element size is taken `mod 2 ^ 64`
-/
import RigExec.Skin.Model
import RigExec.Lib.Checks
import Mathlib.Algebra.GroupWithZero.Nat

namespace RigExec.Skin

/-! ## The rules on the stored form -/

def SkinTopology.entries (t : SkinTopology) : List Entry :=
  if t.raw = true then t.rawIndices.zip t.rawWeights else t.keptIndices.zip t.weights

/-- The first entry that breaks the entry rule, from place `k` on. -/
def entryBreak (t : SkinTopology) (k : Nat) : List Entry → String
  | [] => ""
  | (index, weight) :: entries =>
      if entryValidates index weight t.influenceCount = true then entryBreak t (k + 1) entries
      else
        let entry := if t.raw = true then ", but raw entry " else ", but kept entry "
        if index < 0 ∨ (t.influenceCount : Int) ≤ index then
          entry ++ (toString k ++ (" indexes influence " ++ (toString index ++
            (" of " ++ toString t.influenceCount))))
        else entry ++ (toString k ++ " has a negative or non-finite weight")

def ruleBreak (t : SkinTopology) : String :=
  if t.raw = true ∧ rows t.rawIndices.length t.rawWeights.length t.elementSize = false then
    ", but its raw layout is not rows of element_size"
  else
    let dense := if t.raw = true then t.rawIndices.length
      else t.pointCount * (max t.elementSize 0).toNat % 2 ^ 64
    if shapeValidates dense dense t.elementSize t.influenceCount = false then
      " with element_size " ++ (toString t.elementSize ++ (" and " ++
        (toString t.influenceCount ++ " influence(s)")))
    else entryBreak t 0 t.entries

/-! ## The checks of a stored layout -/

/-- `_Validated`. -/
def checkValidated (t : SkinTopology) (row : String) : Except String Unit :=
  let broken := ruleBreak t
  if t.validated = true ∧ broken ≠ "" then .error (row ++ ": validated" ++ broken)
  else if t.validated = false ∧ broken = "" then
    .error (row ++ ": not validated, but its layout passes the evaluator's rules")
  else .ok ()

/-- `_RawTopology`. -/
def checkRawTopology (t : SkinTopology) (row : String) : Except String Unit :=
  let indices := t.rawIndices.length
  let weights := t.rawWeights.length
  if t.counts8 ≠ [] ∨ t.counts16 ≠ [] ∨ t.indices8 ≠ [] ∨ t.indices16 ≠ [] ∨ t.indices32 ≠ [] ∨
      t.weights ≠ [] ∨ t.indexWidth ≠ 0 then
    .error (row ++ ": a raw layout with sparse vectors or an index_width")
  else if sparseCanHold indices weights t.elementSize = true then
    .error (row ++ ": a raw layout of " ++ toString indices ++ " indices and " ++
      toString weights ++ " weights at element_size " ++ toString t.elementSize ++
      ", which the sparse form holds")
  else if t.pointCount ≠ rowCount indices weights t.elementSize then
    .error (row ++ ": point_count " ++ toString t.pointCount ++ ", but its raw layout holds " ++
      toString (rowCount indices weights t.elementSize) ++ " point(s)")
  else checkValidated t row

/-- No point keeps more entries than the element size. -/
def checkCounts (elementSize : Int) (row : String) (k : Nat) : List Nat → Except String Unit
  | [] => .ok ()
  | count :: counts =>
      if elementSize < count then
        .error (row ++ ": point " ++ toString k ++ " keeps more entries than element_size")
      else checkCounts elementSize row (k + 1) counts

/-- No point keeps padding at its end. -/
def checkTrailing (row : String) (p : Nat) : List Nat → List Entry → Except String Unit
  | [], _ => .ok ()
  | count :: counts, entries =>
      if 0 < count ∧ (entries[count - 1]?).any isPadding = true then
        .error (row ++ ": point " ++ toString p ++
          " keeps a trailing (0, +0) entry, which the sparse form drops")
      else checkTrailing row (p + 1) counts (entries.drop count)

/-- How many kept indices there are, where the width is one and no other vector holds some. -/
def indexCount (t : SkinTopology) : Option Nat :=
  let sizeMax := 2 ^ 64 - 1
  match t.indexWidth with
  | 1 => some (if t.indices16 ≠ [] ∨ t.indices32 ≠ [] then sizeMax else t.indices8.length)
  | 2 => some (if t.indices8 ≠ [] ∨ t.indices32 ≠ [] then sizeMax else t.indices16.length)
  | 4 => some (if t.indices8 ≠ [] ∨ t.indices16 ≠ [] then sizeMax else t.indices32.length)
  | _ => none

/-- The checks of the kept entries, then of the flag. -/
def checkKept (t : SkinTopology) (row : String) : Except String Unit := do
  checkCounts t.elementSize row 0 t.counts
  match indexCount t with
  | none => .error (row ++ ": index_width " ++ toString t.indexWidth ++ " is not 1, 2 or 4")
  | some indices =>
      if indices ≠ t.counts.sum ∨ t.weights.length ≠ t.counts.sum then
        .error (row ++ ": " ++ toString t.counts.sum ++
          " kept entries, but the indices or weights hold a different count")
      else do
        checkTrailing row 0 t.counts (t.keptIndices.zip t.weights)
        checkValidated t row

/-- `_Topology`. -/
def checkTopology (t : SkinTopology) (row : String) : Except String Unit :=
  if t.raw = true then checkRawTopology t row
  else if t.rawIndices ≠ [] ∨ t.rawWeights ≠ [] then
    .error (row ++ ": raw_indices or raw_weights on a sparse layout")
  else if t.elementSize < 0 ∨ 65535 < t.elementSize then
    .error (row ++ ": element_size out of range")
  else if (if t.elementSize ≤ 255 then t.counts16 ≠ [] else t.counts8 ≠ []) ∨
      t.counts.length ≠ t.pointCount then
    .error (row ++
      ": per-point counts are not one per point in the vector element_size selects")
  else checkKept t row

end RigExec.Skin
