/-
# `RigExec.Upstream.Table` — the table of pulled upstream sources

A table holds, per attribute path, what a pulled source returned.  A uniform source keeps
its value; a varying one its samples, its value at T0, and one value or fold hash for each
integer frame of the pull window.

    double          a linear order `T` (the values other than NaN) with the conversions and
                    the alpha the source computes, in `Arithmetic`
    VtValue         `Value`: scalars and arrays by type; an array's elements lie in a buffer
                    of the heap or in one of its own, so arrays of one buffer are equal
    std::map        the list of its entries
    bool and *out   `Option`
-/
import RigExec.Lib.SortedRuns

namespace RigExec.Upstream

/-! ## Values -/

/-- The scalar types; the first five interpolate. -/
inductive ScalarType where
  | double
  | float
  | vec3d
  | vec3f
  | matrix4d
  | other (name : String)
deriving DecidableEq

/-- The element types of arrays. -/
inductive ElementType where
  | int
  | float
  | double
  | vec2f
  | vec3f
  | other (name : String)
deriving DecidableEq

/-- Where an array's elements lie. -/
inductive Storage (E : Type) where
  /-- A buffer of the heap, which other arrays may share. -/
  | shared (address : Nat)
  /-- A buffer no other array shares. -/
  | own (elements : List E)
deriving DecidableEq

/-- `VtValue`. -/
inductive Value (E : Type) where
  | empty
  | scalar (type : ScalarType) (x : E)
  | array (type : ElementType) (storage : Storage E)
deriving DecidableEq

/-- The arithmetic on doubles and on the interpolated types, and the fold of array contents. -/
structure Arithmetic (T A E : Type) [LinearOrder T] where
  floor : T → T
  /-- `double(int64_t)`. -/
  ofInt : Int → T
  /-- `int64_t(double)`. -/
  toInt : T → Int
  add : T → T → T
  /-- `(t - lower) / (upper - lower)`. -/
  alpha : T → T → T → A
  isZero : A → Bool
  isOne : A → Bool
  /-- `GfLerp`, of a scalar or an element. -/
  lerpScalar : ScalarType → A → E → E → E
  lerpElement : ElementType → A → E → E → E
  /-- The hash of a type name and contents. -/
  fold : ElementType → List E → UInt64
  /-- An integral double between two converted integers converts back to itself. -/
  exact : ∀ (t : T) (first count : Int), floor t = t → ofInt first ≤ t →
    t < add (ofInt first) (ofInt count) → ofInt (toInt t) = t

section

variable {T A E : Type} [LinearOrder T] (ops : Arithmetic T A E) (heap : Nat → List E)

/-- The elements of an array. -/
def Storage.elements : Storage E → List E
  | .shared address => heap address
  | .own elements => elements

def Value.isEmpty : Value E → Bool
  | .empty => true
  | _ => false

def Value.isArrayValued : Value E → Bool
  | .array _ _ => true
  | _ => false

/-- `GetTypeid` of two values. -/
def Value.sameType : Value E → Value E → Bool
  | .empty, .empty => true
  | .scalar s _, .scalar s' _ => s = s'
  | .array e _, .array e' _ => e = e'
  | _, _ => false

/-- Whether `_LerpAs` is tried for a type. -/
def ScalarType.interpolates : ScalarType → Bool
  | .other _ => false
  | _ => true

/-- Whether `_LerpArrayAs` is tried for a type. -/
def ElementType.interpolates : ElementType → Bool
  | .float | .double | .vec2f | .vec3f => true
  | _ => false

def lerp (lower upper : Value E) (alpha : A) : Option (Value E) :=
  match lower, upper with
  | .scalar s x, .scalar s' y =>
      if s = s' ∧ s.interpolates = true then some (.scalar s (ops.lerpScalar s alpha x y))
      else none
  | .array e a, .array e' b =>
      if e = e' ∧ e.interpolates = true then
        -- arrays of different lengths hold
        if (a.elements heap).length ≠ (b.elements heap).length then some lower
        else if ops.isOne alpha then some upper
        else some (.array e (.own
          ((a.elements heap).zipWith (ops.lerpElement e alpha) (b.elements heap))))
      else none
  | _, _ => none

/-- `_ArrayData`: the buffer of an array of the types it names; an empty array has none. -/
def arrayData : Value E → Option Nat
  | .array (.other _) _ => none
  | .array _ (.shared address) => if heap address = [] then none else some address
  | _ => none

/-- `RigExecUpstreamFoldHash`. -/
def foldHash : Value E → UInt64
  | .array e storage =>
      let hash := ops.fold e (storage.elements heap)
      if hash ≠ 0 then hash else 1
  | _ => 0

/-! ## Samples -/

/-- `RigExecUpstreamTableSample`. -/
structure Sample (T E : Type) where
  time : T
  value : Value E
deriving DecidableEq

/-- `RigExecReconstructUpstream`. -/
def reconstruct (samples : List (Sample T E)) (t : T) (held : Bool) : Value E :=
  match samples.head?, samples.getLast? with
  | some front, some back =>
      if t ≤ front.time then front.value
      else if back.time ≤ t then back.value
      else
        -- `upper_bound`, on samples ascending by time
        match (samples.takeWhile fun sample => !decide (t < sample.time)).getLast?,
            (samples.dropWhile fun sample => !decide (t < sample.time)).head? with
        | some lower, some upper =>
            if lower.time = t ∨ held = true then lower.value
            else if ops.isZero (ops.alpha t lower.time upper.time) then lower.value
            else (lerp ops heap lower.value upper.value
              (ops.alpha t lower.time upper.time)).getD lower.value
        | _, _ => .empty
  | _, _ => .empty

/-! ## The table -/

/-- `RigExecUpstreamTableEntry`. -/
structure Entry (T E : Type) where
  varies : Bool := false
  isArray : Bool := false
  atT0 : Value E := .empty
  hashAtT0 : UInt64 := 0
  samples : List (Sample T E) := []
  frameValues : List (Value E) := []
  frameHashes : List UInt64 := []

/-- `RigExecUpstreamTable`. -/
structure Table (T E : Type) where
  t0 : T
  windowLo : T
  windowHi : T
  firstFrame : Int
  frameCount : Nat
  held : Bool
  entries : List (String × Entry T E)

structure UpstreamValue (E : Type) where
  path : String
  value : Value E
  foldHash : UInt64
deriving DecidableEq

/-- An element of a table at a signed index; a negative one is past its end as a `size_t`. -/
def atIndex {X : Type} (list : List X) (index : Int) : Option X :=
  if 0 ≤ index then list[index.toNat]? else none

/-- A value as an answer. -/
def answer (path : String) (value : Value E) (hash : UInt64) : Option (UpstreamValue E) :=
  if value.isEmpty then none else some ⟨path, value, hash⟩

/-- The time is a frame of the window. -/
def Table.isFrame (table : Table T E) (t : T) : Bool :=
  ops.floor t = t && ops.ofInt table.firstFrame ≤ t &&
    t < ops.add (ops.ofInt table.firstFrame) (ops.ofInt table.frameCount)

/-- `RigExecUpstreamTable::ValueAt`. -/
def valueAt (table : Table T E) (path : String) (entry : Entry T E) (t : T) :
    Option (UpstreamValue E) :=
  if entry.varies = false ∨ t = table.t0 then answer path entry.atT0 entry.hashAtT0
  else if t < table.windowLo ∨ table.windowHi < t then none
  else if table.isFrame ops t then
    let index := ops.toInt (ops.floor t) - table.firstFrame
    if entry.isArray then
      let value := reconstruct ops heap entry.samples t table.held
      answer path value ((atIndex entry.frameHashes index).getD (foldHash ops heap value))
    else
      answer path ((atIndex entry.frameValues index).getD
        (reconstruct ops heap entry.samples t table.held)) 0
  else answer path (reconstruct ops heap entry.samples t table.held) 0

/-- `RigExecFillUniformUpstreamEntry`. -/
def fillUniform (value : Value E) : Option (Entry T E) :=
  if value.isEmpty then none
  else some { isArray := value.isArrayValued, atT0 := value, hashAtT0 := foldHash ops heap value }

/-- What `std::unique` leaves of sorted samples: the first of each run. -/
def firstOfRuns (samples : List (Sample T E)) : List (Sample T E) :=
  (Lib.runs Sample.time samples).filterMap fun run => run.2.head?

/-- The samples an entry keeps: those with a value, ascending, the first of each time. -/
def keptSamples (samples : List (Sample T E)) : List (Sample T E) :=
  firstOfRuns (Lib.sortOn Sample.time (samples.filter fun sample => !sample.value.isEmpty))

/-- `hashOf`: a sample's hash where the value is that sample's buffer. -/
def hashOf (samples : List (Sample T E)) (value : Value E) : UInt64 :=
  match arrayData heap value with
  | none => foldHash ops heap value
  | some data =>
      match samples.find? fun sample =>
          arrayData heap sample.value = some data && sample.value.sameType value with
      | some sample => foldHash ops heap sample.value
      | none => foldHash ops heap value

/-- The values of the window's frames. -/
def frameRows (table : Table T E) (samples : List (Sample T E)) : List (Value E) :=
  (List.range table.frameCount).map fun (i : Nat) =>
    reconstruct ops heap samples (ops.ofInt (table.firstFrame + (i : Int))) table.held

/-- `RigExecFillVaryingUpstreamEntry`. -/
def fillVarying (table : Table T E) (samples : List (Sample T E)) : Option (Entry T E) :=
  match keptSamples samples with
  | [] => none
  | front :: rest =>
      let kept := front :: rest
      let isArray := front.value.isArrayValued
      let atT0 := reconstruct ops heap kept table.t0 table.held
      let rows := frameRows ops heap table kept
      some
        { varies := true
          isArray := isArray
          atT0 := atT0
          hashAtT0 := if isArray then hashOf ops heap kept atT0 else 0
          samples := kept
          frameValues := if isArray then [] else rows
          frameHashes := if isArray then rows.map (hashOf ops heap kept) else [] }

/-- An entry re-anchored at `t0`. -/
def reanchorEntry (table : Table T E) (t0 : T) (path : String) (entry : Entry T E) : Entry T E :=
  if entry.varies = false then entry
  else match valueAt ops heap table path entry t0 with
    | none => entry
    | some value =>
        { entry with
          atT0 := value.value
          hashAtT0 :=
            if entry.isArray then
              if value.foldHash ≠ 0 then value.foldHash else foldHash ops heap value.value
            else 0 }

/-- `RigExecReanchorUpstreamTable`. -/
def reanchor (table : Table T E) (t0 : T) : Table T E :=
  { table with
    entries := table.entries.map fun (path, entry) =>
      (path, reanchorEntry ops heap table t0 path entry)
    t0 := t0 }

end

end RigExec.Upstream
