/-
# `RigExec.Sparsity.Values` — held values, their two equalities, and their fold

A `VtValue` is compared in two ways by the frame cache, and folded in a third:

| | |
| :-- | :-- |
| `VtValue::operator==` | USD's: by value, `+0.0` equals `-0.0`, and a NaN nothing |
| `RigExecExactSourceValueEqual` | by bits, for the types it lists |
| `_FoldVtValue` | the control digest's: the type's name, then the bits |

A held value is the components of its elements, each with its bits; so two
`VtValue`s here are equal exactly when they hold the same type and the same
bits.  `VtValue`'s equality, type names and hashes belong to USD and are parameters.
-/
import Mathlib.Data.BitVec

namespace RigExec.Sparsity

/-! ## Values -/

/-- One component of an element: a number's bits, or a text. -/
inductive Component where
  | half (bits : BitVec 16)
  | float (bits : BitVec 32)
  | double (bits : BitVec 64)
  | int (bits : BitVec 32)
  | bool (value : Bool)
  | text (value : String)
deriving DecidableEq

/-- The element types that the comparisons and the fold tell apart. -/
inductive Element where
  | half | float | double
  | vec2h | vec3h | vec4h | vec2f | vec3f | vec4f | vec2d | vec3d | vec4d
  | quath | quatf | quatd
  | matrix2f | matrix3f | matrix4f | matrix2d | matrix3d | matrix4d
  | rotation
  | int | bool | vec3i | token | string | path
  | other (name : String)
deriving DecidableEq

/-- What a non-empty `VtValue` holds: a `T`, or a `VtArray<T>`.  A quaternion lists its real part
first, a rotation its axis. -/
structure Held where
  element : Element
  array : Bool
  elements : List (List Component)
deriving DecidableEq

inductive VtValue where
  | empty
  | holding (held : Held)
deriving DecidableEq

/-- `VtValue::IsEmpty`. -/
def VtValue.isEmpty : VtValue → Bool
  | .empty => true
  | .holding _ => false

/-- `VtValue::IsArrayValued`. -/
def VtValue.isArrayValued : VtValue → Bool
  | .empty => false
  | .holding held => held.array

/-! ## Equality by value -/

/-- IEEE `==` on `w`-bit patterns, where `inf` is the pattern of `+∞`: no NaN, and either the same
pattern or two zeros. -/
def ieeeEq (w : Nat) (inf a b : BitVec w) : Bool :=
  let magnitude (x : BitVec w) := x &&& ~~~(BitVec.intMin w)
  !decide (inf < magnitude a) && !decide (inf < magnitude b) &&
    (a == b || (magnitude a == 0 && magnitude b == 0))

/-- `operator==` of a component. -/
def Component.equal : Component → Component → Bool
  | .half a, .half b => ieeeEq 16 0x7c00 a b
  | .float a, .float b => ieeeEq 32 0x7f800000 a b
  | .double a, .double b => ieeeEq 64 0x7ff0000000000000 a b
  | a, b => a == b

/-- Componentwise `operator==`. -/
def elementsEqual (equal : Component → Component → Bool) :
    List (List Component) → List (List Component) → Bool
  | [], [] => true
  | a :: as, b :: bs =>
      a.length == b.length && (a.zipWith equal b).all id && elementsEqual equal as bs
  | _, _ => false

/-- `VtValue::operator==`, of values that share no buffer. -/
def VtValue.equalContents : VtValue → VtValue → Bool
  | .empty, .empty => true
  | .holding a, .holding b =>
      a.element == b.element && a.array == b.array &&
        elementsEqual Component.equal a.elements b.elements
  | _, _ => false

/-- What USD answers for two values: `VtValue::operator==`, which takes two arrays of one buffer for
equal at once. -/
class VtEquality where
  equal : VtValue → VtValue → Bool

/-- The equality of values that share no buffer. -/
@[reducible] def contentsEquality : VtEquality := ⟨VtValue.equalContents⟩

/-! ## Equality by bits -/

/-- The types `RigExecExactSourceValueEqual` lists, each with its array. -/
def exactElements : List Element :=
  [.double, .float, .int, .bool, .token, .string, .vec2f, .vec3f, .vec3d, .vec3i, .matrix4d]

/-- `RigExecExactSourceValueEqual`: a type it does not list is never the same, not even as
itself. -/
def exactSourceValueEqual : VtValue → VtValue → Bool
  | .empty, .empty => true
  | .holding a, .holding b =>
      if a.element ∈ exactElements then a == b
      else if a.element = .path ∧ a.array = false then a == b
      else false
  | _, _ => false

theorem eq_of_exactSourceValueEqual {a b : VtValue} (h : exactSourceValueEqual a b = true) :
    a = b := by
  cases a with
  | empty =>
      cases b with
      | empty => rfl
      | holding b => simp [exactSourceValueEqual] at h
  | holding a =>
      cases b with
      | empty => simp [exactSourceValueEqual] at h
      | holding b =>
          simp only [exactSourceValueEqual] at h
          split at h
          · rw [eq_of_beq h]
          · split at h
            · rw [eq_of_beq h]
            · cases h

def sameSourceValue (a : VtValue) (aHas : Bool) (b : VtValue) (bHas : Bool) : Bool :=
  if aHas ≠ bHas then false
  else if aHas = false then true
  else exactSourceValueEqual a b

theorem sameSourceValue_iff {a b : VtValue} {aHas bHas : Bool} :
    sameSourceValue a aHas b bHas = true ↔
      aHas = bHas ∧ (aHas = true → exactSourceValueEqual a b = true) := by
  cases aHas <;> cases bHas <;> simp [sameSourceValue]

theorem eq_of_sameSourceValue {a b : VtValue}
    (h : sameSourceValue a (!a.isEmpty) b (!b.isEmpty) = true) : a = b := by
  obtain ⟨has, same⟩ := sameSourceValue_iff.mp h
  cases a with
  | empty =>
      cases b with
      | empty => rfl
      | holding b => simp [VtValue.isEmpty] at has
  | holding a => exact eq_of_exactSourceValueEqual (same rfl)

/-! ## The fold -/

def mixWord (hash word : UInt64) : UInt64 :=
  let word := word + 0x9E3779B97F4A7C15
  let word := (word ^^^ (word >>> 30)) * 0xBF58476D1CE4E5B9
  let word := (word ^^^ (word >>> 27)) * 0x94D049BB133111EB
  let word := word ^^^ (word >>> 31)
  (hash ^^^ word) * 1099511628211

/-- Up to eight bytes as one little-endian word. -/
def wordOf (bytes : List UInt8) : UInt64 :=
  bytes.foldr (fun byte word => (word <<< 8) ||| byte.toUInt64) 0

/-- `_FoldBytes`: whole words, then the zero-padded tail with its length mixed in. -/
def foldBytes (hash : UInt64) (bytes : List UInt8) : UInt64 :=
  if bytes.length < 8 then
    if bytes.length = 0 then hash
    else mixWord hash (wordOf bytes + bytes.length.toUInt64)
  else foldBytes (mixWord hash (wordOf (bytes.take 8))) (bytes.drop 8)
termination_by bytes.length

def foldString (hash : UInt64) (s : String) : UInt64 := foldBytes hash s.toUTF8.toList

/-- The unit separator that closes a text in the stream. -/
def foldSeparator (hash : UInt64) : UInt64 := foldBytes hash [0x1f]

/-- `w / 8` little-endian bytes. -/
def littleEndian {w : Nat} (bits : BitVec w) : List UInt8 :=
  (List.range (w / 8)).map fun i => UInt8.ofBitVec ((bits >>> (8 * i)).setWidth 8)

/-- A component's storage. -/
def Component.bytes : Component → List UInt8
  | .half bits => littleEndian bits
  | .float bits => littleEndian bits
  | .double bits => littleEndian bits
  | .int bits => littleEndian bits
  | .bool value => [if value then 1 else 0]
  | .text value => value.toUTF8.toList

/-- The floats, vectors, quaternions, matrices and rotations of `_HoldsDirectFloat`. -/
def directScalars : List Element :=
  [.float, .double, .half, .vec2f, .vec3f, .vec4f, .vec2d, .vec3d, .vec4d, .vec2h, .vec3h, .vec4h,
    .quatf, .quatd, .quath, .matrix2f, .matrix2d, .matrix3f, .matrix3d, .matrix4f, .matrix4d,
    .rotation]

/-- The arrays of `_HoldsDirectFloat`: the small matrices and rotations are not among them. -/
def directArrays : List Element :=
  [.float, .double, .half, .vec2f, .vec3f, .vec4f, .vec2d, .vec3d, .vec4d, .vec2h, .vec3h, .vec4h,
    .quatf, .quatd, .quath, .matrix4f, .matrix4d]

/-- `_HoldsDirectFloat`. -/
def Held.directFloat (held : Held) : Bool :=
  if held.array then held.element ∈ directArrays else held.element ∈ directScalars

/-- The quaternions, which fold their real part by itself. -/
def Element.isQuat (element : Element) : Bool := element ∈ [Element.quath, .quatf, .quatd]

/-- One element that folds directly: as one run of bytes, except for a quaternion's real part and
a rotation's angle. -/
def foldElement (element : Element) (hash : UInt64) (components : List Component) : UInt64 :=
  if element.isQuat then
    let hash := foldBytes hash ((components.take 1).flatMap Component.bytes)
    foldBytes hash ((components.drop 1).flatMap Component.bytes)
  else if element = .rotation then
    let hash := foldBytes hash ((components.take 3).flatMap Component.bytes)
    foldBytes hash ((components.drop 3).flatMap Component.bytes)
  else foldBytes hash (components.flatMap Component.bytes)

/-- `_FoldArray`, and the loops over arrays of quaternions. -/
def foldArray (hash : UInt64) (held : Held) : UInt64 :=
  let hash := mixWord hash held.elements.length.toUInt64
  if held.element.isQuat then held.elements.foldl (foldElement held.element) hash
  else foldBytes hash (held.elements.flatMap fun components => components.flatMap Component.bytes)

/-- What USD answers for a held value: `GetTypeName`, and `GetHash` where `CanHash`. -/
class VtHashing where
  typeName : Held → String
  hash : Held → Option UInt64

variable [VtHashing]

def foldVtValueAfterName (hash : UInt64) (held : Held) : UInt64 :=
  if held.directFloat then
    if held.array then foldArray hash held else held.elements.foldl (foldElement held.element) hash
  else match VtHashing.hash held with
    | some valueHash => mixWord hash valueHash
    | none => foldString hash "unhashable"

def foldVtValue (hash : UInt64) : VtValue → UInt64
  | .empty => foldString hash "empty"
  | .holding held =>
      foldVtValueAfterName (foldSeparator (foldString hash (VtHashing.typeName held))) held

/-- The tags of `_FoldLeafValue`, and whether the holder is an array. -/
def leafTags : List (Element × Bool × UInt64) :=
  [(.int, true, 1), (.float, true, 2), (.int, false, 3), (.float, false, 4), (.double, false, 5),
    (.bool, false, 6), (.vec3f, false, 7), (.vec3d, false, 8), (.vec3i, false, 9),
    (.matrix4d, false, 10), (.vec2f, true, 11), (.vec3f, true, 12), (.double, true, 13)]

def Held.tokenText (held : Held) : String :=
  match held.elements with
  | [[.text value]] => value
  | _ => ""

def foldLeafValue (hash : UInt64) : VtValue → UInt64
  | .empty => mixWord hash 0
  | .holding held =>
      match leafTags.find? fun tag => tag.1 = held.element ∧ tag.2.1 = held.array with
      | some tag =>
          let hash := mixWord hash tag.2.2
          if held.array then foldArray hash held
          else held.elements.foldl (foldElement held.element) hash
      | none =>
          if held.element = .token ∧ held.array = false then
            let hash := mixWord hash 14
            let text := held.tokenText
            if text.isEmpty then mixWord hash 0
            else foldString (mixWord hash text.utf8ByteSize.toUInt64) text
          else foldVtValue (mixWord hash 15) (.holding held)

end RigExec.Sparsity
