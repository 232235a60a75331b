/-
# `RigExec.Closure.Keys` — the bytes that key a value

A key is the object bytes of a value's fields, one after another.  `RigExecOpKeyAppend` appends
them to a string; a `RigExecOpSmallKey` has room for so many bytes, and says where there were more.

    double, float         their bits, the low byte first
    size_t                `UInt64`
    char, uint8_t         `UInt8`
    int32_t               its bits
    std::string           its bytes
    std::array<T, N>      `Vector T N`
-/
import RigExec.Closure.Values
import RigExec.Lib.Bytes

namespace RigExec.Closure

open Lib (Bytes leBytes)

/-! ## Object bytes -/

/-- A type whose values are keyed by their object bytes. -/
class ObjectBytes (T : Type) where
  /-- `sizeof(T)`. -/
  size : Nat
  bytes : T → Bytes
  length_bytes : ∀ v, (bytes v).length = size

export ObjectBytes (bytes length_bytes)

theorem length_leBytes (v n : Nat) : (leBytes v n).length = n := by
  rw [leBytes, List.length_map, List.length_range]

instance : ObjectBytes UInt8 where
  size := 1
  bytes v := [v]
  length_bytes _ := rfl

instance : ObjectBytes Bool where
  size := 1
  bytes v := [if v then 1 else 0]
  length_bytes _ := rfl

instance : ObjectBytes UInt32 where
  size := 4
  bytes v := leBytes v.toNat 4
  length_bytes v := length_leBytes v.toNat 4

instance : ObjectBytes UInt64 where
  size := 8
  bytes v := leBytes v.toNat 8
  length_bytes v := length_leBytes v.toNat 8

instance : ObjectBytes (BitVec 32) where
  size := 4
  bytes v := leBytes v.toNat 4
  length_bytes v := length_leBytes v.toNat 4

instance : ObjectBytes (BitVec 64) where
  size := 8
  bytes v := leBytes v.toNat 8
  length_bytes v := length_leBytes v.toNat 8

theorem length_flatMap_bytes {T : Type} [ObjectBytes T] (vs : List T) :
    (vs.flatMap bytes).length = vs.length * ObjectBytes.size T := by
  induction vs with
  | nil => rw [List.flatMap_nil, List.length_nil, List.length_nil, Nat.zero_mul]
  | cons v vs ih =>
      rw [List.flatMap_cons, List.length_append, length_bytes, ih, List.length_cons, Nat.succ_mul,
        Nat.add_comm]

instance {T : Type} [ObjectBytes T] {n : Nat} : ObjectBytes (Vector T n) where
  size := n * ObjectBytes.size T
  bytes vs := vs.toList.flatMap bytes
  length_bytes vs := by rw [length_flatMap_bytes, Vector.length_toList]

/-! ## Keys -/

/-- `RigExecOpKeyAppend` of the object bytes of a value. -/
def keyAppend {T : Type} [ObjectBytes T] (key : Bytes) (v : T) : Bytes := key ++ bytes v

/-- `v.size()`. -/
def sizeOf_ {T : Type} (vs : List T) : UInt64 := UInt64.ofNat vs.length

/-- `RigExecOpKeyAppend` of a string. -/
def keyAppendText (key text : Bytes) : Bytes := keyAppend key (sizeOf_ text) ++ text

/-- `RigExecOpKeyArray`. -/
def keyArray {T : Type} [ObjectBytes T] (key : Bytes) (vs : List T) : Bytes :=
  vs.foldl keyAppend (keyAppend key (sizeOf_ vs))

/-- `RigExecOpSmallKey`: the bytes that were written of the `N` there is room for. -/
structure SmallKey (N : Nat) where
  bytes : Bytes
  overflow : Bool
  size_le : bytes.length ≤ N

/-- A key nothing was written to. -/
def SmallKey.empty (N : Nat) : SmallKey N := ⟨[], false, Nat.zero_le N⟩

def SmallKey.append {T : Type} [ObjectBytes T] {N : Nat} (key : SmallKey N) (v : T) : SmallKey N :=
  if h : ObjectBytes.size T > N - key.bytes.length then { key with overflow := true }
  else
    { key with
      bytes := key.bytes ++ ObjectBytes.bytes v
      size_le := by
        have hle := key.size_le
        rw [List.length_append, length_bytes]
        omega }

section Append

variable {T : Type} [ObjectBytes T] {N : Nat} {key : SmallKey N} {appended : Bytes}

/-- A small key that has held everything holds what the key holds. -/
def SmallKey.Holds (key : SmallKey N) (appended : Bytes) : Prop :=
  key.overflow = false → key.bytes = appended

variable (N) in
theorem holds_empty : (SmallKey.empty N).Holds [] :=
  fun _ => rfl

theorem SmallKey.Holds.append (h : key.Holds appended) (v : T) :
    (key.append v).Holds (keyAppend appended v) := by
  intro hoverflow
  unfold SmallKey.append at hoverflow ⊢
  split at hoverflow
  · exact absurd hoverflow.symm Bool.false_ne_true
  · rename_i hroom
    rw [dif_neg hroom, keyAppend, ← h hoverflow]

end Append

/-! ## Provider values -/

abbrev Double := BitVec 64

/-- `RrPointFrame`, and `RigExecProviderPlainFrame`. -/
structure PointFrame where
  points : Vector (Vector Double 3) 4
  flags : UInt32

/-- `RigExecProviderPlainValue`. -/
inductive PlainValue where
  | monostate
  | double (v : Double)
  | float (v : BitVec 32)
  | vec3d (v : Vector Double 3)
  | matrix (v : Vector Double 16)
  | text (v : Bytes)
  | frame (v : PointFrame)
  | vec3f (v : Vector (BitVec 32) 3)
  | bool (v : Bool)
  | int32 (v : BitVec 32)
  | floats (vs : List (BitVec 32))
  | doubles (vs : List Double)
  | vec3fs (vs : List (Vector (BitVec 32) 3))
  | vec3ds (vs : List (Vector Double 3))
  | int32s (vs : List (BitVec 32))
  | matrices (vs : List (Vector Double 16))
  | texts (vs : List Bytes)
  | bools (vs : List Bool)
  | vec2f (v : Vector (BitVec 32) 2)
  | vec2fs (vs : List (Vector (BitVec 32) 2))
  | int3 (v : Vector (BitVec 32) 3)

/-- `value.index()`. -/
def PlainValue.index : PlainValue → UInt64
  | .monostate => 0
  | .double _ => 1
  | .float _ => 2
  | .vec3d _ => 3
  | .matrix _ => 4
  | .text _ => 5
  | .frame _ => 6
  | .vec3f _ => 7
  | .bool _ => 8
  | .int32 _ => 9
  | .floats _ => 10
  | .doubles _ => 11
  | .vec3fs _ => 12
  | .vec3ds _ => 13
  | .int32s _ => 14
  | .matrices _ => 15
  | .texts _ => 16
  | .bools _ => 17
  | .vec2f _ => 18
  | .vec2fs _ => 19
  | .int3 _ => 20

/-- `RrOpFrame`. -/
def opFrame (key : Bytes) (v : PointFrame) : Bytes := keyAppend (keyAppend key v.points) v.flags

/-- `RigExecOpKeyPlainValue`. -/
def keyPlainValue (key : Bytes) : PlainValue → Bytes
  | .monostate => key
  | .double v => keyAppend key v
  | .float v => keyAppend key v
  | .vec3d v => keyAppend key v
  | .matrix v => keyAppend key v
  | .text v => keyAppendText key v
  | .frame v => opFrame key v
  | .vec3f v => keyAppend key v
  | .bool v => keyAppend key v
  | .int32 v => keyAppend key v
  | .floats vs => keyArray key vs
  | .doubles vs => keyArray key vs
  | .vec3fs vs => keyArray key vs
  | .vec3ds vs => keyArray key vs
  | .int32s vs => keyArray key vs
  | .matrices vs => keyArray key vs
  | .texts vs => vs.foldl keyAppendText (keyAppend key (sizeOf_ vs))
  | .bools vs => keyArray key vs
  | .vec2f v => keyAppend key v
  | .vec2fs vs => keyArray key vs
  | .int3 v => keyAppend key v

/-- `RigExecProviderPlainState`. -/
structure PlainState where
  value : PlainValue := .monostate
  initialized : Bool := false
  blocked : Bool := false
  authoritative : Bool := false
  count : UInt64 := 0
  error : Bytes := []

end RigExec.Closure
