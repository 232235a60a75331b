/-
# `RigExec.Standalone.Database` — resolved scene data

The database keeps the records of prims, attributes and relationships by path, and for every
attribute one row for each exported time identity.

    isActive     a prim and all above it are there and active
    validate     the first thing found wrong, or `none`

Paths, values and value types are USD's, and parameters here; so are the handlers' tables.
-/
import RigExec.Lib.OrderedMap
import RigExec.Standalone.TimeKeys
import Mathlib.Data.String.Basic

namespace RigExec.Standalone

open Lib

/-! ## What is not of this component -/

/-- What is asked of paths, of values and their types, and of the mover handlers. -/
structure Host (Path Value TypeName Time : Type) where
  codes : TimeCodes Time
  /-- `SdfPath::AbsoluteRootPath()`. -/
  absoluteRootPath : Path
  isEmpty : Path → Bool
  isAbsolutePath : Path → Bool
  isPrimPath : Path → Bool
  isPropertyPath : Path → Bool
  getPrimPath : Path → Path
  getParentPath : Path → Path
  getName : Path → String
  getString : Path → String
  getPathElementCount : Path → Nat
  appendProperty : Path → String → Path
  /-- `VtValue()`. -/
  noValue : Value
  hasNoValue : Value → Bool
  /-- `value.GetType() == type.GetType()`. -/
  hasType : Value → TypeName → Bool
  isSpline : Value → Bool
  isValueBlock : Value → Bool
  /-- The tokens of a value that holds a `VtTokenArray`. -/
  tokens : Value → Option (List String)
  /-- `RigExecEncodeInputValue`. -/
  encodeInputValue : Value → Option String
  /-- `SdfValueTypeName::operator bool`. -/
  isType : TypeName → Bool
  isArray : TypeName → Bool
  /-- The scene data schemas of the handlers whose operation is `External`. -/
  externalSchemas : List String

/-- `std::set`. -/
abbrev OrderedSet (κ : Type) [LinearOrder κ] := OrderedMap κ Unit

/-- `set.count(k)`, `map.count(k)`. -/
def count {κ α : Type} [LinearOrder κ] (m : OrderedMap κ α) (k : κ) : Bool := (m.find? k).isSome

/-- `text.rfind(start, 0) == 0`. -/
def startsWith (text start : String) : Bool := start.toList.isPrefixOf text.toList

/-! ## Records -/

inductive Variability where
  | varying
  | uniform
  deriving DecidableEq

variable {Path Value TypeName Time : Type} [LinearOrder Path]

/-- `RigExecStandaloneAttribute`. -/
structure Attribute (Path Value TypeName : Type) where
  type : TypeName
  metadata : OrderedMap String Value
  connections : List Path
  /-- One row for each identity; a value that is empty is an explicit state. -/
  resolved : OrderedMap String Value
  hasValue : Bool
  hasAuthoredValue : Bool
  hasAuthoredReadableValue : Bool
  hasAuthoredConnections : Bool
  mightBeTimeVarying : Bool
  hasAuthoredDefault : Bool
  defaultBlocked : Bool
  authoredDefault : Value
  sampleTimes : List (BitVec 64)
  variability : Variability
  spline : Value
  blockedIdentities : OrderedSet String

/-- `RigExecStandaloneRelationship`. -/
structure Relationship (Path Value : Type) where
  metadata : OrderedMap String Value
  targets : List Path

/-- `RigExecStandalonePrim`. -/
structure Prim (Path Value : Type) where
  type : String
  appliedSchemas : List String
  metadata : OrderedMap String Value
  active : Bool
  children : List Path

/-- `RigExecSceneDb`, without what it caches of itself. -/
structure Database (Path Value TypeName : Type) [LinearOrder Path] where
  prims : OrderedMap Path (Prim Path Value)
  attributes : OrderedMap Path (Attribute Path Value TypeName)
  relationships : OrderedMap Path (Relationship Path Value)
  identities : OrderedSet String
  timeCodesPerSecond : BitVec 64
  framesPerSecond : BitVec 64
  interpolation : String
  upAxis : String
  sourceAssetId : String

/-! ## Doubles -/

/-- The order of the doubles that are numbers. -/
def signedMagnitude (bits : BitVec 64) : Int :=
  if bits.msb then -(bits.extractLsb' 0 63).toNat else (bits.extractLsb' 0 63).toNat

/-- `value > 0 && std::isfinite(value)`. -/
def isPositive (bits : BitVec 64) : Bool := decide (0 < signedMagnitude bits) && isFinite bits

/-- Every time is finite and above the one before it. -/
def ascendingTimes : List (BitVec 64) → Bool
  | [] => true
  | t :: times =>
      isFinite t && (times.head?.all fun t' => decide (signedMagnitude t < signedMagnitude t')) &&
        ascendingTimes times

/-! ## Queries -/

namespace Database

variable (host : Host Path Value TypeName Time) (db : Database Path Value TypeName)

/-- The walk of `IsActive` up from a prim.  Its paths differ, and it ends at the first one that is
not among the prims: one step more than there are prims is enough. -/
def isActiveFrom : Nat → Path → Bool
  | 0, _ => false
  | fuel + 1, prim =>
      if host.isEmpty prim then true
      else if !(db.prims.find? prim).any (·.active) then false
      else isActiveFrom fuel (host.getParentPath prim)

def isActive (path : Path) : Bool :=
  db.isActiveFrom host (db.prims.size + 1) (host.getPrimPath path)

def hasObject (path : Path) : Bool :=
  db.isActive host path &&
    (count db.prims path || count db.attributes path || count db.relationships path)

/-! ## `Validate` -/

/-- What holds of the database as a whole. -/
def headFault : Option String :=
  if !count db.prims host.absoluteRootPath || db.identities.keys.isEmpty then
    some "scene database needs a pseudo-root and exported identities"
  else if db.upAxis ≠ "Y" ∧ db.upAxis ≠ "Z" then some "unknown stage up axis"
  else if db.interpolation ≠ "linear" ∧ db.interpolation ≠ "held" then
    some "unknown stage interpolation policy"
  else none

def unitFault : Option String :=
  if !isPositive db.timeCodesPerSecond || !isPositive db.framesPerSecond then
    some "invalid scene time units"
  else none

def primFault (path : Path) : Option String :=
  if !host.isAbsolutePath path || (!host.isPrimPath path && path != host.absoluteRootPath) then
    some ("invalid prim path " ++ host.getString path)
  else if path ≠ host.absoluteRootPath ∧ count db.prims (host.getParentPath path) = false then
    some ("missing prim parent " ++ host.getString path)
  else none

/-- An empty row at an exported identity. -/
def isEmptyState (attr : Attribute Path Value TypeName) (identity : String) : Bool :=
  count db.identities identity && (attr.resolved.find? identity).any host.hasNoValue

/-- What an attribute says of its own value. -/
def valueFault (path : Path) (attr : Attribute Path Value TypeName) : Option String :=
  if !host.hasNoValue attr.spline && !host.isSpline attr.spline then
    some ("invalid attribute spline fact: " ++ host.getString path)
  else if attr.blockedIdentities.keys.any fun identity =>
      !db.isEmptyState host attr identity then
    some ("blocked identity needs an exported empty state: " ++ host.getString path)
  else if attr.defaultBlocked && !attr.hasAuthoredDefault then
    some ("blocked default needs an authored default: " ++ host.getString path)
  else if (attr.hasAuthoredDefault || !attr.sampleTimes.isEmpty) &&
      !attr.hasAuthoredValue then
    some ("authored sample/default needs an authored value opinion: " ++ host.getString path)
  else if !ascendingTimes attr.sampleTimes then
    some ("invalid authored sample times: " ++ host.getString path)
  else if !host.isPropertyPath path || !count db.prims (host.getPrimPath path) ||
      !host.isType attr.type then
    some ("invalid attribute descriptor " ++ host.getString path)
  else if !host.hasNoValue attr.authoredDefault &&
      (!attr.hasAuthoredDefault ||
        host.isValueBlock attr.authoredDefault != attr.defaultBlocked ||
        (!host.isValueBlock attr.authoredDefault &&
          !host.hasType attr.authoredDefault attr.type)) then
    some ("invalid authored Default opinion: " ++ host.getString path)
  else if count db.relationships path then
    some ("attribute/relationship path collision " ++ host.getString path)
  else none

/-- A RigExec prim's attribute that is no array, with more than one connection. -/
def overconnected (path : Path) (type : TypeName) (sources : List Path) : Bool :=
  (db.prims.find? (host.getPrimPath path)).any (fun prim => startsWith prim.type "RigExec") &&
    !host.isArray type && decide (1 < sources.length)

/-- A row that is missing, or of another type. -/
def rowFault (path : Path) (attr : Attribute Path Value TypeName) (identity : String) :
    Option String :=
  match attr.resolved.find? identity with
  | none => some ("missing resolved state " ++ host.getString path ++ " " ++ identity)
  | some value =>
      if !host.hasNoValue value && !host.hasType value attr.type then
        some ("wrong native value type at " ++ host.getString path)
      else none

def attributeFault (path : Path) (attr : Attribute Path Value TypeName) : Option String :=
  (db.valueFault host path attr).or <|
  (if db.overconnected host path attr.type attr.connections then
    some ("RigExec scalar attribute requires at most one connection: " ++ host.getString path)
  else none).or <|
  (attr.resolved.keys.findSome? fun identity =>
    if count db.identities identity then none
    else some ("unexpected resolved-state identity " ++ identity)).or <|
  (db.identities.keys.findSome? (rowFault host path attr)).or <|
  attr.connections.findSome? fun source =>
    if host.isPropertyPath source && count db.attributes source then none
    else some ("connection source is not retained: " ++ host.getString source)

def relationshipFault (path : Path) (relationship : Relationship Path Value) : Option String :=
  if !host.isPropertyPath path || !count db.prims (host.getPrimPath path) then
    some ("invalid relationship descriptor " ++ host.getString path)
  else
    relationship.targets.findSome? fun target =>
      if count db.prims target || count db.attributes target || count db.relationships target then
        none
      else some ("relationship target is not retained: " ++ host.getString target)

/-- `Validate`: the message of the first failure. -/
def validate : Option String :=
  (db.headFault host).or <|
  (db.identities.keys.findSome? identityFault).or <|
  db.unitFault.or <|
  (db.prims.keys.findSome? (db.primFault host)).or <|
  (db.attributes.rows.findSome? fun row => db.attributeFault host row.1 row.2).or <|
  db.relationships.rows.findSome? fun row => db.relationshipFault host row.1 row.2

/-! ## Rows -/

/-- Every attribute has rows for the exported identities, and for no other. -/
def Rows : Prop :=
  ∀ path attr, db.attributes.find? path = some attr →
    ∀ identity, count attr.resolved identity = count db.identities identity

end Database

theorem count_eq_true {κ α : Type} [LinearOrder κ] {m : OrderedMap κ α} {k : κ} :
    count m k = true ↔ k ∈ m.keys := by
  rw [count, OrderedMap.mem_keys_iff, Option.isSome_iff_exists]

theorem count_eq_false {κ α : Type} [LinearOrder κ] {m : OrderedMap κ α} {k : κ} :
    count m k = false ↔ m.find? k = none := by
  rw [count, Option.isSome_eq_false_iff, Option.isNone_iff_eq_none]

/-- **A database that validates has its rows.** -/
theorem rows_of_validate {host : Host Path Value TypeName Time}
    {db : Database Path Value TypeName} (h : db.validate host = none) : db.Rows := by
  intro path attr hfind identity
  simp only [Database.validate, Option.or_eq_none_iff, List.findSome?_eq_none_iff] at h
  have hfault := h.2.2.2.2.1 (path, attr) (OrderedMap.mem_rows_iff.mpr hfind)
  simp only [Database.attributeFault, Option.or_eq_none_iff, List.findSome?_eq_none_iff] at hfault
  obtain ⟨-, -, hexpected, hpresent, -⟩ := hfault
  rw [Bool.eq_iff_iff]
  constructor
  · intro hrow
    have hknown := hexpected identity (count_eq_true.mp hrow)
    by_contra hnot
    rw [if_neg hnot] at hknown
    cases hknown
  · intro hidentity
    have hrow := hpresent identity (count_eq_true.mp hidentity)
    rw [count, Option.isSome_iff_exists]
    cases hfound : attr.resolved.find? identity with
    | some value => exact ⟨value, rfl⟩
    | none =>
        rw [Database.rowFault, hfound] at hrow
        cases hrow

end RigExec.Standalone
