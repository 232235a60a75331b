/-
# `RigExec.Paths.Table` — the table a bake interns its paths in

A prim or a property path becomes a node below its parent's, and any other path a token that holds
its text.  Three maps remember the ids given.

    SdfPath        a type with the queries in `SdfPaths`
    a map          the list of its entries, the last first
    an id          32 bits of the size of a vector
    Text           its loop runs with fuel
-/
import RigExec.Paths.Model

namespace RigExec.Paths

open Lib (Bytes)

/-- What is asked of an `SdfPath`.  A prim has more elements than its parent, a prim's property
more than the prim. -/
structure SdfPaths (P : Type) where
  isEmpty : P → Bool
  isAbsolutePath : P → Bool
  isAbsoluteRootPath : P → Bool
  containsPrimVariantSelection : P → Bool
  isPrimPath : P → Bool
  isPrimPropertyPath : P → Bool
  getNameToken : P → Bytes
  getParentPath : P → P
  getPrimPath : P → P
  getString : P → Bytes
  getPathElementCount : P → Nat
  parent_lt : ∀ p, isAbsolutePath p = true → isPrimPath p = true →
    getPathElementCount (getParentPath p) < getPathElementCount p
  prim_lt : ∀ p, isAbsolutePath p = true → isPrimPropertyPath p = true →
    getPathElementCount (getPrimPath p) < getPathElementCount p

/-- `std::map::emplace`: the value the map holds at the key, and whether it is new. -/
def emplace {K : Type} [BEq K] (map : List (K × Nat)) (key : K) (value : Nat) :
    Nat × Bool × List (K × Nat) :=
  match map.lookup key with
  | some held => (held, false, map)
  | none => (value, true, (key, value) :: map)

/-- `RigExecBakePathTable`. -/
structure Table (P : Type) where
  names : List Bytes
  paths : List PathNode
  nameIds : List (Bytes × Nat)
  nodeIds : List ((Nat × Nat × Nat) × Nat)
  pathIds : List (P × Nat)

/-- The cast to `uint32_t`. -/
def uint32 (n : Nat) : Nat := n % 2 ^ 32

section Operations

variable {P : Type}

/-- The empty table. -/
def Table.fresh : Table P where
  names := [[]]
  paths := [rootNode]
  nameIds := []
  nodeIds := []
  pathIds := []

def Table.name (t : Table P) (text : Bytes) : Nat × Table P :=
  let found := emplace t.nameIds text (uint32 t.names.length)
  (found.1,
    { t with
      names := if found.2.1 then t.names ++ [text] else t.names
      nameIds := found.2.2 })

def Table.node (t : Table P) (parent name : Nat) (kind : PathKind) : Nat × Table P :=
  let found := emplace t.nodeIds (parent, name, kind.code) (uint32 t.paths.length)
  (found.1,
    { t with
      paths := if found.2.1 then t.paths ++ [⟨parent, name, kind⟩] else t.paths
      nodeIds := found.2.2 })

def Table.token (t : Table P) (text : Bytes) : Nat × Table P :=
  if text = [] then (0, t)
  else (t.name text).2.node 0 (t.name text).1 .token

/-- A node of the tree, below the parent interned before. -/
def Table.child (parent : Nat × Table P) (name : Bytes) (kind : PathKind) : Nat × Table P :=
  (parent.2.name name).2.node parent.1 (parent.2.name name).1 kind

/-- A prim, below the root or a prim. -/
def Table.primIn (parent : Nat × Table P) (name : Bytes) : Nat × Table P :=
  if parent.1 = 0 ∨ (parent.2.paths.getD parent.1 rootNode).kind = .prim then
    Table.child parent name .prim
  else (0, parent.2)

/-- A property, below a prim. -/
def Table.propertyIn (parent : Nat × Table P) (name : Bytes) : Nat × Table P :=
  if parent.1 ≠ 0 ∧ (parent.2.paths.getD parent.1 rootNode).kind = .prim then
    Table.child parent name .property
  else (0, parent.2)

variable [DecidableEq P] (sdf : SdfPaths P)

/-- The end of `Path`: a path outside the tree is a token; the id is remembered. -/
def Table.place (p : P) (inTree : Nat × Table P) : Nat × Table P :=
  let placed := if inTree.1 = 0 then inTree.2.token (sdf.getString p) else inTree
  (placed.1, { placed.2 with pathIds := (emplace placed.2.pathIds p placed.1).2.2 })

def Table.path (t : Table P) (p : P) : Nat × Table P :=
  if sdf.isEmpty p then (0, t)
  else
    match t.pathIds.lookup p with
    | some id => (id, t)
    | none =>
      Table.place sdf p <|
        let name := sdf.getNameToken p
        if sdf.containsPrimVariantSelection p = false ∧ name ≠ [] ∧ isComponent name = true then
          if _prim : sdf.isAbsolutePath p = true ∧ sdf.isPrimPath p = true then
            Table.primIn
              (if sdf.isAbsoluteRootPath (sdf.getParentPath p) then (0, t)
              else Table.path t (sdf.getParentPath p)) name
          else if _property : sdf.isAbsolutePath p = true ∧ sdf.isPrimPropertyPath p = true then
            Table.propertyIn (Table.path t (sdf.getPrimPath p)) name
          else (0, t)
        else (0, t)
termination_by sdf.getPathElementCount p
decreasing_by
  · exact sdf.parent_lt p _prim.1 _prim.2
  · exact sdf.prim_lt p _property.1 _property.2

/-- One round of the loop in `Text`: where it stands and the chain so far.  After a token it
breaks, and where it stands is not read again. -/
def Table.textStep (t : Table P) (s : Nat × List Nat) : Option (Nat × List Nat) :=
  if s.1 ≠ 0 ∧ s.1 < t.paths.length then
    if (t.paths.getD s.1 rootNode).kind = .token then some (0, s.2 ++ [s.1])
    else some ((t.paths.getD s.1 rootNode).parent, s.2 ++ [s.1])
  else none

def Table.text (t : Table P) (fuel id : Nat) : Option Bytes :=
  (Lib.loop t.textStep fuel (id, [])).map fun s =>
    s.2.reverse.foldl (fun text i =>
      let node := t.paths.getD i rootNode
      let text := match node.kind with
        | .prim => text ++ [47]
        | .property => text ++ [46]
        | _ => text
      text ++ t.names.getD node.name []) []

/-- `MoveInto`: the names and nodes of the file, and the table afterwards. -/
def Table.moveInto (t : Table P) (rig : Nat) : File × Table P :=
  (⟨t.names, t.paths, rig⟩, Table.fresh)

/-- A call to a table. -/
inductive Call (P : Type) where
  | path (p : P)
  | token (text : Bytes)

/-- The text a call interns. -/
def Call.text : Call P → Bytes
  | .path p => sdf.getString p
  | .token text => text

def Table.call (t : Table P) : Call P → Nat × Table P
  | .path p => t.path sdf p
  | .token text => t.token text

/-- The ids of a sequence of calls, and the table they leave. -/
def Table.run (t : Table P) : List (Call P) → List Nat × Table P
  | [] => ([], t)
  | c :: calls =>
    ((t.call sdf c).1 :: (Table.run (t.call sdf c).2 calls).1,
      (Table.run (t.call sdf c).2 calls).2)

end Operations

end RigExec.Paths
