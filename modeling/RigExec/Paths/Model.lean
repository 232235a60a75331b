/-
# `RigExec.Paths.Model` — the path tree of a file

A file holds its paths as a tree over a table of names.  Node 0 is the root; a prim or a property
names one component below its parent, a token holds a whole text.

    pathText       the text of a node, composed from the root down
    checkPaths     the validator's rules on names and nodes; it leaves the depth of every node
    textLess       the validator's comparison of two texts, without composing them

A text is a list of bytes.  The comparison's loops run with fuel; `none` as a node stands for
the id above every node's.
-/
import RigExec.Lib.Bytes
import RigExec.Lib.Loop
import Mathlib.Data.Prod.Lex
import Mathlib.Order.Nat

namespace RigExec.Paths

open Lib (Bytes)

/-! ## The tree -/

/-- `PathKind`; the byte of a file may be none of the kinds. -/
inductive PathKind where
  | none
  | prim
  | property
  | token
  | other (code : Nat)
  deriving DecidableEq

/-- The byte of a kind. -/
def PathKind.code : PathKind → Nat
  | .none => 0
  | .prim => 1
  | .property => 2
  | .token => 3
  | .other code => code

structure PathNode where
  parent : Nat
  name : Nat
  kind : PathKind
  deriving DecidableEq

/-- `paths[0]`. -/
def rootNode : PathNode := ⟨0, 0, .none⟩

/-- The names and nodes of a file, and the path id of its rig. -/
structure File where
  names : List Bytes
  paths : List PathNode
  rig : Nat

section Texts

variable (f : File)

/-- `paths[i]`. -/
def File.node (i : Nat) : PathNode :=
  f.paths.getD i rootNode

/-- The name of a node, `""` for a name out of range. -/
def File.nameOf (i : Nat) : Bytes :=
  f.names.getD (f.node i).name []

/-- The nodes from `id` up to below the root. -/
def File.chain (id : Nat) : List Nat :=
  if id ≠ 0 ∧ id < f.paths.length ∧ (f.node id).kind ≠ .none then
    if (f.node id).kind = .token ∨ (f.node id).parent ≥ id then [id]
    else id :: File.chain (f.node id).parent
  else []
termination_by id
decreasing_by omega

/-- What a node adds to the text of its parent. -/
def piece (kind : PathKind) (name : Bytes) : Bytes :=
  match kind with
  | .prim => 47 :: name
  | .property => 46 :: name
  | _ => name

/-- `RigExecFormatPathText`. -/
def File.pathText (id : Nat) : Bytes :=
  (f.chain id).reverse.foldl (fun text i => text ++ piece (f.node i).kind (f.nameOf i)) []

end Texts

/-! ## The validator's rules -/

/-- The roles of `_PathId`, one bit each. -/
def roleZero : Nat := 1 <<< 0
def rolePrim : Nat := 1 <<< 1
def roleProperty : Nat := 1 <<< 2
def roleToken : Nat := 1 <<< 3

/-- `_At`, without an index. -/
def located (row field : String) : String :=
  if field = "" then row else row ++ "." ++ field

def roleNames (roles : Nat) : String :=
  " or ".intercalate <|
    ([(roleZero, "0"), (rolePrim, "prim"), (roleProperty, "property"),
      (roleToken, "token")].filter fun role => roles &&& role.1 ≠ 0).map Prod.snd

/-- The role of a node. -/
def File.role (f : File) (id : Nat) : Nat :=
  if id = 0 then roleZero
  else match (f.node id).kind with
    | .prim => rolePrim
    | .property => roleProperty
    | .token => roleToken
    | _ => 0

def File.pathId (f : File) (id roles : Nat) (row field : String) : Except String Unit :=
  if id ≥ f.paths.length then
    .error (located row field ++ ": path id " ++ toString id ++ " out of range (" ++
      toString f.paths.length ++ " paths)")
  else if roles &&& f.role id = 0 then
    .error (located row field ++ ": path id " ++ toString id ++ " is not a " ++ roleNames roles)
  else .ok ()

/-- The name holds neither `/` nor `.`. -/
def isComponent (name : Bytes) : Bool :=
  name.all fun b => b ≠ 47 && b ≠ 46

/-- The names from `names[k]` on: none empty, none among those `seen`. -/
def checkNames (seen : List Bytes) (k : Nat) : List Bytes → Except String Unit
  | [] => .ok ()
  | name :: rest =>
    if name = [] ∨ name ∈ seen then .error ("names[" ++ toString k ++ "] is empty or repeated")
    else checkNames (name :: seen) (k + 1) rest

/-- The rules on `paths[i]`. -/
def File.checkNode (f : File) (i : Nat) : Except String Unit :=
  let node := f.node i
  let where_ := "paths[" ++ toString i ++ "]"
  let component := isComponent (f.nameOf i)
  if node.name = 0 ∨ node.name ≥ f.names.length then
    .error (where_ ++ ": name " ++ toString node.name ++ " out of range")
  else match node.kind with
    | .prim =>
      if node.parent ≥ i ∨ (node.parent ≠ 0 ∧ (f.node node.parent).kind ≠ .prim) ∨
          component = false then
        .error (where_ ++ ": malformed prim node")
      else .ok ()
    | .property =>
      if node.parent = 0 ∨ node.parent ≥ i ∨ (f.node node.parent).kind ≠ .prim ∨
          component = false then
        .error (where_ ++ ": malformed property node")
      else .ok ()
    | .token =>
      if node.parent ≠ 0 then .error (where_ ++ ": a token node has a parent")
      else .ok ()
    | kind => .error (where_ ++ ": kind " ++ toString kind.code ++ " out of range")

/-- The key of a node, in the order of a `std::tuple`. -/
def PathNode.key (node : PathNode) : Nat ×ₗ Nat ×ₗ Nat :=
  toLex (node.parent, toLex (node.name, node.kind.code))

/-- `std::adjacent_find` finds two equal keys. -/
def adjacentEqual : List (Nat ×ₗ Nat ×ₗ Nat) → Bool
  | a :: b :: rest => a = b || adjacentEqual (b :: rest)
  | _ => false

/-- The depth of every node, in the order of the nodes after the first. -/
def depthsOf (nodes : List PathNode) : List Nat :=
  nodes.foldl (fun depth node => depth ++ [depth.getD node.parent 0 + 1]) [0]

/-- `_Paths`; the result is `_depth`. -/
def File.checkPaths (f : File) : Except String (List Nat) := do
  if f.names.head? ≠ some [] then
    throw "names[0] is not the empty string"
  checkNames [] 1 f.names.tail
  if f.paths.head? ≠ some rootNode then
    throw "paths[0] is not \x7b0, 0, None\x7d"
  (List.range' 1 (f.paths.length - 1)).forM f.checkNode
  if adjacentEqual ((f.paths.tail.map PathNode.key).mergeSort) then
    throw "paths: two nodes name the same path"
  f.pathId f.rig rolePrim "file" "rig"
  return depthsOf f.paths.tail

/-! ## The validator's comparison -/

/-- A walk to the root: where it stands and the two nodes it came from. -/
structure Climb where
  node : Nat
  child : Option Nat := none
  grandchild : Option Nat := none

section Comparison

variable (f : File) (depth : List Nat)

/-- One step to the root. -/
def File.up (c : Climb) : Climb :=
  ⟨(f.node c.node).parent, some c.node, c.child⟩

/-- A walk that stands deeper than `bound` goes up. -/
def File.climbStep (bound : Nat) (c : Climb) : Option Climb :=
  if depth.getD c.node 0 > bound then some (f.up c) else none

/-- Two walks that stand apart go up. -/
def File.meetStep (w : Climb × Climb) : Option (Climb × Climb) :=
  if w.1.node ≠ w.2.node then some (f.up w.1, f.up w.2) else none

/-- The separator in front of a node's name. -/
def File.separator (i : Nat) : UInt8 :=
  if (f.node i).kind = .prim then 47 else 46

/-- The byte after a name: a separator, or `-1` at the end of the text. -/
def File.next : Option Nat → Int
  | none => -1
  | some i => (f.separator i).toNat

/-- `std::memcmp` of two runs of one length. -/
def memcmp : Bytes → Bytes → Ordering
  | a :: as, b :: bs => if a < b then .lt else if b < a then .gt else memcmp as bs
  | _, _ => .eq

/-- Two names below one parent, with the bytes after them. -/
def nameLess (nameA nameB : Bytes) (nextA nextB : Int) : Bool :=
  let common := min nameA.length nameB.length
  match memcmp (nameA.take common) (nameB.take common) with
  | .lt => true
  | .gt => false
  | .eq =>
    if nameA.length < nameB.length then nextA < ((nameB.getD common 0).toNat : Int)
    else if nameB.length < nameA.length then ((nameA.getD common 0).toNat : Int) < nextB
    else false

/-- The first difference below the common ancestor. -/
def File.belowLess (x y : Climb) : Bool :=
  let xChild := x.child.getD 0
  let yChild := y.child.getD 0
  if f.separator xChild ≠ f.separator yChild then f.separator xChild < f.separator yChild
  else nameLess (f.nameOf xChild) (f.nameOf yChild) (f.next x.grandchild) (f.next y.grandchild)

def File.textLess (fuel a b : Nat) : Option Bool := do
  let x ← Lib.loop (f.climbStep depth (depth.getD b 0)) fuel ⟨a, none, none⟩
  let y ← Lib.loop (f.climbStep depth (depth.getD x.node 0)) fuel ⟨b, none, none⟩
  if x.node = y.node then
    return x.node = a && a ≠ b
  let w ← Lib.loop f.meetStep fuel (x, y)
  return f.belowLess w.1 w.2

end Comparison

end RigExec.Paths
