/-
# `RigExec.Scene.Descriptors` — the captured scene

What the compiler reads of a scene once capture has returned: maps from paths to
descriptors, and the rows that bind movers and solvers to what they write.  Maps
are walked in the order of their paths; `V` is the type of boxed values.
-/
import Mathlib.Data.String.Basic
import RigExec.Lib.OrderedMap

namespace RigExec.Scene

/-- A path, by its text; the empty path is the empty text. -/
abbrev SdfPath := String

inductive SceneDomain where
  | data
  | provider
  | solver
  | propertyMover
  | geometryMover
  | weight
  | constraint
  | spaceSwitch
  | poseInterpolator
  | unknownRigExec
  | autoClavicle
deriving DecidableEq

/-- `RigExecSceneNodeDescriptor`, with `fact.type` and `fact.active`. -/
structure NodeDescriptor where
  type : String
  domain : SceneDomain
  active : Bool := true

/-- `RigExecSceneApplicationDescriptor`. -/
structure ApplicationDescriptor where
  owner : SdfPath
  canonicalTarget : SdfPath
  domain : SceneDomain

/-- `RigExecSceneJointBindingDescriptor`. -/
structure JointBindingDescriptor where
  solver : SdfPath
  joint : SdfPath
  element : Nat

/-- `RigExecSceneInputState`. -/
inductive InputState where
  | raw
  | connected
  | computed
  | empty
  | unavailable
  | cycle
deriving DecidableEq

/-- `RigExecSceneInput`, for one identity. -/
structure SceneInput (V : Type) where
  raw : V
  state : InputState := .unavailable
  source : SdfPath := ""

/-- `RigExecSceneAttributeDescriptor`, with `fact.type`, `fact.connections` and the metadata
`rigExecInputElement` of `fact`. -/
structure AttributeDescriptor (V T : Type) where
  type : T
  inputElement : Option V := none
  connections : List SdfPath := []
  readPhase : String := "base"
  inputs : List (SceneInput V) := []

/-- `RigExecSceneDescriptors`; `T` are the value type names and `Time` the identities. -/
structure SceneDescriptors (V T Time : Type) where
  identities : List Time := []
  nodes : Lib.OrderedMap SdfPath NodeDescriptor := ∅
  attributes : Lib.OrderedMap SdfPath (AttributeDescriptor V T) := ∅
  applications : List ApplicationDescriptor := []
  jointBindings : List JointBindingDescriptor := []

section

variable {V T Time : Type}

/-- `RigExecSceneCompileInputs::Node`. -/
def SceneDescriptors.node (scene : SceneDescriptors V T Time) (path : SdfPath) :
    Option NodeDescriptor :=
  scene.nodes.find? path

/-- `RigExecSceneCompileInputs::Attribute`. -/
def SceneDescriptors.attribute (scene : SceneDescriptors V T Time) (path : SdfPath) :
    Option (AttributeDescriptor V T) :=
  scene.attributes.find? path

end

end RigExec.Scene
