/-
# `RigExec.Scene.TypedValues` — the slots of a running scene program

A value store is sized once from the layout; operations read slots and publish
others.  A slot has what its readers see, `SlotContent`, and the bookkeeping of the
store: the boxed source, whether the last publication changed it, and how often one
did.

    Payloads        the types whose arithmetic nothing here looks into
    VtValue         a boxed value, with the arrays the scene reads elements of
    TypedValue      the alternatives of the slot's variant
    TypedSame       the comparison of a publication: bits, cardinality and type

Nothing is assumed of the comparison but that it never takes different values for
the same; an opaque value may differ from itself.
-/
import Mathlib.Algebra.Group.Nat.Defs
import Mathlib.Data.List.Basic

namespace RigExec.Scene

/-- The types of the values. -/
structure Payloads where
  Double : Type
  Single : Type
  Vec3d : Type
  Vec3f : Type
  Matrix : Type
  Frame : Type
  Opaque : Type

/-- `std::type_index` of what a value may hold. -/
inductive TypeIndex where
  | int
  | double
  | float
  | vec3d
  | vec3f
  | vec3fArray
  | matrix
  | token
  | pointFrame
  | other (name : String)
deriving DecidableEq

inductive VtValue (P : Payloads) where
  | empty
  | int (x : Int)
  | double (x : P.Double)
  | float (x : P.Single)
  | vec3d (x : P.Vec3d)
  | vec3f (x : P.Vec3f)
  | vec3fArray (xs : List P.Vec3f)
  | matrix (x : P.Matrix)
  | token (text : String)
  | pointFrame (x : P.Frame)
  | other (name : String) (x : P.Opaque)

variable {P : Payloads}

/-- `GetTypeid`, if there is a value. -/
def VtValue.typeid : VtValue P → Option TypeIndex
  | .empty => none
  | .int _ => some .int
  | .double _ => some .double
  | .float _ => some .float
  | .vec3d _ => some .vec3d
  | .vec3f _ => some .vec3f
  | .vec3fArray _ => some .vec3fArray
  | .matrix _ => some .matrix
  | .token _ => some .token
  | .pointFrame _ => some .pointFrame
  | .other name _ => some (.other name)

/-- A value that is not empty. -/
def VtValue.present (value : VtValue P) : Bool := value.typeid.isSome

inductive TypedValue (P : Payloads) where
  | monostate
  | double (x : P.Double)
  | float (x : P.Single)
  | vec3d (x : P.Vec3d)
  | matrix (x : P.Matrix)
  | token (text : String)
  | pointFrame (x : P.Frame)
  | boxed (value : VtValue P)

/-- `RigExecTypedSame`, on two values of one alternative. -/
structure TypedSame (P : Payloads) where
  same : TypedValue P → TypedValue P → Bool
  exact : ∀ a b, same a b = true → a = b

/-- What the readers of a slot see. -/
structure SlotContent (P : Payloads) where
  value : TypedValue P := .monostate
  initialized : Bool := false
  blocked : Bool := false
  authoritative : Bool := false
  count : Nat := 0
  error : String := ""

/-- `std::get_if<RigExecPointFrame>`, of a slot that can be read. -/
def SlotContent.frame? (content : SlotContent P) : Option P.Frame :=
  if content.initialized = true ∧ content.blocked = false then
    match content.value with
    | .pointFrame frame => some frame
    | _ => none
  else none

structure TypedValueState (P : Payloads) extends SlotContent P where
  raw : VtValue P := .empty
  changed : Bool := false
  revision : Nat := 0

abbrev ValueId := Nat

/-- `UINT64_MAX`, no value. -/
def noValue : ValueId := 2 ^ 64 - 1

abbrev TypedValueStore (P : Payloads) := List (TypedValueState P)

namespace TypedValueStore

variable (cmp : TypedSame P) (store : TypedValueStore P)

/-- `Read<RigExecPointFrame>`. -/
def readFrame (id : ValueId) : Option P.Frame :=
  match store[id]? with
  | none => none
  | some state => state.toSlotContent.frame?

/-- `Publish`; `none` when `at` throws. -/
def publish (id : ValueId) (value : TypedValue P) (blocked authoritative : Bool) (count : Nat)
    (error : String) : Option (TypedValueStore P) :=
  match store[id]? with
  | none => none
  | some state =>
      let changed := !state.initialized || !cmp.same state.value value ||
        state.blocked != blocked || state.authoritative != authoritative ||
        state.count != count || state.error != error
      some (store.set id
        { value := if changed then value else state.value
          initialized := true, blocked, authoritative, count, error
          raw := state.raw
          changed
          revision := if changed then state.revision + 1 else state.revision })

/-- `values[id].raw = raw`. -/
def setRaw (id : ValueId) (raw : VtValue P) : TypedValueStore P :=
  store.modify id fun state => { state with raw }

def copy (target source : ValueId) (authoritative : Bool) : Option (TypedValueStore P) := do
  let state ← store[source]?
  let published ← publish cmp store target state.value state.blocked
    (authoritative || state.authoritative) state.count state.error
  pure (setRaw published target state.raw)

/-- `PublishSource`, with the cardinality of a value that has no alternative of its own. -/
def publishSource (id : ValueId) (value : VtValue P) (blocked authoritative : Bool)
    (boxedCount : Nat) (error : String) : Option (TypedValueStore P) :=
  let store := setRaw store id value
  match value with
  | .empty => publish cmp store id .monostate blocked authoritative 0 error
  | .double x => publish cmp store id (.double x) blocked authoritative 1 error
  | .float x => publish cmp store id (.float x) blocked authoritative 1 error
  | .vec3d x => publish cmp store id (.vec3d x) blocked authoritative 1 error
  | .matrix x => publish cmp store id (.matrix x) blocked authoritative 1 error
  | .token text => publish cmp store id (.token text) blocked authoritative 1 error
  | .pointFrame x => publish cmp store id (.pointFrame x) blocked authoritative 1 error
  | value => publish cmp store id (.boxed value) blocked authoritative boxedCount error

/-- `RigExecReadSceneGraphValue`; `matrixOf` is the matrix of a frame that has one. -/
def readSceneGraphValue (matrixOf : P.Frame → Option P.Matrix) (id : ValueId)
    (frameAsMatrix : Bool) : Option (VtValue P) :=
  match store[id]? with
  | none => none
  | some state =>
      if state.initialized = false ∨ state.blocked = true then none
      else
        match state.value with
        | .monostate => none
        | .boxed .empty => none
        | .boxed value => some value
        | .pointFrame frame =>
            if frameAsMatrix then (matrixOf frame).map .matrix else some (.pointFrame frame)
        | .double x => some (.double x)
        | .float x => some (.float x)
        | .vec3d x => some (.vec3d x)
        | .matrix x => some (.matrix x)
        | .token text => some (.token text)

end TypedValueStore

/-! ## What a publication leaves -/

/-- What the readers of a slot of a store see. -/
def contentAt (store : TypedValueStore P) (id : ValueId) : Option (SlotContent P) :=
  store[id]?.map TypedValueState.toSlotContent

/-- Everything but one slot is as it was, and that slot has a content. -/
structure Writes (store : TypedValueStore P) (id : ValueId) (content : SlotContent P)
    (store' : TypedValueStore P) : Prop where
  length : store'.length = store.length
  content : contentAt store' id = some content
  others : ∀ other, other ≠ id → store'[other]? = store[other]?

variable {store store' : TypedValueStore P} {id : ValueId}

theorem publish_writes (cmp : TypedSame P) (hid : id < store.length) (value : TypedValue P)
    (blocked authoritative : Bool) (count : Nat) (error : String) :
    ∃ store', store.publish cmp id value blocked authoritative count error = some store' ∧
      Writes store id { value, initialized := true, blocked, authoritative, count, error }
        store' := by
  obtain ⟨state, hstate⟩ : ∃ state, store[id]? = some state :=
    ⟨store[id], List.getElem?_eq_getElem hid⟩
  unfold TypedValueStore.publish
  rw [hstate]
  refine ⟨_, rfl, by rw [List.length_set], ?_, ?_⟩
  · rw [contentAt, List.getElem?_set_self hid]
    -- a publication that changes nothing keeps a value that was compared equal
    have hvalue : ∀ changed : Bool, (changed = false → cmp.same state.value value = true) →
        (if changed then value else state.value) = value := by
      intro changed hsame
      cases changed with
      | true => rfl
      | false => exact cmp.exact _ _ (hsame rfl)
    rw [hvalue _ ?_]
    · rfl
    · intro hunchanged
      simp only [Bool.or_eq_false_iff, Bool.not_eq_false'] at hunchanged
      exact hunchanged.1.1.1.1.2
  · intro other hother
    exact List.getElem?_set_ne (Ne.symm hother)

theorem Writes.setRaw {content : SlotContent P} (h : Writes store id content store')
    (raw : VtValue P) : Writes store id content (TypedValueStore.setRaw store' id raw) where
  length := by rw [TypedValueStore.setRaw, List.length_modify, h.length]
  content := by
    obtain ⟨state, hstate, he⟩ := Option.map_eq_some_iff.mp h.content
    rw [contentAt, TypedValueStore.setRaw, List.getElem?_modify_eq, hstate]
    exact congrArg some he
  others := by
    intro other hother
    rw [TypedValueStore.setRaw, List.getElem?_modify, ← h.others other hother]
    simp [Ne.symm hother]

theorem copy_writes (cmp : TypedSame P) {source : ValueId} {state : TypedValueState P}
    (hid : id < store.length)
    (hsource : store[source]? = some state) (authoritative : Bool) :
    ∃ store', store.copy cmp id source authoritative = some store' ∧
      Writes store id { state.toSlotContent with
        initialized := true, authoritative := authoritative || state.authoritative } store' := by
  obtain ⟨published, hpublished, hwrites⟩ := publish_writes cmp hid state.value
    state.blocked (authoritative || state.authoritative) state.count state.error
  refine ⟨_, ?_, hwrites.setRaw state.raw⟩
  rw [TypedValueStore.copy, hsource]
  simp only [Option.bind_eq_bind, Option.bind_some, hpublished, Option.pure_def]

/-! ## Published sources -/

/-- The alternative of the slot's variant that a source takes. -/
def VtValue.alternative : VtValue P → TypedValue P
  | .empty => .monostate
  | .double x => .double x
  | .float x => .float x
  | .vec3d x => .vec3d x
  | .matrix x => .matrix x
  | .token text => .token text
  | .pointFrame x => .pointFrame x
  | value => .boxed value

/-- The cardinality it is published with. -/
def VtValue.cardinality (boxedCount : Nat) : VtValue P → Nat
  | .empty => 0
  | .double _ | .float _ | .vec3d _ | .matrix _ | .token _ | .pointFrame _ => 1
  | _ => boxedCount

theorem publishSource_eq (cmp : TypedSame P) (value : VtValue P) (blocked authoritative : Bool)
    (boxedCount : Nat) (error : String) :
    store.publishSource cmp id value blocked authoritative boxedCount error =
      (store.setRaw id value).publish cmp id value.alternative blocked authoritative
        (value.cardinality boxedCount) error := by
  cases value <;> rfl

theorem setRaw_getElem_ne {other : ValueId} (h : other ≠ id) (raw : VtValue P) :
    (store.setRaw id raw)[other]? = store[other]? := by
  rw [TypedValueStore.setRaw, List.getElem?_modify]
  simp [Ne.symm h]

theorem publishSource_writes {cmp : TypedSame P} {value : VtValue P}
    {blocked authoritative : Bool} {boxedCount : Nat} {error : String}
    (h : store.publishSource cmp id value blocked authoritative boxedCount error = some store') :
    Writes store id
      { value := value.alternative, initialized := true, blocked, authoritative
        count := value.cardinality boxedCount, error } store' := by
  rw [publishSource_eq] at h
  have hlength : (store.setRaw id value).length = store.length := by
    rw [TypedValueStore.setRaw, List.length_modify]
  have hid : id < (store.setRaw id value).length := by
    by_contra hge
    rw [TypedValueStore.publish, List.getElem?_eq_none (Nat.le_of_not_lt hge)] at h
    cases h
  obtain ⟨published, hpublished, hwrites⟩ := publish_writes cmp hid value.alternative blocked
    authoritative (value.cardinality boxedCount) error
  cases hpublished.symm.trans h
  refine ⟨hwrites.length.trans hlength, hwrites.content, ?_⟩
  intro other hother
  rw [hwrites.others other hother, setRaw_getElem_ne hother]

theorem readSceneGraphValue_published {matrixOf : P.Frame → Option P.Matrix}
    {state : TypedValueState P} {value : VtValue P} (hstate : store[id]? = some state)
    (hinitialized : state.initialized = true) (hvalue : state.value = value.alternative) :
    store.readSceneGraphValue matrixOf id false =
      if state.blocked then none else (some value).filter VtValue.present := by
  unfold TypedValueStore.readSceneGraphValue
  rw [hstate]
  simp only [hinitialized, hvalue, Bool.true_eq_false, false_or]
  cases state.blocked with
  | true => rfl
  | false => cases value <;> rfl

end RigExec.Scene
