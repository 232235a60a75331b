/-
# `RigExec.Resolved.Histories` — layers authored, edits announced

The read over a layer of authored values is the read of a stage that holds them; and the cache stays
sound while the stage is edited, if each attribute that an edit changes is announced.

    Authors          a stage that holds a layer's values as its own
    overLayer_eq     the read over the layer is `plainRead` of that stage
    Announced        what `Erase`, `ErasePrefixes` and `Clear` reach
    sound_run        the cache is sound after any reads and announced edits
-/
import RigExec.Resolved.Agreement
import Mathlib.Data.String.Basic

namespace RigExec.Resolved

open Lib (OrderedMap)

variable {Path V Time : Type}

/-- What an attribute is, whatever its value. -/
def Attribute.shape (attr : Attribute Path V Time) : ValueType × Bool × List Path :=
  (attr.typeName, attr.hasAuthoredConnections, attr.connections)

theorem next_of_shape {attr attr' : Attribute Path V Time} (h : attr'.shape = attr.shape) :
    attr'.next = attr.next := by
  simp only [Attribute.shape, Prod.mk.injEq] at h
  rw [Attribute.next, Attribute.next, h.2.1, h.2.2]

variable [LinearOrder Path]
variable {stage stage' : Stage Path V Time} {r : ResolvedInputs Path V} {thread : Nat}
variable {time : Time} {T : ValueType} {path : Path} {cache : StaticInputCache Path V}
variable {layer : UpstreamLayer Path V}

/-! ## A stage that authors the layer -/

/-- `stage'` is `stage` with the values of the layer authored. -/
structure Authors (stage stage' : Stage Path V Time) (layer : UpstreamLayer Path V) : Prop where
  shape : ∀ path, (stage'.find? path).map Attribute.shape = (stage.find? path).map Attribute.shape
  value : ∀ path attr attr', stage.find? path = some attr → stage'.find? path = some attr' →
    ∀ time, attr'.value time = (layer.find? path).or (attr.value time)

/-- The values of the layer have the types of the attributes. -/
def Typed (stage : Stage Path V Time) (layer : UpstreamLayer Path V) : Prop :=
  ∀ path value, layer.find? path = some value →
    ∃ attr, stage.find? path = some attr ∧ value.type = attr.typeName

theorem Authors.find? (h : Authors stage stage' layer) {attr : Attribute Path V Time}
    (hattr : stage.find? path = some attr) :
    ∃ attr', stage'.find? path = some attr' ∧ attr'.shape = attr.shape := by
  have hshape := h.shape path
  rw [hattr, Option.map_some] at hshape
  exact Option.map_eq_some_iff.mp hshape

theorem Authors.find?_none (h : Authors stage stage' layer) (hattr : stage.find? path = none) :
    stage'.find? path = none := by
  have hshape := h.shape path
  rw [hattr, Option.map_none] at hshape
  exact Option.map_eq_none_iff.mp hshape

theorem Authors.isDouble (h : Authors stage stage' layer) (path : Path) :
    isDouble stage' path = isDouble stage path := by
  unfold Resolved.isDouble
  cases hattr : stage.find? path with
  | none => rw [h.find?_none hattr]
  | some attr =>
      obtain ⟨attr', hattr', hshape⟩ := h.find? hattr
      rw [hattr', Option.any_some, Option.any_some, (Prod.mk.injEq ..).mp hshape |>.1]

theorem Authors.walk (h : Authors stage stage' layer) (get : Path → Option V) (T : ValueType)
    (fallback : List Path) (path : Path) :
    walk stage' get T fallback path = walk stage get T fallback path := by
  induction fallback, path using walk.induct stage get T with
  | case1 fallback path hattr =>
      rw [walk_of_none hattr, walk_of_none (h.find?_none hattr)]
  | case2 fallback path attr hattr hvisiting =>
      obtain ⟨attr', hattr', -⟩ := h.find? hattr
      rw [walk_of_some hattr, walk_of_some hattr', if_pos hvisiting, if_pos hvisiting]
  | case3 fallback path attr hattr hvisiting payload hget =>
      obtain ⟨attr', hattr', -⟩ := h.find? hattr
      rw [walk_of_some hattr, walk_of_some hattr', if_neg hvisiting, if_neg hvisiting, hget]
      rfl
  | case4 fallback path attr hattr hvisiting hget hwide =>
      obtain ⟨attr', hattr', hshape⟩ := h.find? hattr
      have htype : attr'.typeName = attr.typeName := congrArg Prod.fst hshape
      rw [walk_of_some hattr, walk_of_some hattr', if_neg hvisiting, if_neg hvisiting, hget, htype,
        Option.elim_none, Option.elim_none, if_pos hwide, if_pos hwide]
  | case5 fallback path attr hattr hvisiting hget hwide next hnext ih =>
      obtain ⟨attr', hattr', hshape⟩ := h.find? hattr
      have htype : attr'.typeName = attr.typeName := congrArg Prod.fst hshape
      rw [walk_of_some hattr, walk_of_some hattr', if_neg hvisiting, if_neg hvisiting, hget, htype,
        Option.elim_none, Option.elim_none, if_neg hwide, if_neg hwide, next_of_shape hshape, hnext]
      exact ih
  | case6 fallback path attr hattr hvisiting hget hwide hnext =>
      obtain ⟨attr', hattr', hshape⟩ := h.find? hattr
      have htype : attr'.typeName = attr.typeName := congrArg Prod.fst hshape
      rw [walk_of_some hattr, walk_of_some hattr', if_neg hvisiting, if_neg hvisiting, hget, htype,
        Option.elim_none, Option.elim_none, if_neg hwide, if_neg hwide, next_of_shape hshape, hnext]
      rfl

theorem Authors.stageGet (h : Authors stage stage' layer) (htyped : Typed stage layer)
    (T : ValueType) (time : Time) (path : Path) : stageGet stage' T time path
      = (fromLayer layer T path).or (stageGet stage T time path) := by
  unfold Resolved.stageGet fromLayer
  cases hattr : stage.find? path with
  | none =>
      rw [h.find?_none hattr]
      cases hvalue : layer.find? path with
      | none => rfl
      | some value =>
          obtain ⟨attr, hattr', -⟩ := htyped path value hvalue
          rw [hattr] at hattr'
          exact absurd hattr'.symm (Option.some_ne_none attr)
  | some attr =>
      obtain ⟨attr', hattr', -⟩ := h.find? hattr
      rw [hattr', Option.bind_some, Option.bind_some, Attribute.get, Attribute.get,
        h.value path attr attr' hattr hattr' time]
      cases hvalue : layer.find? path with
      | none => rfl
      | some value =>
          obtain ⟨attr'', hsame, htype⟩ := htyped path value hvalue
          obtain rfl := Option.some.inj (hattr.symm.trans hsame)
          rw [Option.some_or, Option.bind_some, VtValue.holding]
          split
          · rfl
          · rename_i hother
            -- A value of the stage has the attribute's type too, and this is not `T`.
            rw [Option.none_or]
            cases hstage : attr.value time with
            | none => rfl
            | some under =>
                rw [Option.bind_some, VtValue.holding, attr.typed time under hstage, ← htype,
                  if_neg hother]

theorem Authors.overLayerExact (h : Authors stage stage' layer) (htyped : Typed stage layer)
    (wide : Path → Option V) (T : ValueType) (path : Path) :
    overLayerExact stage r time layer wide T path = plainExact stage' r time wide T path := by
  unfold Resolved.overLayerExact plainExact
  rw [h.walk]
  cases Resolved.walk stage (r.get T) T [] path with
  | found payload => rfl
  | wide reached => rfl
  | ended fallback =>
      exact congrArg fallback.findSome?
        (funext fun path => (h.stageGet htyped T time path).symm)

theorem Authors.overLayerNarrowed (h : Authors stage stage' layer) (htyped : Typed stage layer)
    (narrow : V → V) :
    overLayerNarrowed stage r time layer narrow = plainNarrowed stage' r time narrow := by
  funext path
  exact congrArg (Option.map narrow) (h.overLayerExact htyped _ .double path)

theorem authors_of_empty (hlayer : ∀ path, layer.find? path = none) :
    Authors stage stage layer ∧ Typed stage layer := by
  refine ⟨⟨fun _ => rfl, fun path attr attr' hattr hattr' time => ?_⟩, fun path value hvalue => ?_⟩
  · obtain rfl := Option.some.inj (hattr.symm.trans hattr')
    rw [hlayer, Option.none_or]
  · rw [hlayer] at hvalue
    exact absurd hvalue.symm (Option.some_ne_none value)

theorem plainRead_authors {stage'' : Stage Path V Time} (h : Authors stage stage' layer)
    (h' : Authors stage stage'' layer) (htyped : Typed stage layer) (narrow : V → V) :
    plainRead stage' r time narrow T path = plainRead stage'' r time narrow T path := by
  unfold plainRead
  rw [h.isDouble, h'.isDouble, ← h.overLayerNarrowed htyped, ← h'.overLayerNarrowed htyped,
    ← h.overLayerExact htyped, ← h'.overLayerExact htyped]

/-- **The read over a layer is the read of a stage that authors it.** -/
theorem overLayer_eq (hsound : Sound stage cache) (h : Authors stage stage' layer)
    (htyped : Typed stage layer) (narrow : V → V) :
    (getAttributeOverStageLayer stage r thread time layer narrow T cache path).1
      = plainRead stage' r time narrow T path := by
  unfold getAttributeOverStageLayer
  split
  · rename_i hsize
    have hnone : ∀ path, layer.find? path = none := by
      intro path
      rw [OrderedMap.find?, List.eq_nil_of_length_eq_zero hsize]
      rfl
    rw [(getAttribute_spec hsound narrow).1]
    exact plainRead_authors (authors_of_empty hnone).1 h htyped narrow
  · unfold plainRead
    rw [h.isDouble]
    split
    · exact congrFun (h.overLayerNarrowed htyped narrow) path
    · rw [← h.overLayerNarrowed htyped narrow]
      exact h.overLayerExact htyped _ T path

/-! ## Announced edits -/

/-- What the owner says of an edit. -/
inductive Announcement (Path : Type) where
  | erase (path : Path)
  | erasePrefixes (prefixes : List Path)
  | clear

section

variable (hasPrefix : Path → Path → Bool)

/-- The attributes that an announcement reaches. -/
def Announcement.reaches (path : Path) : Announcement Path → Bool
  | .erase erased => path = erased
  | .erasePrefixes prefixes => prefixes.any fun p => hasPrefix path p
  | .clear => true

/-- What an announcement does to the cache. -/
def announce (thread : Nat) (cache : StaticInputCache Path V) :
    Announcement Path → StaticInputCache Path V
  | .erase path => cache.erase thread path
  | .erasePrefixes prefixes => cache.erasePrefixes thread hasPrefix prefixes
  | .clear => cache.clear thread

/-- A stage, and the cache of its evaluator. -/
structure Evaluation (Path V Time : Type) [LinearOrder Path] where
  stage : Stage Path V Time
  cache : StaticInputCache Path V

/-- What happens: a read, with a layer or an empty one, or an edit and its announcements. -/
inductive Event (Path V Time : Type) [LinearOrder Path] where
  | read (r : ResolvedInputs Path V) (thread : Nat) (layer : UpstreamLayer Path V) (T : ValueType)
      (time : Time) (path : Path)
  | edit (thread : Nat) (stage : Stage Path V Time) (announcements : List (Announcement Path))

variable (narrow : V → V)

def happen (e : Evaluation Path V Time) : Event Path V Time → Evaluation Path V Time
  | .read r thread layer T time path =>
      { e with
        cache := (getAttributeOverStageLayer e.stage r thread time layer narrow T e.cache path).2 }
  | .edit thread stage announcements =>
      { stage := stage, cache := announcements.foldl (announce hasPrefix thread) e.cache }

/-- Each attribute that an edit changes is announced. -/
def Event.Announced (e : Evaluation Path V Time) : Event Path V Time → Prop
  | .read .. => True
  | .edit _ stage announcements => ∀ path, stage.find? path ≠ e.stage.find? path →
      ∃ announcement ∈ announcements, announcement.reaches hasPrefix path = true

/-- And so it is of all that happens. -/
def AllAnnounced : Evaluation Path V Time → List (Event Path V Time) → Prop
  | _, [] => True
  | e, event :: events =>
      event.Announced hasPrefix e ∧ AllAnnounced (happen hasPrefix narrow e event) events

variable {hasPrefix} {narrow}

theorem find?_announce {announcement : Announcement Path} {entry : CacheEntry V}
    (h : (announce hasPrefix thread cache announcement).entries.find? path = some entry) :
    cache.entries.find? path = some entry ∧ announcement.reaches hasPrefix path = false := by
  cases announcement with
  | erase erased =>
      rw [announce, StaticInputCache.erase, OrderedMap.find?_erase] at h
      split at h
      · exact absurd h.symm (Option.some_ne_none entry)
      · rename_i hne
        exact ⟨h, decide_eq_false hne⟩
  | erasePrefixes prefixes =>
      rw [announce, StaticInputCache.erasePrefixes, OrderedMap.find?_filter,
        Option.filter_eq_some_iff] at h
      exact ⟨h.1, by simpa [Announcement.reaches] using h.2⟩
  | clear => exact absurd h.symm (Option.some_ne_none entry)

theorem find?_announced {announcements : List (Announcement Path)} {entry : CacheEntry V}
    (h : (announcements.foldl (announce hasPrefix thread) cache).entries.find? path = some entry) :
    cache.entries.find? path = some entry ∧
      ∀ announcement ∈ announcements, announcement.reaches hasPrefix path = false := by
  induction announcements generalizing cache with
  | nil => exact ⟨h, fun _ hin => absurd hin List.not_mem_nil⟩
  | cons announcement announcements ih =>
      obtain ⟨hheld, hrest⟩ := ih h
      obtain ⟨hbefore, hfirst⟩ := find?_announce hheld
      refine ⟨hbefore, fun other hother => ?_⟩
      rcases List.mem_cons.mp hother with rfl | hother
      · exact hfirst
      · exact hrest other hother

theorem sound_happen {e : Evaluation Path V Time} {event : Event Path V Time}
    (h : Sound e.stage e.cache) (hannounced : event.Announced hasPrefix e) :
    Sound (happen hasPrefix narrow e event).stage (happen hasPrefix narrow e event).cache := by
  cases event with
  | read r thread layer T time path =>
      unfold happen getAttributeOverStageLayer
      dsimp only
      split
      · exact (getAttribute_spec h narrow).2
      · split <;> exact h
  | edit thread stage announcements =>
      intro path attr entry hattr hentry
      obtain ⟨hheld, hunreached⟩ := find?_announced hentry
      refine h path attr entry ?_ hheld
      by_contra hchanged
      have hne : stage.find? path ≠ e.stage.find? path :=
        fun heq => hchanged (heq.symm.trans hattr)
      obtain ⟨announcement, hin, hreaches⟩ := hannounced path hne
      have hnot := hunreached announcement hin
      rw [hreaches] at hnot
      exact absurd hnot.symm Bool.false_ne_true

/-- **The cache stays sound.** -/
theorem sound_run {e : Evaluation Path V Time} {events : List (Event Path V Time)}
    (h : Sound e.stage e.cache) (hannounced : AllAnnounced hasPrefix narrow e events) :
    Sound (events.foldl (happen hasPrefix narrow) e).stage
      (events.foldl (happen hasPrefix narrow) e).cache := by
  induction events generalizing e with
  | nil => exact h
  | cons event events ih => exact ih (sound_happen h hannounced.1) hannounced.2

theorem sound_of_fresh (h : cache.entries = ∅) : Sound stage cache := by
  intro path attr entry _ hentry
  rw [h] at hentry
  exact absurd hentry.symm (Option.some_ne_none entry)

/-! ## The whole -/

/-- The layers answer as their detached copy does. -/
structure AgreesWithCopy [BEq V] (r : ResolvedInputs Path V) : Prop where
  find : ∀ path, r.find path = r.detachedCopy.find path
  size : r.getSize = r.detachedCopy.getSize
  isEmpty : r.isEmpty = r.detachedCopy.isEmpty ∧
    (r.isEmpty = true ↔ ∀ path, r.find path = none)
  sameValues : ∀ other : ResolvedInputs Path V,
    r.hasSameValues other = r.detachedCopy.hasSameValues other ∧
      other.hasSameValues r = other.hasSameValues r.detachedCopy

theorem agreesWithCopy [BEq V] (r : ResolvedInputs Path V) : AgreesWithCopy r := by
  have hsize : r.getSize = r.detachedCopy.getSize := by
    rw [r.getSize_eq, r.detachedCopy.getSize_eq, r.flat_detachedCopy]
  refine ⟨fun path => (r.find_detachedCopy path).symm, hsize, ⟨?_, r.isEmpty_iff⟩, ?_⟩
  · rw [ResolvedInputs.isEmpty, ResolvedInputs.isEmpty, hsize]
  · have hcopy : r.detachedCopy.detachedCopy.own.values = r.detachedCopy.own.values :=
      r.flat_detachedCopy
    intro other
    rw [ResolvedInputs.hasSameValues, ResolvedInputs.hasSameValues, ResolvedInputs.hasSameValues,
      ResolvedInputs.hasSameValues, hcopy]
    exact ⟨rfl, rfl⟩

/-- **Layered inputs answer as their flattened reference**, and no layer and no cache of a read
shows.  `r` is any stack after any operations on its top layer, and `e` what any reads and announced
edits have left of an evaluation that began without entries. -/
theorem resolvedInputs_agree [BEq V] {first : ResolvedInputs Path V}
    {edits : List (ResolvedInputs.Edit Path V)} {begun : Evaluation Path V Time}
    {events : List (Event Path V Time)} (hfresh : begun.cache.entries = ∅)
    (hannounced : AllAnnounced hasPrefix narrow begun events) :
    let r := edits.foldl ResolvedInputs.edit first
    let e := events.foldl (happen hasPrefix narrow) begun
    (AgreesWithCopy r ∧ r.flat = edits.foldl ResolvedInputs.editFlat first.flat) ∧
    (∀ path other value, other ≠ path →
      (r.setProperty path value).find other = r.find other ∧
        (r.clearProperty path).find other = r.find other) ∧
    (∀ (layer : UpstreamLayer Path V) (stage' : Stage Path V Time), Typed e.stage layer →
      Authors e.stage stage' layer → ∀ thread T time path,
      (getAttributeOverStageLayer e.stage r thread time layer narrow T e.cache path).1
        = (getAttribute stage' (r.setStaticCache false) thread time narrow T
            { owner := thread } path).1) ∧
    ∀ thread T time path,
      (getAttribute e.stage r thread time narrow T e.cache path).1
        = (getAttribute e.stage (r.setStaticCache false) thread time narrow T
            { owner := thread } path).1 := by
  dsimp only
  have hsound := sound_run (sound_of_fresh hfresh) hannounced
  refine ⟨⟨agreesWithCopy _, first.flat_foldl_edit edits⟩, ?_, ?_, ?_⟩
  · intro path other value hne
    rw [ResolvedInputs.find_setProperty, ResolvedInputs.find_clearProperty, if_neg hne, if_neg hne]
    exact ⟨rfl, rfl⟩
  · intro layer stage' htyped hauthors thread T time path
    rw [overLayer_eq hsound hauthors htyped narrow,
      (getAttribute_spec (sound_of_fresh rfl) narrow).1]
    rfl
  · intro thread T time path
    rw [(getAttribute_spec hsound narrow).1, (getAttribute_spec (sound_of_fresh rfl) narrow).1]
    rfl

end

/-! ## A strength that is painted -/

def authoredFloat (payload : Int) : Attribute String Int Nat where
  typeName := .float
  hasAuthoredConnections := false
  connections := []
  mightVary := false
  numTimeSamples := 0
  value := fun _ => some ⟨.float, payload⟩
  connections_nil := fun _ => rfl
  steady := fun _ _ _ _ => rfl
  typed := by
    intro _ v hv
    rw [← Option.some.inj hv]

/-- A stage with one input, of strength `payload`. -/
def strengthStage (payload : Int) : Stage String Int Nat :=
  OrderedMap.insert ∅ "/Rig/mover.inputs:strength" (authoredFloat payload)

theorem find?_strengthStage (payload : Int) (path : String) :
    (strengthStage payload).find? path =
      if path = "/Rig/mover.inputs:strength" then some (authoredFloat payload) else none := by
  rw [strengthStage, OrderedMap.find?_insert]
  rfl

/-- The strength is read, and then painted. -/
def strengthEvents : List (Event String Int Nat) :=
  [.read { cached := true } 0 ∅ .float 0 "/Rig/mover.inputs:strength",
    .edit 0 (strengthStage 7) [.erase "/Rig/mover.inputs:strength"]]

theorem announced_strengthEvents :
    AllAnnounced (fun path p => path == p) id ⟨strengthStage 5, { owner := 0 }⟩ strengthEvents := by
  refine ⟨trivial, ?_, trivial⟩
  intro path hchanged
  refine ⟨_, List.mem_singleton_self _, decide_eq_true ?_⟩
  by_contra hne
  refine hchanged ?_
  show (strengthStage 7).find? path = (strengthStage 5).find? path
  rw [find?_strengthStage, find?_strengthStage, if_neg hne, if_neg hne]

/-- A layer that computes the strength. -/
def strengthLayer (payload : Int) : UpstreamLayer String Int :=
  OrderedMap.insert ∅ "/Rig/mover.inputs:strength" ⟨.float, payload⟩

theorem typed_strengthLayer (authored computed : Int) :
    Typed (strengthStage authored) (strengthLayer computed) := by
  intro path value hvalue
  rw [strengthLayer, OrderedMap.find?_insert] at hvalue
  split at hvalue
  · rename_i hpath
    cases hvalue
    exact ⟨authoredFloat authored, by rw [find?_strengthStage, if_pos hpath], rfl⟩
  · cases hvalue

theorem authors_strengthLayer (authored computed : Int) :
    Authors (strengthStage authored) (strengthStage computed) (strengthLayer computed) where
  shape path := by
    rw [find?_strengthStage, find?_strengthStage]
    split <;> rfl
  value path attr attr' hattr hattr' time := by
    rw [find?_strengthStage] at hattr hattr'
    split at hattr
    · rename_i hpath
      rw [if_pos hpath] at hattr'
      cases hattr'
      rw [strengthLayer, OrderedMap.find?_insert, if_pos hpath]
      rfl
    · cases hattr

/-- The read after the paint, with the cache and without it; and under a layer that computes a
strength, as from a stage that authors it. -/
theorem resolvedInputs_agree_strength :
    let e := strengthEvents.foldl (happen (fun path p => path == p) id)
      ⟨strengthStage 5, { owner := 0 }⟩
    (getAttributeOverStageLayer e.stage { cached := true } 0 0 (strengthLayer 9) id .float e.cache
        "/Rig/mover.inputs:strength").1
      = (getAttribute (strengthStage 9) {} 0 0 id .float { owner := 0 }
        "/Rig/mover.inputs:strength").1 ∧
    (getAttribute e.stage { cached := true } 0 0 id .float e.cache "/Rig/mover.inputs:strength").1
      = (getAttribute e.stage {} 0 0 id .float { owner := 0 } "/Rig/mover.inputs:strength").1 := by
  obtain ⟨-, -, hover, hcached⟩ := @resolvedInputs_agree String Int Nat _ _ id _ { cached := true }
    [] _ strengthEvents rfl announced_strengthEvents
  exact ⟨hover (strengthLayer 9) (strengthStage 9) (typed_strengthLayer 7 9)
    (authors_strengthLayer 7 9) 0 .float 0 _, hcached 0 .float 0 _⟩

end RigExec.Resolved
