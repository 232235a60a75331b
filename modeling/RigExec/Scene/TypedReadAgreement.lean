/-
# `RigExec.Scene.TypedReadAgreement` — when the two reads agree

Binding a read ends (`bindSceneTypedRead_ne_none`).

Both reads look for a value in the same order, so hop by hop they are offered the
same.  They differ in two places.

    computed inputs     the direct read requires every computed source, the graph
                        read those of the hops up to the first double
    the fallback        the graph read reports it for every element that is asked
                        for in a phase of its own, the direct read where the chain
                        has an array

`Stray` and `Unasked` say when that shows, and `typedReads_agree` that nothing else
does.  A read that goes through an operation of its own gives what the operation
was given (`readGraphTypedRead_effective`).

A store is `Held` when its overlay slots, read as the graph reads them, give what was
delivered.  A point frame is read there as its matrix, so deliveries that hold a
`RigExecPointFrame` itself are left out.
-/
import RigExec.Scene.TypedReads
import Mathlib.Data.List.Forall2
import Mathlib.Data.List.Perm.Subperm

namespace RigExec.Scene

variable {P : Payloads} {Time : Type}

/-! ## What binding gives -/

/-- What holds of a bound read. -/
structure Bound (requested : ValueTypeName) (read : SceneTypedRead P) : Prop where
  cppType : read.cppType = requested.cppType
  element : 0 ≤ read.inputElement → read.cppType = .vec3f
  tail : read.doubleHops ≠ [] → requested = floatName
  computed : ∀ path ∈ read.computedSources,
    ∃ hop ∈ read.hops ++ read.doubleHops, hop.consumer = path

theorem bindRaw_consumer {scene : TypedScene P Time} {path : SdfPath} {raw : BoundInput P}
    (h : bindRaw scene path = .ok raw) : raw.consumer = path := by
  unfold bindRaw at h
  split at h
  · cases h
  · split at h
    · cases h
    · cases h
      rfl

theorem Bound.bindHop {requested : ValueTypeName} {current : SdfPath} {raw : BoundInput P}
    {asDouble : Bool} {read : SceneTypedRead P} (h : Bound requested read)
    (hraw : raw.consumer = current) (hfloat : asDouble = true → requested = floatName)
    (captured : AttributeDescriptor (VtValue P) ValueTypeName) :
    Bound requested (bindHop requested current captured raw asDouble read).2 ∧
      ((bindHop requested current captured raw asDouble read).1 = true →
        requested = floatName) := by
  have hdouble : (asDouble || (decide (requested = floatName) &&
      decide (captured.type = doubleName))) = true → requested = floatName := by
    intro hor
    rcases Bool.or_eq_true_iff.mp hor with has | hboth
    · exact hfloat has
    · exact of_decide_eq_true (Bool.and_eq_true_iff.mp hboth).1
  refine ⟨⟨h.cppType, h.element, ?_, ?_⟩, hdouble⟩
  · intro htail
    by_cases hor : (asDouble || (decide (requested = floatName) &&
        decide (captured.type = doubleName))) = true
    · exact hdouble hor
    · refine h.tail ?_
      simpa only [Scene.bindHop, if_neg hor] using htail
  · intro path hpath
    have hold : ∀ hop ∈ read.hops ++ read.doubleHops,
        hop ∈ (Scene.bindHop requested current captured raw asDouble read).2.hops ++
          (Scene.bindHop requested current captured raw asDouble read).2.doubleHops := by
      intro hop hin
      simp only [Scene.bindHop]
      rcases List.mem_append.mp hin with hhop | hhop
      · refine List.mem_append_left _ ?_
        split_ifs
        · exact hhop
        · exact List.mem_append_left _ hhop
      · refine List.mem_append_right _ ?_
        split_ifs
        · exact List.mem_append_left _ hhop
        · exact hhop
    have hnew : raw ∈ (Scene.bindHop requested current captured raw asDouble read).2.hops ++
        (Scene.bindHop requested current captured raw asDouble read).2.doubleHops := by
      simp only [Scene.bindHop]
      cases asDouble with
      | true => simp
      | false => simp
    have hcases : path ∈ read.computedSources ∨ path = current := by
      simp only [Scene.bindHop] at hpath
      split_ifs at hpath
      · rcases List.mem_append.mp hpath with hin | hin
        · exact .inl hin
        · exact .inr (List.mem_singleton.mp hin)
      · exact .inl hpath
    rcases hcases with hin | rfl
    · obtain ⟨hop, hhop, hconsumer⟩ := h.computed path hin
      exact ⟨hop, hold hop hhop, hconsumer⟩
    · exact ⟨raw, hnew, hraw⟩

theorem Bound.followHops {primPath : SdfPath → SdfPath} {scene : TypedScene P Time}
    {requested : ValueTypeName} {turns : Nat} :
    ∀ {visited : List SdfPath} {current : SdfPath} {asDouble : Bool}
      {read bound : SceneTypedRead P}, Bound requested read →
      (asDouble = true → requested = floatName) →
      followHops primPath scene requested turns visited current (asDouble, read) =
        some (.ok bound) → Bound requested bound := by
  induction turns with
  | zero =>
      intro visited current asDouble read bound h hfloat hfollow
      cases hfollow
  | succ turns ih =>
      intro visited current asDouble read bound h hfloat hfollow
      unfold Scene.followHops at hfollow
      split_ifs at hfollow with hstop
      · cases hfollow
        exact h
      · split at hfollow
        · rename_i captured prim _ _
          split_ifs at hfollow with hactive
          · cases hfollow
            exact h
          · split at hfollow
            · cases hfollow
            · rename_i raw hraw
              have hnext := h.bindHop (bindRaw_consumer hraw) hfloat captured
              simp only at hfollow
              split at hfollow
              · exact ih hnext.1 hnext.2 hfollow
              · cases hfollow
                exact hnext.1
        · cases hfollow
          exact h

theorem bound_of_bindSceneTypedRead {primPath : SdfPath → SdfPath} {scene : TypedScene P Time}
    {path : SdfPath} {requested : ValueTypeName} {read : SceneTypedRead P}
    (h : bindSceneTypedRead primPath scene path requested = some (.ok read)) :
    Bound requested read := by
  simp only [bindSceneTypedRead] at h
  split at h
  · cases h
  · rename_i inputElement helement
    refine Bound.followHops ⟨rfl, ?_, fun hne => (hne rfl).elim, ?_⟩ ?_ h
    · intro hnonneg
      unfold headElement at helement
      split at helement
      · cases helement
        exact absurd hnonneg (show ¬(0 : Int) ≤ -1 by decide)
      · split_ifs at helement with hbad
        by_contra hne
        exact hbad (.inl hne)
      · cases helement
    · intro path' hpath'
      cases hpath'
    · intro hdouble
      exact of_decide_eq_true (Bool.and_eq_true_iff.mp hdouble).1

/-- Each turn visits a path of its own. -/
theorem followHops_ne_none {primPath : SdfPath → SdfPath} {scene : TypedScene P Time}
    {requested : ValueTypeName} {turns : Nat} :
    ∀ {visited : List SdfPath} {current : SdfPath} {state : Bool × SceneTypedRead P},
      visited.Nodup → visited ⊆ scene.attributes.keys →
      scene.attributes.size < turns + visited.length →
      followHops primPath scene requested turns visited current state ≠ none := by
  induction turns with
  | zero =>
      intro visited current state hnodup hvisited hturns
      have hle := (List.subperm_of_subset hnodup hvisited).length_le
      rw [Lib.OrderedMap.keys, List.length_map] at hle
      rw [Lib.OrderedMap.size] at hturns
      omega
  | succ turns ih =>
      rintro visited current ⟨asDouble, read⟩ hnodup hvisited hturns
      unfold followHops
      split_ifs with hstop
      · simp
      · split
        · rename_i captured prim hcaptured _
          split_ifs
          · simp
          · split
            · simp
            · simp only
              split
              · refine ih ?_ ?_ ?_
                · exact List.nodup_cons.mpr ⟨fun hin => hstop (.inr hin), hnodup⟩
                · refine List.cons_subset.mpr ⟨?_, hvisited⟩
                  exact Lib.OrderedMap.mem_keys_iff.mpr ⟨captured, hcaptured⟩
                · rw [List.length_cons]
                  omega
              · simp
        · simp

/-- **Binding a read ends**: the turns never run out. -/
theorem bindSceneTypedRead_ne_none (primPath : SdfPath → SdfPath) (scene : TypedScene P Time)
    (path : SdfPath) (requested : ValueTypeName) :
    bindSceneTypedRead primPath scene path requested ≠ none := by
  simp only [bindSceneTypedRead]
  split
  · simp
  · exact followHops_ne_none List.nodup_nil (List.nil_subset _) (Nat.lt_succ_self _)

/-! ## What the store holds -/

section

variable [DecidableEq Time] (matrixOf : P.Frame → Option P.Matrix) (scene : TypedScene P Time)
  (read : SceneTypedRead P) (identity : Time) (delivered : Lib.OrderedMap SdfPath (VtValue P))

/-- The slots of a hop hold what is authored at an input and what was delivered to it. -/
structure HopHolds (store : TypedValueStore P) (input : BoundInput P) (hop : GraphTypedHop) :
    Prop where
  raw : store.readSceneGraphValue matrixOf hop.raw false =
    (readInput scene input identity).filter VtValue.present
  overlay : overlayValue matrixOf store hop =
    (delivered.find? input.consumer).filter VtValue.present

/-- The slots of a read without an operation of its own. -/
structure SlotsHold (graph : GraphTypedRead) (store : TypedValueStore P) : Prop where
  sized : store.length ≤ noValue
  hops : List.Forall₂ (HopHolds matrixOf scene identity delivered store) read.hops graph.hops
  doubleHops : List.Forall₂ (HopHolds matrixOf scene identity delivered store) read.doubleHops
    graph.doubleHops

/-- The store of a bound read.  A read with an operation of its own is run after the operation
has been. -/
inductive Held (narrow : P.Double → P.Single) (nameToken : SdfPath → String)
    (context : GraphBindingContext) (graph : GraphTypedRead) (store : TypedValueStore P) : Prop
  | slots : context.effectiveRead = none →
      SlotsHold matrixOf scene read identity delivered graph store →
      Held narrow nameToken context graph store
  | published {hops : GraphTypedRead} {before : TypedValueStore P} {cmp : TypedSame P}
      {boxedCount : VtValue P → Nat} : context.effectiveRead ≠ none →
      bindTypedHops nameToken read context = .ok hops →
      SlotsHold matrixOf scene read identity delivered hops before →
      runEffectiveRead narrow matrixOf hops before cmp boxedCount graph.effective = some store →
      Held narrow nameToken context graph store

/-- A hop of the graph read, with its input. -/
structure Linked (store : TypedValueStore P) (input : BoundInput P) (hop : GraphTypedHop) : Prop
    extends HopHolds matrixOf scene identity delivered store input hop where
  element : hop.element = decide (input.consumer ∈ read.elementSources)
  computed : hop.computed = decide (input.consumer ∈ read.computedSources)

/-- A graph read whose slots hold what the direct read is given. -/
structure Paired (graph : GraphTypedRead) (store : TypedValueStore P) : Prop where
  effective : graph.effective = noValue
  type : graph.type = read.cppType
  element : graph.element = read.inputElement
  base : graph.base = decide (read.readPhase = "base")
  fallback : graph.elementUnavailable ≠ ""
  hops : List.Forall₂ (Linked matrixOf scene read identity delivered store) read.hops graph.hops
  doubleHops : List.Forall₂ (Linked matrixOf scene read identity delivered store)
    read.doubleHops graph.doubleHops

end

section

variable [DecidableEq Time] {matrixOf : P.Frame → Option P.Matrix} {scene : TypedScene P Time}
  {read : SceneTypedRead P} {identity : Time} {delivered : Lib.OrderedMap SdfPath (VtValue P)}
  {graph : GraphTypedRead} {store : TypedValueStore P} {nameToken : SdfPath → String}
  {context : GraphBindingContext}

theorem bindGraphHop_flags {input : BoundInput P} {hop : GraphTypedHop}
    (h : bindGraphHop nameToken read context input = .ok hop) :
    hop.element = decide (input.consumer ∈ read.elementSources) ∧
      hop.computed = decide (input.consumer ∈ read.computedSources) := by
  simp only [bindGraphHop] at h
  split at h
  · cases h
  · split at h
    · cases h
      exact ⟨rfl, rfl⟩
    · split at h
      · cases h
      · cases h
        exact ⟨rfl, rfl⟩

theorem linked_of_bindGraphHops :
    ∀ {inputs : List (BoundInput P)} {hops : List GraphTypedHop},
      bindGraphHops nameToken read context inputs = .ok hops →
      List.Forall₂ (HopHolds matrixOf scene identity delivered store) inputs hops →
      List.Forall₂ (Linked matrixOf scene read identity delivered store) inputs hops := by
  intro inputs
  induction inputs with
  | nil =>
      intro hops hbind hholds
      cases hbind
      exact .nil
  | cons input rest ih =>
      intro hops hbind hholds
      unfold bindGraphHops at hbind
      split at hbind
      · cases hbind
      · rename_i hop hhop
        split at hbind
        · cases hbind
        · rename_i tail htail
          cases hbind
          cases hholds with
          | cons hfirst hrest =>
              exact .cons ⟨hfirst, (bindGraphHop_flags hhop).1, (bindGraphHop_flags hhop).2⟩
                (ih htail hrest)

theorem paired_of_bindTypedHops (hbind : bindTypedHops nameToken read context = .ok graph)
    (hholds : SlotsHold matrixOf scene read identity delivered graph store) :
    Paired matrixOf scene read identity delivered graph store := by
  unfold bindTypedHops at hbind
  split at hbind
  · cases hbind
  · rename_i hops hhops
    split at hbind
    · cases hbind
    · rename_i doubleHops hdoubleHops
      cases hbind
      refine ⟨rfl, rfl, rfl, rfl, ?_, linked_of_bindGraphHops hhops hholds.hops,
        linked_of_bindGraphHops hdoubleHops hholds.doubleHops⟩
      intro hempty
      simpa using congrArg String.length hempty

/-! ## What a hop offers -/

theorem offerValue_absent {type : TypeIndex} {element : Int} {selects unavailable : Bool}
    {value : VtValue P} (h : value.present = false) :
    offerValue type element selects unavailable value = (unavailable, none) := by
  cases value with
  | empty => cases selects <;> simp [offerValue, VtValue.typeid, selectElement]
  | _ => cases h

theorem offerFound_filter (type : TypeIndex) (element : Int) (selects unavailable : Bool)
    (found : Option (VtValue P)) :
    offerFound type element selects unavailable (found.filter VtValue.present) =
      offerFound type element selects unavailable found := by
  cases found with
  | none => rfl
  | some value =>
      cases hpresent : value.present with
      | true => simp [Option.filter, hpresent]
      | false => simp [Option.filter, hpresent, offerFound, offerValue_absent hpresent]

theorem firstOffer_congr {α β γ : Type} {R : α → β → Prop} {f : Bool → α → Bool × Option γ}
    {g : Bool → β → Bool × Option γ} (hfg : ∀ u a b, R a b → f u a = g u b) {as : List α}
    {bs : List β} (h : List.Forall₂ R as bs) (u : Bool)
    : firstOffer f as u = firstOffer g bs u := by
  induction h generalizing u with
  | nil => rfl
  | cons hab _ ih =>
      unfold firstOffer
      rw [hfg u _ _ hab]
      split
      · rfl
      · exact ih _

theorem firstOffer_plain {α β : Type} {offer : Bool → α → Bool × Option β} {look : α → Option β}
    {hops : List α} (h : ∀ u, ∀ hop ∈ hops, offer u hop = (u, look hop)) (u : Bool) :
    firstOffer offer hops u = (u, hops.findSome? look) := by
  induction hops with
  | nil => rfl
  | cons hop rest ih =>
      unfold firstOffer
      rw [h u hop List.mem_cons_self, List.findSome?_cons]
      cases look hop with
      | some value => rfl
      | none => exact ih fun u hop hin => h u hop (List.mem_cons_of_mem _ hin)

theorem overlayValue_of_computed {hop : GraphTypedHop} (h : hop.computed = true) :
    overlayValue matrixOf store hop = store.readSceneGraphValue matrixOf hop.overlay true := by
  unfold overlayValue TypedValueStore.readSceneGraphValue
  cases store[hop.overlay]? with
  | none => rfl
  | some state => simp [h]

section

variable (h : Paired matrixOf scene read identity delivered graph store)
include h

theorem overlayOffer_eq {input : BoundInput P} {hop : GraphTypedHop}
    (hlinked : Linked matrixOf scene read identity delivered store input hop) (type : TypeIndex)
    (unavailable : Bool) :
    deliveredOffer read delivered type unavailable input =
      overlayOffer matrixOf graph store type unavailable hop := by
  unfold overlayOffer deliveredOffer
  rw [hlinked.overlay, h.type, h.element, hlinked.element, offerFound_filter]

theorem Paired.isEmpty_doubleHops :
    graph.doubleHops.isEmpty = read.doubleHops.isEmpty := by
  have hlength := h.doubleHops.length_eq
  cases hread : read.doubleHops with
  | nil =>
      rw [hread] at hlength
      rw [List.length_eq_zero_iff.mp hlength.symm]
      rfl
  | cons hop rest =>
      cases hgraph : graph.doubleHops with
      | nil =>
          rw [hread, hgraph] at hlength
          cases hlength
      | cons hop' rest' => rfl

theorem rawOffer_eq {input : BoundInput P} {hop : GraphTypedHop}
    (hlinked : Linked matrixOf scene read identity delivered store input hop) (type : TypeIndex)
    (unavailable : Bool) :
    authoredOffer scene read identity type unavailable input =
      rawOffer matrixOf graph store type unavailable hop := by
  unfold rawOffer authoredOffer
  rw [hlinked.raw, h.element, h.base, hlinked.element, h.isEmpty_doubleHops, offerFound_filter]

theorem overlays_eq {inputs : List (BoundInput P)} {hops : List GraphTypedHop}
    (hlinked : List.Forall₂ (Linked matrixOf scene read identity delivered store) inputs hops)
    (type : TypeIndex) (unavailable : Bool) :
    firstOffer (deliveredOffer read delivered type) inputs unavailable =
      firstOffer (overlayOffer matrixOf graph store type) hops unavailable := by
  refine firstOffer_congr ?_ hlinked unavailable
  intro u input hop hpair
  exact overlayOffer_eq h hpair type u

theorem raws_eq {inputs : List (BoundInput P)} {hops : List GraphTypedHop}
    (hlinked : List.Forall₂ (Linked matrixOf scene read identity delivered store) inputs hops)
    (type : TypeIndex) (unavailable : Bool) :
    firstOffer (authoredOffer scene read identity type) inputs.reverse unavailable =
      firstOffer (rawOffer matrixOf graph store type) hops.reverse unavailable := by
  refine firstOffer_congr ?_ (List.rel_reverse hlinked) unavailable
  intro u input hop hpair
  exact rawOffer_eq h hpair type u

theorem tail_eq (unavailable : Bool) :
    directTail scene read identity delivered unavailable =
      graphTail matrixOf graph store unavailable := by
  unfold directTail graphTail
  rw [h.isEmpty_doubleHops, h.type, raws_eq h h.hops, overlays_eq h h.doubleHops]
  split_ifs
  · rfl
  · cases firstOffer (overlayOffer matrixOf graph store .double) graph.doubleHops unavailable with
    | mk flag value =>
        cases value with
        | some value => rfl
        | none => exact raws_eq h h.doubleHops _ _

end

/-! ## Required inputs -/

theorem lacksValue_eq (h : Paired matrixOf scene read identity delivered graph store)
    {input : BoundInput P} {hop : GraphTypedHop}
    (hlinked : Linked matrixOf scene read identity delivered store input hop) :
    lacksValue matrixOf graph store hop =
      (decide (input.consumer ∈ read.computedSources) &&
        lacksProducer read delivered input.consumer) := by
  unfold lacksValue
  rw [← hlinked.computed]
  cases hcomputed : hop.computed with
  | false => rfl
  | true =>
      rw [← overlayValue_of_computed hcomputed, hlinked.overlay, h.type, h.element,
        hlinked.element, h.isEmpty_doubleHops]
      unfold lacksProducer
      cases delivered.find? input.consumer with
      | none => rfl
      | some value =>
          cases hpresent : value.present with
          | true =>
              simp only [Option.filter, hpresent, if_true, Bool.true_and]
              congr 3
              cases decide (input.consumer ∈ read.elementSources) <;> simp
          | false =>
              have htype : value.typeid = none := by
                simpa [VtValue.present] using hpresent
              simp [Option.filter, hpresent, htype]

theorem any_lacksValue (h : Paired matrixOf scene read identity delivered graph store) :
    graph.hops.any (lacksValue matrixOf graph store) = true ↔
      ∃ hop ∈ read.hops, hop.consumer ∈ read.computedSources ∧
        lacksProducer read delivered hop.consumer = true := by
  have hpairs : ∀ {inputs : List (BoundInput P)} {hops : List GraphTypedHop},
      List.Forall₂ (Linked matrixOf scene read identity delivered store) inputs hops →
      (hops.any (lacksValue matrixOf graph store) = true ↔
        ∃ hop ∈ inputs, hop.consumer ∈ read.computedSources ∧
          lacksProducer read delivered hop.consumer = true) := by
    intro inputs hops hlinked
    induction hlinked with
    | nil => simp
    | cons hpair _ ih =>
        rw [List.any_cons, Bool.or_eq_true, ih, lacksValue_eq h hpair, Bool.and_eq_true,
          decide_eq_true_iff]
        simp only [List.mem_cons, exists_eq_or_imp]
  exact hpairs h.hops

/-! ## When the reads agree -/

end

/-- Both fail, or both give one value and report the fallback alike. -/
def Agree : Except String (VtValue P × String) → Except String (VtValue P × String) → Prop
  | .error _, .error _ => True
  | .ok (value, text), .ok (value', text') => value = value' ∧ (text = "" ↔ text' = "")
  | _, _ => False

/-- What was delivered to a hop, of a type. -/
def deliveredOf (delivered : Lib.OrderedMap SdfPath (VtValue P)) (type : TypeIndex)
    (hop : BoundInput P) : Option (VtValue P) :=
  (delivered.find? hop.consumer).filter fun value => value.typeid = some type

section

variable [DecidableEq Time] (scene : TypedScene P Time) (read : SceneTypedRead P)
  (identity : Time) (delivered : Lib.OrderedMap SdfPath (VtValue P))

/-- What is authored at a hop, of a type. -/
def authoredOf (type : TypeIndex) (hop : BoundInput P) : Option (VtValue P) :=
  (readInput scene hop identity).filter fun value => value.typeid = some type

/-- A computed input behind the first double has no double, and the read would find one without
it. -/
structure Stray : Prop where
  undelivered : ∀ hop ∈ read.hops, deliveredOf delivered read.cppType hop = none
  produced : ∀ hop ∈ read.hops, hop.consumer ∈ read.computedSources →
    deliveredOf delivered .double hop ≠ none
  stray : ∃ hop ∈ read.doubleHops, hop.consumer ∈ read.computedSources ∧
    deliveredOf delivered .double hop = none
  served : ∃ hop ∈ read.doubleHops, deliveredOf delivered .double hop ≠ none ∨
    authoredOf scene identity .double hop ≠ none

/-- An element is asked for in a phase of its own, on a chain without an array, and the read
finds what is authored. -/
structure Unasked : Prop where
  element : 0 ≤ read.inputElement
  sources : read.elementSources = []
  phase : read.readPhase ≠ "base"
  computed : read.computedSources = []
  undelivered : ∀ hop ∈ read.hops, deliveredOf delivered read.cppType hop = none
  served : ∃ hop ∈ read.hops, authoredOf scene identity read.cppType hop ≠ none

end

section

variable [DecidableEq Time] {matrixOf : P.Frame → Option P.Matrix} {scene : TypedScene P Time}
  {read : SceneTypedRead P} {identity : Time} {delivered : Lib.OrderedMap SdfPath (VtValue P)}
  {graph : GraphTypedRead} {store : TypedValueStore P}

theorem offerFound_plain {type : TypeIndex} {element : Int} {selects : Bool}
    (h : selects = false ∨ element < 0) (unavailable : Bool) (found : Option (VtValue P)) :
    offerFound type element selects unavailable found =
      (unavailable, found.filter fun value => value.typeid = some type) := by
  cases found with
  | none => rfl
  | some value =>
      by_cases htype : value.typeid = some type
      · simp [offerFound, offerValue, Option.filter, htype]
      · rcases h with rfl | helement
        · simp [offerFound, offerValue, Option.filter, htype]
        · simp [offerFound, offerValue, Option.filter, htype, selectElement, helement]

theorem deliveredOffer_plain {type : TypeIndex}
    (h : type ≠ read.cppType ∨ read.elementSources = [] ∨ read.inputElement < 0)
    (unavailable : Bool) (hop : BoundInput P) :
    deliveredOffer read delivered type unavailable hop =
      (unavailable, deliveredOf delivered type hop) := by
  refine offerFound_plain ?_ unavailable _
  rcases h with hne | hsources | helement
  · exact .inl (by simp [hne])
  · exact .inl (by simp [hsources])
  · exact .inr helement

theorem authoredOffer_plain {type : TypeIndex}
    (h : read.doubleHops ≠ [] ∨ read.elementSources = [])
    (unavailable : Bool) (hop : BoundInput P) :
    authoredOffer scene read identity type unavailable hop =
      (unavailable, authoredOf scene identity type hop) := by
  refine offerFound_plain (.inl ?_) unavailable _
  rcases h with hne | hsources
  · simp [hne]
  · simp [hsources]

theorem findSome_ne_none {α β : Type} (look : α → Option β) (hops : List α) :
    hops.findSome? look ≠ none ↔ ∃ hop ∈ hops, look hop ≠ none := by
  rw [Ne, List.findSome?_eq_none_iff]
  simp

theorem directTail_double (scene : TypedScene P Time) (identity : Time)
    (delivered : Lib.OrderedMap SdfPath (VtValue P)) (h : read.doubleHops ≠ [])
    (hne : TypeIndex.double ≠ read.cppType) :
    (directTail scene read identity delivered false).1 = false ∧
      ((directTail scene read identity delivered false).2 ≠ none ↔
        ∃ hop ∈ read.doubleHops, deliveredOf delivered .double hop ≠ none ∨
          authoredOf scene identity .double hop ≠ none) := by
  have hdelivered : firstOffer (deliveredOffer read delivered .double) read.doubleHops false =
      (false, read.doubleHops.findSome? (deliveredOf delivered .double)) :=
    firstOffer_plain (fun u hop _ => deliveredOffer_plain (.inl hne) u hop) false
  have hauthored : firstOffer (authoredOffer scene read identity .double) read.doubleHops.reverse
      false = (false, read.doubleHops.reverse.findSome? (authoredOf scene identity .double)) :=
    firstOffer_plain (fun u hop _ => authoredOffer_plain (.inl h) u hop) false
  have hempty : read.doubleHops.isEmpty = false := by
    rw [List.isEmpty_eq_false_iff]
    exact h
  unfold directTail
  rw [hempty, if_neg Bool.false_ne_true, hdelivered]
  cases hfound : read.doubleHops.findSome? (deliveredOf delivered .double) with
  | some value =>
      have hsome : read.doubleHops.findSome? (deliveredOf delivered .double) ≠ none := by
        rw [hfound]
        exact Option.some_ne_none _
      obtain ⟨hop, hin, hhop⟩ := (findSome_ne_none _ _).mp hsome
      exact ⟨rfl, fun _ => ⟨hop, hin, .inl hhop⟩, fun _ => Option.some_ne_none _⟩
  | none =>
      simp only [hauthored, true_and, findSome_ne_none]
      constructor
      · rintro ⟨hop, hin, hhop⟩
        exact ⟨hop, List.mem_reverse.mp hin, .inr hhop⟩
      · rintro ⟨hop, hin, hhop | hhop⟩
        · exact absurd (List.findSome?_eq_none_iff.mp hfound hop hin) hhop
        · exact ⟨hop, List.mem_reverse.mpr hin, hhop⟩

theorem directTail_plain (h : read.doubleHops = []) (hsources : read.elementSources = [])
    (unavailable : Bool) :
    directTail scene read identity delivered unavailable =
      (unavailable, read.hops.reverse.findSome? (authoredOf scene identity read.cppType)) := by
  unfold directTail
  rw [h, List.isEmpty_nil, if_pos rfl]
  exact firstOffer_plain (fun u hop _ => authoredOffer_plain (.inr hsources) u hop) unavailable

theorem lacksProducer_iff {type : TypeIndex} {hop : BoundInput P}
    (htype : type = if read.doubleHops.isEmpty then read.cppType else .double)
    (h : read.doubleHops ≠ [] ∨ read.elementSources = []) :
    lacksProducer read delivered hop.consumer = true ↔ deliveredOf delivered type hop = none := by
  have hselected : ∀ value : VtValue P,
      (read.doubleHops.isEmpty && decide (0 ≤ read.inputElement) &&
        decide (hop.consumer ∈ read.elementSources) &&
        decide (value.typeid = some .vec3fArray)) = false := by
    intro value
    rcases h with hne | hsources
    · simp [hne]
    · simp [hsources]
  unfold lacksProducer deliveredOf
  cases delivered.find? hop.consumer with
  | none => simp
  | some value =>
      simp only [hselected, ← htype, Bool.not_false, Bool.true_and, decide_eq_true_iff]
      by_cases hvalue : value.typeid = some type
      · simp [Option.filter, hvalue]
      · simp [Option.filter, hvalue]

theorem Agree.refl (r : Except String (VtValue P × String)) : Agree r r := by
  cases r with
  | error _ => trivial
  | ok pair => exact ⟨rfl, Iff.rfl⟩

variable (narrow : P.Double → P.Single)

theorem readGraphTypedRead_served {unavailable : Bool} {value : VtValue P}
    (h : Paired matrixOf scene read identity delivered graph store)
    (hfirst : firstOffer (deliveredOffer read delivered read.cppType) read.hops false =
      (unavailable, some value)) :
    resolveSceneTypedRead narrow scene read identity delivered = .ok (value, "") ∧
      readGraphTypedRead narrow matrixOf graph store = .ok (value, "") := by
  unfold resolveSceneTypedRead readGraphTypedRead
  rw [if_neg (not_not.mpr h.effective), h.type, ← overlays_eq h h.hops, hfirst]
  exact ⟨rfl, rfl⟩

theorem readGraphTypedRead_rest {unavailable : Bool}
    (h : Paired matrixOf scene read identity delivered graph store)
    (hfirst : firstOffer (deliveredOffer read delivered read.cppType) read.hops false =
      (unavailable, none)) :
    resolveSceneTypedRead narrow scene read identity delivered =
        directRest narrow scene read identity delivered
          (unavailable || (decide (0 ≤ read.inputElement) && !read.elementSources.isEmpty &&
            decide (read.readPhase ≠ "base"))) ∧
      readGraphTypedRead narrow matrixOf graph store =
        graphRest narrow matrixOf graph store
          (unavailable || (decide (0 ≤ read.inputElement) &&
            decide (read.readPhase ≠ "base"))) := by
  unfold resolveSceneTypedRead readGraphTypedRead
  rw [if_neg (not_not.mpr h.effective), h.type, ← overlays_eq h h.hops, hfirst, h.element, h.base]
  refine ⟨rfl, ?_⟩
  simp only [decide_not]

theorem agree_error {text : String} {r : Except String (VtValue P × String)} :
    Agree (.error text) r ↔ ∃ text', r = .error text' := by
  cases r with
  | error text' => exact ⟨fun _ => ⟨text', rfl⟩, fun _ => trivial⟩
  | ok pair =>
      refine ⟨fun h => h.elim, ?_⟩
      rintro ⟨text', h⟩
      cases h

theorem directRest_lacking (scene : TypedScene P Time) (identity : Time)
    (narrow : P.Double → P.Single) {path : SdfPath} (hpath : path ∈ read.computedSources)
    (hlacks : lacksProducer read delivered path = true) (unavailable : Bool) :
    ∃ text, directRest narrow scene read identity delivered unavailable = .error text := by
  have hfind : (read.computedSources.find? (lacksProducer read delivered)).isSome = true :=
    List.find?_isSome.mpr ⟨path, hpath, hlacks⟩
  obtain ⟨found, hfound⟩ := Option.isSome_iff_exists.mp hfind
  unfold directRest
  rw [hfound]
  exact ⟨_, rfl⟩

theorem elementFallback_ne : elementFallback read ≠ "" := by
  intro hempty
  simpa [elementFallback] using congrArg String.length hempty

section

variable (h : Paired matrixOf scene read identity delivered graph store)
include h

theorem agree_lacking (hlacks : ∃ hop ∈ read.hops, hop.consumer ∈ read.computedSources ∧
      lacksProducer read delivered hop.consumer = true) (unavailable unavailable' : Bool) :
    Agree (directRest narrow scene read identity delivered unavailable)
      (graphRest narrow matrixOf graph store unavailable') := by
  obtain ⟨hop, hin, hcomputed, hhop⟩ := hlacks
  obtain ⟨text, htext⟩ := directRest_lacking scene identity narrow hcomputed hhop unavailable
  rw [htext, agree_error]
  unfold graphRest
  rw [if_pos ((any_lacksValue h).mpr ⟨hop, hin, hcomputed, hhop⟩)]
  exact ⟨_, rfl⟩

theorem graphRest_error (hcomplete : ¬∃ hop ∈ read.hops, hop.consumer ∈ read.computedSources ∧
      lacksProducer read delivered hop.consumer = true) (unavailable : Bool) :
    (∃ text, graphRest narrow matrixOf graph store unavailable = .error text) ↔
      (directTail scene read identity delivered unavailable).2 = none := by
  unfold graphRest
  rw [if_neg (fun hany => hcomplete ((any_lacksValue h).mp hany)), ← tail_eq h]
  cases directTail scene read identity delivered unavailable with
  | mk flag value =>
      cases value with
      | none => exact ⟨fun _ => rfl, fun _ => ⟨_, rfl⟩⟩
      | some value =>
          constructor
          · rintro ⟨text, htext⟩
            cases htext
          · intro hnone
            cases hnone

/-- Nothing is missing, and the tails find the same: the reads agree if they flag it alike. -/
theorem agree_complete
    (hdirect : ¬∃ path ∈ read.computedSources, lacksProducer read delivered path = true)
    (hgraph : ¬∃ hop ∈ read.hops, hop.consumer ∈ read.computedSources ∧
      lacksProducer read delivered hop.consumer = true)
    {unavailable unavailable' flag flag' : Bool} {value : Option (VtValue P)}
    (htail : directTail scene read identity delivered unavailable = (flag, value))
    (htail' : directTail scene read identity delivered unavailable' = (flag', value)) :
    Agree (directRest narrow scene read identity delivered unavailable)
        (graphRest narrow matrixOf graph store unavailable') ↔ value = none ∨ flag = flag' := by
  have hfind : read.computedSources.find? (lacksProducer read delivered) = none := by
    rw [List.find?_eq_none]
    intro path hpath hlacks
    exact hdirect ⟨path, hpath, hlacks⟩
  unfold directRest graphRest
  rw [hfind, if_neg (fun hany => hgraph ((any_lacksValue h).mp hany)), ← tail_eq h, htail, htail',
    h.isEmpty_doubleHops]
  cases value with
  | none => exact ⟨fun _ => .inl rfl, fun _ => trivial⟩
  | some value =>
      have hdirectText : (if flag then elementFallback read else "") = "" ↔ flag = false := by
        cases flag with
        | true => simp [elementFallback_ne]
        | false => simp
      have hgraphText : (if flag' then graph.elementUnavailable else "") = "" ↔
          flag' = false := by
        cases flag' with
        | true => simp [h.fallback]
        | false => simp
      simp only [Agree, hdirectText, hgraphText, true_and]
      cases flag <;> cases flag' <;> simp

end

/-! ## The two differences -/

variable {requested : ValueTypeName}

theorem Bound.float (h : Bound requested read) (htail : read.doubleHops ≠ []) :
    read.cppType = .float := by
  rw [h.cppType, h.tail htail]
  rfl

theorem Bound.unselected (h : Bound requested read) (htail : read.doubleHops ≠ []) :
    read.inputElement < 0 := by
  by_contra helement
  have hvec := h.element (not_lt.mp helement)
  rw [h.float htail] at hvec
  cases hvec

theorem Stray.tail (h : Stray scene read identity delivered) : read.doubleHops ≠ [] := by
  obtain ⟨hop, hin, -⟩ := h.stray
  exact List.ne_nil_of_mem hin

theorem firstOffer_deliveredOffer
    (h : read.elementSources = [] ∨ read.inputElement < 0) :
    firstOffer (deliveredOffer read delivered read.cppType) read.hops false =
      (false, read.hops.findSome? (deliveredOf delivered read.cppType)) :=
  firstOffer_plain (fun u hop _ => deliveredOffer_plain (.inr h) u hop) false

/-- A double read: only a stray computed input tells the reads apart. -/
theorem agree_double (hb : Bound requested read)
    (h : Paired matrixOf scene read identity delivered graph store) (hne : read.doubleHops ≠ []) :
    Agree (resolveSceneTypedRead narrow scene read identity delivered)
        (readGraphTypedRead narrow matrixOf graph store) ↔
      ¬Stray scene read identity delivered := by
  have hfirst : firstOffer (deliveredOffer read delivered read.cppType) read.hops false =
      (false, read.hops.findSome? (deliveredOf delivered read.cppType)) :=
    firstOffer_deliveredOffer (.inr (hb.unselected hne))
  have hlacks : ∀ hop : BoundInput P, lacksProducer read delivered hop.consumer = true ↔
      deliveredOf delivered .double hop = none := by
    intro hop
    refine lacksProducer_iff ?_ (.inl hne)
    rw [if_neg (fun hempty => hne (List.isEmpty_iff.mp hempty))]
  have helement : decide (0 ≤ read.inputElement) = false :=
    decide_eq_false (not_le.mpr (hb.unselected hne))
  have hdouble : TypeIndex.double ≠ read.cppType := by
    rw [hb.float hne]
    exact TypeIndex.noConfusion
  obtain ⟨hflag, hserved⟩ := directTail_double scene identity delivered hne hdouble
  cases hfound : read.hops.findSome? (deliveredOf delivered read.cppType) with
  | some value =>
      rw [hfound] at hfirst
      obtain ⟨hd, hg⟩ := readGraphTypedRead_served narrow h hfirst
      rw [hd, hg]
      refine ⟨fun _ hstray => ?_, fun _ => Agree.refl _⟩
      rw [List.findSome?_eq_none_iff.mpr hstray.undelivered] at hfound
      cases hfound
  | none =>
      rw [hfound] at hfirst
      obtain ⟨hd, hg⟩ := readGraphTypedRead_rest narrow h hfirst
      rw [hd, hg, helement]
      simp only [Bool.false_and, Bool.or_false]
      by_cases hhops : ∃ hop ∈ read.hops, hop.consumer ∈ read.computedSources ∧
          lacksProducer read delivered hop.consumer = true
      · refine ⟨fun _ hstray => ?_, fun _ => agree_lacking narrow h hhops _ _⟩
        obtain ⟨hop, hin, hcomputed, hhop⟩ := hhops
        exact hstray.produced hop hin hcomputed ((hlacks hop).mp hhop)
      · by_cases hall : ∃ path ∈ read.computedSources, lacksProducer read delivered path = true
        · -- the direct read fails, and the graph read does unless its tail is served
          obtain ⟨path, hpath, hlacking⟩ := hall
          obtain ⟨text, htext⟩ := directRest_lacking scene identity narrow hpath hlacking false
          rw [htext, agree_error, graphRest_error narrow h hhops]
          constructor
          · intro hnone hstray
            exact hserved.mpr hstray.served hnone
          · intro hstray
            by_contra hsome
            refine hstray ⟨List.findSome?_eq_none_iff.mp hfound, ?_, ?_, hserved.mp hsome⟩
            · intro hop hin hcomputed hnone
              exact hhops ⟨hop, hin, hcomputed, (hlacks hop).mpr hnone⟩
            · obtain ⟨hop, hin, rfl⟩ := hb.computed path hpath
              rcases List.mem_append.mp hin with hin | hin
              · exact absurd ⟨hop, hin, hpath, hlacking⟩ hhops
              · exact ⟨hop, hin, hpath, (hlacks hop).mp hlacking⟩
        · have htail : directTail scene read identity delivered false =
              (false, (directTail scene read identity delivered false).2) :=
            Prod.ext hflag rfl
          rw [agree_complete narrow h hall hhops htail htail]
          refine ⟨fun _ hstray => ?_, fun _ => .inr rfl⟩
          obtain ⟨hop, -, hcomputed, hnone⟩ := hstray.stray
          exact hall ⟨hop.consumer, hcomputed, (hlacks hop).mpr hnone⟩

/-- A read without a double: only an element that no array was asked for tells the reads
apart. -/
theorem agree_plain (hb : Bound requested read)
    (h : Paired matrixOf scene read identity delivered graph store) (hnil : read.doubleHops = []) :
    Agree (resolveSceneTypedRead narrow scene read identity delivered)
        (readGraphTypedRead narrow matrixOf graph store) ↔
      ¬Unasked scene read identity delivered := by
  -- the hops carry every computed source
  have hsame : (∃ path ∈ read.computedSources, lacksProducer read delivered path = true) ↔
      ∃ hop ∈ read.hops, hop.consumer ∈ read.computedSources ∧
        lacksProducer read delivered hop.consumer = true := by
    constructor
    · rintro ⟨path, hpath, hlacking⟩
      obtain ⟨hop, hin, rfl⟩ := hb.computed path hpath
      rw [hnil, List.append_nil] at hin
      exact ⟨hop, hin, hpath, hlacking⟩
    · rintro ⟨hop, -, hpath, hlacking⟩
      exact ⟨hop.consumer, hpath, hlacking⟩
  cases hfirst : firstOffer (deliveredOffer read delivered read.cppType) read.hops false with
  | mk unavailable found =>
      cases found with
      | some value =>
          obtain ⟨hd, hg⟩ := readGraphTypedRead_served narrow h hfirst
          rw [hd, hg]
          refine ⟨fun _ hunasked => ?_, fun _ => Agree.refl _⟩
          rw [firstOffer_deliveredOffer (.inl hunasked.sources),
            List.findSome?_eq_none_iff.mpr hunasked.undelivered] at hfirst
          cases hfirst
      | none =>
          obtain ⟨hd, hg⟩ := readGraphTypedRead_rest narrow h hfirst
          rw [hd, hg]
          by_cases hhops : ∃ hop ∈ read.hops, hop.consumer ∈ read.computedSources ∧
              lacksProducer read delivered hop.consumer = true
          · refine ⟨fun _ hunasked => ?_, fun _ => agree_lacking narrow h hhops _ _⟩
            obtain ⟨hop, -, hcomputed, -⟩ := hhops
            rw [hunasked.computed] at hcomputed
            cases hcomputed
          · have hall := fun hlacking => hhops (hsame.mp hlacking)
            by_cases hsources : read.elementSources = []
            · rw [firstOffer_deliveredOffer (.inl hsources)] at hfirst
              obtain ⟨rfl, hfound⟩ := Prod.mk.inj hfirst
              have hundelivered := List.findSome?_eq_none_iff.mp hfound
              rw [agree_complete narrow h hall hhops (directTail_plain hnil hsources _)
                (directTail_plain hnil hsources _), hsources, List.isEmpty_nil]
              have hserved := findSome_ne_none (authoredOf scene identity read.cppType)
                read.hops.reverse
              simp only [List.mem_reverse] at hserved
              constructor
              · rintro (hnone | hflag) hunasked
                · exact hserved.mpr hunasked.served hnone
                · simp [hunasked.element, hunasked.phase] at hflag
              · intro hunasked
                by_contra hdiffer
                rw [not_or] at hdiffer
                obtain ⟨hsome, hflag⟩ := hdiffer
                simp only [Bool.not_true, Bool.and_false, Bool.false_and, Bool.false_or,
                  Bool.eq_false_iff, ne_eq, eq_comm (a := false), not_not, Bool.and_eq_true,
                  decide_eq_true_iff] at hflag
                refine hunasked ⟨hflag.1, hsources, hflag.2, ?_, hundelivered, hserved.mp hsome⟩
                refine List.eq_nil_iff_forall_not_mem.mpr ?_
                intro path hpath
                obtain ⟨hop, hin, rfl⟩ := hb.computed path hpath
                rw [hnil, List.append_nil] at hin
                refine hhops ⟨hop, hin, hpath, ?_⟩
                have hrequired : read.cppType =
                    if read.doubleHops.isEmpty then read.cppType else .double := by
                  rw [hnil]
                  rfl
                exact (lacksProducer_iff hrequired (.inr hsources)).mpr (hundelivered hop hin)
            · have hempty : read.elementSources.isEmpty = false := by
                rw [List.isEmpty_eq_false_iff]
                exact hsources
              rw [hempty, Bool.not_false, Bool.and_true]
              rw [agree_complete narrow h hall hhops rfl rfl]
              exact ⟨fun _ hunasked => hsources hunasked.sources, fun _ => .inr rfl⟩

/-! ## Reads with an operation of their own -/

theorem offerValue_present {type : TypeIndex} {element : Int} {selects unavailable : Bool}
    {value offered : VtValue P}
    (h : (offerValue type element selects unavailable value).2 = some offered) :
    offered.present = true := by
  unfold offerValue at h
  split_ifs at h with htype
  · cases h
    rw [VtValue.present, htype]
    rfl
  · unfold selectElement at h
    split_ifs at h
    split at h
    · split at h
      · cases h
        rfl
      · cases h
    · cases h

theorem firstOffer_present {α : Type} {type : TypeIndex} {element : Int}
    {selects : Bool → α → Bool} {look : α → Option (VtValue P)} {hops : List α} {u : Bool}
    {value : VtValue P}
    (h : (firstOffer (fun u hop => offerFound type element (selects u hop) u (look hop)) hops u).2 =
      some value) : value.present = true := by
  induction hops generalizing u with
  | nil => cases h
  | cons hop rest ih =>
      unfold firstOffer at h
      split at h
      · rename_i flag offered hoffer
        cases h
        cases hlook : look hop with
        | none =>
            rw [hlook] at hoffer
            cases hoffer
        | some found =>
            rw [hlook] at hoffer
            exact offerValue_present (congrArg Prod.snd hoffer)
      · exact ih h

theorem graphTail_present {unavailable : Bool} {value : VtValue P}
    (h : (graphTail matrixOf graph store unavailable).2 = some value) : value.present = true := by
  unfold graphTail at h
  split_ifs at h
  · exact firstOffer_present h
  · split at h
    · rename_i offered hoffer
      cases h
      exact firstOffer_present (congrArg Prod.snd hoffer)
    · exact firstOffer_present h

theorem narrowed_present {value : VtValue P} (h : value.present = true) :
    (narrowed narrow value).present = true := by
  cases value with
  | double x => rfl
  | _ => exact h

theorem readGraphTypedRead_present (heffective : graph.effective = noValue) {value : VtValue P}
    {text : String} (h : readGraphTypedRead narrow matrixOf graph store = .ok (value, text)) :
    value.present = true := by
  unfold readGraphTypedRead at h
  rw [if_neg (not_not.mpr heffective)] at h
  split at h
  · rename_i flag offered hfirst
    cases h
    exact firstOffer_present (congrArg Prod.snd hfirst)
  · unfold graphRest at h
    by_cases hlacks : graph.hops.any (lacksValue matrixOf graph store) = true
    · rw [if_pos hlacks] at h
      cases h
    · rw [if_neg hlacks] at h
      split at h
      · cases h
      · rename_i flag offered htail
        have hoffered := graphTail_present (congrArg Prod.snd htail)
        cases h
        split_ifs
        · exact hoffered
        · exact narrowed_present narrow hoffered

theorem readSceneGraphValue_slot (matrixOf : P.Frame → Option P.Matrix) {before : TypedValueStore P}
    {content : SlotContent P}
    (hsized : before.length ≤ noValue) (hwrites : Writes before graph.effective content store)
    (value : VtValue P) (hinitialized : content.initialized = true)
    (hvalue : content.value = value.alternative) :
    graph.effective ≠ noValue ∧ ∃ state, store[graph.effective]? = some state ∧
      state.error = content.error ∧
      store.readSceneGraphValue matrixOf graph.effective false =
        if content.blocked then none else (some value).filter VtValue.present := by
  obtain ⟨state, hstate, rfl⟩ := Option.map_eq_some_iff.mp hwrites.content
  have hlt : graph.effective < store.length := (List.getElem?_eq_some_iff.mp hstate).1
  rw [hwrites.length] at hlt
  exact ⟨(lt_of_lt_of_le hlt hsized).ne, state, hstate, rfl,
    readSceneGraphValue_published hstate hinitialized hvalue⟩

theorem readGraphTypedRead_effective {hops : GraphTypedRead} {before : TypedValueStore P}
    {cmp : TypedSame P} {boxedCount : VtValue P → Nat} (hsized : before.length ≤ noValue)
    (heffective : hops.effective = noValue)
    (hrun : runEffectiveRead narrow matrixOf hops before cmp boxedCount graph.effective =
      some store) :
    readGraphTypedRead narrow matrixOf graph store =
      readGraphTypedRead narrow matrixOf hops before := by
  unfold runEffectiveRead at hrun
  cases hread : readGraphTypedRead narrow matrixOf hops before with
  | error diagnostic =>
      rw [hread] at hrun
      obtain ⟨hne, state, hstate, herror, hvalue⟩ := readSceneGraphValue_slot matrixOf
        hsized (publishSource_writes hrun) .empty rfl rfl
      rw [if_pos rfl] at hvalue
      unfold readGraphTypedRead
      rw [if_pos hne, hstate]
      simp only [hvalue, herror]
  | ok pair =>
      obtain ⟨selected, diagnostic⟩ := pair
      rw [hread] at hrun
      obtain ⟨hne, state, hstate, herror, hvalue⟩ := readSceneGraphValue_slot matrixOf
        hsized (publishSource_writes hrun) selected rfl rfl
      rw [if_neg Bool.false_ne_true, Option.filter_some,
        if_pos (readGraphTypedRead_present narrow heffective hread)] at hvalue
      unfold readGraphTypedRead
      rw [if_pos hne, hstate]
      simp only [hvalue, herror]

end

/-- **The two reads agree** unless a computed input strays behind the double of a chain, or an
element is asked for that no array of the chain has. -/
theorem typedReads_agree [DecidableEq Time] {primPath : SdfPath → SdfPath}
    {nameToken : SdfPath → String} {matrixOf : P.Frame → Option P.Matrix}
    {narrow : P.Double → P.Single} {scene : TypedScene P Time} {path : SdfPath}
    {requested : ValueTypeName} {read : SceneTypedRead P} {context : GraphBindingContext}
    {graph : GraphTypedRead} {identity : Time}
    {delivered : Lib.OrderedMap SdfPath (VtValue P)} {store : TypedValueStore P}
    (hbind : bindSceneTypedRead primPath scene path requested = some (.ok read))
    (hgraph : bindGraphTypedRead nameToken read context = .ok graph)
    (hheld : Held matrixOf scene read identity delivered narrow nameToken context graph store) :
    Agree (resolveSceneTypedRead narrow scene read identity delivered)
        (readGraphTypedRead narrow matrixOf graph store) ↔
      ¬(Stray scene read identity delivered ∨ Unasked scene read identity delivered) := by
  have hb := bound_of_bindSceneTypedRead hbind
  have hcases : ∀ {g : GraphTypedRead} {s : TypedValueStore P},
      Paired matrixOf scene read identity delivered g s →
      (Agree (resolveSceneTypedRead narrow scene read identity delivered)
          (readGraphTypedRead narrow matrixOf g s) ↔
        ¬(Stray scene read identity delivered ∨ Unasked scene read identity delivered)) := by
    intro g s hpaired
    by_cases hnil : read.doubleHops = []
    · rw [agree_plain narrow hb hpaired hnil, not_or]
      exact ⟨fun hunasked => ⟨fun hstray => hstray.tail hnil, hunasked⟩, And.right⟩
    · rw [agree_double narrow hb hpaired hnil, not_or]
      refine ⟨fun hstray => ⟨hstray, fun hunasked => ?_⟩, And.left⟩
      exact absurd hunasked.element (not_le.mpr (hb.unselected hnil))
  cases hheld with
  | slots hnone hholds =>
      have hhops : bindTypedHops nameToken read context = .ok graph := by
        unfold bindGraphTypedRead at hgraph
        split at hgraph
        · cases hgraph
        · rename_i hops hhops
          rw [hnone] at hgraph
          cases hgraph
          exact hhops
      exact hcases (paired_of_bindTypedHops hhops hholds)
  | published _ hhops hholds hrun =>
      have hpaired := paired_of_bindTypedHops hhops hholds
      rw [readGraphTypedRead_effective narrow hholds.sized hpaired.effective hrun]
      exact hcases hpaired

/-! ## A float, a double and a matrix -/

/-- Payloads with numbers for floats and doubles. -/
abbrev numberPayloads : Payloads where
  Double := Int
  Single := Int
  Vec3d := Unit
  Vec3f := Unit
  Matrix := Unit
  Frame := Unit
  Opaque := Unit

/-- A float connected to a double, and the double to a matrix that is computed. -/
def chainScene : TypedScene numberPayloads Unit where
  identities := [()]
  nodes := ⟨[("/a", ⟨"Scope", .data, true⟩), ("/b", ⟨"Scope", .data, true⟩),
    ("/c", ⟨"Scope", .data, true⟩)], by decide⟩
  attributes := ⟨
    [("/a.x",
      { type := floatName
        connections := ["/b.y"]
        inputs := [{ raw := .empty, state := .connected, source := "/b.y" }] }),
    ("/b.y",
      { type := doubleName
        connections := ["/c.m"]
        inputs := [{ raw := .double 5, state := .connected, source := "/c.m" }] }),
    ("/c.m",
      { type := ⟨"matrix4d", .matrix⟩
        inputs := [{ raw := .matrix (), state := .computed, source := "/c.m" }] })], by decide⟩

/-- `GetPrimPath` of the three attributes. -/
def chainPrim (path : SdfPath) : SdfPath :=
  if path = "/a.x" then "/a" else if path = "/b.y" then "/b" else "/c"

/-- The slots of the three raw values, and of the matrix that is computed. -/
def chainContext : GraphBindingContext where
  resolve request :=
    if request.raw then
      .ok (if request.source = "/a.x" then 0 else if request.source = "/b.y" then 1 else 2)
    else if request.source = "/c.m" then .ok 3
    else .error "no producer"

def chainStore : TypedValueStore numberPayloads :=
  [{}, { value := .double 5, initialized := true }, { value := .matrix (), initialized := true },
    { value := .matrix (), initialized := true, authoritative := true }]

/-- The matrix is delivered. -/
def chainDelivered : Lib.OrderedMap SdfPath (VtValue numberPayloads) :=
  ⟨[("/c.m", .matrix ())], by decide⟩

/-- The end of the chain, read as a matrix. -/
def matrixRead : SceneTypedRead numberPayloads where
  consumer := "/c.m"
  readPhase := "base"
  requested := ⟨"matrix4d", .matrix⟩
  cppType := .matrix
  hops := [⟨"/c.m", [.matrix ()], [true], [false]⟩]
  computedSources := ["/c.m"]

/-- The chain, read as a float. -/
def chainRead : SceneTypedRead numberPayloads where
  consumer := "/a.x"
  readPhase := "base"
  requested := floatName
  cppType := .float
  hops := [⟨"/a.x", [.empty], [true], [false]⟩, ⟨"/b.y", [.double 5], [true], [false]⟩]
  doubleHops := [⟨"/b.y", [.double 5], [true], [false]⟩, ⟨"/c.m", [.matrix ()], [true], [false]⟩]
  computedSources := ["/c.m"]

/-- Read as a matrix, the end of the chain is what was delivered. -/
theorem typedReads_agree_matrix :
    ∃ graph, bindGraphTypedRead (fun _ => "m") matrixRead chainContext = .ok graph ∧
      Agree (resolveSceneTypedRead id chainScene matrixRead () chainDelivered)
        (readGraphTypedRead id (fun _ => none) graph chainStore) := by
  have hread : bindSceneTypedRead chainPrim chainScene "/c.m" ⟨"matrix4d", .matrix⟩ =
      some (.ok matrixRead) := rfl
  obtain ⟨graph, hgraph, hheld⟩ : ∃ graph,
      bindGraphTypedRead (fun _ => "m") matrixRead chainContext = .ok graph ∧
      Held (fun _ => none) chainScene matrixRead () chainDelivered id (fun _ => "m")
        chainContext graph chainStore :=
    ⟨_, rfl, .slots rfl ⟨by decide, .cons ⟨rfl, rfl⟩ .nil, .nil⟩⟩
  refine ⟨graph, hgraph, (typedReads_agree hread hgraph hheld).mpr ?_⟩
  rintro (⟨-, -, ⟨hop, hin, -⟩, -⟩ | ⟨helement, -⟩)
  · cases hin
  · exact absurd helement (by decide)

/-- The matrix is no double: the direct read fails, the graph read gives the double before it. -/
theorem typedReads_stray :
    ¬∀ (scene : TypedScene numberPayloads Unit) (path : SdfPath) (requested : ValueTypeName)
      (read : SceneTypedRead numberPayloads) (context : GraphBindingContext)
      (graph : GraphTypedRead) (delivered : Lib.OrderedMap SdfPath (VtValue numberPayloads))
      (store : TypedValueStore numberPayloads),
      bindSceneTypedRead chainPrim scene path requested = some (.ok read) →
      bindGraphTypedRead (fun _ => "x") read context = .ok graph →
      Held (fun _ => none) scene read () delivered id (fun _ => "x") context graph store →
      Agree (resolveSceneTypedRead id scene read () delivered)
        (readGraphTypedRead id (fun _ => none) graph store) := by
  intro h
  have hread : bindSceneTypedRead chainPrim chainScene "/a.x" floatName =
      some (.ok chainRead) := rfl
  obtain ⟨graph, hgraph, hheld, hvalue⟩ : ∃ graph,
      bindGraphTypedRead (fun _ => "x") chainRead chainContext = .ok graph ∧
      Held (fun _ => none) chainScene chainRead () chainDelivered id (fun _ => "x")
        chainContext graph chainStore ∧
      readGraphTypedRead id (fun _ => none) graph chainStore = .ok (.float 5, "") :=
    ⟨_, rfl, .slots rfl ⟨by decide, .cons ⟨rfl, rfl⟩ (.cons ⟨rfl, rfl⟩ .nil),
      .cons ⟨rfl, rfl⟩ (.cons ⟨rfl, rfl⟩ .nil)⟩, rfl⟩
  have hagree := h chainScene "/a.x" floatName chainRead chainContext graph chainDelivered
    chainStore hread hgraph hheld
  rw [hvalue] at hagree
  exact hagree

end RigExec.Scene
