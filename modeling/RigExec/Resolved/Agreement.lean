/-
# `RigExec.Resolved.Agreement` — the shortcuts of a read do not show

A read has shortcuts: an overlay that holds nothing is not asked, an attribute that cannot change
answers from the cache, one without connections answers at once.  Without them it is `plainRead`.

    Sound                 an entry of the cache is what the stage answers
    getAttribute_spec     a read over a sound cache is `plainRead`, and leaves the cache sound

The stage that holds a layer's values as its own, and the cache over a whole history, are
in `Resolved.Histories`.
-/
import RigExec.Resolved.Reads

namespace RigExec.Resolved

open Lib (OrderedMap)

variable {Path V Time : Type}

/-! ## Entries of the cache -/

/-- What an entry says of the attribute it was made for. -/
structure EntryOf (attr : Attribute Path V Time) (entry : CacheEntry V) : Prop where
  cacheable : entry.cacheable = (attr.admitted).cacheable
  filled : entry.filled = true → ∃ T, entry.valueType = some T ∧ ∀ time,
    entry.value = (attr.get T time).map (fun payload => ⟨T, payload⟩) ∧
      entry.hasValue = (attr.get T time).isSome

theorem steady_of_admitted {attr : Attribute Path V Time} (h : attr.admitted.cacheable = true) :
    attr.hasAuthoredConnections = false ∧ ∀ (T : ValueType) (t t' : Time),
      attr.get T t = attr.get T t' := by
  simp only [Attribute.admitted, Bool.and_eq_true, Bool.not_eq_true', beq_iff_eq] at h
  refine ⟨h.1.1, fun T t t' => ?_⟩
  rw [Attribute.get, Attribute.get, attr.steady h.1.2 h.2 t t']

theorem entryOf_admitted (attr : Attribute Path V Time) : EntryOf attr attr.admitted where
  cacheable := rfl
  filled := fun h => absurd h Bool.false_ne_true

theorem EntryOf.fill {attr : Attribute Path V Time} {entry : CacheEntry V} (h : EntryOf attr entry)
    (hcacheable : entry.cacheable = true) (T : ValueType) (time : Time) :
    EntryOf attr (entry.fill T (attr.get T time)) where
  cacheable := h.cacheable
  filled := by
    intro _
    refine ⟨T, rfl, fun time' => ?_⟩
    rw [(steady_of_admitted (h.cacheable ▸ hcacheable)).2 T time' time]
    exact ⟨rfl, rfl⟩

variable [LinearOrder Path]
variable {stage : Stage Path V Time} {r : ResolvedInputs Path V} {thread : Nat} {time : Time}
variable {T : ValueType} {path : Path} {cache : StaticInputCache Path V}

/-! ## Without the shortcuts -/

/-- A read without shortcuts: the walk, with nothing before the stage. -/
def plainExact (stage : Stage Path V Time) (r : ResolvedInputs Path V) (time : Time)
    (wide : Path → Option V) (T : ValueType) (path : Path) : Option V :=
  match walk stage (r.get T) T [] path with
  | .found payload => some payload
  | .wide reached => wide reached
  | .ended fallback => fallback.findSome? (stageGet stage T time)

/-- The double read, narrowed. -/
def plainNarrowed (stage : Stage Path V Time) (r : ResolvedInputs Path V) (time : Time)
    (narrow : V → V) (path : Path) : Option V :=
  (plainExact stage r time (fun _ => none) .double path).map narrow

/-- `GetAttribute<T>` without shortcuts. -/
def plainRead (stage : Stage Path V Time) (r : ResolvedInputs Path V) (time : Time)
    (narrow : V → V) (T : ValueType) (path : Path) : Option V :=
  if T = .float ∧ isDouble stage path = true then plainNarrowed stage r time narrow path
  else plainExact stage r time (plainNarrowed stage r time narrow) T path

theorem find_of_checkOverlay (h : r.checkOverlay = false) (path : Path) : r.find path = none := by
  obtain ⟨hown, hbase⟩ := Bool.or_eq_false_iff.mp h
  have hvalues : r.own.values.find? path = none := by
    have hrows : r.own.values.rows = [] :=
      List.eq_nil_of_length_eq_zero (bne_eq_false_iff_eq.mp hown)
    rw [OrderedMap.find?, hrows]
    rfl
  have hunder : findIn path r.bases = none := by
    unfold ResolvedInputs.base? at hbase
    cases hbases : r.bases with
    | nil => rfl
    | cons layer bases =>
        rw [hbases] at hbase
        have hempty :
            ({ own := layer, bases := bases } : ResolvedInputs Path V).isEmpty = true := by
          simpa using hbase
        exact (ResolvedInputs.isEmpty_iff _).mp hempty path
  rw [ResolvedInputs.find, ResolvedInputs.layers, findIn, hvalues]
  simp [hunder]

/-- An attribute without connections, of which the inputs hold nothing, is where the walk ends. -/
theorem walk_unconnected {attr : Attribute Path V Time} (hattr : stage.find? path = some attr)
    (hconnections : attr.hasAuthoredConnections = false) (hfind : r.find path = none)
    (hwide : ¬ (T = .float ∧ isDouble stage path = true)) :
    walk stage (r.get T) T [] path = .ended [path] := by
  have hget : r.get T path = none := by rw [ResolvedInputs.get, hfind, Option.bind_none]
  have hnot : ¬ (T = .float ∧ attr.typeName = .double) := by
    simpa [isDouble, hattr] using hwide
  have hnext : attr.next = none := by
    rw [Attribute.next, hconnections, if_neg Bool.false_ne_true]
  rw [walk_of_some hattr, if_neg List.not_mem_nil, hget, hnext, Option.elim_none, if_neg hnot,
    Option.elim_none]

/-! ## The cache -/

/-- Every entry says what the stage answers. -/
def Sound (stage : Stage Path V Time) (cache : StaticInputCache Path V) : Prop :=
  ∀ path attr entry, stage.find? path = some attr → cache.entries.find? path = some entry →
    EntryOf attr entry

theorem Sound.insert (h : Sound stage cache) {attr : Attribute Path V Time}
    (hattr : stage.find? path = some attr) {entry : CacheEntry V} (hentry : EntryOf attr entry)
    {cache' : StaticInputCache Path V}
    (hentries : cache'.entries = cache.entries.insert path entry) : Sound stage cache' := by
  intro other attr' entry' hattr' hentry'
  rw [hentries, OrderedMap.find?_insert] at hentry'
  split at hentry'
  · rename_i heq
    rw [heq, hattr] at hattr'
    rw [← Option.some.inj hattr', ← Option.some.inj hentry']
    exact hentry
  · exact h other attr' entry' hattr' hentry'

theorem read_spec (h : Sound stage cache) {attr : Attribute Path V Time}
    (hattr : stage.find? path = some attr) :
    (∀ got, (cache.read thread attr path time T).1 = some got →
      attr.hasAuthoredConnections = false ∧ got = attr.get T time) ∧
      Sound stage (cache.read thread attr path time T).2 := by
  have hentry : EntryOf attr ((cache.entries.find? path).getD attr.admitted) := by
    cases hfound : cache.entries.find? path with
    | none => exact entryOf_admitted attr
    | some entry => exact h path attr entry hattr hfound
  unfold StaticInputCache.read
  by_cases howner : cache.owner ≠ thread
  · rw [if_pos howner]
    exact ⟨fun got hgot => absurd hgot.symm (Option.some_ne_none got), h⟩
  rw [if_neg howner]
  dsimp only
  cases hcacheable : ((cache.entries.find? path).getD attr.admitted).cacheable with
  | false =>
      rw [if_pos rfl]
      exact ⟨fun got hgot => absurd hgot.symm (Option.some_ne_none got), h.insert hattr hentry rfl⟩
  | true =>
      obtain ⟨hconnections, hsteady⟩ := steady_of_admitted (hentry.cacheable ▸ hcacheable)
      rw [if_neg (Ne.symm Bool.false_ne_true)]
      cases hfilled : ((cache.entries.find? path).getD attr.admitted).filled with
      | false =>
          rw [if_pos rfl]
          refine ⟨fun got hgot => ⟨hconnections, (Option.some.inj hgot).symm⟩, ?_⟩
          exact h.insert hattr (hentry.fill hcacheable T time) rfl
      | true =>
          rw [if_neg (Ne.symm Bool.false_ne_true)]
          obtain ⟨T', htype, hvalue⟩ := hentry.filled hfilled
          by_cases hsame : ((cache.entries.find? path).getD attr.admitted).valueType ≠ some T
          · rw [if_pos hsame]
            exact ⟨fun got hgot => ⟨hconnections, (Option.some.inj hgot).symm⟩, h⟩
          · rw [if_neg hsame]
            refine ⟨fun got hgot => ⟨hconnections, ?_⟩, h⟩
            obtain rfl : T' = T := Option.some.inj (htype.symm.trans (not_not.mp hsame))
            rw [← Option.some.inj hgot, (hvalue time).1, (hvalue time).2]
            cases attr.get T' time <;> rfl

/-! ## A read over a sound cache -/

/-- What the double read of a float read is to answer. -/
def WideSpec (stage : Stage Path V Time)
    (wide : StaticInputCache Path V → Path → Read Path V) (plain : Path → Option V) : Prop :=
  ∀ cache path, Sound stage cache →
    (wide cache path).1 = plain path ∧ Sound stage (wide cache path).2

section

variable {wide : StaticInputCache Path V → Path → Read Path V} {plain : Path → Option V}

theorem getByWalk_spec (hwide : WideSpec stage wide plain) (h : Sound stage cache) :
    (getByWalk stage r time wide T cache path).1 = plainExact stage r time plain T path ∧
      Sound stage (getByWalk stage r time wide T cache path).2 := by
  unfold getByWalk plainExact
  cases walk stage (r.get T) T [] path with
  | found payload => exact ⟨rfl, h⟩
  | wide reached => exact hwide cache reached h
  | ended fallback => exact ⟨rfl, h⟩

theorem plainExact_unconnected {attr : Attribute Path V Time}
    (hattr : stage.find? path = some attr) (hconnections : attr.hasAuthoredConnections = false)
    (hfind : r.find path = none) (hdouble : ¬ (T = .float ∧ isDouble stage path = true)) :
    plainExact stage r time plain T path = attr.get T time := by
  rw [plainExact, walk_unconnected hattr hconnections hfind hdouble]
  show [path].findSome? (stageGet stage T time) = attr.get T time
  rw [List.findSome?_singleton, stageGet, hattr]
  rfl

theorem getRefused_spec (hwide : WideSpec stage wide plain) (h : Sound stage cache)
    {attr : Attribute Path V Time} (hattr : stage.find? path = some attr)
    (hfind : r.find path = none) (hdouble : ¬ (T = .float ∧ isDouble stage path = true)) :
    (getRefused stage r time wide T cache path attr).1 = plainExact stage r time plain T path ∧
      Sound stage (getRefused stage r time wide T cache path attr).2 := by
  unfold getRefused
  split
  · rename_i hconnections
    exact ⟨(plainExact_unconnected hattr hconnections hfind hdouble).symm, h⟩
  · exact getByWalk_spec hwide h

theorem getExact_spec (hwide : WideSpec stage wide plain) (h : Sound stage cache)
    (hdouble : ¬ (T = .float ∧ isDouble stage path = true)) :
    (getExact stage r thread time wide T cache path).1 = plainExact stage r time plain T path ∧
      Sound stage (getExact stage r thread time wide T cache path).2 := by
  unfold getExact
  cases hattr : stage.find? path with
  | none => exact getByWalk_spec hwide h
  | some attr =>
      dsimp only
      split
      · exact getByWalk_spec hwide h
      · rename_i hoverlay
        have hfind : r.find path = none := by
          cases hcheck : r.checkOverlay with
          | false => exact find_of_checkOverlay hcheck path
          | true => simpa [hcheck] using hoverlay
        split
        · obtain ⟨hanswer, hsound⟩ := @read_spec _ _ _ _ _ thread time T path cache h attr hattr
          cases hread : cache.read thread attr path time T with
          | mk got cache' =>
              rw [hread] at hanswer hsound
              cases got with
              | some got =>
                  obtain ⟨hconnections, hgot⟩ := hanswer got rfl
                  rw [plainExact_unconnected hattr hconnections hfind hdouble]
                  exact ⟨hgot, hsound⟩
              | none => exact getRefused_spec hwide hsound hattr hfind hdouble
        · exact getRefused_spec hwide h hattr hfind hdouble

end

theorem getNarrowed_spec (narrow : V → V) :
    WideSpec stage (getNarrowed stage r thread time narrow)
      (plainNarrowed stage r time narrow) := by
  intro cache path h
  have hnone : WideSpec stage (fun cache _ => ((none : Option V), cache)) fun _ => none :=
    fun cache path h => ⟨rfl, h⟩
  obtain ⟨hanswer, hsound⟩ := @getExact_spec _ _ _ _ stage r thread time .double path cache _ _
    hnone h (fun hboth => absurd hboth.1 (by decide))
  exact ⟨congrArg (Option.map narrow) hanswer, hsound⟩

/-- **A read over a sound cache is the read without shortcuts**, and leaves the cache sound. -/
theorem getAttribute_spec (h : Sound stage cache) (narrow : V → V) :
    (getAttribute stage r thread time narrow T cache path).1
        = plainRead stage r time narrow T path ∧
      Sound stage (getAttribute stage r thread time narrow T cache path).2 := by
  unfold getAttribute plainRead
  split
  · exact getNarrowed_spec narrow cache path h
  · rename_i hdouble
    exact getExact_spec (getNarrowed_spec narrow) h hdouble

end RigExec.Resolved
