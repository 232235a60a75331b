/-
# `RigExec.PointBlocks.Operations` — what each group operation leaves behind

One spec lemma for each operation, and from it that `Exact` survives it.

    groupScratch         the buffer handed out is in the writer's hand only
    publishOwnGroup      the version stays with the points, or is the next
    publishPassedGroup   so it does, by the slot's version where the slot is the same
    noteComputedGroup    so does the computed version, with the kept result
    resetGroup           the logs stay as they are
-/
import RigExec.PointBlocks.Versions
import Mathlib.Data.Fintype.Option
import Mathlib.Data.List.Count

namespace RigExec.PointBlocks

variable {Point : Type}

/-! ## Counting handles -/

section

variable {X Y : Type} [DecidableEq Y] {f : X → List Y} {y : Y}

theorem count_le_count_flatMap {l : List X} {x : X} (hx : x ∈ l) :
    (f x).count y ≤ (l.flatMap f).count y := by
  induction l with
  | nil => exact absurd hx List.not_mem_nil
  | cons z l ih =>
      rw [List.flatMap_cons, List.count_append]
      rcases List.mem_cons.mp hx with rfl | hx
      · omega
      · have := ih hx
        omega

theorem two_le_count_flatMap {l : List X} {i j : Nat} {a b : X} (hij : i ≠ j)
    (hi : l[i]? = some a) (hj : l[j]? = some b) (ha : y ∈ f a) (hb : y ∈ f b) :
    2 ≤ (l.flatMap f).count y := by
  induction l generalizing i j with
  | nil => cases hi
  | cons z l ih =>
      rw [List.flatMap_cons, List.count_append]
      cases i with
      | zero =>
          cases j with
          | zero => exact absurd rfl hij
          | succ j =>
              rw [List.getElem?_cons_zero, Option.some.injEq] at hi
              subst hi
              rw [List.getElem?_cons_succ] at hj
              have h₁ := List.count_pos_iff.mpr ha
              have h₂ := List.count_pos_iff.mpr hb
              have h₃ := count_le_count_flatMap (f := f) (y := y) (List.mem_of_getElem? hj)
              omega
      | succ i =>
          rw [List.getElem?_cons_succ] at hi
          cases j with
          | zero =>
              rw [List.getElem?_cons_zero, Option.some.injEq] at hj
              subst hj
              have h₁ := List.count_pos_iff.mpr ha
              have h₂ := List.count_pos_iff.mpr hb
              have h₃ := count_le_count_flatMap (f := f) (y := y) (List.mem_of_getElem? hi)
              omega
          | succ j =>
              rw [List.getElem?_cons_succ] at hj
              have := ih (fun h => hij (congrArg (· + 1) h)) hi hj
              omega

end

theorem GroupState.mem_handles {state : GroupState} {buffer : Nat} :
    buffer ∈ state.handles ↔ state.Holds buffer := by
  unfold GroupState.handles GroupState.Holds
  rw [List.mem_append, List.mem_append, Option.mem_toList, Option.mem_toList, Option.mem_toList,
    Fin.exists_fin_two]

section

variable {w w' : World Point} {i j : Nat} {g : Group Point} {buffer : Nat} {k : Fin 2}

/-- `use_count() == 1`: the own slot that holds the buffer is its only holder. -/
theorem sole_of_useCount (hg : w.groups[i]? = some g) (hown : g.state.own k = some buffer)
    (hcount : w.useCount buffer = 1) : w.Sole i k buffer := by
  have hsplit : w.useCount buffer = (w.groups.flatMap fun g => g.state.handles).count buffer +
      (w.readers.flatMap fun ref => ref.owner.toList).count buffer := List.count_append
  have hmem : g.state.Holds buffer := Or.inl ⟨k, hown⟩
  have hone : g.state.handles.count buffer ≤ 1 := by
    have := count_le_count_flatMap (f := fun g : Group Point => g.state.handles) (y := buffer)
      (List.mem_of_getElem? hg)
    omega
  have hgroups : ∀ j x, w.groups[j]? = some x → x.state.Holds buffer → j = i := by
    intro j x hx hb
    rcases eq_or_ne j i with hji | hne
    · exact hji
    · have := two_le_count_flatMap (f := fun g : Group Point => g.state.handles) hne hx hg
        (GroupState.mem_handles.mpr hb) (GroupState.mem_handles.mpr hmem)
      omega
  have hhandles : g.state.handles.count buffer =
      (g.state.own 0).toList.count buffer + (g.state.own 1).toList.count buffer +
        g.state.published.owner.toList.count buffer := by
    unfold GroupState.handles
    rw [List.count_append, List.count_append]
  have htoList : ∀ o : Option Nat, o = some buffer → o.toList.count buffer = 1 := by
    rintro o rfl
    exact List.count_singleton_self
  constructor
  · intro j x k' hx hk'
    obtain rfl := hgroups j x hx (Or.inl ⟨k', hk'⟩)
    obtain rfl := Option.some.inj (hg.symm.trans hx)
    refine ⟨rfl, ?_⟩
    rcases eq_or_ne k' k with hkk | hne
    · exact hkk
    · have h₀ : g.state.own 0 = some buffer := by
        rcases Fin.exists_fin_two.mp ⟨k, rfl⟩ with rfl | rfl
        · exact hown
        · rcases Fin.exists_fin_two.mp ⟨k', rfl⟩ with rfl | rfl
          · exact hk'
          · exact absurd rfl hne
      have h₁ : g.state.own 1 = some buffer := by
        rcases Fin.exists_fin_two.mp ⟨k, rfl⟩ with rfl | rfl
        · rcases Fin.exists_fin_two.mp ⟨k', rfl⟩ with rfl | rfl
          · exact absurd rfl hne
          · exact hk'
        · exact hown
      have := htoList _ h₀
      have := htoList _ h₁
      omega
  · intro x hx howner
    obtain ⟨j, hj⟩ := List.mem_iff_getElem?.mp hx
    obtain rfl := hgroups j x hj (Or.inr howner)
    obtain rfl := Option.some.inj (hg.symm.trans hj)
    have hp := htoList _ howner
    have ho := htoList _ hown
    rcases Fin.exists_fin_two.mp ⟨k, rfl⟩ with rfl | rfl <;> omega
  · intro ref href howner
    have hr := count_le_count_flatMap (f := fun ref : PointsRef => ref.owner.toList) (y := buffer)
      href
    have hp := htoList _ howner
    have hgs := count_le_count_flatMap (f := fun g : Group Point => g.state.handles) (y := buffer)
      (List.mem_of_getElem? hg)
    have hpos := List.count_pos_iff.mpr (GroupState.mem_handles.mpr hmem)
    omega

end

/-! ## The scratch -/

section

variable {w : World Point} {i : Nat} {g : Group Point}

@[simp] theorem GroupState.setOwn_self {state : GroupState} {k : Fin 2} {buffer : Option Nat} :
    (state.setOwn k buffer).own k = buffer := by
  show Function.update state.own k buffer k = buffer
  rw [Function.update_self]

theorem GroupState.setOwn_of_ne {state : GroupState} {k k' : Fin 2} {buffer : Option Nat}
    (hne : k' ≠ k) : (state.setOwn k buffer).own k' = state.own k' := by
  show Function.update state.own k buffer k' = state.own k'
  rw [Function.update_of_ne hne]

theorem free_forgetComputed (state : GroupState) : state.forgetComputed.free ≠ [] := by
  have htable : ∀ a b : Option (Fin 2), ¬ (a.isSome ∧ b.isSome ∧ a ≠ b) →
      ([0, 1].filter fun k : Fin 2 => a ≠ some k ∧ b ≠ some k) ≠ [] := by decide
  have hnone : ∀ a : Option (Fin 2),
      ([0, 1].filter fun k : Fin 2 => a ≠ some k ∧ none ≠ some k) ≠ [] := by decide
  unfold GroupState.forgetComputed
  split
  · exact hnone state.ownPublished
  · next h => exact htable _ _ h

theorem candidate_free {state : GroupState} (useCount : Nat → Nat) (hfree : state.free ≠ []) :
    state.ownPublished ≠ some (state.candidate useCount) ∧
      state.ownComputed ≠ some (state.candidate useCount) := by
  have hmem : state.candidate useCount ∈ state.free := by
    unfold GroupState.candidate
    cases hfind : state.free.find? (state.unique useCount) with
    | some k => exact List.mem_of_find?_eq_some hfind
    | none =>
        obtain ⟨k, rest, hrest⟩ := List.exists_cons_of_ne_nil hfree
        rw [hrest]
        exact List.mem_cons_self
  simpa using (List.mem_filter.mp hmem).2

theorem World.Exact.sole_next (h : w.Exact) (i : Nat) (k : Fin 2) :
    w.Sole i k w.heap.next where
  own := by
    intro j x k' hx hk'
    exact absurd (h.bounded x (List.mem_of_getElem? hx) _ (Or.inl ⟨k', hk'⟩)) (Nat.lt_irrefl _)
  published x hx howner := absurd (h.bounded x hx _ (Or.inr howner)) (Nat.lt_irrefl _)
  readers ref href howner := absurd (h.readers ref href _ howner) (Nat.lt_irrefl _)

/-- The buffer handed out is a new one, or one that no other handle is to; it is the only one
overwritten. -/
theorem groupScratch_spec [Inhabited Point] (h : w.Exact) (hg : w.groups[i]? = some g)
    {count : Nat} {k : Fin 2} {heap : Heap Point} {state : GroupState}
    (hhanded : groupScratch w.useCount w.heap g.state count = (k, heap, state)) :
    k = g.state.forgetComputed.candidate w.useCount ∧
      ∃ buffer, state = g.state.forgetComputed.setOwn k (some buffer) ∧ w.Sole i k buffer ∧
        w.heap.Agrees heap buffer ∧ w.heap.next ≤ heap.next ∧ buffer < heap.next := by
  have hown : g.state.forgetComputed.own = g.state.own := by
    unfold GroupState.forgetComputed
    split <;> rfl
  unfold groupScratch at hhanded
  simp only at hhanded
  split at hhanded
  · next buffer hbuffer hunique =>
      cases hhanded
      have hheld : g.state.own (g.state.forgetComputed.candidate w.useCount) = some buffer :=
        hown ▸ hbuffer
      have hcount : w.useCount buffer = 1 := by
        unfold GroupState.unique at hunique
        rw [hbuffer] at hunique
        exact eq_of_beq hunique
      refine ⟨rfl, buffer, ?_, sole_of_useCount hg hheld hcount, w.heap.agrees_store _,
        Nat.le_refl _, h.bounded g (List.mem_of_getElem? hg) buffer (Or.inl ⟨_, hheld⟩)⟩
      unfold GroupState.setOwn
      rw [← hbuffer, Function.update_eq_self]
  · cases hhanded
    exact ⟨rfl, w.heap.next, rfl, h.sole_next i _, w.heap.agrees_allocate _, Nat.le_succ _,
      Nat.lt_succ_self _⟩

end

/-! ## Publications -/

/-- What a publication of `points` leaves: they are the group's points, under the version it had
when they were its points before, and under the next one otherwise. -/
structure Publication (heap : Heap Point) (state state' : GroupState) (points : List Point) :
    Prop where
  own : state'.own = state.own
  ownComputed : state'.ownComputed = state.ownComputed
  computedVersion : state'.computedVersion = state.computedVersion
  ran : state'.ran = true
  content : heap.points state'.published = points
  version : state'.version = state.version ∧ points = heap.points state.published ∨
    state'.version = state.version + 1

section

variable [DecidableEq Point] {heap : Heap Point} {state : GroupState}

theorem publishOwnGroup_eq {k : Fin 2} {buffer : Nat} (hown : state.own k = some buffer) :
    publishOwnGroup heap state k =
      if !state.ran ∨ heap.points state.published ≠ heap.buffers buffer then
        { state with
          published := heap.whole buffer
          ownPublished := some k
          passedFrom := {}
          version := state.version + 1
          ran := true }
      else { state with ran := true } := by
  unfold publishOwnGroup
  rw [hown]

theorem publishOwnGroup_spec (heap : Heap Point) {k : Fin 2} {buffer : Nat}
    (hown : state.own k = some buffer) :
    Publication heap state (publishOwnGroup heap state k) (heap.buffers buffer) := by
  rw [publishOwnGroup_eq hown]
  by_cases hmoved : !state.ran ∨ heap.points state.published ≠ heap.buffers buffer
  · rw [if_pos hmoved]
    exact ⟨rfl, rfl, rfl, rfl, heap.points_whole, Or.inr rfl⟩
  · rw [if_neg hmoved]
    push Not at hmoved
    exact ⟨rfl, rfl, rfl, rfl, hmoved.2, Or.inl ⟨rfl, hmoved.2.symm⟩⟩

theorem publishOwnGroup_published (heap : Heap Point) {k : Fin 2} {buffer : Nat}
    (hown : state.own k = some buffer) :
    (publishOwnGroup heap state k).published.owner = some buffer ∧
        (publishOwnGroup heap state k).passedFrom.slot = none ∨
      (publishOwnGroup heap state k).published = state.published ∧
        (publishOwnGroup heap state k).passedFrom = state.passedFrom := by
  rw [publishOwnGroup_eq hown]
  by_cases hmoved : !state.ran ∨ heap.points state.published ≠ heap.buffers buffer
  · rw [if_pos hmoved]
    exact Or.inl ⟨rfl, rfl⟩
  · rw [if_neg hmoved]
    exact Or.inr ⟨rfl, rfl⟩

theorem publishOwnGroup_moves {k : Fin 2} {buffer : Nat} (hown : state.own k = some buffer)
    (hne : (publishOwnGroup heap state k).version ≠ state.version) :
    state.ran = false ∨ heap.points state.published ≠ heap.buffers buffer := by
  rw [publishOwnGroup_eq hown] at hne
  by_cases hmoved : !state.ran ∨ heap.points state.published ≠ heap.buffers buffer
  · simpa using hmoved
  · simp only [if_neg hmoved] at hne
    exact absurd rfl hne

theorem publishPassedGroup_spec (heap : Heap Point) (state : GroupState) (source : PointsRef)
    (passedFrom : GroupSource)
    (htrust : passedFrom.slot ≠ none → state.passedFrom = passedFrom →
      heap.points source = heap.points state.published) :
    Publication heap state (publishPassedGroup heap state source passedFrom)
      (heap.points source) := by
  refine ⟨rfl, rfl, rfl, rfl, rfl, ?_⟩
  unfold publishPassedGroup passedMoves
  by_cases hran : state.ran
  · rw [if_pos hran]
    by_cases hslot : passedFrom.slot ≠ none ∧ state.passedFrom.slot = passedFrom.slot
    · rw [if_pos hslot]
      rcases eq_or_ne state.passedFrom.version passedFrom.version with hversion | hversion
      · left
        refine ⟨by simp [hversion], htrust hslot.1 ?_⟩
        have : state.passedFrom = ⟨passedFrom.slot, passedFrom.version⟩ := by
          rw [← hslot.2, ← hversion]
        exact this
      · exact Or.inr (by simp [hversion])
    · rw [if_neg hslot]
      rcases eq_or_ne (heap.points state.published) (heap.points source) with hpoints | hpoints
      · exact Or.inl ⟨by simp [hpoints], hpoints.symm⟩
      · exact Or.inr (by simp [hpoints])
  · rw [if_neg hran]
    exact Or.inr rfl

theorem publishPassedGroup_moves {source : PointsRef} {passedFrom : GroupSource}
    (hne : (publishPassedGroup heap state source passedFrom).version ≠ state.version) :
    (state.ran = false ∨ heap.points state.published ≠ heap.points source) ∨
      (passedFrom.slot ≠ none ∧ state.passedFrom.slot = passedFrom.slot) ∧
        state.passedFrom.version ≠ passedFrom.version := by
  by_cases hmoves : passedMoves heap state source passedFrom
  · unfold passedMoves at hmoves
    by_cases hran : state.ran
    · rw [if_pos hran] at hmoves
      by_cases hslot : passedFrom.slot ≠ none ∧ state.passedFrom.slot = passedFrom.slot
      · rw [if_pos hslot] at hmoves
        exact Or.inr ⟨hslot, of_decide_eq_true hmoves⟩
      · rw [if_neg hslot] at hmoves
        exact Or.inl (Or.inr (of_decide_eq_true hmoves))
    · exact Or.inl (Or.inl (by simpa using hran))
  · unfold publishPassedGroup at hne
    simp only [if_neg hmoves] at hne
    exact absurd rfl hne

end

theorem Group.Exact.publish {heap : Heap Point} {g : Group Point} {state : GroupState}
    {points : List Point} (h : g.Exact heap) (hp : Publication heap g.state state points) :
    Group.Exact heap
      { g with
        state
        writing := none
        publications := g.publications ++ [(state.version, heap.points state.published)]
        previous := some (heap.points state.published) } := by
  have hnext : state.version = g.state.version ∧
      Lib.Current g.publications g.state.version points ∨ state.version = g.state.version + 1 := by
    rcases hp.version with ⟨hversion, hpoints⟩ | hversion
    · exact Or.inl ⟨hversion, hpoints ▸ h.published⟩
    · exact Or.inr hversion
  have hlog := h.publications.publish hnext
  rw [← hp.content] at hlog
  constructor
  · exact hlog.1
  · exact hlog.2
  · exact Or.inr ⟨_, List.mem_append_right _ (List.mem_singleton_self _)⟩
  · show some _ = if state.ran then _ else none
    rw [if_pos hp.ran]
  · show Lib.Numbered g.results state.computedVersion
    rw [hp.computedVersion]
    exact h.results
  · show ∀ k, state.ownComputed = some k →
      Lib.Current g.results state.computedVersion (heap.bytes (state.own k))
    rw [hp.ownComputed, hp.computedVersion, hp.own]
    exact h.kept

section

variable {w : World Point} {i : Nat} {g : Group Point} {state : GroupState} {points : List Point}

theorem World.Exact.publish (h : w.Exact) (hg : w.groups[i]? = some g)
    (hp : Publication w.heap g.state state points)
    (hsafe : ∀ b, state.published.owner = some b → w.Safe i b)
    (hout : ∀ source ∈ w.groups, Passed w.heap { g with state } source) :
    (w.publish i g state).Exact := by
  have hmem := List.mem_of_getElem? hg
  refine h.setGroup hg rfl ((h.each g hmem).publish hp) ?_ ?_ hout ?_
  · rintro b (⟨k, hown⟩ | howner)
    · exact h.safe_own hg (hp.own ▸ hown)
    · exact hsafe b howner
  · rcases hp.version with ⟨hversion, hpoints⟩ | hversion
    · exact Or.inl ⟨hversion, hp.content.trans hpoints⟩
    · exact Or.inr (by show g.state.version < state.version; omega)
  · intro k hk
    cases hk

theorem World.Exact.trust (h : w.Exact) (hg : g ∈ w.groups) {source : Group Point}
    (hsource : source ∈ w.groups) (hprogram : source.program = g.program)
    (hfrom : g.state.passedFrom = ⟨some source.slot, source.state.version⟩) :
    w.heap.points source.state.published = w.heap.points g.state.published := by
  have hpassed := h.passed g hg source hsource hprogram.symm (by rw [hfrom])
  exact (hpassed.2 (by rw [hfrom])).symm

end

/-! ## Results and resets -/

section

variable {heap : Heap Point} {g : Group Point}

theorem Group.Exact.noteComputed [DecidableEq Point] (h : g.Exact heap) (k : Fin 2) :
    Group.Exact heap
      { g with
        state := noteComputedGroup heap g.state k
        writing := none
        results := g.results ++
          [((noteComputedGroup heap g.state k).computedVersion, heap.bytes (g.state.own k))] } := by
  have hmoved : Lib.Numbered
        (g.results ++ [(g.state.computedVersion + 1, heap.bytes (g.state.own k))])
        (g.state.computedVersion + 1) ∧
      Lib.Current (g.results ++ [(g.state.computedVersion + 1, heap.bytes (g.state.own k))])
        (g.state.computedVersion + 1) (heap.bytes (g.state.own k)) :=
    h.results.publish (Or.inr rfl)
  have hkept : ∀ k', some k = some k' →
      Lib.Current (g.results ++ [(g.state.computedVersion + 1, heap.bytes (g.state.own k))])
        (g.state.computedVersion + 1) (heap.bytes (g.state.own k')) := by
    rintro k' ⟨⟩
    exact hmoved.2
  unfold noteComputedGroup
  cases hcomputed : g.state.ownComputed with
  | none => exact ⟨h.publications, h.published, h.latest, h.previous, hmoved.1, hkept⟩
  | some kept =>
      by_cases hne : !g.state.computedRan ∨
          heap.bytes (g.state.own kept) ≠ heap.bytes (g.state.own k)
      · simp only [if_pos hne]
        exact ⟨h.publications, h.published, h.latest, h.previous, hmoved.1, hkept⟩
      · simp only [if_neg hne]
        push Not at hne
        have hlog := h.results.publish (x := heap.bytes (g.state.own k))
          (Or.inl ⟨rfl, hne.2 ▸ h.kept kept hcomputed⟩)
        refine ⟨h.publications, h.published, h.latest, h.previous, hlog.1, ?_⟩
        intro k' hk'
        obtain rfl := Option.some.inj (hcomputed.symm.trans hk')
        show Lib.Current _ _ (heap.bytes (g.state.own kept))
        rw [hne.2]
        exact hlog.2

theorem Group.Exact.reset (h : g.Exact heap) :
    Group.Exact heap
      { g with
        state := resetGroup g.state
        writing := none
        previous := none } where
  publications := h.publications
  published := h.published
  latest := h.latest
  previous := rfl
  results := h.results
  kept _ hk := by cases hk

theorem Group.Exact.forgetComputed (h : g.Exact heap) :
    Group.Exact heap
      { g with
        state := g.state.forgetComputed
        writing := none } := by
  unfold GroupState.forgetComputed
  split
  · exact ⟨h.publications, h.published, h.latest, h.previous, h.results, fun _ hk => by cases hk⟩
  · exact ⟨h.publications, h.published, h.latest, h.previous, h.results, h.kept⟩

theorem Group.Exact.setOwn (h : g.Exact heap) {k : Fin 2} (hk : g.state.ownComputed ≠ some k)
    (buffer : Option Nat) (writing : Option (Fin 2)) :
    Group.Exact heap
      { g with
        state := g.state.setOwn k buffer
        writing } where
  publications := h.publications
  published := h.published
  latest := h.latest
  previous := h.previous
  results := h.results
  kept := by
    intro k' hk'
    have hne : k' ≠ k := by
      rintro rfl
      exact hk hk'
    show Lib.Current _ _ (heap.bytes ((g.state.setOwn k buffer).own k'))
    rw [GroupState.setOwn_of_ne hne]
    exact h.kept k' hk'

end

end RigExec.PointBlocks
