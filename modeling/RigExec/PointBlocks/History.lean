/-
# `RigExec.PointBlocks.History` — histories of a point chain's groups

`Exact` holds in every history: a step replaces one group by one that its
operation left exact, overwrites a buffer in one hand, or copies a program.
`groupVersions_exact` reads off it what readers rely on.

    a version has one content               `OneContent`
    versions grow, and only when they must  `Advances`
    a scratch is the writer's alone         `World.Sole`
    a ref that is held keeps its points
-/
import RigExec.PointBlocks.Operations

namespace RigExec.PointBlocks

variable {Point : Type}

/-! ## A scratch handed out -/

section

variable {w : World Point} {i : Nat} {g : Group Point}

theorem GroupState.forgetComputed_keeps (state : GroupState) :
    state.forgetComputed.own = state.own ∧ state.forgetComputed.published = state.published ∧
      state.forgetComputed.version = state.version ∧
      state.forgetComputed.passedFrom = state.passedFrom ∧
      state.forgetComputed.computedVersion = state.computedVersion := by
  unfold GroupState.forgetComputed
  split <;> exact ⟨rfl, rfl, rfl, rfl, rfl⟩

theorem World.Exact.scratch [Inhabited Point] (h : w.Exact) (hg : w.groups[i]? = some g)
    {count : Nat} {k : Fin 2} {heap : Heap Point} {state : GroupState}
    (hhanded : groupScratch w.useCount w.heap g.state count = (k, heap, state))
    {g' : Group Point} {w' : World Point}
    (hg' : g' =
      { g with
        state
        writing := some k })
    (hw' : w' = { w with heap }.setGroup i g') :
    w'.Exact ∧ ∃ buffer, state.own k = some buffer ∧ w'.Sole i k buffer ∧ w.Sole i k buffer ∧
      w.heap.Agrees heap buffer := by
  obtain ⟨hk, buffer, rfl, hsole, hagrees, hnext, hlt⟩ := groupScratch_spec h hg hhanded
  have hfree := candidate_free w.useCount (free_forgetComputed g.state)
  rw [← hk] at hfree
  obtain ⟨hown, hpublished, hversion, hfrom, -⟩ := g.state.forgetComputed_keeps
  -- the kept result is forgotten first
  let forgot : Group Point :=
    { g with
      state := g.state.forgetComputed
      writing := none }
  have h₁ : (w.setGroup i forgot).Exact :=
    h.setQuiet hg rfl (h.each g (List.mem_of_getElem? hg)).forgetComputed hown hpublished hversion
      (Or.inl hfrom) rfl
  have hforgot : (w.setGroup i forgot).groups[i]? = some forgot := setGroup_self hg
  have hsole₁ : (w.setGroup i forgot).Sole i k buffer := by
    refine hsole.setGroup ?_ ?_
    · intro k' hk'
      exact hsole.own i g k' hg (hown ▸ hk')
    · show g.state.forgetComputed.published.owner ≠ some buffer
      rw [hpublished]
      exact hsole.published g (List.mem_of_getElem? hg)
  -- then the buffer is overwritten, or made
  have h₂ : { w.setGroup i forgot with heap }.Exact := by
    refine h₁.overwrite hsole₁ hagrees hnext ?_
    intro x hx
    obtain rfl := Option.some.inj (hforgot.symm.trans hx)
    exact hfree.2
  have hsole₂ : { w.setGroup i forgot with heap }.Sole i k buffer :=
    ⟨hsole₁.own, hsole₁.published, hsole₁.readers⟩
  -- and the slot takes it
  have hset : w' = { w.setGroup i forgot with heap }.setGroup i g' := by
    rw [hw']
    show ({ w with heap, groups := w.groups.set i g' } : World Point) =
      { w with heap, groups := (w.groups.set i forgot).set i g' }
    rw [List.set_set]
  subst hg'
  have hownk : (g.state.forgetComputed.setOwn k (some buffer)).own k = some buffer :=
    GroupState.setOwn_self
  have hother : ∀ k', k' ≠ k →
      (g.state.forgetComputed.setOwn k (some buffer)).own k' = g.state.forgetComputed.own k' := by
    intro k' hne
    exact GroupState.setOwn_of_ne hne
  have hsole' : w'.Sole i k buffer := by
    rw [hset]
    refine hsole₂.setGroup ?_ (hsole₂.published forgot (List.mem_of_getElem? hforgot))
    intro k' hk'
    rcases eq_or_ne k' k with rfl | hne
    · exact ⟨rfl, rfl⟩
    · exact hsole₂.own i forgot k' hforgot ((hother k' hne).symm.trans hk')
  refine ⟨?_, buffer, hownk, hsole', hsole, hagrees⟩
  rw [hset] at hsole' ⊢
  refine h₂.setGroup hforgot rfl ?_ ?_ (Or.inl ⟨rfl, rfl⟩)
    (h₂.passed forgot (List.mem_of_getElem? hforgot)) ?_
  · exact (h₂.each forgot (List.mem_of_getElem? hforgot)).setOwn hfree.2 _ _
  · rintro b (⟨k', hk'⟩ | howner)
    · rcases eq_or_ne k' k with rfl | hne
      · obtain rfl := Option.some.inj (hownk.symm.trans hk')
        exact ⟨hlt, fun j x k'' hx hk'' _ => (hsole₂.own j x k'' hx hk'').1⟩
      · exact h₂.safe_own hforgot ((hother k' hne).symm.trans hk')
    · exact h₂.safe_published (List.mem_of_getElem? hforgot) howner
  · intro k' hk'
    obtain rfl := Option.some.inj hk'
    exact ⟨hfree.1, hfree.2, buffer, hownk, hsole'⟩

end

/-! ## A program cloned -/

section

variable {w : World Point} {g : Group Point}

theorem dropGroupSpare_own {state : GroupState} {k : Fin 2} {buffer : Nat}
    (hown : (dropGroupSpare state).own k = some buffer) :
    state.own k = some buffer ∧ (state.ownPublished = some k ∨ state.ownComputed = some k) := by
  have hif : (if state.ownPublished ≠ some k ∧ state.ownComputed ≠ some k then none
      else state.own k) = some buffer := hown
  split at hif
  · cases hif
  · next hspare =>
      refine ⟨hif, ?_⟩
      by_contra hnot
      exact hspare (not_or.mp hnot)

theorem Group.Exact.cloned {heap : Heap Point} (h : g.Exact heap) : (w.cloned g).Exact heap where
  publications := h.publications
  published := h.published
  latest := h.latest
  previous := h.previous
  results := h.results
  kept := by
    intro k hk
    have hown : (w.cloned g).state.own k = g.state.own k := if_neg fun hspare => hspare.2 hk
    rw [hown]
    exact h.kept k hk

def World.clone (w : World Point) (program : Nat) : World Point :=
  { w with
    groups := w.groups ++ (w.groups.filter fun g => g.program = program).map w.cloned
    programs := w.programs + 1 }

theorem mem_clone {program : Nat} {x : Group Point} (hx : x ∈ (w.clone program).groups) :
    x ∈ w.groups ∨ ∃ g ∈ w.groups, g.program = program ∧ x = w.cloned g := by
  rcases List.mem_append.mp hx with hx | hx
  · exact Or.inl hx
  · obtain ⟨g, hg, rfl⟩ := List.mem_map.mp hx
    obtain ⟨hmem, hprogram⟩ := List.mem_filter.mp hg
    exact Or.inr ⟨g, hmem, of_decide_eq_true hprogram, rfl⟩

theorem clone_getElem? {program j : Nat} {x : Group Point}
    (hx : (w.clone program).groups[j]? = some x) :
    w.groups[j]? = some x ∨ ∃ g ∈ w.groups, x = w.cloned g := by
  rcases Nat.lt_or_ge j w.groups.length with hlt | hge
  · left
    have happend : (w.clone program).groups[j]? = w.groups[j]? := List.getElem?_append_left hlt
    rw [← happend, hx]
  · right
    have happend : (w.clone program).groups[j]? =
        ((w.groups.filter fun g => g.program = program).map w.cloned)[j - w.groups.length]? :=
      List.getElem?_append_right hge
    rw [happend] at hx
    obtain ⟨g, hg, rfl⟩ := List.mem_map.mp (List.mem_of_getElem? hx)
    exact ⟨g, (List.mem_filter.mp hg).1, rfl⟩

theorem World.Exact.holds_cloned {buffer : Nat} (hb : (w.cloned g).state.Holds buffer) :
    g.state.Holds buffer := by
  rcases hb with ⟨k, hown⟩ | howner
  · exact Or.inl ⟨k, (dropGroupSpare_own hown).1⟩
  · exact Or.inr howner

theorem World.Exact.clone_keys (h : w.Exact) (program : Nat) :
    ((w.clone program).groups.map Group.key).Nodup := by
  show ((w.groups ++ (w.groups.filter fun g => g.program = program).map w.cloned).map
    Group.key).Nodup
  rw [List.map_append, List.map_map, List.nodup_append']
  refine ⟨h.keys, ?_, ?_⟩
  · rw [List.Nodup, List.pairwise_map]
    have hfilter := (List.pairwise_map.mp h.keys).filter fun g => decide (g.program = program)
    refine hfilter.imp_of_mem ?_
    intro a b ha hb hne heq
    have hprogram := (of_decide_eq_true (List.mem_filter.mp ha).2).trans
      (of_decide_eq_true (List.mem_filter.mp hb).2).symm
    exact hne (Prod.ext hprogram (Prod.mk.inj heq).2)
  · intro key hold hnew
    obtain ⟨a, ha, rfl⟩ := List.mem_map.mp hold
    obtain ⟨b, -, hb⟩ := List.mem_map.mp hnew
    have hprogram : w.programs = a.program := (Prod.mk.inj hb).1
    have := h.programs a ha
    omega

theorem World.Sole.clone {j buffer : Nat} {k : Fin 2} (hsole : w.Sole j k buffer)
    (hg : w.groups[j]? = some g)
    (hpublished : g.state.ownPublished ≠ some k) (hcomputed : g.state.ownComputed ≠ some k)
    (program : Nat) : (w.clone program).Sole j k buffer where
  own := by
    intro j' x k' hx hk'
    rcases clone_getElem? hx with hx | ⟨y, hy, rfl⟩
    · exact hsole.own j' x k' hx hk'
    · obtain ⟨hown, htaken⟩ := dropGroupSpare_own hk'
      obtain ⟨m, hm⟩ := List.mem_iff_getElem?.mp hy
      obtain ⟨rfl, rfl⟩ := hsole.own m y k' hm hown
      obtain rfl := Option.some.inj (hg.symm.trans hm)
      exact absurd htaken (not_or.mpr ⟨hpublished, hcomputed⟩)
  published := by
    intro x hx
    rcases mem_clone hx with hx | ⟨y, hy, -, rfl⟩
    · exact hsole.published x hx
    · exact hsole.published y hy
  readers := hsole.readers

theorem World.Exact.clone (h : w.Exact) (program : Nat) : (w.clone program).Exact where
  bounded := by
    intro x hx b hb
    rcases mem_clone hx with hx | ⟨g, hg, -, rfl⟩
    · exact h.bounded x hx b hb
    · exact h.bounded g hg b (holds_cloned hb)
  readers := h.readers
  keys := h.clone_keys program
  programs := by
    intro x hx
    rcases mem_clone hx with hx | ⟨g, -, -, rfl⟩
    · exact (h.programs x hx).trans (Nat.lt_succ_self _)
    · exact Nat.lt_succ_self _
  each := by
    intro x hx
    rcases mem_clone hx with hx | ⟨g, hg, -, rfl⟩
    · exact h.each x hx
    · exact (h.each g hg).cloned
  passed := by
    intro x hx source hsource hprogram
    rcases mem_clone hx with hx | ⟨a, ha, haprogram, rfl⟩
    · rcases mem_clone hsource with hsource | ⟨b, -, -, rfl⟩
      · exact h.passed x hx source hsource hprogram
      · exact absurd hprogram (h.programs x hx).ne
    · rcases mem_clone hsource with hsource | ⟨b, hb, hbprogram, rfl⟩
      · exact absurd hprogram.symm (h.programs source hsource).ne
      · exact h.passed a ha b hb (haprogram.trans hbprogram.symm)
  writing := by
    intro j x hx k hk
    rcases clone_getElem? hx with hx | ⟨g, -, rfl⟩
    · obtain ⟨hpublished, hcomputed, b, hown, hsole⟩ := h.writing j x hx k hk
      exact ⟨hpublished, hcomputed, b, hown, hsole.clone hx hpublished hcomputed program⟩
    · cases hk

end

/-! ## Steps -/

section

variable [DecidableEq Point] [Inhabited Point] {w w' : World Point} {e : Event Point}

omit [DecidableEq Point] [Inhabited Point] in
/-- One more reader, of a buffer no scratch is. -/
theorem World.Exact.addReader (h : w.Exact) {ref : PointsRef}
    (hsafe : ∀ b, ref.owner = some b → ∀ n, w.Safe n b) :
    { w with readers := w.readers ++ [ref] }.Exact := by
  refine h.setReaders ?_
  intro other hother b hb n
  rcases List.mem_append.mp hother with hother | hother
  · exact h.safe_reader hother hb
  · obtain rfl := List.mem_singleton.mp hother
    exact hsafe b hb n

theorem World.Exact.step_write (h : w.Exact) {i : Nat} {points : List Point}
    (hstep : w.step (.write i points) = some w') : w'.Exact := by
  obtain ⟨g, hg, hrest⟩ := Option.bind_eq_some_iff.mp hstep
  obtain ⟨b, hb, rfl⟩ := Option.map_eq_some_iff.mp hrest
  obtain ⟨k, hk, hown⟩ := Option.bind_eq_some_iff.mp hb
  obtain ⟨-, hcomputed, b', hown', hsole⟩ := h.writing i g hg k hk
  obtain rfl := Option.some.inj (hown.symm.trans hown')
  refine h.overwrite hsole (w.heap.agrees_store points) (Nat.le_refl _) ?_
  intro x hx
  obtain rfl := Option.some.inj (hg.symm.trans hx)
  exact hcomputed

theorem World.Exact.step_publishOwn (h : w.Exact) {i : Nat} {k : Fin 2}
    (hstep : w.step (.publishOwn i k) = some w') : w'.Exact := by
  obtain ⟨g, hg, hrest⟩ := Option.bind_eq_some_iff.mp hstep
  have hmem := List.mem_of_getElem? hg
  cases hown : g.state.own k with
  | none => simp [hown] at hrest
  | some b =>
      simp only [hown, reduceCtorEq, if_false, Option.some.injEq] at hrest
      subst hrest
      refine h.publish hg (publishOwnGroup_spec w.heap hown) ?_ ?_
      · intro b' howner
        rcases publishOwnGroup_published w.heap hown with ⟨hnew, -⟩ | ⟨hold, -⟩
        · obtain rfl := Option.some.inj (hnew.symm.trans howner)
          exact h.safe_own hg hown
        · exact h.safe_published hmem (hold ▸ howner)
      · intro source hsource hp hs
        rcases publishOwnGroup_published w.heap hown with ⟨-, hnone⟩ | ⟨hold, hfrom⟩
        · rw [hnone] at hs
          cases hs
        · rw [hfrom] at hs ⊢
          rw [hold]
          exact h.passed g hmem source hsource hp hs

theorem World.Exact.step_publishPassed (h : w.Exact) {i n : Nat}
    (hstep : w.step (.publishPassed i n) = some w') : w'.Exact := by
  obtain ⟨g, hg, hrest⟩ := Option.bind_eq_some_iff.mp hstep
  obtain ⟨from_, hfrom, hrest⟩ := Option.bind_eq_some_iff.mp hrest
  have hmem := List.mem_of_getElem? hg
  have hfmem := List.mem_of_getElem? hfrom
  split at hrest
  · cases hrest
  · next hprogram =>
      cases hrest
      have hprogram' : from_.program = g.program := not_not.mp hprogram
      refine h.publish hg (publishPassedGroup_spec _ _ _ _ ?_) ?_ ?_
      · intro _ hsame
        exact h.trust hmem hfmem hprogram' hsame
      · intro b howner
        exact h.safe_published hfmem howner
      · intro source hsource hp hs
        -- the slot of a program is one group
        have hkey : from_.key = source.key :=
          Prod.ext (hprogram'.trans hp) (Option.some.inj hs)
        obtain rfl := List.inj_on_of_nodup_map h.keys hfmem hsource hkey
        exact ⟨Nat.le_refl _, fun _ => rfl⟩

theorem World.Exact.step_publishForeign (h : w.Exact) {i reader : Nat}
    (hstep : w.step (.publishForeign i reader) = some w') : w'.Exact := by
  obtain ⟨g, hg, hrest⟩ := Option.bind_eq_some_iff.mp hstep
  obtain ⟨ref, href, rfl⟩ := Option.map_eq_some_iff.mp hrest
  refine h.publish hg (publishPassedGroup_spec _ _ _ _ fun hslot => absurd rfl hslot) ?_ ?_
  · intro b howner
    exact h.safe_reader (List.mem_of_getElem? href) howner
  · intro source _ _ hs
    cases hs

omit [Inhabited Point] in
theorem noteComputedGroup_keeps (heap : Heap Point) (state : GroupState) (k : Fin 2) :
    (noteComputedGroup heap state k).own = state.own ∧
      (noteComputedGroup heap state k).published = state.published ∧
      (noteComputedGroup heap state k).version = state.version ∧
      (noteComputedGroup heap state k).passedFrom = state.passedFrom ∧
      state.computedVersion ≤ (noteComputedGroup heap state k).computedVersion := by
  rw [noteComputedGroup]
  split
  · split
    · exact ⟨rfl, rfl, rfl, rfl, Nat.le_succ _⟩
    · exact ⟨rfl, rfl, rfl, rfl, Nat.le_refl _⟩
  · exact ⟨rfl, rfl, rfl, rfl, Nat.le_succ _⟩

theorem World.Exact.step_noteComputed (h : w.Exact) {i : Nat} {k : Fin 2}
    (hstep : w.step (.noteComputed i k) = some w') : w'.Exact := by
  obtain ⟨g, hg, hrest⟩ := Option.bind_eq_some_iff.mp hstep
  split at hrest
  · cases hrest
  · cases hrest
    obtain ⟨hown, hpublished, hversion, hfrom, -⟩ :=
      noteComputedGroup_keeps w.heap g.state k
    exact h.setQuiet hg rfl ((h.each g (List.mem_of_getElem? hg)).noteComputed k) hown hpublished
      hversion (Or.inl hfrom) rfl

theorem World.Exact.step_adopt (h : w.Exact) {points : List Point}
    (hstep : w.step (.adopt points) = some w') : w'.Exact := by
  cases hstep
  have hsole : w.Sole w.groups.length 0 w.heap.next := h.sole_next _ _
  have hmade : { w with heap := (w.heap.allocate points).2 }.Exact := by
    refine h.overwrite hsole (w.heap.agrees_allocate points) (Nat.le_succ _) ?_
    intro g hg
    rw [List.getElem?_eq_none (Nat.le_refl _)] at hg
    cases hg
  refine hmade.addReader ?_
  intro b hb n
  obtain rfl := Option.some.inj hb
  refine ⟨Nat.lt_succ_self _, ?_⟩
  intro j g k hg hown _
  exact absurd (h.bounded g (List.mem_of_getElem? hg) _ (Or.inl ⟨k, hown⟩)) (Nat.lt_irrefl _)

/-- **A step preserves the invariant.** -/
theorem World.Exact.step (h : w.Exact) (hstep : w.step e = some w') : w'.Exact := by
  cases e with
  | scratch i count =>
      obtain ⟨g, hg, rfl⟩ := Option.map_eq_some_iff.mp hstep
      exact (h.scratch hg rfl rfl rfl).1
  | write i points => exact h.step_write hstep
  | publishOwn i k => exact h.step_publishOwn hstep
  | publishPassed i n => exact h.step_publishPassed hstep
  | publishForeign i reader => exact h.step_publishForeign hstep
  | noteComputed i k => exact h.step_noteComputed hstep
  | reset i =>
      obtain ⟨g, hg, rfl⟩ := Option.map_eq_some_iff.mp hstep
      exact h.setQuiet hg rfl (h.each g (List.mem_of_getElem? hg)).reset rfl rfl rfl (Or.inr rfl) rfl
  | clone program =>
      cases hstep
      exact h.clone program
  | hold i =>
      obtain ⟨g, hg, rfl⟩ := Option.map_eq_some_iff.mp hstep
      exact h.addReader fun b hb n => h.safe_published (List.mem_of_getElem? hg) hb
  | slice reader start count =>
      obtain ⟨part, hpart, rfl⟩ := Option.map_eq_some_iff.mp hstep
      exact h.addReader fun b hb n => h.safe_reader (List.mem_of_getElem? hpart) hb
  | release reader =>
      cases hstep
      refine h.setReaders ?_
      intro ref href b hb n
      exact h.safe_reader (List.mem_of_mem_eraseIdx href) hb
  | adopt points => exact h.step_adopt hstep

end

/-! ## Histories -/

theorem World.exact_initial (slots : List Int) : (World.initial slots : World Point).Exact where
  bounded := by
    intro g hg b hb
    obtain ⟨slot, -, rfl⟩ := List.mem_map.mp hg
    rcases hb with ⟨k, hown⟩ | howner
    · cases hown
    · cases howner
  readers _ href := absurd href List.not_mem_nil
  keys := by
    show ((slots.dedup.map fun slot => ({ program := 0, slot } : Group Point)).map Group.key).Nodup
    rw [List.map_map]
    exact (List.nodup_dedup slots).map fun a b hab => (Prod.mk.inj hab).2
  programs := by
    intro g hg
    obtain ⟨slot, -, rfl⟩ := List.mem_map.mp hg
    exact Nat.one_pos
  each := by
    intro g hg
    obtain ⟨slot, -, rfl⟩ := List.mem_map.mp hg
    exact ⟨Lib.numbered_nil 0, Lib.current_nil 0 _, Or.inl rfl, rfl, Lib.numbered_nil 0,
      fun k hk => by cases hk⟩
  passed := by
    intro g hg source _ _ hslot
    obtain ⟨slot, -, rfl⟩ := List.mem_map.mp hg
    cases hslot
  writing := by
    intro i g hg k hk
    obtain ⟨slot, -, rfl⟩ := List.mem_map.mp (List.mem_of_getElem? hg)
    cases hk

/-- What `g` passed through from `source` was published again since. -/
def Group.Republished (g source : Group Point) : Prop :=
  g.state.passedFrom.slot = some source.slot ∧
    ∃ publication ∈ source.publications, g.state.passedFrom.version < publication.1

/-- How a step moves a group: versions grow, and the version moves only with a publication whose
points are not those of the last one since a reset, or whose source was published again. -/
structure Advances (w w' : World Point) (e : Event Point) (g g' : Group Point) : Prop where
  version : g.state.version ≤ g'.state.version
  computedVersion : g.state.computedVersion ≤ g'.state.computedVersion
  moved : g'.state.version ≠ g.state.version →
    g'.publications =
        g.publications ++ [(g'.state.version, w'.heap.points g'.state.published)] ∧
      (g.previous ≠ some (w'.heap.points g'.state.published) ∨
        ∃ i n source, e = .publishPassed i n ∧ w.groups[n]? = some source ∧ g.Republished source)

section

variable {w w' : World Point} {e : Event Point} {g g' : Group Point} {i : Nat}

theorem Advances.of_version (hversion : g'.state.version = g.state.version)
    (hcomputed : g.state.computedVersion ≤ g'.state.computedVersion) : Advances w w' e g g' where
  version := hversion.ge
  computedVersion := hcomputed
  moved hne := absurd hversion hne

theorem advances_set {n : Nat} {x x' : Group Point} (hgroups : w'.groups = w.groups.set n x')
    (hn : w.groups[n]? = some x) (hx : Advances w w' e x x') (hg : w.groups[i]? = some g) :
    ∃ g', w'.groups[i]? = some g' ∧ Advances w w' e g g' := by
  rw [hgroups]
  rcases eq_or_ne i n with rfl | hne
  · obtain rfl := Option.some.inj (hg.symm.trans hn)
    exact ⟨x', setGroup_self hn, hx⟩
  · exact ⟨g, (List.getElem?_set_ne hne.symm).trans hg, Advances.of_version rfl (Nat.le_refl _)⟩

/-- What was not published since the reset, or was and had other points. -/
theorem Group.Exact.previous_ne {heap : Heap Point} {points : List Point} (h : g.Exact heap)
    (hmoved : g.state.ran = false ∨ heap.points g.state.published ≠ points) :
    g.previous ≠ some points := by
  rw [h.previous]
  rcases hmoved with hran | hpoints
  · rw [hran]
    exact fun h => by cases h
  · split
    · exact fun h => hpoints (Option.some.inj h)
    · exact fun h => by cases h

theorem Publication.version_le {heap : Heap Point} {state state' : GroupState}
    {points : List Point} (hp : Publication heap state state' points) :
    state.version ≤ state'.version := by
  rcases hp.version with ⟨hversion, -⟩ | hversion <;> omega

variable [DecidableEq Point] [Inhabited Point]

theorem World.Exact.step_advances (h : w.Exact) (hstep : w.step e = some w')
    (hg : w.groups[i]? = some g) : ∃ g', w'.groups[i]? = some g' ∧ Advances w w' e g g' := by
  have hsame : w'.groups[i]? = some g → ∃ g', w'.groups[i]? = some g' ∧ Advances w w' e g g' :=
    fun hg' => ⟨g, hg', Advances.of_version rfl (Nat.le_refl _)⟩
  cases e with
  | scratch n count =>
      obtain ⟨x, hx, rfl⟩ := Option.map_eq_some_iff.mp hstep
      rcases hhanded : groupScratch w.useCount w.heap x.state count with ⟨k, heap, state⟩
      obtain ⟨-, buffer, hstate, -⟩ := groupScratch_spec h hx hhanded
      obtain ⟨-, -, hversion, -, hcomputed⟩ := x.state.forgetComputed_keeps
      refine advances_set rfl hx (Advances.of_version ?_ ?_) hg
      · show state.version = x.state.version
        rw [hstate]
        exact hversion
      · show x.state.computedVersion ≤ state.computedVersion
        rw [hstate]
        exact hcomputed.ge
  | write n points =>
      obtain ⟨x, -, hrest⟩ := Option.bind_eq_some_iff.mp hstep
      obtain ⟨b, -, rfl⟩ := Option.map_eq_some_iff.mp hrest
      exact hsame hg
  | publishOwn n k =>
      obtain ⟨x, hx, hrest⟩ := Option.bind_eq_some_iff.mp hstep
      cases hown : x.state.own k with
      | none => simp [hown] at hrest
      | some b =>
          simp only [hown, reduceCtorEq, if_false, Option.some.injEq] at hrest
          subst hrest
          have hp := publishOwnGroup_spec w.heap hown
          refine advances_set rfl hx ⟨hp.version_le, hp.computedVersion.ge, ?_⟩ hg
          intro hne
          refine ⟨rfl, Or.inl ((h.each x (List.mem_of_getElem? hx)).previous_ne ?_)⟩
          rw [show (w.publish n x _).heap.points _ = _ from hp.content]
          exact publishOwnGroup_moves hown hne
  | publishPassed n m =>
      obtain ⟨x, hx, hrest⟩ := Option.bind_eq_some_iff.mp hstep
      obtain ⟨from_, hfrom, hrest⟩ := Option.bind_eq_some_iff.mp hrest
      have hmem := List.mem_of_getElem? hx
      have hfmem := List.mem_of_getElem? hfrom
      split at hrest
      · cases hrest
      · next hprogram =>
          cases hrest
          have hprogram' : from_.program = x.program := not_not.mp hprogram
          have hp := publishPassedGroup_spec w.heap x.state from_.state.published
            ⟨some from_.slot, from_.state.version⟩ fun _ hsame => h.trust hmem hfmem hprogram' hsame
          refine advances_set rfl hx ⟨hp.version_le, hp.computedVersion.ge, ?_⟩ hg
          intro hne
          refine ⟨rfl, ?_⟩
          rcases publishPassedGroup_moves hne with hmoved | ⟨hslot, hversion⟩
          · exact Or.inl ((h.each x hmem).previous_ne hmoved)
          · right
            refine ⟨n, m, from_, rfl, hfrom, hslot.2, ?_⟩
            -- the version recorded is an earlier one, so the present one was published
            have hle := (h.passed x hmem from_ hfmem hprogram'.symm hslot.2).1
            have hlt : x.state.passedFrom.version < from_.state.version :=
              Nat.lt_of_le_of_ne hle hversion
            rcases (h.each from_ hfmem).latest with hzero | ⟨points, hpoints⟩
            · omega
            · exact ⟨_, hpoints, hlt⟩
  | publishForeign n reader =>
      obtain ⟨x, hx, hrest⟩ := Option.bind_eq_some_iff.mp hstep
      obtain ⟨ref, -, rfl⟩ := Option.map_eq_some_iff.mp hrest
      have hp := publishPassedGroup_spec w.heap x.state ref {} fun hslot => absurd rfl hslot
      refine advances_set rfl hx ⟨hp.version_le, hp.computedVersion.ge, ?_⟩ hg
      intro hne
      rcases publishPassedGroup_moves hne with hmoved | ⟨hslot, -⟩
      · exact ⟨rfl, Or.inl ((h.each x (List.mem_of_getElem? hx)).previous_ne hmoved)⟩
      · exact absurd rfl hslot.1
  | noteComputed n k =>
      obtain ⟨x, hx, hrest⟩ := Option.bind_eq_some_iff.mp hstep
      split at hrest
      · cases hrest
      · cases hrest
        obtain ⟨-, -, hversion, -, hcomputed⟩ := noteComputedGroup_keeps w.heap x.state k
        exact advances_set rfl hx (Advances.of_version hversion hcomputed) hg
  | reset n =>
      obtain ⟨x, hx, rfl⟩ := Option.map_eq_some_iff.mp hstep
      exact advances_set rfl hx (Advances.of_version rfl (Nat.le_refl _)) hg
  | clone program =>
      cases hstep
      exact hsame (List.getElem?_append_left (List.getElem?_eq_some_iff.mp hg).1 |>.trans hg)
  | hold n =>
      obtain ⟨x, -, rfl⟩ := Option.map_eq_some_iff.mp hstep
      exact hsame hg
  | slice reader start count =>
      obtain ⟨ref, -, rfl⟩ := Option.map_eq_some_iff.mp hstep
      exact hsame hg
  | release reader =>
      cases hstep
      exact hsame hg
  | adopt points =>
      cases hstep
      exact hsame hg

theorem World.Exact.step_readers (h : w.Exact) (hstep : w.step e = some w') {ref : PointsRef}
    (href : ref ∈ w.readers) : w'.heap.points ref = w.heap.points ref := by
  cases e with
  | scratch n count =>
      obtain ⟨x, hx, rfl⟩ := Option.map_eq_some_iff.mp hstep
      obtain ⟨-, buffer, -, -, hsole, hagrees⟩ := h.scratch hx rfl rfl rfl
      exact hagrees.points (hsole.readers ref href)
  | write n points =>
      obtain ⟨x, hx, hrest⟩ := Option.bind_eq_some_iff.mp hstep
      obtain ⟨b, hb, rfl⟩ := Option.map_eq_some_iff.mp hrest
      obtain ⟨k, hk, hown⟩ := Option.bind_eq_some_iff.mp hb
      obtain ⟨-, -, b', hown', hsole⟩ := h.writing n x hx k hk
      obtain rfl := Option.some.inj (hown.symm.trans hown')
      exact (w.heap.agrees_store points).points (hsole.readers ref href)
  | adopt points =>
      cases hstep
      exact (w.heap.agrees_allocate points).points ((h.sole_next 0 0).readers ref href)
  | publishOwn n k =>
      obtain ⟨x, -, hrest⟩ := Option.bind_eq_some_iff.mp hstep
      split at hrest <;> cases hrest
      rfl
  | publishPassed n m =>
      obtain ⟨x, -, hrest⟩ := Option.bind_eq_some_iff.mp hstep
      obtain ⟨from_, -, hrest⟩ := Option.bind_eq_some_iff.mp hrest
      split at hrest <;> cases hrest
      rfl
  | publishForeign n reader =>
      obtain ⟨x, -, hrest⟩ := Option.bind_eq_some_iff.mp hstep
      obtain ⟨r, -, rfl⟩ := Option.map_eq_some_iff.mp hrest
      rfl
  | noteComputed n k =>
      obtain ⟨x, -, hrest⟩ := Option.bind_eq_some_iff.mp hstep
      split at hrest <;> cases hrest
      rfl
  | reset n | hold n =>
      obtain ⟨x, -, rfl⟩ := Option.map_eq_some_iff.mp hstep
      rfl
  | slice reader start count =>
      obtain ⟨r, -, rfl⟩ := Option.map_eq_some_iff.mp hstep
      rfl
  | clone program =>
      cases hstep
      rfl
  | release reader =>
      cases hstep
      rfl

theorem step_scratch {count : Nat} (hstep : w.step (.scratch i count) = some w') :
    ∃ g' k, w'.groups[i]? = some g' ∧ g'.writing = some k := by
  obtain ⟨g, hg, rfl⟩ := Option.map_eq_some_iff.mp hstep
  exact ⟨_, _, setGroup_self hg, rfl⟩

/-- A version names one content. -/
def OneContent (log : List (Nat × List Point)) : Prop :=
  ∀ a ∈ log, ∀ b ∈ log, a.1 = b.1 → a.2 = b.2

/-- No held ref, no published value and no kept result is in the buffer: own slot `k` of group `i` is
its only holder. -/
structure World.HandedOut (w : World Point) (i : Nat) (k : Fin 2) (buffer : Nat) : Prop where
  readers : ∀ ref ∈ w.readers, ref.owner ≠ some buffer
  published : ∀ g ∈ w.groups, g.state.published.owner ≠ some buffer
  own : ∀ j g k', w.groups[j]? = some g → g.state.own k' = some buffer →
    (j = i ∧ k' = k) ∧ g.state.ownComputed ≠ some k' ∧ g.state.ownPublished ≠ some k'

/-- **Versions are exact.**  In every history a group's publications of one version have the same
points, and so do its computed results; at every step versions grow, and only with a publication
that has to move them; refs that are held keep their points; and the buffer handed out as a scratch
is in no other hand. -/
theorem groupVersions_exact (slots : List Int) (events : List (Event Point))
    (h : World.history slots events = some w) :
    (∀ g ∈ w.groups, OneContent g.publications ∧ OneContent g.results) ∧
      ∀ (e : Event Point) (w' : World Point), w.step e = some w' →
        (∀ (i : Nat) (g : Group Point), w.groups[i]? = some g →
          ∃ g', w'.groups[i]? = some g' ∧ Advances w w' e g g') ∧
        (∀ ref ∈ w.readers, w'.heap.points ref = w.heap.points ref) ∧
        ∀ i count, e = .scratch i count →
          ∃ g : Group Point, ∃ k buffer, w'.groups[i]? = some g ∧ g.writing = some k ∧
            g.state.own k = some buffer ∧ w'.HandedOut i k buffer := by
  have hexact : w.Exact :=
    Lib.run_preserves (fun s e s' hs hstep => World.Exact.step hs hstep)
      (World.exact_initial slots) h
  refine ⟨fun g hg =>
    ⟨(hexact.each g hg).publications.unique, (hexact.each g hg).results.unique⟩, ?_⟩
  intro e w' hstep
  refine ⟨fun i g hg => hexact.step_advances hstep hg,
    fun ref href => hexact.step_readers hstep href, ?_⟩
  rintro i count rfl
  have hexact' := hexact.step hstep
  obtain ⟨g, k, hself, hk⟩ := step_scratch hstep
  obtain ⟨hpublished, hcomputed, buffer, hown, hsole⟩ := hexact'.writing i g hself k hk
  refine ⟨g, k, buffer, hself, hk, hown, hsole.readers, hsole.published, ?_⟩
  intro j x k' hx hk'
  obtain ⟨rfl, rfl⟩ := hsole.own j x k' hx hk'
  obtain rfl := Option.some.inj (hself.symm.trans hx)
  exact ⟨⟨rfl, rfl⟩, hcomputed, hpublished⟩

end

/-- A point published, passed on and held, then published again from the other buffer. -/
def republishing (a b : Fin 2) : List (Event Nat) :=
  [.scratch 0 2, .write 0 [1, 2], .publishOwn 0 a, .publishPassed 1 0, .hold 1, .scratch 0 2,
    .write 0 [3, 4], .noteComputed 0 b, .publishOwn 0 b, .publishPassed 1 0, .clone 0]

theorem groupVersions_exact_republishing : ∃ w, World.history [0, 1] (republishing 0 1) = some w ∧
    ∀ g ∈ w.groups, OneContent g.publications ∧ OneContent g.results :=
  ⟨_, rfl, (groupVersions_exact [0, 1] (republishing 0 1) rfl).1⟩

end RigExec.PointBlocks
