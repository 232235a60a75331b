/-
# `RigExec.PointBlocks.Versions` — a version has one content

What a reader of a point chain relies on: a group that carries the version it
carried before holds the points it held before.  `Exact` is the invariant of
every history, in five parts.

    bounded    a handle is to a buffer that was given out
    keys       a slot of a program is one group
    each       a group's log is numbered, and its current entry is what it holds
    passed     a ref taken from another group under its present version is that
               group's present ref
    writing    the scratch being filled is in one hand

`passed` is what the shortcut of `publishPassedGroup` relies on, which compares
slot and version and no points.  `writing` is what the reuse of a buffer with one
holder gives, and with it no points that anyone can see are overwritten.
-/
import RigExec.Lib.VersionLog
import RigExec.PointBlocks.Model
import Mathlib.Data.List.Nodup
import Mathlib.Data.List.Dedup

namespace RigExec.PointBlocks

variable {Point : Type}

/-! ## Heaps that differ in one buffer -/

/-- `heap'` has the points of `heap` in every buffer but `buffer`. -/
def Heap.Agrees (heap heap' : Heap Point) (buffer : Nat) : Prop :=
  ∀ c, c ≠ buffer → heap'.buffers c = heap.buffers c

section

variable {heap heap' : Heap Point} {buffer : Nat}

theorem Heap.agrees_store (points : List Point) :
    heap.Agrees (heap.store buffer points) buffer := by
  intro c hc
  exact Function.update_of_ne hc _ _

theorem Heap.agrees_allocate (points : List Point) :
    heap.Agrees (heap.allocate points).2 heap.next := by
  intro c hc
  exact Function.update_of_ne hc _ _

theorem Heap.Agrees.bytes (h : heap.Agrees heap' buffer) {handle : Option Nat}
    (hne : handle ≠ some buffer) : heap'.bytes handle = heap.bytes handle := by
  cases handle with
  | none => rfl
  | some c => exact h c fun hc => hne (congrArg some hc)

theorem Heap.Agrees.points (h : heap.Agrees heap' buffer) {ref : PointsRef}
    (hne : ref.owner ≠ some buffer) : heap'.points ref = heap.points ref := by
  unfold Heap.points
  cases hr : ref.owner with
  | none => rfl
  | some c =>
      show ((heap'.buffers c).drop ref.start).take ref.count = _
      rw [h c fun hc => hne (hr.trans (congrArg some hc))]

@[simp] theorem Heap.points_whole : heap.points (heap.whole buffer) = heap.buffers buffer := by
  show ((heap.buffers buffer).drop 0).take (heap.buffers buffer).length = _
  rw [List.drop_zero, List.take_length]

end

/-! ## The invariant -/

/-- A group's logs are numbered, their current entries are what the group holds, and `previous` is
the last publication. -/
structure Group.Exact (heap : Heap Point) (g : Group Point) : Prop where
  publications : Lib.Numbered g.publications g.state.version
  published : Lib.Current g.publications g.state.version (heap.points g.state.published)
  latest : g.state.version = 0 ∨ ∃ points, (g.state.version, points) ∈ g.publications
  previous : g.previous = if g.state.ran then some (heap.points g.state.published) else none
  results : Lib.Numbered g.results g.state.computedVersion
  kept : ∀ k, g.state.ownComputed = some k →
    Lib.Current g.results g.state.computedVersion (heap.bytes (g.state.own k))

/-- What `g` passed through from `source` under its present version is its present ref. -/
def Passed (heap : Heap Point) (g source : Group Point) : Prop :=
  g.program = source.program → g.state.passedFrom.slot = some source.slot →
    g.state.passedFrom.version ≤ source.state.version ∧
      (g.state.passedFrom.version = source.state.version →
        heap.points g.state.published = heap.points source.state.published)

/-- The slot of a program. -/
def Group.key (g : Group Point) : Nat × Int := (g.program, g.slot)

/-- A state has a handle to a buffer. -/
def GroupState.Holds (state : GroupState) (buffer : Nat) : Prop :=
  (∃ k, state.own k = some buffer) ∨ state.published.owner = some buffer

namespace World

/-- Nobody but own slot `k` of group `i` holds `buffer`. -/
structure Sole (w : World Point) (i : Nat) (k : Fin 2) (buffer : Nat) : Prop where
  own : ∀ j g k', w.groups[j]? = some g → g.state.own k' = some buffer → j = i ∧ k' = k
  published : ∀ g ∈ w.groups, g.state.published.owner ≠ some buffer
  readers : ∀ ref ∈ w.readers, ref.owner ≠ some buffer

/-- A writer's scratch is in its own hand only. -/
def Writing (w : World Point) (i : Nat) (g : Group Point) : Prop :=
  ∀ k, g.writing = some k → g.state.ownPublished ≠ some k ∧ g.state.ownComputed ≠ some k ∧
    ∃ buffer, g.state.own k = some buffer ∧ w.Sole i k buffer

/-- The invariant. -/
structure Exact (w : World Point) : Prop where
  bounded : ∀ g ∈ w.groups, ∀ buffer, g.state.Holds buffer → buffer < w.heap.next
  readers : ∀ ref ∈ w.readers, ∀ buffer, ref.owner = some buffer → buffer < w.heap.next
  keys : (w.groups.map Group.key).Nodup
  programs : ∀ g ∈ w.groups, g.program < w.programs
  each : ∀ g ∈ w.groups, g.Exact w.heap
  passed : ∀ g ∈ w.groups, ∀ source ∈ w.groups, Passed w.heap g source
  writing : ∀ i g, w.groups[i]? = some g → w.Writing i g

/-- A buffer that group `i` may take a handle to: it is given out, and no other writer fills it. -/
def Safe (w : World Point) (i buffer : Nat) : Prop :=
  buffer < w.heap.next ∧
    ∀ j g k, w.groups[j]? = some g → g.state.own k = some buffer → w.Sole j k buffer → j = i

end World

/-! ## A group replaced -/

section

variable {w : World Point} {i j : Nat} {g g' : Group Point} {buffer : Nat} {k : Fin 2}

theorem setGroup_getElem? {x : Group Point} (hx : (w.setGroup i g').groups[j]? = some x) :
    j = i ∧ x = g' ∨ j ≠ i ∧ w.groups[j]? = some x := by
  have hset : (w.groups.set i g')[j]? = some x := hx
  rcases eq_or_ne j i with rfl | hne
  · rw [List.getElem?_set_self'] at hset
    cases hj : w.groups[j]? with
    | none =>
        rw [hj] at hset
        cases hset
    | some y =>
        rw [hj] at hset
        cases hset
        exact Or.inl ⟨rfl, rfl⟩
  · rw [List.getElem?_set_ne hne.symm] at hset
    exact Or.inr ⟨hne, hset⟩

theorem setGroup_self (hg : w.groups[i]? = some g) : (w.setGroup i g').groups[i]? = some g' := by
  show (w.groups.set i g')[i]? = some g'
  rw [List.getElem?_set_self', hg]
  rfl

theorem setGroup_of_ne (hne : j ≠ i) : (w.setGroup i g').groups[j]? = w.groups[j]? :=
  List.getElem?_set_ne hne.symm

theorem mem_setGroup {x : Group Point} (hx : x ∈ (w.setGroup i g').groups) :
    x = g' ∨ x ∈ w.groups :=
  (List.mem_or_eq_of_mem_set hx).symm

theorem keys_setGroup (hg : w.groups[i]? = some g) (hkey : g'.key = g.key) :
    (w.setGroup i g').groups.map Group.key = w.groups.map Group.key := by
  refine List.ext_getElem? fun j => ?_
  rw [List.getElem?_map, List.getElem?_map]
  rcases eq_or_ne j i with rfl | hne
  · rw [setGroup_self hg, hg]
    exact congrArg some hkey
  · rw [setGroup_of_ne hne]

theorem World.Sole.setGroup (h : w.Sole j k buffer)
    (hown : ∀ k', g'.state.own k' = some buffer → i = j ∧ k' = k)
    (hpublished : g'.state.published.owner ≠ some buffer) : (w.setGroup i g').Sole j k buffer where
  own := by
    intro j' x k' hx hk'
    rcases setGroup_getElem? hx with ⟨rfl, rfl⟩ | ⟨-, hx⟩
    · exact hown k' hk'
    · exact h.own j' x k' hx hk'
  published := by
    intro x hx
    rcases mem_setGroup hx with rfl | hx
    · exact hpublished
    · exact h.published x hx
  readers := h.readers

theorem World.Exact.safe_own (h : w.Exact) (hg : w.groups[i]? = some g)
    (hown : g.state.own k = some buffer) : w.Safe i buffer := by
  refine ⟨h.bounded g (List.mem_of_getElem? hg) buffer (Or.inl ⟨k, hown⟩), ?_⟩
  intro j x k' _ _ hsole
  exact (hsole.own i g k hg hown).1.symm

theorem World.Exact.safe_published (h : w.Exact) (hg : g ∈ w.groups)
    (howner : g.state.published.owner = some buffer) : w.Safe i buffer := by
  refine ⟨h.bounded g hg buffer (Or.inr howner), ?_⟩
  intro j x k _ _ hsole
  exact absurd howner (hsole.published g hg)

theorem World.Exact.safe_reader (h : w.Exact) {ref : PointsRef} (href : ref ∈ w.readers)
    (howner : ref.owner = some buffer) : w.Safe i buffer := by
  refine ⟨h.readers ref href buffer howner, ?_⟩
  intro j x k _ _ hsole
  exact absurd howner (hsole.readers ref href)

/-- A group's version stays and its points with it, or the version is a later one. -/
def Grows (heap : Heap Point) (g g' : Group Point) : Prop :=
  g'.state.version = g.state.version ∧
      heap.points g'.state.published = heap.points g.state.published ∨
    g.state.version < g'.state.version

theorem Passed.grow {heap : Heap Point} {x : Group Point} (h : Passed heap x g)
    (hkey : g'.key = g.key) (hgrow : Grows heap g g') : Passed heap x g' := by
  obtain ⟨hprogram, hslot⟩ := Prod.mk.inj hkey
  intro hp hs
  obtain ⟨hle, heq⟩ := h (hp.trans hprogram) (hs.trans (congrArg some hslot))
  rcases hgrow with ⟨hversion, hpoints⟩ | hlt
  · exact ⟨hversion ▸ hle, fun he => (heq (he.trans hversion)).trans hpoints.symm⟩
  · exact ⟨by omega, fun he => by omega⟩

/-- A group that holds only what it may, and whose version grows, may stand in for one of its
key. -/
theorem World.Exact.setGroup (h : w.Exact) (hg : w.groups[i]? = some g) (hkey : g'.key = g.key)
    (hexact : g'.Exact w.heap) (hsafe : ∀ b, g'.state.Holds b → w.Safe i b)
    (hgrow : Grows w.heap g g') (hout : ∀ source ∈ w.groups, Passed w.heap g' source)
    (hwriting : (w.setGroup i g').Writing i g') : (w.setGroup i g').Exact where
  bounded := by
    intro x hx b hb
    rcases mem_setGroup hx with rfl | hx
    · exact (hsafe b hb).1
    · exact h.bounded x hx b hb
  readers := h.readers
  keys := by
    rw [keys_setGroup hg hkey]
    exact h.keys
  programs := by
    intro x hx
    rcases mem_setGroup hx with rfl | hx
    · exact (Prod.mk.inj hkey).1 ▸ h.programs g (List.mem_of_getElem? hg)
    · exact h.programs x hx
  each := by
    intro x hx
    rcases mem_setGroup hx with rfl | hx
    · exact hexact
    · exact h.each x hx
  passed := by
    have hg' : g ∈ w.groups := List.mem_of_getElem? hg
    intro x hx source hsource
    rcases mem_setGroup hx with rfl | hold
    · rcases mem_setGroup hsource with rfl | hsource
      · exact (hout g hg').grow hkey hgrow
      · exact hout source hsource
    · rcases mem_setGroup hsource with rfl | hsource
      · exact (h.passed x hold g hg').grow hkey hgrow
      · exact h.passed x hold source hsource
  writing := by
    intro j x hx
    rcases setGroup_getElem? hx with ⟨rfl, rfl⟩ | ⟨hne, hx⟩
    · exact hwriting
    · intro k hk
      obtain ⟨hpublished, hcomputed, b, hown, hsole⟩ := h.writing j x hx k hk
      -- the new group would hold the scratch of another writer
      have hfree : ¬ g'.state.Holds b := fun hb => hne ((hsafe b hb).2 j x k hx hown hsole)
      refine ⟨hpublished, hcomputed, b, hown, hsole.setGroup ?_ fun ho => hfree (Or.inr ho)⟩
      intro k' hk'
      exact absurd (Or.inl ⟨k', hk'⟩) hfree

theorem World.Exact.safe_holds (h : w.Exact) (hg : w.groups[i]? = some g)
    (hb : g.state.Holds buffer) : w.Safe i buffer := by
  rcases hb with ⟨k, hown⟩ | howner
  · exact h.safe_own hg hown
  · exact h.safe_published (List.mem_of_getElem? hg) howner

theorem World.Exact.setQuiet (h : w.Exact) (hg : w.groups[i]? = some g) (hkey : g'.key = g.key)
    (hexact : g'.Exact w.heap) (hown : g'.state.own = g.state.own)
    (hpublished : g'.state.published = g.state.published)
    (hversion : g'.state.version = g.state.version)
    (hfrom : g'.state.passedFrom = g.state.passedFrom ∨ g'.state.passedFrom.slot = none)
    (hwriting : g'.writing = none) : (w.setGroup i g').Exact := by
  refine h.setGroup hg hkey hexact ?_ ?_ ?_ ?_
  · intro b hb
    refine h.safe_holds hg ?_
    unfold GroupState.Holds at hb ⊢
    rwa [hown, hpublished] at hb
  · exact Or.inl ⟨hversion, by rw [hpublished]⟩
  · intro source hsource hp hs
    rcases hfrom with hfrom | hnone
    · rw [hfrom] at hs ⊢
      rw [hpublished]
      exact h.passed g (List.mem_of_getElem? hg) source hsource
        ((Prod.mk.inj hkey).1.symm.trans hp) hs
    · rw [hnone] at hs
      cases hs
  · intro k hk
    rw [hwriting] at hk
    cases hk

/-! ## A buffer overwritten -/

theorem Group.Exact.overwrite {heap heap' : Heap Point} (h : g.Exact heap)
    (hagrees : heap.Agrees heap' buffer) (hpublished : g.state.published.owner ≠ some buffer)
    (hkept : ∀ k, g.state.ownComputed = some k → g.state.own k ≠ some buffer) :
    g.Exact heap' where
  publications := h.publications
  published := by
    rw [hagrees.points hpublished]
    exact h.published
  latest := h.latest
  previous := by
    rw [hagrees.points hpublished]
    exact h.previous
  results := h.results
  kept := by
    intro k hk
    rw [hagrees.bytes (hkept k hk)]
    exact h.kept k hk

/-- A buffer in one hand, or in none, may be overwritten: nothing that is published, kept or read
lies in it. -/
theorem World.Exact.overwrite (h : w.Exact) {heap' : Heap Point} (hsole : w.Sole i k buffer)
    (hagrees : w.heap.Agrees heap' buffer) (hnext : w.heap.next ≤ heap'.next)
    (hkept : ∀ g, w.groups[i]? = some g → g.state.ownComputed ≠ some k) :
    { w with heap := heap' }.Exact where
  bounded g hg b hb := (h.bounded g hg b hb).trans_le hnext
  readers ref href b hb := (h.readers ref href b hb).trans_le hnext
  keys := h.keys
  programs := h.programs
  each := by
    intro g hg
    refine (h.each g hg).overwrite hagrees (hsole.published g hg) ?_
    intro k' hk' hown
    obtain ⟨j, hj⟩ := List.mem_iff_getElem?.mp hg
    obtain ⟨rfl, rfl⟩ := hsole.own j g k' hj hown
    exact hkept g hj hk'
  passed := by
    intro g hg source hsource
    unfold Passed
    rw [hagrees.points (hsole.published g hg), hagrees.points (hsole.published source hsource)]
    exact h.passed g hg source hsource
  writing := by
    intro j g hg k' hk'
    obtain ⟨hpublished, hcomputed, b, hown, hb⟩ := h.writing j g hg k' hk'
    exact ⟨hpublished, hcomputed, b, hown, hb.own, hb.published, hb.readers⟩

theorem World.Exact.setReaders (h : w.Exact) {readers : List PointsRef}
    (hsafe : ∀ ref ∈ readers, ∀ b, ref.owner = some b → ∀ n, w.Safe n b) :
    { w with readers }.Exact where
  bounded := h.bounded
  readers ref href b hb := (hsafe ref href b hb 0).1
  keys := h.keys
  programs := h.programs
  each := h.each
  passed := h.passed
  writing := by
    intro j g hg k hk
    obtain ⟨hpublished, hcomputed, b, hown, hb⟩ := h.writing j g hg k hk
    refine ⟨hpublished, hcomputed, b, hown, hb.own, hb.published, ?_⟩
    intro ref href howner
    have hj := (hsafe ref href b howner (j + 1)).2 j g k hg hown hb
    omega

end

end RigExec.PointBlocks
