/-
# `RigExec.Mesh.Bending` — the pairs at one distance, and the two builders

The search of the surface struts runs from every point over one array of
distances, which it unmarks again by what it visited.  `Searching` ties its state
to `Lib.Layered`: the array holds the distance of what was seen and −1 elsewhere.
The result is the pairs of points whose distance in the graph of the triangles is
the neighbour distance (`strutPairs_safe`).

A neighbour distance of one is not searched, so then there are no pairs although
the edges join points at that distance.
-/
import Mathlib.Data.List.Perm.Subperm
import RigExec.Lib.BreadthFirst
import RigExec.Mesh.Wrinkle

namespace RigExec.Mesh

open Lib (Stop Safe fetch store sortUnique Ascending Layered)

/-! ## The search from one start -/

section

variable {G : SimpleGraph Int} {n limit start : Nat} {old : List IntPair}
  {rings : List (List Int)} {expanded rest : List Int} {state : HopSearch} {a b : Int}

/-- An index of one of `n` points. -/
def IsPoint (n : Nat) (v : Int) : Prop := 0 ≤ v ∧ v.toNat < n

/-- The rings are the neighbours in a graph. -/
structure RingsFor (G : SimpleGraph Int) (n : Nat) (rings : List (List Int)) : Prop where
  length : rings.length = n
  joined : ∀ v w, Has rings v w ↔ G.Adj v w

theorem RingsFor.isPoint (h : RingsFor G n rings) {v w : Int} (hadj : G.Adj v w) :
    IsPoint n v := by
  obtain ⟨hnonneg, ring, hring, -⟩ := (h.joined v w).mpr hadj
  obtain ⟨hlt, -⟩ := List.getElem?_eq_some_iff.mp hring
  exact ⟨hnonneg, h.length ▸ hlt⟩

/-- The search from `start`, in terms of the list it has seen. -/
structure Searching (G : SimpleGraph Int) (n limit start : Nat) (old : List IntPair)
    (expanded queue : List Int) (state : HopSearch) : Prop where
  layered : Layered G (start : Int) limit expanded queue
  visited : state.visited = expanded ++ queue
  points : ∀ v ∈ expanded ++ queue, IsPoint n v
  length : state.distance.length = n
  marks : ∀ v : Int, IsPoint n v → state.distance[v.toNat]? =
    some (if v ∈ expanded ++ queue then ((G.edist start v).toNat : Int) else -1)
  pairs : ∀ pair, pair ∈ state.bendingPairs ↔ pair ∈ old ∨
    ∃ v ∈ expanded ++ queue, G.edist start v = limit ∧ start < v ∧ pair = toLex ((start : Int), v)

theorem Searching.fetch_distance {queue : List Int}
    (h : Searching G n limit start old expanded queue state) {v : Int} (hv : IsPoint n v) :
    Safe (fetch state.distance v) fun known =>
      known = if v ∈ expanded ++ queue then ((G.edist start v).toNat : Int) else -1 := by
  refine (Safe.fetch hv.1 (h.length ▸ hv.2)).mono ?_
  intro known hknown
  rw [h.marks v hv] at hknown
  exact (Option.some.inj hknown).symm

theorem visitNeighbor_safe (h : Searching G n limit start old expanded (a :: rest) state)
    (hstart : toInt start = start) (hlimit : G.edist start a < limit) (hadj : G.Adj a b)
    (hb : IsPoint n b) :
    Safe (visitNeighbor limit start a state b) fun state' => ∃ more,
      Searching G n limit start old expanded (a :: (rest ++ more)) state' ∧
        b ∈ expanded ++ a :: (rest ++ more) := by
  refine (h.fetch_distance hb).bind ?_
  rintro known rfl
  by_cases hseen : b ∈ expanded ++ a :: rest
  · rw [if_pos hseen, if_pos (by omega)]
    exact Safe.pure ⟨[], by rwa [List.append_nil], by rwa [List.append_nil]⟩
  · rw [if_neg hseen, if_neg (by omega)]
    have ha : a ∈ expanded ++ a :: rest := by simp
    obtain ⟨k, hk⟩ := ENat.ne_top_iff_exists.mp (ne_top_of_lt hlimit)
    refine (h.fetch_distance (h.points a ha)).bind ?_
    intro reached hreached
    rw [if_pos ha, ← hk, ENat.toNat_natCast] at hreached
    subst hreached
    refine (Safe.store hb.1 (h.length ▸ hb.2)).bind ?_
    rintro distance rfl
    refine Safe.pure ⟨[b], ?_, by simp⟩
    have hdist : G.edist start b = (k + 1 : ℕ) := by
      rw [h.layered.edist_new hlimit hadj hseen, ← hk]
      rfl
    have hlist : expanded ++ a :: (rest ++ [b]) = expanded ++ a :: rest ++ [b] := by simp
    refine ⟨h.layered.discover hlimit hadj hseen, ?_, ?_, ?_, ?_, ?_⟩
    · rw [hlist, h.visited]
    · rw [hlist]
      intro v hv
      rcases List.mem_append.mp hv with hv | hv
      · exact h.points v hv
      · obtain rfl := List.mem_singleton.mp hv
        exact hb
    · rw [List.length_set, h.length]
    · intro v hv
      rw [hlist]
      by_cases hvb : v = b
      · subst hvb
        rw [List.getElem?_set_self (h.length ▸ hv.2), if_pos (by simp), hdist]
        rfl
      · rw [List.getElem?_set_ne (by have := hv.1; have := hb.1; omega), h.marks v hv]
        simp [hvb]
    · intro pair
      rw [hlist]
      have hreach : (k : Int) + 1 = limit ↔ G.edist start b = limit := by
        rw [hdist, Nat.cast_inj]
        omega
      have hbefore : start < b.toNat ↔ (start : Int) < b := by
        have := hb.1
        omega
      by_cases hpair : (k : Int) + 1 = limit ∧ start < b.toNat
      · rw [if_pos hpair, List.mem_append, List.mem_singleton, h.pairs, hstart]
        rw [hreach, hbefore] at hpair
        constructor
        · rintro ((hold | ⟨v, hv, hrest⟩) | rfl)
          · exact .inl hold
          · exact .inr ⟨v, List.mem_append_left _ hv, hrest⟩
          · exact .inr ⟨b, by simp, hpair.1, hpair.2, rfl⟩
        · rintro (hold | ⟨v, hv, hlimit', hless, rfl⟩)
          · exact .inl (.inl hold)
          · rcases List.mem_append.mp hv with hv | hv
            · exact .inl (.inr ⟨v, hv, hlimit', hless, rfl⟩)
            · obtain rfl := List.mem_singleton.mp hv
              exact .inr rfl
      · rw [if_neg hpair, h.pairs]
        rw [hreach, hbefore] at hpair
        constructor
        · rintro (hold | ⟨v, hv, hrest⟩)
          · exact .inl hold
          · exact .inr ⟨v, List.mem_append_left _ hv, hrest⟩
        · rintro (hold | ⟨v, hv, hlimit', hless, rfl⟩)
          · exact .inl hold
          · rcases List.mem_append.mp hv with hv | hv
            · exact .inr ⟨v, hv, hlimit', hless, rfl⟩
            · obtain rfl := List.mem_singleton.mp hv
              exact absurd ⟨hlimit', hless⟩ hpair

theorem visitNeighbors_safe (h : Searching G n limit start old expanded (a :: rest) state)
    (hstart : toInt start = start) (hrings : RingsFor G n rings)
    (hlimit : G.edist start a < limit) {ring : List Int} (hring : ∀ v ∈ ring, G.Adj a v) :
    Safe (ring.foldlM (visitNeighbor limit start a) state) fun state' => ∃ more,
      Searching G n limit start old expanded (a :: (rest ++ more)) state' ∧
        ∀ v ∈ ring, v ∈ expanded ++ a :: (rest ++ more) := by
  refine Safe.foldlM (fun passed state' => ∃ more,
    Searching G n limit start old expanded (a :: (rest ++ more)) state' ∧
      ∀ v ∈ passed, v ∈ expanded ++ a :: (rest ++ more)) ⟨[], by simpa using h, by simp⟩ ?_
  rintro passed b after hlist state' ⟨more, hmore, hpassed⟩
  have hadj : G.Adj a b := hring b (by simp [hlist])
  refine (visitNeighbor_safe hmore hstart hlimit hadj (hrings.isPoint hadj.symm)).mono ?_
  rintro state'' ⟨more', hmore', hb⟩
  rw [List.append_assoc] at hmore' hb
  refine ⟨more ++ more', hmore', ?_⟩
  intro v hv
  rcases List.mem_append.mp hv with hv | hv
  · have hin := hpassed v hv
    rw [List.mem_append, List.mem_cons, List.mem_append] at hin ⊢
    rcases hin with hin | hin | hin | hin
    · exact .inl hin
    · exact .inr (.inl hin)
    · exact .inr (.inr (.inl hin))
    · exact .inr (.inr (.inr (List.mem_append_left _ hin)))
  · obtain rfl := List.mem_singleton.mp hv
    exact hb

theorem Searching.length_expanded {queue : List Int}
    (h : Searching G n limit start old expanded queue state) : expanded.length ≤ n := by
  have hnodup := (List.nodup_append.mp h.layered.nodup).1
  have hmap : (expanded.map Int.toNat).Nodup := by
    refine hnodup.map_on ?_
    intro v hv w hw he
    have hv := (h.points v (List.mem_append_left _ hv)).1
    have hw := (h.points w (List.mem_append_left _ hw)).1
    omega
  have hsub : expanded.map Int.toNat ⊆ List.range n := by
    intro i hi
    obtain ⟨v, hv, rfl⟩ := List.mem_map.mp hi
    exact List.mem_range.mpr (h.points v (List.mem_append_left _ hv)).2
  have hle := (List.subperm_of_subset hmap hsub).length_le
  rwa [List.length_map, List.length_range] at hle

/-- **The loop over what is visited ends with everything expanded.** -/
theorem expandFrom_safe (hstart : toInt start = start) (hrings : RingsFor G n rings)
    {turns cursor : Nat} {queue : List Int}
    (h : Searching G n limit start old expanded queue state) (hcursor : cursor = expanded.length)
    (hturns : n < turns + cursor) :
    Safe (expandFrom rings limit start turns cursor state) fun state' =>
      ∃ expanded', Searching G n limit start old expanded' [] state' := by
  induction turns generalizing cursor expanded queue state with
  | zero =>
      have hle := h.length_expanded
      omega
  | succ turns ih =>
      rw [expandFrom]
      cases queue with
      | nil =>
          have hall : ¬cursor < state.visited.length := by
            rw [h.visited, List.append_nil, hcursor]
            exact lt_irrefl _
          rw [if_neg hall]
          exact Safe.pure ⟨expanded, h⟩
      | cons a rest =>
          have hmore : cursor < state.visited.length := by
            rw [h.visited, List.length_append, List.length_cons, hcursor]
            omega
          have hcur : state.visited[cursor]? = some a := by
            rw [h.visited, hcursor, List.getElem?_append_right (le_refl _), Nat.sub_self]
            rfl
          rw [if_pos hmore]
          refine (Safe.fetch (by omega) (by simpa using hmore)).bind ?_
          intro a' ha'
          obtain rfl : a = a' := by
            rw [Int.toNat_natCast, hcur] at ha'
            exact Option.some.inj ha'
          have ha : a ∈ expanded ++ a :: rest := by simp
          have hpoint := h.points a ha
          refine (h.fetch_distance hpoint).bind ?_
          rintro reached rfl
          rw [if_pos ha]
          have hwithin := h.layered.within a ha
          obtain ⟨k, hk⟩ := ENat.ne_top_iff_exists.mp (ne_top_of_le_ne_top
            (ENat.natCast_ne_top limit) hwithin)
          have hadvance : ∀ {more : List Int} {state' : HopSearch},
              Searching G n limit start old expanded (a :: more) state' →
              (G.edist start a < limit → ∀ v, G.Adj a v → v ∈ expanded ++ a :: more) →
              Safe (expandFrom rings limit start turns (cursor + 1) state') fun state'' =>
                ∃ expanded', Searching G n limit start old expanded' [] state'' := by
            intro more state' hmore' hclosed
            have hlist : expanded ++ [a] ++ more = expanded ++ a :: more := by simp
            have hnext : Searching G n limit start old (expanded ++ [a]) more state' := by
              refine ⟨hmore'.layered.advance hclosed, ?_, ?_, hmore'.length, ?_, ?_⟩
              · rw [hlist]
                exact hmore'.visited
              · rw [hlist]
                exact hmore'.points
              · rw [hlist]
                exact hmore'.marks
              · rw [hlist]
                exact hmore'.pairs
            refine ih hnext ?_ (by omega)
            rw [List.length_append, hcursor, List.length_singleton]
          by_cases hfar : ((G.edist start a).toNat : Int) = limit
          · -- at the limit nothing is expanded
            rw [if_pos hfar]
            refine hadvance h ?_
            intro hless
            rw [← hk] at hfar hless
            simp only [ENat.toNat_natCast, Nat.cast_lt] at hfar hless
            omega
          · rw [if_neg hfar]
            have hless : G.edist start a < limit := by
              rw [← hk] at hfar hwithin ⊢
              simp only [ENat.toNat_natCast, Nat.cast_le, Nat.cast_lt] at hfar hwithin ⊢
              omega
            refine (Safe.fetch hpoint.1 (hrings.length ▸ hpoint.2)).bind ?_
            intro ring hring
            have hadj : ∀ v, v ∈ ring ↔ G.Adj a v := by
              intro v
              rw [← hrings.joined]
              constructor
              · exact fun hv => ⟨hpoint.1, ring, hring, hv⟩
              · rintro ⟨-, ring', hring', hv⟩
                rw [hring] at hring'
                cases hring'
                exact hv
            refine (visitNeighbors_safe h hstart hrings hless fun v hv => (hadj v).mp hv).bind ?_
            rintro state' ⟨more, hstate', hseen⟩
            exact hadvance hstate' fun _ v hv => hseen v ((hadj v).mpr hv)

/-! ## All starts -/

theorem unmark_safe {visited distance : List Int} (hlength : distance.length = n)
    (hvisited : ∀ v ∈ visited, IsPoint n v)
    (hmarks : ∀ (i : Nat) x, distance[i]? = some x → (i : Int) ∉ visited → x = -1) :
    Safe (visited.foldlM (fun distance index => store distance index (-1)) distance)
      fun distance' => distance' = List.replicate n (-1) := by
  refine (Safe.foldlM (fun passed distance' => distance'.length = n ∧
    ∀ (i : Nat) x, distance'[i]? = some x → ((i : Int) ∈ visited → (i : Int) ∈ passed) → x = -1)
    ⟨hlength, fun i x hx hpassed => hmarks i x hx fun hin => absurd (hpassed hin) (by simp)⟩
    ?_).mono ?_
  · rintro passed v after hlist distance' ⟨hlength', hmarks'⟩
    have hv := hvisited v (by simp [hlist])
    refine (Safe.store hv.1 (hlength' ▸ hv.2)).mono ?_
    rintro distance'' rfl
    refine ⟨by rw [List.length_set, hlength'], ?_⟩
    intro i x hx hpassed
    by_cases hi : v.toNat = i
    · rw [hi, List.getElem?_set_self (by rw [hlength', ← hi]; exact hv.2)] at hx
      exact (Option.some.inj hx).symm
    · rw [List.getElem?_set_ne hi] at hx
      refine hmarks' i x hx ?_
      intro hin
      rcases List.mem_append.mp (hpassed hin) with hin | hin
      · exact hin
      · have he := List.mem_singleton.mp hin
        omega
  · rintro distance' ⟨hlength', hmarks'⟩
    refine List.eq_replicate_iff.mpr ⟨hlength', ?_⟩
    intro x hx
    obtain ⟨i, hi⟩ := List.mem_iff_getElem?.mp hx
    exact hmarks' i x hi id

/-- After the searches from some starts. -/
structure Swept (G : SimpleGraph Int) (n limit : Nat) (passed : List Nat) (state : HopSearch) :
    Prop where
  distance : state.distance = List.replicate n (-1)
  pairs : ∀ pair, pair ∈ state.bendingPairs ↔ ∃ start ∈ passed, ∃ v,
    G.edist (start : Int) v = limit ∧ start < v ∧ pair = toLex ((start : Int), v)

theorem hopsFrom_safe {passed : List Nat} (h : Swept G n limit passed state) (hlt : start < n)
    (hstart : toInt start = start) (hrings : RingsFor G n rings) :
    Safe (hopsFrom rings limit state start) (Swept G n limit (passed ++ [start])) := by
  have hpoint : IsPoint n start := ⟨by omega, by simpa using hlt⟩
  have hlength : state.distance.length = n := by rw [h.distance, List.length_replicate]
  refine (Safe.store hpoint.1 (hlength ▸ hpoint.2)).bind ?_
  rintro distance rfl
  have hfirst : Searching G n limit start state.bendingPairs [] [(start : Int)]
      { state with
        distance := state.distance.set (start : Int).toNat 0, visited := [toInt start] } := by
    refine ⟨.first, by simp [hstart], by simpa using hpoint, by simp [hlength], ?_, ?_⟩
    · intro v hv
      by_cases he : v = start
      · subst he
        rw [List.getElem?_set_self (hlength ▸ hv.2)]
        simp
      · rw [List.getElem?_set_ne (by have := hv.1; omega), h.distance,
          List.getElem?_replicate_of_lt hv.2]
        simp [he]
    · intro pair
      constructor
      · exact fun hold => .inl hold
      · rintro (hold | ⟨v, hv, -, hless, -⟩)
        · exact hold
        · obtain rfl : v = start := by simpa using hv
          exact absurd hless (lt_irrefl _)
  refine (expandFrom_safe hstart hrings hfirst rfl (by rw [hrings.length]; simp)).bind ?_
  rintro found ⟨expanded, hfound⟩
  have hpoints := hfound.points
  have hmarks := hfound.marks
  have hpairs := hfound.pairs
  rw [List.append_nil] at hpoints hmarks hpairs
  refine (unmark_safe hfound.length (by rw [hfound.visited, List.append_nil]; exact hpoints)
    ?_).bind ?_
  · intro i x hx hout
    rw [hfound.visited, List.append_nil] at hout
    have hi : i < n := by
      obtain ⟨hi, -⟩ := List.getElem?_eq_some_iff.mp hx
      exact hfound.length ▸ hi
    have hmark := hmarks i ⟨by omega, by simpa using hi⟩
    rw [Int.toNat_natCast, hx, if_neg hout] at hmark
    exact Option.some.inj hmark
  · rintro distance rfl
    refine Safe.pure ⟨rfl, ?_⟩
    intro pair
    show pair ∈ found.bendingPairs ↔ _
    rw [hpairs, h.pairs]
    constructor
    · rintro (⟨before, hin, hbefore⟩ | ⟨v, -, hpair⟩)
      · exact ⟨before, List.mem_append_left _ hin, hbefore⟩
      · exact ⟨start, by simp, v, hpair⟩
    · rintro ⟨before, hin, v, hpair⟩
      rcases List.mem_append.mp hin with hin | hin
      · exact .inl ⟨before, hin, v, hpair⟩
      · obtain rfl := List.mem_singleton.mp hin
        exact .inr ⟨v, hfound.layered.finished.mpr hpair.1.le, hpair⟩

/-- **The pairs of the surface struts are the pairs at that distance.** -/
theorem strutPairs_safe (hn : n ≤ 2 ^ 31) (hrings : RingsFor G n rings) (hlimit : 1 < limit) :
    Safe (strutPairs n rings limit) fun pairs => ∀ i j : Int,
      toLex (i, j) ∈ pairs ↔ i < j ∧ G.edist i j = limit := by
  have hsweep : Safe ((List.range n).foldlM (hopsFrom rings limit)
      { distance := List.replicate n (-1) }) (Swept G n limit (List.range n)) := by
    refine Safe.foldlM (Swept G n limit) ⟨rfl, by simp⟩ ?_
    intro passed start after hlist state hstate
    have hlt : start < n := by
      have hmem : start ∈ List.range n := by simp [hlist]
      exact List.mem_range.mp hmem
    have hstart : toInt start = start := Int.bmod_eq_of_le (by omega) (by omega)
    exact hopsFrom_safe hstate hlt hstart hrings
  refine hsweep.bind ?_
  intro state hstate
  refine Safe.pure ?_
  intro i j
  rw [hstate.pairs]
  constructor
  · rintro ⟨start, -, v, hdist, hless, he⟩
    obtain ⟨rfl, rfl⟩ := Prod.mk.injEq .. ▸ toLex_inj.mp he
    exact ⟨hless, hdist⟩
  · rintro ⟨hless, hdist⟩
    -- a point at a positive distance has a neighbour
    obtain ⟨k, rfl⟩ : ∃ k, limit = k + 1 := ⟨limit - 1, by omega⟩
    obtain ⟨u, -, hadj⟩ := Lib.exists_adj_of_edist (G.edist_comm.trans hdist)
    have hpoint := hrings.isPoint hadj.symm
    have hcast : ((i.toNat : Nat) : Int) = i := Int.toNat_of_nonneg hpoint.1
    refine ⟨i.toNat, List.mem_range.mpr hpoint.2, j, ?_⟩
    rw [hcast]
    exact ⟨hdist, hless, rfl⟩

end

/-! ## The builders -/

/-- What a wrinkle mesh says about the topology it was built from. -/
structure WrinkleOf (pointCount : Nat) (counts indices : List Int) (mode : WrinkleTopology)
    (neighborDistance : Int) (mesh : WrinkleMesh) : Prop where
  built : mesh.pointCount = pointCount ∧ mesh.counts = counts ∧ mesh.indices = indices ∧
    mesh.mode = mode ∧ mesh.neighborDistance = neighborDistance ∧ mesh.valid = true
  triangles : mesh.triangles = trianglesOf counts indices
  edges : EdgesOf mesh.triangles mesh.edges
  neighbors : RingsOf pointCount mesh.triangles mesh.neighbors
  borderAscending : Ascending mesh.borderVertices
  border : ∀ v, v ∈ mesh.borderVertices ↔ ∃ w, timesUsed (polygonEdges counts indices) v w = 1
  bendingAscending : Ascending mesh.bendingPairs
  bending : mode = .surfaceStruts → ∀ i j : Int, toLex (i, j) ∈ mesh.bendingPairs ↔
    1 < neighborDistance ∧ i < j ∧
      (triangleGraph mesh.triangles).edist i j = neighborDistance.toNat

theorem wrinkleMesh_safe (pointCount : Nat) (counts indices : List Int) (mode : WrinkleTopology)
    (neighborDistance : Int)
    (hpoints : mode = .surfaceStruts → 1 < neighborDistance → pointCount ≤ 2 ^ 31) :
    Safe (wrinkleMesh pointCount counts indices mode neighborDistance)
      (WrinkleOf pointCount counts indices mode neighborDistance) := by
  refine (faces_safe pointCount counts indices).bind ?_
  intro faces hfaces
  refine Safe.unless ?_
  intro _
  refine (ringsOf_safe hfaces.proper).bind ?_
  intro rings hrings
  have hbending : Safe (bendingPairsOf pointCount (edgesOf faces.triangles) rings mode
      neighborDistance) fun pairs => mode = .surfaceStruts → ∀ i j : Int,
        toLex (i, j) ∈ pairs ↔ 1 < neighborDistance ∧ i < j ∧
          (triangleGraph faces.triangles).edist i j = neighborDistance.toNat := by
    unfold bendingPairsOf
    refine Safe.ite (fun hcloth => ?_) fun _ => Safe.ite (fun hfar => ?_) fun hnear => ?_
    · refine Safe.pure ?_
      intro hstruts
      rw [hcloth] at hstruts
      cases hstruts
    · have hcast : neighborDistance = (neighborDistance.toNat : Int) := by omega
      cases mode with
      | cloth => contradiction
      | surfaceStruts =>
          have hlimit : 1 < neighborDistance.toNat := by omega
          have hsearch := strutPairs_safe (hpoints rfl hfar) ⟨hrings.length, hrings.joined⟩ hlimit
          rw [← hcast] at hsearch
          refine hsearch.mono ?_
          intro pairs hpairs _ i j
          rw [hpairs]
          exact ⟨fun h => ⟨hfar, h⟩, fun h => h.2⟩
    · refine Safe.pure ?_
      intro _ i j
      simp [hnear]
  refine hbending.bind ?_
  intro pairs hpairs
  refine Safe.pure ⟨⟨rfl, rfl, rfl, rfl, rfl, rfl⟩, hfaces.triangles, edgesOf_spec hfaces.proper,
    hrings, Lib.ascending_sortUnique _, ?_, Lib.ascending_sortUnique _, ?_⟩
  · intro v
    show v ∈ borderOf faces.polygonEdges ↔ _
    rw [hfaces.polygonEdges, mem_borderOf]
  · intro hstruts i j
    rw [Lib.mem_sortUnique]
    exact hpairs hstruts i j

/-- **The builders are exact.**  Neither indexes outside an array; a failure leaves the output
as it was; an adjacency holds the polygon edges, and a wrinkle mesh the edges, border and pairs
of its topology. -/
theorem meshBuilders_exact (pointCount : Nat) (faceVertexCounts faceVertexIndices : Lib.Range Int)
    (adjacency : Option MeshAdjacency) (counts indices : List Int) (mode : WrinkleTopology)
    (neighborDistance : Int) (out : Option WrinkleMesh)
    (hpoints : mode = .surfaceStruts → 1 < neighborDistance → pointCount ≤ 2 ^ 31) :
    (buildMeshAdjacency pointCount faceVertexCounts faceVertexIndices adjacency =
        some (false, adjacency) ∨
      ∃ mesh, buildMeshAdjacency pointCount faceVertexCounts faceVertexIndices adjacency =
          some (true, some mesh) ∧
        AdjacencyOf pointCount (polygonEdges faceVertexCounts.values faceVertexIndices.values)
          mesh) ∧
      (buildWrinkleMesh pointCount counts indices mode neighborDistance out = some (false, out) ∨
        ∃ mesh, buildWrinkleMesh pointCount counts indices mode neighborDistance out =
            some (true, some mesh) ∧
          WrinkleOf pointCount counts indices mode neighborDistance mesh) := by
  constructor
  · rcases deliver_safe (meshAdjacency_spec pointCount faceVertexCounts faceVertexIndices)
      adjacency with hfailed | ⟨mesh, hmesh, -, hspec⟩
    · exact .inl hfailed
    · exact .inr ⟨mesh, hmesh, hspec⟩
  · rcases deliver_safe (wrinkleMesh_safe pointCount counts indices mode neighborDistance hpoints)
      out with hfailed | ⟨mesh, hmesh, -, hspec⟩
    · exact .inl hfailed
    · exact .inr ⟨mesh, hmesh, hspec⟩

/-- A square and a strip of two triangles, with struts two apart. -/
theorem meshBuilders_exact_square :
    ∃ adjacency mesh,
      buildMeshAdjacency 4 (.of [4]) (.of [0, 1, 2, 3]) (some {}) = some (true, some adjacency) ∧
        AdjacencyOf 4 (polygonEdges [4] [0, 1, 2, 3]) adjacency ∧
        buildWrinkleMesh 4 [3, 3] [0, 1, 2, 0, 2, 3] .surfaceStruts 2 (some {}) =
          some (true, some mesh) ∧
        WrinkleOf 4 [3, 3] [0, 1, 2, 0, 2, 3] .surfaceStruts 2 mesh := by
  obtain ⟨hadjacency, hwrinkle⟩ := meshBuilders_exact 4 (.of [4]) (.of [0, 1, 2, 3]) (some {})
    [3, 3] [0, 1, 2, 0, 2, 3] .surfaceStruts 2 (some {}) (fun _ _ => by decide)
  have hfirst : (buildMeshAdjacency 4 (.of [4]) (.of [0, 1, 2, 3]) (some {})).map Prod.fst =
      some true := by decide +kernel
  have hsecond : (buildWrinkleMesh 4 [3, 3] [0, 1, 2, 0, 2, 3] .surfaceStruts 2
      (some {})).map Prod.fst = some true := by decide +kernel
  rcases hadjacency with hfailed | ⟨adjacency, hbuilt, hadjacency⟩
  · rw [hfailed] at hfirst
    cases hfirst
  · rcases hwrinkle with hfailed | ⟨mesh, hbuilt', hwrinkle⟩
    · rw [hfailed] at hsecond
      cases hsecond
    · exact ⟨adjacency, mesh, hbuilt, hadjacency, hbuilt', hwrinkle⟩

/-- The edges of a triangle are pairs at distance one, and struts of one are not made. -/
theorem bendingPairs_one_edge :
    ¬∀ (pointCount : Nat) (counts indices : List Int) (neighborDistance : Int)
      (mesh : WrinkleMesh),
      buildWrinkleMesh pointCount counts indices .surfaceStruts neighborDistance (some {}) =
        some (true, some mesh) →
      ∀ i j : Int, toLex (i, j) ∈ mesh.bendingPairs ↔
        i < j ∧ (triangleGraph mesh.triangles).edist i j = neighborDistance.toNat := by
  intro h
  have hbuilt : buildWrinkleMesh 3 [3] [0, 1, 2] .surfaceStruts 1 (some {}) = some (true, some
      { pointCount := 3, counts := [3], indices := [0, 1, 2], mode := .surfaceStruts,
        neighborDistance := 1, triangles := [(0, 1, 2)],
        edges := [⟨0, 1, [2]⟩, ⟨0, 2, [1]⟩, ⟨1, 2, [0]⟩],
        neighbors := [[1, 2], [0, 2], [0, 1]], borderVertices := [0, 1, 2],
        bendingPairs := [], valid := true }) := by
    rfl
  have hpair := (h 3 [3] [0, 1, 2] 1 _ hbuilt 0 1).mpr
  refine absurd (hpair ⟨by decide, ?_⟩) (by simp)
  refine SimpleGraph.edist_eq_one_iff_adj.mpr ⟨by decide, (0, 1, 2), by simp, ?_⟩
  simp [Triangle.corners]

end RigExec.Mesh
