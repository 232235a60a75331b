/-
# `RigExec.Lib.BreadthFirst` — the layers of a bounded breadth-first search

The search keeps one list of the vertices it has seen, in the order it saw them:
a part it has expanded and the queue it has not.  It takes the first of the queue,
appends the neighbours it has not seen, and does not expand at the limit.

`Layered` is the invariant, in terms of Mathlib's distance alone: the list is
ordered by distance, the queue spans two layers at most, and an expanded vertex
below the limit has all its neighbours in the list.  A neighbour that is not in
the list is then one step further than the vertex it is seen from
(`Layered.edist_new`), and when the queue is empty the list is the ball around the
start (`Layered.finished`).
-/
import Mathlib.Combinatorics.SimpleGraph.Metric

namespace Lib

variable {V : Type} {G : SimpleGraph V} {start : V} {limit : ℕ}

/-! ## Distances -/

theorem exists_adj_of_edist {v : V} {k : ℕ} (h : G.edist start v = (k + 1 : ℕ)) :
    ∃ u, G.edist start u = k ∧ G.Adj u v := by
  obtain ⟨walk, hlength⟩ := G.exists_walk_of_edist_eq_coe h
  have hnil : ¬walk.Nil := by
    intro hnil
    have hzero := SimpleGraph.Walk.length_eq_zero_iff.mpr hnil
    omega
  refine ⟨walk.penultimate, ?_, walk.adj_penultimate hnil⟩
  have hle : G.edist start walk.penultimate ≤ k := by
    refine (G.edist_le walk.dropLast).trans ?_
    have hdrop : walk.dropLast.length ≤ k := by
      have hdrop := walk.length_dropLast_add_one hnil
      omega
    exact_mod_cast hdrop
  have hge : (k + 1 : ℕ) ≤ G.edist start walk.penultimate + 1 := by
    calc ((k + 1 : ℕ) : ℕ∞) = G.edist start v := h.symm
      _ ≤ G.edist start walk.penultimate + G.edist walk.penultimate v := G.edist_triangle
      _ ≤ G.edist start walk.penultimate + 1 := by
          have hone : G.edist walk.penultimate v = 1 :=
            SimpleGraph.edist_eq_one_iff_adj.mpr (walk.adj_penultimate hnil)
          rw [hone]
  refine le_antisymm hle ?_
  have hone : (1 : ℕ∞) ≠ ⊤ := ENat.natCast_ne_top 1
  exact (ENat.add_le_add_iff_right hone).mp (by exact_mod_cast hge)

theorem edist_le_succ {u v : V} (h : G.Adj u v) : G.edist start v ≤ G.edist start u + 1 := by
  calc G.edist start v ≤ G.edist start u + G.edist u v := G.edist_triangle
    _ = G.edist start u + 1 := by rw [SimpleGraph.edist_eq_one_iff_adj.mpr h]

/-! ## The invariant -/

/-- The list of a search from `start`, as far as it has come. -/
structure Layered (G : SimpleGraph V) (start : V) (limit : ℕ) (expanded queue : List V) :
    Prop where
  nodup : (expanded ++ queue).Nodup
  ordered : (expanded ++ queue).Pairwise fun u v => G.edist start u ≤ G.edist start v
  within : ∀ v ∈ expanded ++ queue, G.edist start v ≤ limit
  start_mem : start ∈ expanded ++ queue
  near : ∀ a rest, queue = a :: rest → ∀ v ∈ queue, G.edist start v ≤ G.edist start a + 1
  closed : ∀ u ∈ expanded, G.edist start u < limit → ∀ v, G.Adj u v → v ∈ expanded ++ queue

theorem Layered.first : Layered G start limit [] [start] where
  nodup := List.nodup_singleton _
  ordered := List.pairwise_singleton _ _
  within := by simp
  start_mem := by simp
  near := by
    rintro a rest he v hv
    cases he
    obtain rfl := List.mem_singleton.mp hv
    exact le_self_add
  closed := by simp

variable {expanded rest : List V} {a b : V}

theorem Layered.mem_expanded (h : Layered G start limit expanded (a :: rest)) {v : V} {k : ℕ}
    (hv : G.edist start v = k) (hlt : G.edist start v < G.edist start a) : v ∈ expanded := by
  have hafter : ∀ w ∈ expanded ++ a :: rest, G.edist start w < G.edist start a →
      w ∈ expanded := by
    intro w hw hless
    rcases List.mem_append.mp hw with hw | hw
    · exact hw
    · exfalso
      rcases List.mem_cons.mp hw with rfl | hw
      · exact lt_irrefl _ hless
      · have hordered := (List.pairwise_append.mp h.ordered).2.1
        exact absurd ((List.pairwise_cons.mp hordered).1 w hw) (not_le.mpr hless)
  induction k generalizing v with
  | zero =>
      obtain rfl : start = v := G.edist_eq_zero_iff.mp (by simpa using hv)
      exact hafter _ h.start_mem hlt
  | succ k ih =>
      obtain ⟨u, hu, hadj⟩ := exists_adj_of_edist hv
      have hless : G.edist start u < G.edist start v := by
        rw [hu, hv]
        exact_mod_cast Nat.lt_succ_self k
      have hexpanded := ih hu (hless.trans hlt)
      have hlimit : G.edist start u < limit :=
        (hless.trans hlt).trans_le (h.within a (by simp))
      exact hafter v (h.closed u hexpanded hlimit v hadj) hlt

/-- **A neighbour that has not been seen is in the next layer.** -/
theorem Layered.edist_new (h : Layered G start limit expanded (a :: rest))
    (hlimit : G.edist start a < limit) (hadj : G.Adj a b) (hnew : b ∉ expanded ++ a :: rest) :
    G.edist start b = G.edist start a + 1 := by
  refine le_antisymm (edist_le_succ hadj) ?_
  refine Order.add_one_le_of_lt ?_
  by_contra hnot
  have hle : G.edist start b ≤ G.edist start a := not_lt.mp hnot
  have hne : G.edist start b ≠ ⊤ := ne_top_of_lt (lt_of_le_of_lt hle hlimit)
  obtain ⟨m, hm⟩ := ENat.ne_top_iff_exists.mp hne
  cases m with
  | zero =>
      obtain rfl : start = b := G.edist_eq_zero_iff.mp (by simpa using hm.symm)
      exact hnew h.start_mem
  | succ k =>
      -- the last vertex before it has been expanded, so it would have been seen
      obtain ⟨u, hu, hbefore⟩ := exists_adj_of_edist hm.symm
      have hless : G.edist start u < G.edist start a := by
        refine lt_of_lt_of_le ?_ hle
        rw [hu, ← hm]
        exact_mod_cast Nat.lt_succ_self k
      have hexpanded := h.mem_expanded hu hless
      exact hnew (h.closed u hexpanded (hless.trans hlimit) b hbefore)

theorem Layered.discover (h : Layered G start limit expanded (a :: rest))
    (hlimit : G.edist start a < limit) (hadj : G.Adj a b) (hnew : b ∉ expanded ++ a :: rest) :
    Layered G start limit expanded (a :: (rest ++ [b])) := by
  have hdist := h.edist_new hlimit hadj hnew
  have hlist : expanded ++ a :: (rest ++ [b]) = (expanded ++ a :: rest) ++ [b] := by simp
  refine ⟨?_, ?_, ?_, ?_, ?_, ?_⟩
  · rw [hlist]
    refine List.nodup_append.mpr ⟨h.nodup, List.nodup_singleton _, ?_⟩
    rintro u hu v hv rfl
    obtain rfl := List.mem_singleton.mp hv
    exact hnew hu
  · rw [hlist]
    refine List.pairwise_append.mpr ⟨h.ordered, List.pairwise_singleton _ _, ?_⟩
    intro u hu v hv
    obtain rfl := List.mem_singleton.mp hv
    rw [hdist]
    rcases List.mem_append.mp hu with hu | hu
    · have hordered := (List.pairwise_append.mp h.ordered).2.2 u hu a List.mem_cons_self
      exact hordered.trans le_self_add
    · exact h.near a rest rfl u hu
  · rw [hlist]
    intro v hv
    rcases List.mem_append.mp hv with hv | hv
    · exact h.within v hv
    · obtain rfl := List.mem_singleton.mp hv
      rw [hdist]
      exact Order.add_one_le_of_lt hlimit
  · rw [hlist]
    exact List.mem_append_left _ h.start_mem
  · rintro a' rest' he v hv
    cases he
    rw [← List.cons_append] at hv
    rcases List.mem_append.mp hv with hv | hv
    · exact h.near a rest rfl v hv
    · obtain rfl := List.mem_singleton.mp hv
      exact hdist.le
  · rw [hlist]
    intro u hu hbelow v huv
    exact List.mem_append_left _ (h.closed u hu hbelow v huv)

theorem Layered.advance (h : Layered G start limit expanded (a :: rest))
    (hclosed : G.edist start a < limit → ∀ v, G.Adj a v → v ∈ expanded ++ a :: rest) :
    Layered G start limit (expanded ++ [a]) rest := by
  have hlist : expanded ++ [a] ++ rest = expanded ++ a :: rest := by simp
  refine ⟨?_, ?_, ?_, ?_, ?_, ?_⟩
  · rw [hlist]
    exact h.nodup
  · rw [hlist]
    exact h.ordered
  · rw [hlist]
    exact h.within
  · rw [hlist]
    exact h.start_mem
  · rintro a' rest' rfl v hv
    have hordered := (List.pairwise_append.mp h.ordered).2.1
    have hfirst := (List.pairwise_cons.mp hordered).1 a' List.mem_cons_self
    exact (h.near a _ rfl v (List.mem_cons_of_mem _ hv)).trans (by gcongr)
  · rw [hlist]
    intro u hu hbelow v huv
    rcases List.mem_append.mp hu with hu | hu
    · exact h.closed u hu hbelow v huv
    · obtain rfl := List.mem_singleton.mp hu
      exact hclosed hbelow v huv

/-- **The search has seen the ball around its start.** -/
theorem Layered.finished (h : Layered G start limit expanded []) {v : V} :
    v ∈ expanded ↔ G.edist start v ≤ limit := by
  have hwithin := h.within
  have hclosed := h.closed
  have hstart := h.start_mem
  rw [List.append_nil] at hwithin hclosed hstart
  refine ⟨hwithin v, ?_⟩
  intro hle
  obtain ⟨k, hk⟩ := ENat.ne_top_iff_exists.mp (ne_top_of_le_ne_top (ENat.natCast_ne_top limit) hle)
  induction k generalizing v with
  | zero =>
      obtain rfl : start = v := G.edist_eq_zero_iff.mp (by simpa using hk.symm)
      exact hstart
  | succ k ih =>
      obtain ⟨u, hu, hadj⟩ := exists_adj_of_edist hk.symm
      have hless : G.edist start u < limit := by
        refine lt_of_lt_of_le ?_ hle
        rw [hu, ← hk]
        exact_mod_cast Nat.lt_succ_self k
      exact hclosed u (ih hless.le hu.symm) hless v hadj

end Lib
