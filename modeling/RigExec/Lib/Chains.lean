/-
# `RigExec.Lib.Chains` — chains of an acyclic relation, and their lengths

A relation is acyclic when nothing leads back to where it started.  A chain of an
acyclic relation meets nothing twice, so among finitely many vertices the chains
are short, and the longest one from each vertex can be found by relaxation:

    relax     every vertex takes the best of its own depth and of one more than the
              depths of what it leads to
    settle    passes until nothing moves, or until the passes run out

After `k` passes a depth is the longest chain of at most `k` steps
(`settle_greatest`), so with as many passes as vertices it is the longest of all.
-/
import Mathlib.Data.List.Chain
import Mathlib.Data.List.Perm.Subperm
import Mathlib.Data.List.Range
import Mathlib.Logic.Relation
import Mathlib.Order.Bounds.Basic

namespace Lib

section

variable {V : Type} {R R' : V → V → Prop}

/-- Nothing leads back to where it started. -/
def Acyclic (R : V → V → Prop) : Prop := ∀ v, ¬ Relation.TransGen R v v

theorem Acyclic.of_rank (rank : V → Nat) (h : ∀ v w, R v w → rank w < rank v) : Acyclic R := by
  have hpath : ∀ v w, Relation.TransGen R v w → rank w < rank v := by
    intro v w hvw
    induction hvw with
    | single hstep => exact h _ _ hstep
    | tail _ hstep ih => exact (h _ _ hstep).trans ih
  intro v hv
  exact (hpath v v hv).false

theorem Acyclic.mono (h : Acyclic R) (hsub : ∀ v w, R' v w → R v w) : Acyclic R' := by
  intro v hv
  exact h v (Relation.TransGen.mono hsub v v hv)

theorem Acyclic.nodup (h : Acyclic R) {list : List V} (hlist : list.IsChain R) : list.Nodup := by
  have htrans : list.IsChain (Relation.TransGen R) :=
    hlist.imp fun _ _ hstep => Relation.TransGen.single hstep
  refine (List.isChain_iff_pairwise.mp htrans).imp ?_
  rintro v w hvw rfl
  exact h v hvw

/-! ## Chains by their length -/

/-- A chain of so many steps starts here. -/
inductive ChainOf (R : V → V → Prop) : V → Nat → Prop
  | nil (v : V) : ChainOf R v 0
  | cons {v w : V} {n : Nat} (step : R v w) (rest : ChainOf R w n) : ChainOf R v (n + 1)

theorem ChainOf.exists_list {v : V} {n : Nat} (h : ChainOf R v n) :
    ∃ list : List V, (v :: list).IsChain R ∧ list.length = n := by
  induction h with
  | nil v => exact ⟨[], List.isChain_singleton v, rfl⟩
  | @cons v w n hstep _ ih =>
      obtain ⟨list, hchain, rfl⟩ := ih
      exact ⟨w :: list, List.isChain_cons_cons.mpr ⟨hstep, hchain⟩, rfl⟩

theorem mem_of_isChain {P : V → Prop} (hstep : ∀ v w, R v w → P w) {v : V} {list : List V}
    (h : (v :: list).IsChain R) : ∀ w ∈ list, P w := by
  induction list generalizing v with
  | nil => simp
  | cons w list ih =>
      obtain ⟨hvw, hrest⟩ := List.isChain_cons_cons.mp h
      exact List.forall_mem_cons.mpr ⟨hstep v w hvw, ih hrest⟩

end

/-- Among `count` vertices a chain has fewer than `count` steps. -/
theorem Acyclic.chain_lt {R : Nat → Nat → Prop} (h : Acyclic R) {count : Nat}
    (hbound : ∀ v w, R v w → w < count) {v n : Nat} (hv : v < count) (hchain : ChainOf R v n) :
    n < count := by
  obtain ⟨list, hlist, rfl⟩ := hchain.exists_list
  have hsub : v :: list ⊆ List.range count := by
    intro w hw
    rcases List.mem_cons.mp hw with rfl | hw
    · exact List.mem_range.mpr hv
    · exact List.mem_range.mpr (mem_of_isChain hbound hlist w hw)
  have hlength := (List.subperm_of_subset (h.nodup hlist) hsub).length_le
  rwa [List.length_range, List.length_cons] at hlength

/-! ## Relaxation -/

/-- One pass; depths stop at `cap`. -/
def relax (cap : Nat) (next : Nat → List Nat) (depth : List Nat) : List Nat :=
  depth.mapIdx fun v old =>
    (next v).foldl (fun found w => max found (min cap (depth[w]?.getD 0 + 1))) old

/-- Passes until nothing moves. -/
def settle (cap : Nat) (next : Nat → List Nat) : Nat → List Nat → List Nat
  | 0, depth => depth
  | passes + 1, depth =>
      if relax cap next depth = depth then depth
      else settle cap next passes (relax cap next depth)

section

variable {cap : Nat} {next : Nat → List Nat} {depth : List Nat} {count k : Nat}

theorem length_relax : (relax cap next depth).length = depth.length := by
  rw [relax, List.length_mapIdx]

theorem settle_eq_iterate (passes : Nat) (depth : List Nat) :
    settle cap next passes depth = (relax cap next)^[passes] depth := by
  induction passes generalizing depth with
  | zero => rfl
  | succ passes ih =>
      rw [settle, Function.iterate_succ_apply]
      split
      · rename_i hfixed
        rw [hfixed]
        exact (Function.iterate_fixed hfixed passes).symm
      · exact ih _

theorem foldl_max_spec (value : Nat → Nat) (ws : List Nat) (old : Nat) :
    old ≤ ws.foldl (fun found w => max found (value w)) old ∧
      (∀ w ∈ ws, value w ≤ ws.foldl (fun found w => max found (value w)) old) ∧
      (ws.foldl (fun found w => max found (value w)) old = old ∨
        ∃ w ∈ ws, ws.foldl (fun found w => max found (value w)) old = value w) := by
  induction ws generalizing old with
  | nil => exact ⟨Nat.le_refl old, by simp, .inl rfl⟩
  | cons w ws ih =>
      obtain ⟨hold, hall, hone⟩ := ih (max old (value w))
      rw [List.foldl_cons]
      refine ⟨(Nat.le_max_left _ _).trans hold, ?_, ?_⟩
      · refine List.forall_mem_cons.mpr ⟨(Nat.le_max_right _ _).trans hold, hall⟩
      · rcases hone with hone | ⟨u, hu, hone⟩
        · rcases Nat.le_total (value w) old with hle | hle
          · exact .inl (hone.trans (Nat.max_eq_left hle))
          · exact .inr ⟨w, List.mem_cons_self, hone.trans (Nat.max_eq_right hle)⟩
        · exact .inr ⟨u, List.mem_cons_of_mem w hu, hone⟩

/-- The depths are the longest chains of at most `k` steps. -/
def Deepest (next : Nat → List Nat) (k : Nat) (depth : List Nat) : Prop :=
  ∀ v < depth.length,
    IsGreatest {n | n ≤ k ∧ ChainOf (fun v w => w ∈ next v) v n} (depth[v]?.getD 0)

theorem deepest_zero : Deepest next 0 (List.replicate count 0) := by
  intro v hv
  have hzero : (List.replicate count 0)[v]?.getD 0 = 0 := by
    rw [List.getElem?_replicate]
    split <;> rfl
  rw [hzero]
  refine ⟨⟨Nat.le_refl 0, .nil v⟩, ?_⟩
  rintro n ⟨hn, -⟩
  exact hn

/-- **One pass allows one more step.** -/
theorem Deepest.relax (hnext : ∀ v < depth.length, ∀ w ∈ next v, w < depth.length)
    (hcap : k + 1 ≤ cap) (h : Deepest next k depth) :
    Deepest next (k + 1) (relax cap next depth) := by
  intro v hv
  rw [length_relax] at hv
  have hget : (Lib.relax cap next depth)[v]?.getD 0 = (next v).foldl (fun found w =>
      max found (min cap (depth[w]?.getD 0 + 1))) (depth[v]?.getD 0) := by
    rw [Lib.relax, List.getElem?_mapIdx, List.getElem?_eq_getElem hv]
    rfl
  obtain ⟨hold, hall, hone⟩ := foldl_max_spec
    (fun w => min cap (depth[w]?.getD 0 + 1)) (next v) (depth[v]?.getD 0)
  have hvalue : ∀ w ∈ next v, min cap (depth[w]?.getD 0 + 1) = depth[w]?.getD 0 + 1 := by
    intro w hw
    have hle : depth[w]?.getD 0 ≤ k := (h w (hnext v hv w hw)).1.1
    exact Nat.min_eq_right (by omega)
  rw [hget]
  constructor
  · rcases hone with hone | ⟨w, hw, hone⟩
    · obtain ⟨hle, hchain⟩ := (h v hv).1
      rw [hone]
      exact ⟨by omega, hchain⟩
    · obtain ⟨hle, hchain⟩ := (h w (hnext v hv w hw)).1
      rw [hone, hvalue w hw]
      exact ⟨by omega, .cons hw hchain⟩
  · rintro n ⟨hn, hchain⟩
    cases hchain with
    | nil => exact Nat.zero_le _
    | @cons _ w m hw hrest =>
        have hm : m ≤ depth[w]?.getD 0 := (h w (hnext v hv w hw)).2 ⟨by omega, hrest⟩
        have hle := hall w hw
        rw [hvalue w hw] at hle
        omega

theorem deepest_iterate (hnext : ∀ v < count, ∀ w ∈ next v, w < count) (hcap : k ≤ cap) :
    ((relax cap next)^[k] (List.replicate count 0)).length = count ∧
      Deepest next k ((relax cap next)^[k] (List.replicate count 0)) := by
  induction k with
  | zero => exact ⟨List.length_replicate, deepest_zero⟩
  | succ k ih =>
      obtain ⟨hlength, hdeepest⟩ := ih (by omega)
      rw [Function.iterate_succ_apply']
      refine ⟨length_relax.trans hlength, hdeepest.relax ?_ hcap⟩
      rw [hlength]
      exact hnext

/-- **As many passes as vertices find the longest chains.** -/
theorem settle_greatest (hacyclic : Acyclic fun v w => w ∈ next v ∧ v < count)
    (hnext : ∀ v < count, ∀ w ∈ next v, w < count) :
    (settle count next count (List.replicate count 0)).length = count ∧
      ∀ v < count, IsGreatest {n | ChainOf (fun v w => w ∈ next v) v n}
        ((settle count next count (List.replicate count 0))[v]?.getD 0) := by
  obtain ⟨hlength, hdeepest⟩ := deepest_iterate hnext (Nat.le_refl count)
  rw [settle_eq_iterate]
  refine ⟨hlength, ?_⟩
  intro v hv
  have hinside : ∀ {v n : Nat}, v < count → ChainOf (fun v w => w ∈ next v) v n →
      ChainOf (fun v w => w ∈ next v ∧ v < count) v n := by
    intro v n hv hchain
    induction hchain with
    | nil v => exact .nil v
    | cons hw _ ih => exact .cons ⟨hw, hv⟩ (ih (hnext _ hv _ hw))
  obtain ⟨⟨-, hchain⟩, hgreatest⟩ := hdeepest v (hlength.symm ▸ hv)
  refine ⟨hchain, ?_⟩
  intro n hn
  have hlt := hacyclic.chain_lt (fun u w h => hnext u h.2 w h.1) hv (hinside hv hn)
  exact hgreatest ⟨hlt.le, hn⟩

end

end Lib
