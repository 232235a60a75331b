/-
# `RigExec.StepGraph.Lists` — the loops over index lists

Each loop of the check, read as a statement about the lists it goes through:

    edgeListError_eq_none   entries in range, on their side, ascending
    inverseError_eq_none    every entry is named back
    memberError_eq_none     a cluster's members are steps placed in it, ascending
    placementError_eq_none  the two placements of every step agree

The loops carry the entry before; `Ascending` of that entry and the rest is what
they check from there on.
-/
import RigExec.Lib.SortedList
import RigExec.StepGraph.Model

namespace RigExec.StepGraph

open Lib (Ascending)

/-- An entry lies on its side of the owner. -/
def Side.Allows (self : Int) (entry : Int) : Side → Prop
  | .earlier => entry ≤ self
  | .later => self ≤ entry
  | .either => True

/-- What `EdgeListError` asks of a list. -/
def EdgesOk (count : Nat) (self : Int) (side : Side) (list : List Int) : Prop :=
  Ascending list ∧
    ∀ entry ∈ list, 0 ≤ entry ∧ entry < count ∧ entry ≠ self ∧ side.Allows self entry

theorem ascending_after {previous : Option Int} {entry : Int} {list : List Int} :
    Ascending (previous.toList ++ entry :: list) ↔
      previous.any (entry ≤ ·) = false ∧ Ascending (entry :: list) := by
  cases previous with
  | none => simp
  | some before =>
      simp only [Option.toList_some, List.cons_append, List.nil_append, Ascending,
        List.pairwise_cons, Option.any_some, decide_eq_false_iff_not, not_le]
      constructor
      · rintro ⟨hbefore, hentry⟩
        exact ⟨hbefore entry List.mem_cons_self, hentry⟩
      · rintro ⟨hbefore, hentry, hlist⟩
        refine ⟨fun later hlater => ?_, hentry, hlist⟩
        rcases List.mem_cons.mp hlater with rfl | hlater
        · exact hbefore
        · exact hbefore.trans (hentry later hlater)

theorem edgeListError_previous {count : Nat} {self : Int} {side : Side} {owner : Node}
    {edge : Edge} (previous : Option Int) (list : List Int) :
    edgeListError count self side owner edge previous list = none ↔
      (∀ entry ∈ list, 0 ≤ entry ∧ entry < count ∧ entry ≠ self ∧ side.Allows self entry) ∧
        (list = [] ∨ Ascending (previous.toList ++ list)) := by
  induction list generalizing previous with
  | nil => simp [edgeListError]
  | cons entry list ih =>
      have hside : (¬ (side = .earlier ∧ entry > self) ∧ ¬ (side = .later ∧ entry < self)) ↔
          side.Allows self entry := by
        cases side <;> simp [Side.Allows]
      have hrest : (list = [] ∨ Ascending ((some entry).toList ++ list)) ↔
          Ascending (entry :: list) := by
        refine ⟨fun h => ?_, fun h => .inr h⟩
        rcases h with rfl | h
        · exact List.pairwise_singleton _ _
        · exact h
      simp only [edgeListError, List.forall_mem_cons, reduceCtorEq, false_or, ascending_after,
        ite_eq_iff, and_false, ih (some entry), hrest, ← hside, Bool.not_eq_true]
      rw [not_or, not_lt, ge_iff_le, not_le]
      tauto

/-- **`EdgeListError`.** -/
theorem edgeListError_eq_none {count : Nat} {self : Int} {side : Side} {owner : Node}
    {edge : Edge} {list : List Int} :
    edgeListError count self side owner edge none list = none ↔
      EdgesOk count self side list := by
  rw [edgeListError_previous, EdgesOk, and_comm]
  refine and_congr_left fun _ => ⟨fun h => ?_, fun h => .inr h⟩
  rcases h with rfl | h
  · exact List.Pairwise.nil
  · exact h

/-- **`InverseError`.** -/
theorem inverseError_eq_none {count : Nat} {forward backward : Nat → List Int} {node : Nat → Node}
    {forwardEdge backwardEdge : Edge} :
    inverseError count forward backward node forwardEdge backwardEdge = none ↔
      ∀ at_ < count, ∀ other ∈ forward at_, (at_ : Int) ∈ backward other.toNat := by
  simp only [inverseError, List.findSome?_eq_none_iff, List.mem_range, ite_eq_left_iff,
    reduceCtorEq, imp_false, not_not]

/-- Both directions together, over entries in range: the lists are inverse. -/
theorem inverseError_both {count : Nat} {forward backward : Nat → List Int} {node : Nat → Node}
    {forwardEdge backwardEdge : Edge}
    (hforward : ∀ at_ < count, ∀ other ∈ forward at_, 0 ≤ other ∧ other < count)
    (hbackward : ∀ at_ < count, ∀ other ∈ backward at_, 0 ≤ other ∧ other < count) :
    (inverseError count forward backward node forwardEdge backwardEdge <|>
        inverseError count backward forward node backwardEdge forwardEdge) = none ↔
      ∀ a < count, ∀ b < count, (a : Int) ∈ forward b ↔ (b : Int) ∈ backward a := by
  rw [Option.orElse_eq_none, inverseError_eq_none, inverseError_eq_none]
  constructor
  · rintro ⟨hf, hb⟩ a ha b hb'
    exact ⟨fun h => by simpa using hf b hb' a h, fun h => by simpa using hb a ha b h⟩
  · intro h
    refine ⟨fun at_ hat other hother => ?_, fun at_ hat other hother => ?_⟩
    · obtain ⟨hge, hlt⟩ := hforward at_ hat other hother
      refine (h other.toNat (by omega) at_ hat).mp ?_
      rwa [Int.toNat_of_nonneg hge]
    · obtain ⟨hge, hlt⟩ := hbackward at_ hat other hother
      refine (h at_ hat other.toNat (by omega)).mpr ?_
      rwa [Int.toNat_of_nonneg hge]

section

variable {ρ : Type} {rangeOf : ρ → StepGraphRange} {steps : List (Step ρ)}
  {clustering : Clustering}

/-- `RigExecStepGraphReservedError`. -/
theorem reservedError_eq_none :
    reservedError rangeOf steps = none ↔ ∀ step ∈ steps, step.kind ≠ snapshotFinalsKind ∧
      ∀ range ∈ step.reads ++ step.writes, (rangeOf range).domain ≠ snapshotsDomain := by
  simp only [reservedError, List.findSome?_eq_none_iff, Prod.forall,
    List.mem_zipIdx_iff_getElem?, ite_eq_iff, reduceCtorEq, and_false, false_or, and_true, ne_eq]
  constructor
  · intro h step hstep
    obtain ⟨s, hs⟩ := List.getElem?_of_mem hstep
    exact h step s hs
  · intro h step s hs
    exact h step (List.mem_of_getElem? hs)

theorem stepEdgesError_eq_none :
    stepEdgesError steps = none ↔ ∀ s < steps.length,
      EdgesOk steps.length s .earlier (stepPreds steps s) ∧
        EdgesOk steps.length s .later (stepSuccs steps s) := by
  simp only [stepEdgesError, List.findSome?_eq_none_iff, List.mem_range,
    Option.orElse_eq_none, edgeListError_eq_none]

theorem clusterEdgesError_eq_none {clusters : List Cluster} :
    clusterEdgesError clusters = none ↔ ∀ c < clusters.length,
      EdgesOk clusters.length c .either (clusterPreds clusters c) ∧
        EdgesOk clusters.length c .either (clusterSuccs clusters c) := by
  simp only [clusterEdgesError, List.findSome?_eq_none_iff, List.mem_range,
    Option.orElse_eq_none, edgeListError_eq_none]

/-- The walk order is the file order; the edge lists say so already. -/
theorem canonicalOrderError_eq_none
    (h : ∀ s < steps.length, EdgesOk steps.length s .earlier (stepPreds steps s)) :
    canonicalOrderError steps = none := by
  simp only [canonicalOrderError, List.findSome?_eq_none_iff, List.mem_range, ite_eq_right_iff,
    reduceCtorEq, imp_false]
  intro s hs predecessor hmem
  obtain ⟨hge, -, hne, hside⟩ := (h s hs).2 predecessor hmem
  have hle : predecessor ≤ s := hside
  omega

/-- `clusterOf` against the steps' own clusters. -/
theorem placementError_eq_none :
    placementError steps clustering = none ↔ clustering.clusterOf.length = steps.length ∧
      ∀ (s : Nat) (step : Step ρ), steps[s]? = some step → 0 ≤ step.cluster ∧
        step.cluster < clustering.clusters.length ∧ placedIn clustering s = step.cluster := by
  unfold placementError
  split
  · rename_i hlength
    exact iff_of_false (nomatch ·) fun h => hlength h.1
  · rename_i hlength
    simp only [not_not.mp hlength, true_and, List.findSome?_eq_none_iff, Prod.forall,
      List.mem_zipIdx_iff_getElem?, ite_eq_iff, reduceCtorEq, and_false, false_or, not_or, not_lt,
      ge_iff_le, not_le, and_true, not_not, ne_eq]
    rw [forall_comm]
    refine forall₃_congr fun s step _ => and_assoc

theorem memberError_previous {count c : Nat} (previous : Option Int) (members : List Int) :
    memberError clustering count c previous members = none ↔
      (∀ m ∈ members, 0 ≤ m ∧ m < count ∧ placedIn clustering m.toNat = c) ∧
        (members = [] ∨ Ascending (previous.toList ++ members)) := by
  induction members generalizing previous with
  | nil => simp [memberError]
  | cons m members ih =>
      have hrest : (members = [] ∨ Ascending ((some m).toList ++ members)) ↔
          Ascending (m :: members) := by
        refine ⟨fun h => ?_, fun h => .inr h⟩
        rcases h with rfl | h
        · exact List.pairwise_singleton _ _
        · exact h
      simp only [memberError, List.forall_mem_cons, reduceCtorEq, false_or, ascending_after,
        ite_eq_iff, and_false, ih (some m), hrest, Bool.not_eq_true, ne_eq, not_not]
      rw [not_or, not_lt, ge_iff_le, not_le]
      tauto

theorem membersError_eq_none :
    membersError steps clustering = none ↔ ∀ (c : Nat) (cluster : Cluster),
      clustering.clusters[c]? = some cluster → Ascending cluster.members ∧
        ∀ m ∈ cluster.members, 0 ≤ m ∧ m < steps.length ∧ placedIn clustering m.toNat = c := by
  simp only [membersError, List.findSome?_eq_none_iff, Prod.forall, List.mem_zipIdx_iff_getElem?,
    memberError_previous]
  rw [forall_comm]
  refine forall₃_congr fun c cluster _ => ?_
  rw [and_comm]
  refine and_congr_left fun _ => ⟨fun h => ?_, fun h => .inr h⟩
  rcases h with h | h
  · rw [h]
    exact List.Pairwise.nil
  · exact h

theorem membershipError_eq_none :
    membershipError steps clustering = none ↔ ∀ s < steps.length,
      (s : Int) ∈ (clusterAt clustering.clusters (placedIn clustering s).toNat).members := by
  simp only [membershipError, List.findSome?_eq_none_iff, List.mem_range, ite_eq_left_iff,
    reduceCtorEq, imp_false, not_not]

theorem crossEdgeError_eq_none :
    crossEdgeError steps clustering = none ↔ ∀ s < steps.length, ∀ p ∈ stepPreds steps s,
      placedIn clustering p.toNat ≠ placedIn clustering s →
        placedIn clustering p.toNat ∈
          clusterPreds clustering.clusters (placedIn clustering s).toNat := by
  simp only [crossEdgeError, List.findSome?_eq_none_iff, List.mem_range, ite_eq_right_iff,
    reduceCtorEq, imp_false, not_and, not_not, clusterPreds]

end

end RigExec.StepGraph
