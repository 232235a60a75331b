/-
# `RigExec.Baked.ClusterSet` — sets of clusters, in words

`RigExecBakedClusterSet` keeps a set of clusters as 64-bit words.  The cone and the
seed tables are built from two operations only, and each is read here as a statement
about membership:

    test_set      a cluster is added
    test_union    the members of both

A set whose words do not reach a cluster does not hold it, and `Union` widens the
narrower set.
-/
import Mathlib.Algebra.Order.Group.Int
import Mathlib.Data.List.Basic

namespace RigExec.Baked

/-- `RigExecBakedClusterSet`. -/
structure ClusterSet where
  words : List (BitVec 64) := []
deriving DecidableEq

namespace ClusterSet

/-- `Resize`, from an empty set. -/
def resized (clusters : Nat) : ClusterSet := ⟨List.replicate ((clusters + 63) / 64) 0⟩

/-- A word; past the end it reads as zero. -/
def word (set : ClusterSet) (w : Nat) : BitVec 64 := set.words[w]?.getD 0

def test (set : ClusterSet) (cluster : Int) : Bool :=
  decide (0 ≤ cluster) && (set.word (cluster.toNat / 64)).getLsbD (cluster.toNat % 64)

def set (set : ClusterSet) (cluster : Int) : ClusterSet :=
  if 0 ≤ cluster then
    ⟨set.words.modify (cluster.toNat / 64) (· ||| BitVec.twoPow 64 (cluster.toNat % 64))⟩
  else set

def union (set other : ClusterSet) : ClusterSet :=
  ⟨(List.range (max set.words.length other.words.length)).map fun w => set.word w ||| other.word w⟩

/-- The words reach every one of `clusters` clusters. -/
def Reaches (set : ClusterSet) (clusters : Nat) : Prop := (clusters + 63) / 64 ≤ set.words.length

variable {own other : ClusterSet} {clusters : Nat}

theorem word_of_ge {w : Nat} (h : own.words.length ≤ w) : own.word w = 0 := by
  rw [word, List.getElem?_eq_none h]
  rfl

@[simp] theorem word_union (w : Nat) : (own.union other).word w = own.word w ||| other.word w := by
  rcases Nat.lt_or_ge w (max own.words.length other.words.length) with hlt | hge
  · rw [union, word, List.getElem?_map, List.getElem?_range hlt]
    rfl
  · have hset : own.words.length ≤ w := Nat.le_trans (Nat.le_max_left ..) hge
    have hother : other.words.length ≤ w := Nat.le_trans (Nat.le_max_right ..) hge
    rw [word_of_ge hset, word_of_ge hother, word_of_ge]
    · rfl
    · rwa [union, List.length_map, List.length_range]

/-- **`Union` holds the members of both.** -/
@[simp] theorem test_union (c : Int) : (own.union other).test c = (own.test c || other.test c) := by
  simp only [test, word_union, BitVec.getLsbD_or, Bool.and_or_distrib_left]

@[simp] theorem test_resized (c : Int) : (resized clusters).test c = false := by
  have hzero : (resized clusters).word (c.toNat / 64) = 0 := by
    rw [word, resized, List.getElem?_replicate]
    split <;> rfl
  simp [test, hzero]

theorem reaches_resized : (resized clusters).Reaches clusters := by
  simp [Reaches, resized]

theorem Reaches.set (h : own.Reaches clusters) (c : Int) : (own.set c).Reaches clusters := by
  rw [Reaches, ClusterSet.set]
  split
  · rw [List.length_modify]
    exact h
  · exact h

/-- **`Set` adds its cluster.** -/
theorem test_set (h : own.Reaches clusters) {c : Int} (hc : 0 ≤ c) (hlt : c < clusters) (d : Int) :
    (own.set c).test d = (own.test d || decide (d = c)) := by
  have hroom : c.toNat / 64 < own.words.length := by
    have := h
    rw [Reaches] at this
    omega
  rw [ClusterSet.set, if_pos hc]
  rcases Int.lt_or_le d 0 with hneg | hd
  · have hne : d ≠ c := by omega
    simp [test, hne, Int.not_le.mpr hneg]
  · rcases eq_or_ne (c.toNat / 64) (d.toNat / 64) with hword | hword
    · have hbit : c.toNat % 64 = d.toNat % 64 ↔ d = c := by omega
      have hlow : c.toNat % 64 < 64 := Nat.mod_lt _ (by decide)
      have hget : own.words[d.toNat / 64]? = some own.words[c.toNat / 64] := by
        rw [← hword, List.getElem?_eq_getElem hroom]
      have hset : (own.words.modify (c.toNat / 64)
          (· ||| BitVec.twoPow 64 (c.toNat % 64)))[d.toNat / 64]? =
            some (own.words[c.toNat / 64] ||| BitVec.twoPow 64 (c.toNat % 64)) := by
        rw [← hword, List.getElem?_modify_eq, List.getElem?_eq_getElem hroom]
        rfl
      simp only [test, word, hget, hset, Option.getD_some, BitVec.getLsbD_or, BitVec.getLsbD_twoPow,
        hd, decide_true, Bool.true_and, hbit, hlow]
    · have hne : d ≠ c := fun heq => hword (heq ▸ rfl)
      simp [test, word, List.getElem?_modify_ne _ _ hword, hne]

end ClusterSet

end RigExec.Baked
