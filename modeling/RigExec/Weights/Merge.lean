/-
# `RigExec.Weights.Merge` — the merge gives what a search for each element gives

Both find the first entry of an element in a sorted support.  The search halves down to the first
index that is not below the element; the merge has passed every index below it.

    firstAt            the value of the first entry with an index, or the default
    lowerBound_spec    where the halving stops
    mergeField_eq      the merge reads the first entries
-/
import RigExec.Weights.Workspace

namespace RigExec.Weights

variable {F : Type} {fl : Floats F}

/-- The value of the first entry with an index, the default where there is none. -/
def firstAt (pairs : List (Int × F)) (d : F) (k : Int) : F :=
  ((pairs.find? fun pair => pair.1 = k).map (·.2)).getD d

/-- The numbers of elements are `int`s. -/
theorem int32_of_lt {i : Nat} (h : i < 2 ^ 31) : int32 i = i := by
  unfold int32
  omega

/-! ## The search -/

section Search

variable {indices : List Int} {v : Int}

/-- Below `first` the indices are below the value, from `first + len` on they are not. -/
theorem lowerBound_run (hsorted : indices.Pairwise (· ≤ ·)) (fuel : Nat) : ∀ first len : Nat,
    len ≤ fuel → first + len ≤ indices.length →
    (∀ (j : Nat) (hj : j < indices.length), j < first → indices[j] < v) →
    (∀ (j : Nat) (hj : j < indices.length), first + len ≤ j → v ≤ indices[j]) →
    lowerBound indices v fuel first len ≤ indices.length ∧
      (∀ (j : Nat) (hj : j < indices.length), j < lowerBound indices v fuel first len →
        indices[j] < v) ∧
      (∀ (j : Nat) (hj : j < indices.length), lowerBound indices v fuel first len ≤ j →
        v ≤ indices[j]) := by
  induction fuel with
  | zero =>
      intro first len hlen hbound hbelow habove
      have hzero : len = 0 := by omega
      subst hzero
      exact ⟨hbound, hbelow, habove⟩
  | succ fuel ih =>
      intro first len hlen hbound hbelow habove
      rw [lowerBound]
      by_cases hempty : len = 0
      · subst hempty
        exact ⟨hbound, hbelow, habove⟩
      · have hmid : first + len / 2 < indices.length := by omega
        have hmono : ∀ (i j : Nat) (hi : i < indices.length) (hj : j < indices.length), i ≤ j →
            indices[i] ≤ indices[j] := by
          intro i j hi hj hij
          rcases Nat.lt_or_eq_of_le hij with hlt | rfl
          · exact List.pairwise_iff_getElem.mp hsorted i j hi hj hlt
          · exact le_refl _
        rw [if_neg hempty]
        dsimp only
        rw [List.getElem?_eq_getElem hmid]
        dsimp only
        split
        · rename_i hless
          refine ih _ _ (by omega) (by omega) (fun j hj hjlt => ?_) (fun j hj hle => ?_)
          · exact lt_of_le_of_lt (hmono j _ hj hmid (by omega)) hless
          · exact habove j hj (by omega)
        · rename_i hnot
          refine ih _ _ (by omega) (by omega) hbelow (fun j hj hle => ?_)
          exact le_trans (le_of_not_gt hnot) (hmono _ j hmid hj hle)

theorem lowerBound_spec (hsorted : indices.Pairwise (· ≤ ·)) :
    let at_ := lowerBound indices v indices.length 0 indices.length
    at_ ≤ indices.length ∧ (∀ (j : Nat) (hj : j < indices.length), j < at_ → indices[j] < v) ∧
      (∀ (j : Nat) (hj : j < indices.length), at_ ≤ j → v ≤ indices[j]) :=
  lowerBound_run hsorted indices.length 0 indices.length (Nat.le_refl _) (by omega)
    (fun j _ hj => absurd hj (Nat.not_lt_zero j)) (fun j hj hle => by omega)

theorem search_eq (hsorted : indices.Pairwise (· ≤ ·)) {values : List F}
    (hsizes : indices.length = values.length) (d : F) :
    (let at_ := lowerBound indices v indices.length 0 indices.length
      if indices[at_]? = some v then values.getD at_ d else d) =
      firstAt (indices.zip values) d v := by
  obtain ⟨hbound, hbelow, habove⟩ := lowerBound_spec (v := v) hsorted
  generalize lowerBound indices v indices.length 0 indices.length = at_ at hbound hbelow habove
  dsimp only
  unfold firstAt
  by_cases hfound : indices[at_]? = some v
  · obtain ⟨hat, hindex⟩ := List.getElem?_eq_some_iff.mp hfound
    have hvalue : at_ < values.length := by omega
    have hfirst : (indices.zip values).find? (fun pair => decide (pair.1 = v)) =
        some (v, values[at_]) := by
      refine List.find?_eq_some_iff_getElem.mpr ⟨decide_eq_true rfl, at_, ?_, ?_, ?_⟩
      · rw [List.length_zip]
        omega
      · rw [List.getElem_zip, hindex]
      · intro j hj
        have hne : indices[j] ≠ v := ne_of_lt (hbelow j (by omega) hj)
        rw [List.getElem_zip]
        simpa using hne
    rw [if_pos hfound, hfirst, List.getD_eq_getElem?_getD, List.getElem?_eq_getElem hvalue]
    rfl
  · have hnone : (indices.zip values).find? (fun pair => decide (pair.1 = v)) = none := by
      refine List.find?_eq_none.mpr fun pair hpair hsame => hfound ?_
      obtain ⟨j, hj, rfl⟩ := List.mem_iff_getElem.mp hpair
      rw [List.length_zip] at hj
      have hindex : indices[j] = v := by
        rw [List.getElem_zip] at hsame
        simpa using hsame
      have hle : at_ ≤ j := by
        by_contra hlt
        exact absurd (hbelow j (by omega) (by omega)) (by rw [hindex]; exact lt_irrefl v)
      -- the index at the stop lies between the value and this one
      have hup := habove at_ (by omega) (le_refl _)
      have hdown : indices[at_] ≤ indices[j] := by
        rcases Nat.lt_or_eq_of_le hle with hlt | rfl
        · exact List.pairwise_iff_getElem.mp hsorted at_ j (by omega) (by omega) hlt
        · exact le_refl _
      rw [List.getElem?_eq_getElem (by omega), le_antisymm (hdown.trans hindex.le) hup]
    rw [if_neg hfound, hnone]
    rfl

end Search

/-! ## The merge -/

section MergeLoop

variable {pairs : List (Int × F)} {d : F}

theorem firstAt_dropWhile {i k : Int} (hik : i ≤ k) :
    firstAt (pairs.dropWhile fun pair => pair.1 < i) d k = firstAt pairs d k := by
  induction pairs with
  | nil => rfl
  | cons pair rest ih =>
      rw [List.dropWhile_cons]
      by_cases hless : pair.1 < i
      · have hne : ¬ pair.1 = k := by omega
        rw [if_pos (decide_eq_true hless), ih, firstAt, firstAt,
          List.find?_cons_of_neg (by simpa using hne)]
      · rw [if_neg (by simpa using hless)]

theorem mergeField_nil (d : F) (i left : Nat) : mergeField d i left [] = List.replicate left d := by
  induction left generalizing i with
  | zero => rfl
  | succ left ih => exact congrArg (d :: ·) (ih (i + 1))

theorem mergeField_eq (left : Nat) : ∀ (i : Nat) (pairs : List (Int × F)),
    (pairs.map (·.1)).Pairwise (· ≤ ·) → i + left ≤ 2 ^ 31 →
    mergeField d i left pairs = (List.range left).map fun j => firstAt pairs d ((i + j : Nat)) := by
  induction left with
  | zero =>
      intro i pairs _ _
      rfl
  | succ left ih =>
      intro i pairs hsorted hsmall
      have hdropped : ((pairs.dropWhile fun pair => pair.1 < (i : Int)).map (·.1)).Pairwise
          (· ≤ ·) := hsorted.sublist ((List.dropWhile_sublist _).map _)
      have hlift : ∀ j : Nat,
          firstAt (pairs.dropWhile fun pair => pair.1 < (i : Int)) d ((i + j : Nat)) =
            firstAt pairs d ((i + j : Nat)) := fun j => firstAt_dropWhile (by omega)
      have hshift : ∀ rest : List (Int × F),
          (List.range left).map (fun j => firstAt rest d ((i + 1 + j : Nat))) =
            (List.range left).map ((fun j => firstAt rest d ((i + j : Nat))) ∘ Nat.succ) := by
        intro rest
        refine List.map_congr_left fun j _ => ?_
        rw [Function.comp_apply, Nat.add_right_comm]
        rfl
      rw [List.range_succ_eq_map, List.map_cons, List.map_map, mergeField,
        int32_of_lt (i := i) (by omega)]
      cases hdrop : pairs.dropWhile fun pair => pair.1 < (i : Int) with
      | nil =>
          rw [hdrop] at hlift
          dsimp only
          rw [ih (i + 1) [] .nil (by omega), hshift]
          refine congrArg₂ List.cons ?_ (List.map_congr_left fun j _ => hlift (j + 1))
          exact hlift 0
      | cons pair rest =>
          rw [hdrop] at hlift hdropped
          have hhead : ¬ pair.1 < (i : Int) := by
            have hne : (pairs.dropWhile fun pair => pair.1 < (i : Int)) ≠ [] := by
              rw [hdrop]
              exact List.cons_ne_nil _ _
            have hfalse := List.head_dropWhile_not
              (fun pair : Int × F => decide (pair.1 < (i : Int))) hne
            intro hlt
            simp only [hdrop, List.head_cons] at hfalse
            exact absurd hlt (of_decide_eq_false hfalse)
          rw [List.map_cons, List.pairwise_cons] at hdropped
          dsimp only
          by_cases hat : pair.1 = (i : Int)
          · -- the entry is read here and no later element reads it
            rw [if_pos hat, ih (i + 1) rest hdropped.2 (by omega), hshift]
            refine congrArg₂ List.cons ?_ (List.map_congr_left fun j _ => ?_)
            · rw [← hlift 0, firstAt, List.find?_cons_of_pos (by simpa using hat)]
              rfl
            · rw [Function.comp_apply, Function.comp_apply, ← hlift (j + 1), firstAt, firstAt,
                List.find?_cons_of_neg (by rw [hat]; simp; omega)]
          · rw [if_neg hat, ih (i + 1) (pair :: rest)
              (by rw [List.map_cons, List.pairwise_cons]; exact hdropped) (by omega), hshift]
            refine congrArg₂ List.cons ?_ (List.map_congr_left fun j _ => hlift (j + 1))
            have hnone : (pair :: rest).find? (fun other => decide (other.1 = (i : Int))) = none := by
              refine List.find?_eq_none.mpr fun other hother hsame => ?_
              have hindex : other.1 = (i : Int) := by simpa using hsame
              rcases List.mem_cons.mp hother with rfl | hlater
              · exact hat hindex
              · have hup := hdropped.1 other.1 (List.mem_map.mpr ⟨other, hlater, rfl⟩)
                omega
            rw [← hlift 0, firstAt, show ((i + 0 : Nat) : Int) = i by rfl, hnone]
            rfl

end MergeLoop

end RigExec.Weights
