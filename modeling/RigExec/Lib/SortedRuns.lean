/-
# `RigExec.Lib.SortedRuns` — runs of equal keys in a sorted list

Sorting rows by a key and cutting the result into its runs of equal keys is what
a map from keys to rows would hold: the keys ascending, each with its rows in the
order they came (`runs_sortOn`).  The sort is stable, so the rows of one key keep
their order through it.
-/
import Mathlib.Data.List.Sort
import RigExec.Lib.SortedList

namespace Lib

variable {ρ κ : Type} [LinearOrder κ] (key : ρ → κ)

/-- A stable sort by key. -/
def sortOn (rows : List ρ) : List ρ := rows.insertionSort fun a b => key a ≤ key b

/-- The runs from the right: a row joins the run of its key or starts one. -/
def joinRun (row : ρ) : List (κ × List ρ) → List (κ × List ρ)
  | [] => [(key row, [row])]
  | (k, run) :: rest =>
      if key row = k then (k, row :: run) :: rest else (key row, [row]) :: (k, run) :: rest

/-- The runs of equal keys. -/
def runs (rows : List ρ) : List (κ × List ρ) := rows.foldr (joinRun key) []

variable {key}

theorem perm_sortOn (rows : List ρ) : (sortOn key rows).Perm rows :=
  List.perm_insertionSort _ rows

@[simp] theorem mem_sortOn {row : ρ} {rows : List ρ} : row ∈ sortOn key rows ↔ row ∈ rows :=
  (perm_sortOn rows).mem_iff

theorem pairwise_sortOn (rows : List ρ) :
    (sortOn key rows).Pairwise fun a b => key a ≤ key b := by
  have : Std.Total fun a b : ρ => key a ≤ key b := ⟨fun a b => le_total _ _⟩
  have : IsTrans ρ fun a b : ρ => key a ≤ key b := ⟨fun _ _ _ => le_trans⟩
  exact List.pairwise_insertionSort _ rows

theorem filter_sortOn (k : κ) (rows : List ρ) :
    (sortOn key rows).filter (fun row => key row = k) = rows.filter fun row => key row = k := by
  have : Std.Total fun a b : ρ => key a ≤ key b := ⟨fun a b => le_total _ _⟩
  have : IsTrans ρ fun a b : ρ => key a ≤ key b := ⟨fun _ _ _ => le_trans⟩
  have hequal : (rows.filter fun row => key row = k).Pairwise fun a b => key a ≤ key b := by
    refine List.Pairwise.imp_of_mem (R := fun _ _ => True) ?_ (List.pairwise_of_forall (by simp))
    intro a b ha hb _
    have ha := of_decide_eq_true (List.mem_filter.mp ha).2
    have hb := of_decide_eq_true (List.mem_filter.mp hb).2
    rw [ha, hb]
  -- the rows of one key are sorted already, so the sort keeps them as a sublist
  have hsub : (rows.filter fun row => key row = k).Sublist (sortOn key rows) :=
    List.sublist_insertionSort hequal List.filter_sublist
  have hsub' := hsub.filter fun row => key row = k
  rw [List.filter_filter] at hsub'
  simp only [Bool.and_self] at hsub'
  refine (hsub'.eq_of_length ?_).symm
  exact (((perm_sortOn rows).filter _).length_eq).symm

theorem insertUnique_of_le {a : κ} {l : List κ} (h : ∀ b ∈ l, a ≤ b) :
    insertUnique a l = if l.head? = some a then l else a :: l := by
  cases l with
  | nil => rfl
  | cons b l =>
      have hb := h b List.mem_cons_self
      rw [insertUnique, List.head?_cons]
      rcases hb.lt_or_eq with hlt | rfl
      · rw [if_pos hlt, if_neg (by simpa using hlt.ne')]
      · rw [if_neg (lt_irrefl a), if_pos rfl, if_pos rfl]

theorem runs_of_pairwise {rows : List ρ} (h : rows.Pairwise fun a b => key a ≤ key b) :
    runs key rows =
      (sortUnique (rows.map key)).map fun k => (k, rows.filter fun row => key row = k) := by
  induction rows with
  | nil => rfl
  | cons row rest ih =>
      obtain ⟨hrow, hrest⟩ := List.pairwise_cons.mp h
      have ih := ih hrest
      have hle : ∀ k ∈ sortUnique (rest.map key), key row ≤ k := by
        intro k hk
        obtain ⟨other, hother, rfl⟩ := List.mem_map.mp (mem_sortUnique.mp hk)
        exact hrow other hother
      have hsorted : sortUnique ((row :: rest).map key) =
          insertUnique (key row) (sortUnique (rest.map key)) := rfl
      have hruns : runs key (row :: rest) = joinRun key row (runs key rest) := rfl
      rw [hruns, ih, hsorted, insertUnique_of_le hle]
      -- a later key has none of its rows at the front
      have hother : ∀ k, key row < k →
          (row :: rest).filter (fun r => key r = k) = rest.filter fun r => key r = k := by
        intro k hk
        exact List.filter_cons_of_neg (by simpa using hk.ne)
      cases hkeys : sortUnique (rest.map key) with
      | nil =>
          have hnil : rest = [] := by
            cases rest with
            | nil => rfl
            | cons other tail =>
                have hmem : key other ∈ sortUnique ((other :: tail).map key) := by simp
                rw [hkeys] at hmem
                cases hmem
          subst hnil
          simp [joinRun]
      | cons k keys =>
          have hascending : Ascending (k :: keys) := hkeys ▸ ascending_sortUnique _
          obtain ⟨hk, -⟩ := List.pairwise_cons.mp hascending
          rw [hkeys] at hle
          rw [List.map_cons, joinRun, List.head?_cons]
          rcases (hle k List.mem_cons_self).lt_or_eq with hlt | heq
          · rw [if_neg hlt.ne, if_neg (by simpa using hlt.ne')]
            have hnone : rest.filter (fun r => key r = key row) = [] := by
              refine List.filter_eq_nil_iff.mpr ?_
              intro r hr
              have hin : key r ∈ sortUnique (rest.map key) :=
                mem_sortUnique.mpr (List.mem_map_of_mem hr)
              rw [hkeys] at hin
              have hge : k ≤ key r := by
                rcases List.mem_cons.mp hin with he | hin
                · exact he.ge
                · exact (hk _ hin).le
              simpa using (hlt.trans_le hge).ne'
            rw [List.map_cons, List.map_cons, hother k hlt,
              List.filter_cons_of_pos (by simp), hnone]
            congr 2
            refine List.map_congr_left ?_
            intro k' hk'
            rw [hother k' (hlt.trans (hk k' hk'))]
          · rw [if_pos heq, if_pos (by rw [heq]), List.map_cons,
              List.filter_cons_of_pos (by simpa using heq)]
            congr 1
            refine List.map_congr_left ?_
            intro k' hk'
            rw [hother k' (heq ▸ hk k' hk')]

/-- **Sorting and cutting into runs is grouping by key.** -/
theorem runs_sortOn (rows : List ρ) :
    runs key (sortOn key rows) =
      (sortUnique (rows.map key)).map fun k => (k, rows.filter fun row => key row = k) := by
  rw [runs_of_pairwise (pairwise_sortOn rows)]
  have hkeys : sortUnique ((sortOn key rows).map key) = sortUnique (rows.map key) :=
    sortUnique_congr fun k => ((perm_sortOn rows).map key).mem_iff
  rw [hkeys]
  refine List.map_congr_left ?_
  intro k _
  rw [filter_sortOn]

end Lib
