/-
# `RigExec.Lib.Dataflow` — steps over slots, run in an order of their edges

A step reads some slots and may write some; what it writes is a function of what it reads.  Steps
run one after another, in any order in which a step's predecessors stand before it.

    Flow         what the steps read and write, and their bodies
    Before       a path of edges
    Steady       the edges order the writers of what a step reads, and so on before it
    seenIn_eq    a steady step sees the same values in every order
-/
import RigExec.Lib.Countdown
import RigExec.Lib.Pointwise

namespace Lib

/-! ## Steps that a path joins -/

section

variable {ι : Type} {preds : ι → List ι} {order : List ι}

/-- A path of edges leads from `p` to `v`. -/
def Before (preds : ι → List ι) : ι → ι → Prop := Relation.TransGen fun p v => p ∈ preds v

/-- The edges order the two. -/
def Comparable (preds : ι → List ι) (u v : ι) : Prop :=
  u = v ∨ Before preds u v ∨ Before preds v u

theorem Topological.mem_of_before (h : Topological preds order) {front back : List ι} {p v : ι}
    (hsplit : order = front ++ v :: back) (hpath : Before preds p v) : p ∈ front := by
  induction hpath generalizing front back with
  | single hedge => exact h front _ back hsplit p hedge
  | @tail u v _ hedge ih =>
      obtain ⟨front', back', rfl⟩ := List.append_of_mem (h front v back hsplit u hedge)
      rw [List.append_assoc, List.cons_append] at hsplit
      exact List.mem_append_left _ (ih hsplit)

theorem Topological.before_of_mem (h : Topological preds order) (hnodup : order.Nodup)
    {front back : List ι} {p v : ι} (hsplit : order = front ++ v :: back) (hp : p ∈ front)
    (hcomparable : Comparable preds p v) : Before preds p v := by
  have hout : v ∉ front := by
    rw [hsplit, List.nodup_middle, List.nodup_cons] at hnodup
    exact fun hmem => hnodup.1 (List.mem_append_left _ hmem)
  rcases hcomparable with rfl | hbefore | hafter
  · exact absurd hp hout
  · exact hbefore
  · obtain ⟨front', back', rfl⟩ := List.append_of_mem hp
    rw [List.append_assoc, List.cons_append] at hsplit
    exact absurd (List.mem_append_left _ (h.mem_of_before hsplit hafter)) hout

theorem Topological.of_append {front back : List ι} (h : Topological preds (front ++ back)) :
    Topological preds front := by
  intro pre v post hsplit
  refine h pre v (post ++ back) ?_
  rw [hsplit, List.append_assoc, List.cons_append]

theorem Topological.pairwise_before (h : Topological preds order) (hnodup : order.Nodup)
    {among : ι → Bool} (hcomparable : ∀ u ∈ order, ∀ v ∈ order, among u = true → among v = true →
      Comparable preds u v) : (order.filter among).Pairwise (Before preds) := by
  rw [List.pairwise_filter]
  induction order using List.reverseRecOn with
  | nil => exact List.Pairwise.nil
  | append_singleton order v ih =>
      have hmem : ∀ {u}, u ∈ order → u ∈ order ++ [v] := fun hu => List.mem_append_left _ hu
      refine List.pairwise_append.mpr ⟨?_, List.pairwise_singleton _ v, ?_⟩
      · refine ih h.of_append hnodup.of_append_left fun u hu w hw => ?_
        exact hcomparable u (hmem hu) w (hmem hw)
      · intro u hu w hw hamong hamong'
        obtain rfl := List.mem_singleton.mp hw
        exact h.before_of_mem hnodup rfl hu
          (hcomparable u (hmem hu) w (List.mem_append_right _ hw) hamong hamong')

/-- In every order, the same steps stand before a step, one after another the same way, of those
that the edges order with it and among themselves. -/
theorem Topological.filter_eq [DecidableEq ι] {order' front back front' back' : List ι} {v : ι}
    (h : Topological preds order) (h' : Topological preds order') (hnodup : order.Nodup)
    (hnodup' : order'.Nodup) (hsplit : order = front ++ v :: back)
    (hsplit' : order' = front' ++ v :: back') {among : ι → Bool}
    (hwith : ∀ u, among u = true → Comparable preds u v)
    (hamong : ∀ u w, among u = true → among w = true → Before preds u v → Before preds w v →
      Comparable preds u w) : front.filter among = front'.filter among := by
  have hbefore : ∀ u ∈ front, among u = true → Before preds u v :=
    fun u hu hin => h.before_of_mem hnodup hsplit hu (hwith u hin)
  have hbefore' : ∀ u ∈ front', among u = true → Before preds u v :=
    fun u hu hin => h'.before_of_mem hnodup' hsplit' hu (hwith u hin)
  have hfront : front.Nodup := (hsplit ▸ hnodup).of_append_left
  have hfront' : front'.Nodup := (hsplit' ▸ hnodup').of_append_left
  have hperm : (front.filter among).Perm (front'.filter among) := by
    refine (List.perm_ext_iff_of_nodup (hfront.filter _) (hfront'.filter _)).mpr fun u => ?_
    rw [List.mem_filter, List.mem_filter]
    constructor
    · rintro ⟨hu, hin⟩
      exact ⟨h'.mem_of_before hsplit' (hbefore u hu hin), hin⟩
    · rintro ⟨hu, hin⟩
      exact ⟨h.mem_of_before hsplit (hbefore' u hu hin), hin⟩
  have hsorted : (front.filter among).Pairwise (Before preds) := by
    refine (hsplit ▸ h).of_append.pairwise_before hfront fun u hu w hw hin hin' => ?_
    exact hamong u w hin hin' (hbefore u hu hin) (hbefore w hw hin')
  have hsorted' : (front'.filter among).Pairwise (Before preds) := by
    refine (hsplit' ▸ h').of_append.pairwise_before hfront' fun u hu w hw hin hin' => ?_
    exact hamong u w hin hin' (hbefore' u hu hin) (hbefore' w hw hin')
  refine hperm.eq_of_pairwise (fun u w hu _ huw hwu => ?_) hsorted hsorted'
  have hmem : u ∈ order := hsplit ▸ List.mem_append_left _ (List.mem_filter.mp hu).1
  exact absurd (huw.trans hwu) (h.acyclic hmem)

end

/-! ## Slots -/

/-- Steps over slots. -/
structure Flow (ι X V : Type) where
  reads : ι → X → Bool
  writes : ι → X → Bool
  /-- What a step writes to a slot, if anything, from what it sees. -/
  body : ι → (X → Option V) → X → Option V

namespace Flow

variable {ι X V : Type} (F : Flow ι X V)

/-- What a step sees of the slots: those it reads. -/
def sees (i : ι) (slots : X → V) : X → Option V :=
  fun x => if F.reads i x then some (slots x) else none

/-- The slots after a step. -/
def exec (slots : X → V) (i : ι) : X → V :=
  fun x => if F.writes i x then (F.body i (F.sees i slots) x).getD (slots x) else slots x

/-- The slots after some steps. -/
def run (order : List ι) (slots : X → V) : X → V := order.foldl F.exec slots

/-- What a step sees when the steps run in an order. -/
def seenIn [DecidableEq ι] (order : List ι) (slots : X → V) (i : ι) : X → Option V :=
  F.sees i (F.run (order.take (order.idxOf i)) slots)

/-- The edges order the writers of what a step reads, with the step and, where they are before it,
among themselves; and so it is for each of those. -/
inductive Steady (preds : ι → List ι) : ι → Prop where
  | intro {i : ι} :
      (∀ x w, F.reads i x = true → F.writes w x = true → Comparable preds w i) →
      (∀ x w w', F.reads i x = true → F.writes w x = true → F.writes w' x = true →
        Before preds w i → Before preds w' i → Comparable preds w w') →
      (∀ x w, F.reads i x = true → F.writes w x = true → Before preds w i → Steady preds w) →
      Steady preds i

variable {F} {preds : ι → List ι}

theorem run_eq_foldl {order : List ι} {x : X} {slots : X → V} (seen : ι → X → Option V)
    (hseen : ∀ front w back, order = front ++ w :: back → F.writes w x = true →
      F.sees w (F.run front slots) = seen w) :
    F.run order slots x
      = (order.filter fun w => F.writes w x).foldl
          (fun value w => (F.body w (seen w) x).getD value) (slots x) := by
  induction order using List.reverseRecOn with
  | nil => rfl
  | append_singleton order w ih =>
      have hbefore := ih fun front u back hsplit => by
        refine hseen front u (back ++ [w]) ?_
        rw [hsplit, List.append_assoc, List.cons_append]
      have hlast : F.run (order ++ [w]) slots = F.exec (F.run order slots) w := by
        rw [run, List.foldl_append]
        rfl
      rw [hlast, exec, List.filter_append, List.foldl_append, ← hbefore]
      cases hw : F.writes w x with
      | false => simp [hw]
      | true => simp [hw, ← hseen order w [] rfl hw]

variable [DecidableEq ι]

theorem seenIn_of_split {order front back : List ι} {i : ι} (hsplit : order = front ++ i :: back)
    (hnodup : order.Nodup) (slots : X → V) :
    F.seenIn order slots i = F.sees i (F.run front slots) := by
  have hout : i ∉ front := by
    rw [hsplit, List.nodup_middle, List.nodup_cons] at hnodup
    exact fun hmem => hnodup.1 (List.mem_append_left _ hmem)
  rw [seenIn, hsplit, List.idxOf_append_of_notMem hout, List.idxOf_cons_self, Nat.add_zero,
    List.take_left]

/-- **A steady step sees the same values in every order.** -/
theorem seenIn_eq {i : ι} (h : F.Steady preds i) {slots : X → V} {order order' : List ι}
    (horder : Topological preds order) (horder' : Topological preds order')
    (hnodup : order.Nodup) (hnodup' : order'.Nodup) (hi : i ∈ order) (hi' : i ∈ order') :
    F.seenIn order slots i = F.seenIn order' slots i := by
  induction h with
  | @intro i hwith hamong _ ih =>
      obtain ⟨front, back, hsplit⟩ := List.append_of_mem hi
      obtain ⟨front', back', hsplit'⟩ := List.append_of_mem hi'
      rw [seenIn_of_split hsplit hnodup, seenIn_of_split hsplit' hnodup']
      funext x
      unfold sees
      cases hread : F.reads i x with
      | false => rfl
      | true =>
          have hsame := horder.filter_eq horder' hnodup hnodup' hsplit hsplit'
            (fun w hw => hwith x w hread hw) (fun w w' hw hw' => hamong x w w' hread hw hw')
          refine congrArg some ?_
          -- Both are read as the writers behind them, each with what it sees in `order'`.
          rw [run_eq_foldl (F.seenIn order' slots), hsame, run_eq_foldl (F.seenIn order' slots)]
          · intro pre w post hcut hw
            have hwhole : order' = pre ++ w :: (post ++ i :: back') := by
              rw [hsplit', hcut, List.append_assoc, List.cons_append]
            exact (seenIn_of_split hwhole hnodup' slots).symm
          · intro pre w post hcut hw
            have hwhole : order = pre ++ w :: (post ++ i :: back) := by
              rw [hsplit, hcut, List.append_assoc, List.cons_append]
            have hmem : w ∈ front := hcut ▸ List.mem_append_right _ List.mem_cons_self
            have hpath := horder.before_of_mem hnodup hsplit hmem (hwith x w hread hw)
            have hmem' := horder'.mem_of_before hsplit' hpath
            rw [← ih x w hread hw hpath]
            · exact (seenIn_of_split hwhole hnodup slots).symm
            · exact hsplit ▸ List.mem_append_left _ hmem
            · exact hsplit' ▸ List.mem_append_left _ hmem'

end Flow

end Lib
