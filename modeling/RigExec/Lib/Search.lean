/-
# `RigExec.Lib.Search` — depth-first search and its finishing order

Two searches over the vertices below `count` of a graph given by lists of next
vertices.

    explore      a search with an explicit stack of (vertex, edges left), which
                 lists the vertices as they are finished
    collect      a search with a bag of pending vertices, which lists the
                 vertices it reaches

What the finishing order is good for is `finishOrder_late`: if `v` is reachable
from `u` and not the other way round, some vertex in the strong component of
`u` finishes after `v`.  Taking the vertices from the last finished on and
collecting backwards then gathers exactly one strong component at a time.

The stack is a path, and a finished vertex has only visited successors; these
two facts and the claim itself, for the vertices no longer connected to the
stack, are the invariant (`Searching`).
-/
import Mathlib.Data.List.Basic
import Mathlib.Data.List.Induction
import Mathlib.Data.List.Nodup
import Mathlib.Logic.Function.Basic
import Mathlib.Logic.Relation

namespace Lib

/-! ## Marks -/

/-- A vertex is marked. -/
def mark (visited : Nat → Bool) (v : Nat) : Nat → Bool := Function.update visited v true

/-- How many vertices are not marked. -/
def unmarked (count : Nat) (visited : Nat → Bool) : Nat :=
  (List.range count).countP fun v => !visited v

@[simp] theorem mark_eq_true {visited : Nat → Bool} {v w : Nat} :
    mark visited v w = true ↔ w = v ∨ visited w = true := by
  by_cases h : w = v
  · subst h
    simp [mark]
  · simp [mark, h]

theorem countP_lt_countP {α : Type} {p q : α → Bool} {l : List α}
    (h : ∀ x ∈ l, p x = true → q x = true) {a : α} (ha : a ∈ l) (hq : q a = true)
    (hp : p a = false) : l.countP p < l.countP q := by
  induction l with
  | nil => cases ha
  | cons b l ih =>
      have hmono : l.countP p ≤ l.countP q :=
        List.countP_mono_left fun x hx => h x (List.mem_cons_of_mem b hx)
      rcases List.mem_cons.mp ha with rfl | ha
      · rw [List.countP_cons_of_neg (by simp [hp]), List.countP_cons_of_pos hq]
        exact Nat.lt_succ_of_le hmono
      · have hlt := ih (fun x hx => h x (List.mem_cons_of_mem b hx)) ha
        rw [List.countP_cons, List.countP_cons]
        refine Nat.add_lt_add_of_lt_of_le hlt ?_
        by_cases hb : p b = true
        · exact Nat.le_of_eq (by rw [if_pos hb, if_pos (h b List.mem_cons_self hb)])
        · exact Nat.le_trans (Nat.le_of_eq (if_neg hb)) (Nat.zero_le _)

theorem unmarked_mark {count : Nat} {visited : Nat → Bool} {v : Nat} (hv : v < count)
    (hnew : visited v = false) : unmarked count (mark visited v) < unmarked count visited := by
  refine countP_lt_countP (fun w _ hw => ?_) (List.mem_range.mpr hv) (by simp [hnew])
    (by simp [mark])
  simp only [Bool.not_eq_true', ← Bool.not_eq_true, mark_eq_true, not_or] at hw ⊢
  exact hw.2

/-! ## The two searches -/

section

variable (count : Nat) (next : Nat → List Nat)

/-- The edges the stack has left, and its length. -/
def work : List (Nat × List Nat) → Nat
  | [] => 0
  | entry :: stack => entry.2.length + 1 + work stack

/-- The search from a stack, top first. -/
def explore (visited : Nat → Bool) (finish : List Nat) :
    List (Nat × List Nat) → (Nat → Bool) × List Nat
  | [] => (visited, finish)
  | (top, []) :: stack => explore visited (finish ++ [top]) stack
  | (top, v :: rest) :: stack =>
      if _h : v < count ∧ visited v = false then
        explore (mark visited v) finish ((v, next v) :: (top, rest) :: stack)
      else explore visited finish ((top, rest) :: stack)
termination_by stack => (unmarked count visited, work stack)
decreasing_by
  · exact Prod.Lex.right _ (by simp [work])
  · exact Prod.Lex.left _ _ (unmarked_mark _h.1 _h.2)
  · exact Prod.Lex.right _ (by simp [work])

/-- The search from every vertex in turn. -/
def exploreFrom (searched : (Nat → Bool) × List Nat) (start : Nat) : (Nat → Bool) × List Nat :=
  if searched.1 start then searched
  else explore count next (mark searched.1 start) searched.2 [(start, next start)]

/-- All vertices, in the order in which a search finishes them. -/
def finishOrder : List Nat :=
  ((List.range count).foldl (exploreFrom count next) (fun _ => false, [])).2

/-- The unmarked vertices of a list are marked and go on top of the pending ones. -/
def spread : List Nat → (Nat → Bool) × List Nat → (Nat → Bool) × List Nat
  | [], found => found
  | v :: vs, (visited, pending) =>
      if v < count ∧ visited v = false then spread vs (mark visited v, v :: pending)
      else spread vs (visited, pending)

theorem unmarked_spread (vs : List Nat) (found : (Nat → Bool) × List Nat) :
    unmarked count (spread count vs found).1 + (spread count vs found).2.length ≤
      unmarked count found.1 + found.2.length := by
  induction vs generalizing found with
  | nil => exact Nat.le_refl _
  | cons v vs ih =>
      obtain ⟨visited, pending⟩ := found
      simp only [spread]
      split
      · rename_i h
        have := unmarked_mark h.1 h.2
        have := ih (mark visited v, v :: pending)
        simp only [List.length_cons] at this
        omega
      · exact ih (visited, pending)

/-- The vertices reached from the pending ones. -/
def collect (visited : Nat → Bool) (component : List Nat) :
    List Nat → (Nat → Bool) × List Nat
  | [] => (visited, component)
  | at_ :: pending =>
      let found := spread count (next at_) (visited, pending)
      collect found.1 (component ++ [at_]) found.2
termination_by pending => unmarked count visited + pending.length
decreasing_by
  have := unmarked_spread count (next at_) (visited, pending)
  simp only [List.length_cons] at this ⊢
  omega

end

/-! ## Reachability -/

/-- There is a path. -/
abbrev Reach (next : Nat → List Nat) : Nat → Nat → Prop :=
  Relation.ReflTransGen fun u v => v ∈ next u

/-- Two vertices of one strong component. -/
def Mutual (next : Nat → List Nat) (u v : Nat) : Prop := Reach next u v ∧ Reach next v u

section

variable {next : Nat → List Nat} {u v w : Nat}

theorem Mutual.refl (u : Nat) : Mutual next u u :=
  ⟨Relation.ReflTransGen.refl, Relation.ReflTransGen.refl⟩

theorem Mutual.symm (h : Mutual next u v) : Mutual next v u := ⟨h.2, h.1⟩

theorem Mutual.trans (h : Mutual next u v) (h' : Mutual next v w) : Mutual next u w :=
  ⟨h.1.trans h'.1, h'.2.trans h.2⟩

end

/-- `v` stands before `u` in a list. -/
def Earlier (list : List Nat) (v u : Nat) : Prop :=
  ∃ pre post, list = pre ++ u :: post ∧ v ∈ pre

theorem Earlier.append {list : List Nat} {v u : Nat} (h : Earlier list v u) (more : List Nat) :
    Earlier (list ++ more) v u := by
  obtain ⟨pre, post, rfl, hv⟩ := h
  exact ⟨pre, post ++ more, by simp, hv⟩

theorem earlier_last {list : List Nat} {v : Nat} (h : v ∈ list) (u : Nat) :
    Earlier (list ++ [u]) v u :=
  ⟨list, [], rfl, h⟩

/-! ## The finishing order -/

section

variable {count : Nat} {next : Nat → List Nat}

/-- The invariant of the search. -/
structure Searching (count : Nat) (next : Nat → List Nat) (visited : Nat → Bool)
    (finish : List Nat) (stack : List (Nat × List Nat)) : Prop where
  /-- Marked are the finished vertices and those on the stack, each once. -/
  marked : ∀ v, visited v = true ↔ v ∈ finish ∨ v ∈ stack.map Prod.fst
  nodup : (finish ++ stack.map Prod.fst).Nodup
  bound : ∀ v, visited v = true → v < count
  /-- A finished vertex has only marked successors. -/
  closed : ∀ u ∈ finish, ∀ v ∈ next u, visited v = true
  /-- What is gone of a stack entry's edges leads to marked vertices. -/
  scanned : ∀ entry ∈ stack, ∀ v ∈ next entry.1, visited v = true ∨ v ∈ entry.2
  /-- The stack is a path, from its bottom to its top. -/
  path : (stack.map Prod.fst).Pairwise fun upper lower => Reach next lower upper
  /-- A finished vertex and one it reaches: they are mutual, or some vertex mutual to the first
  finishes later than the second, or is still on the stack. -/
  late : ∀ u ∈ finish, ∀ v, Reach next u v → Reach next v u ∨
    (∃ u', Mutual next u u' ∧ Earlier finish v u') ∨ ∃ s ∈ stack.map Prod.fst, Mutual next u s

/-- From the top of the stack, when all its edges are gone, every path stays among the finished
vertices or comes to a vertex below it on the stack. -/
theorem Searching.leave {visited : Nat → Bool} {finish : List Nat} {top : Nat}
    {stack : List (Nat × List Nat)} (h : Searching count next visited finish ((top, []) :: stack))
    {v : Nat} (hreach : Reach next top v) :
    v ∈ finish ∨ v = top ∨ ∃ s ∈ stack.map Prod.fst, Reach next top s := by
  have hvisited : ∀ w, visited w = true → Reach next top w →
      w ∈ finish ∨ w = top ∨ ∃ s ∈ stack.map Prod.fst, Reach next top s := by
    intro w hw hpath
    rcases (h.marked w).mp hw with hfin | hstack
    · exact .inl hfin
    · rcases List.mem_cons.mp hstack with rfl | hbelow
      · exact .inr (.inl rfl)
      · exact .inr (.inr ⟨w, hbelow, hpath⟩)
  induction hreach with
  | refl => exact .inr (.inl rfl)
  | tail hpath hedge ih =>
      rcases ih with hfin | rfl | hbelow
      · exact hvisited _ (h.closed _ hfin _ hedge) (hpath.tail hedge)
      · rcases h.scanned (_, []) List.mem_cons_self _ hedge with hmarked | hleft
        · exact hvisited _ hmarked (hpath.tail hedge)
        · cases hleft
      · exact .inr (.inr hbelow)

theorem Searching.finishTop {visited : Nat → Bool} {finish : List Nat} {top : Nat}
    {stack : List (Nat × List Nat)} (h : Searching count next visited finish ((top, []) :: stack)) :
    Searching count next visited (finish ++ [top]) stack := by
  have hbelow : ∀ s ∈ stack.map Prod.fst, Reach next s top :=
    (List.pairwise_cons.mp h.path).1
  -- what the top reaches finishes before it, or the top is mutual to a vertex below
  have hlate : ∀ v, Reach next top v → Reach next v top ∨ Earlier (finish ++ [top]) v top ∨
      ∃ s ∈ stack.map Prod.fst, Mutual next top s := by
    intro v hreach
    rcases h.leave hreach with hfin | rfl | ⟨s, hs, hreachs⟩
    · exact .inr (.inl (earlier_last hfin top))
    · exact .inl Relation.ReflTransGen.refl
    · exact .inr (.inr ⟨s, hs, hreachs, hbelow s hs⟩)
  refine {
    marked := fun v => ?_
    nodup := ?_
    bound := h.bound
    closed := fun u hu v hv => ?_
    scanned := fun entry hentry => h.scanned entry (List.mem_cons_of_mem _ hentry)
    path := (List.pairwise_cons.mp h.path).2
    late := fun u hu v hreach => ?_ }
  · rw [h.marked v, List.map_cons, List.mem_cons, List.mem_append, List.mem_singleton, or_assoc]
  · simpa using h.nodup
  · rcases List.mem_append.mp hu with hu | hu
    · exact h.closed u hu v hv
    · rw [List.mem_singleton.mp hu] at hv
      rcases h.scanned (top, []) List.mem_cons_self v hv with hmarked | hleft
      · exact hmarked
      · cases hleft
  · have hmutual : Mutual next u top → Reach next v u ∨
        (∃ u', Mutual next u u' ∧ Earlier (finish ++ [top]) v u') ∨
          ∃ s ∈ stack.map Prod.fst, Mutual next u s := by
      intro htop
      rcases hlate v (htop.2.trans hreach) with hback | hearlier | ⟨s, hs, hsame⟩
      · exact .inl (hback.trans htop.2)
      · exact .inr (.inl ⟨top, htop, hearlier⟩)
      · exact .inr (.inr ⟨s, hs, htop.trans hsame⟩)
    rcases List.mem_append.mp hu with hu | hu
    · rcases h.late u hu v hreach with hback | ⟨u', hsame, hearlier⟩ | ⟨s, hs, hsame⟩
      · exact .inl hback
      · exact .inr (.inl ⟨u', hsame, hearlier.append [top]⟩)
      · rcases List.mem_cons.mp hs with rfl | hs
        · exact hmutual hsame
        · exact .inr (.inr ⟨s, hs, hsame⟩)
    · exact hmutual (List.mem_singleton.mp hu ▸ Mutual.refl u)

theorem Searching.push {visited : Nat → Bool} {finish rest : List Nat} {top v : Nat}
    {stack : List (Nat × List Nat)}
    (h : Searching count next visited finish ((top, v :: rest) :: stack)) (hedge : v ∈ next top)
    (hlt : v < count) (hnew : visited v = false) :
    Searching count next (mark visited v) finish ((v, next v) :: (top, rest) :: stack) := by
  have hnotin : ¬ (v ∈ finish ∨ v ∈ top :: stack.map Prod.fst) := fun hin => by
    rw [(h.marked v).mpr hin] at hnew
    cases hnew
  refine {
    marked := fun w => ?_
    nodup := ?_
    bound := fun w hw => ?_
    closed := fun u hu w hw => mark_eq_true.mpr (.inr (h.closed u hu w hw))
    scanned := fun entry hentry w hw => ?_
    path := ?_
    late := fun u hu w hreach => ?_ }
  · rw [mark_eq_true, h.marked w]
    simp only [List.map_cons, List.mem_cons]
    tauto
  · have hold := h.nodup
    simp only [List.map_cons] at hold ⊢
    refine (List.perm_middle.nodup_iff).mpr (List.nodup_cons.mpr ⟨fun hin => hnotin ?_, hold⟩)
    exact List.mem_append.mp hin
  · rcases mark_eq_true.mp hw with rfl | hw
    · exact hlt
    · exact h.bound w hw
  · rcases List.mem_cons.mp hentry with rfl | hentry
    · exact .inr hw
    · rcases List.mem_cons.mp hentry with rfl | hentry
      · rcases h.scanned (top, v :: rest) List.mem_cons_self w hw with hmarked | hleft
        · exact .inl (mark_eq_true.mpr (.inr hmarked))
        · rcases List.mem_cons.mp hleft with rfl | hleft
          · exact .inl (mark_eq_true.mpr (.inl rfl))
          · exact .inr hleft
      · exact (h.scanned entry (List.mem_cons_of_mem _ hentry) w hw).imp_left fun hmarked =>
          mark_eq_true.mpr (.inr hmarked)
  · refine List.pairwise_cons.mpr ⟨fun s hs => ?_, h.path⟩
    rcases List.mem_cons.mp hs with rfl | hs
    · exact Relation.ReflTransGen.single hedge
    · exact ((List.pairwise_cons.mp h.path).1 s hs).tail hedge
  · refine (h.late u hu w hreach).imp_right fun hrest => hrest.imp_right ?_
    rintro ⟨s, hs, hsame⟩
    exact ⟨s, List.mem_cons_of_mem v hs, hsame⟩

theorem Searching.skip {visited : Nat → Bool} {finish rest : List Nat} {top v : Nat}
    {stack : List (Nat × List Nat)}
    (h : Searching count next visited finish ((top, v :: rest) :: stack))
    (hmarked : visited v = true) :
    Searching count next visited finish ((top, rest) :: stack) := by
  refine ⟨h.marked, h.nodup, h.bound, h.closed, fun entry hentry w hw => ?_, h.path, h.late⟩
  rcases List.mem_cons.mp hentry with rfl | hentry
  · rcases h.scanned (top, v :: rest) List.mem_cons_self w hw with hmarked' | hleft
    · exact .inl hmarked'
    · rcases List.mem_cons.mp hleft with rfl | hleft
      · exact .inl hmarked
      · exact .inr hleft
  · exact h.scanned entry (List.mem_cons_of_mem _ hentry) w hw

/-- The edges left of a stack entry are edges. -/
def EdgesLeft (next : Nat → List Nat) (stack : List (Nat × List Nat)) : Prop :=
  ∀ entry ∈ stack, ∀ v ∈ entry.2, v ∈ next entry.1

section

variable (hnext : ∀ u < count, ∀ v ∈ next u, v < count)
include hnext

/-- **The search to its end**: the invariant holds with an empty stack, and nothing marked is
forgotten. -/
theorem Searching.explore {visited : Nat → Bool} {finish : List Nat} {stack : List (Nat × List Nat)}
    (h : Searching count next visited finish stack) (hleft : EdgesLeft next stack) :
    Searching count next (Lib.explore count next visited finish stack).1
      (Lib.explore count next visited finish stack).2 [] ∧
    ∀ v, visited v = true → (Lib.explore count next visited finish stack).1 v = true := by
  induction visited, finish, stack using explore.induct count next with
  | case1 visited finish =>
      rw [Lib.explore]
      exact ⟨h, fun v hv => hv⟩
  | case2 visited finish top stack ih =>
      rw [Lib.explore]
      exact ih h.finishTop fun entry hentry => hleft entry (List.mem_cons_of_mem _ hentry)
  | case3 visited finish top v rest stack hnew ih =>
      rw [Lib.explore, dif_pos hnew]
      have hedge : v ∈ next top := hleft _ List.mem_cons_self v List.mem_cons_self
      obtain ⟨hsearch, hkeep⟩ := ih (h.push hedge hnew.1 hnew.2) (by
        intro entry hentry w hw
        rcases List.mem_cons.mp hentry with rfl | hentry
        · exact hw
        · rcases List.mem_cons.mp hentry with rfl | hentry
          · exact hleft _ List.mem_cons_self w (List.mem_cons_of_mem v hw)
          · exact hleft entry (List.mem_cons_of_mem _ hentry) w hw)
      exact ⟨hsearch, fun w hw => hkeep w (mark_eq_true.mpr (.inr hw))⟩
  | case4 visited finish top v rest stack hold ih =>
      rw [Lib.explore, dif_neg hold]
      have hedge : v ∈ next top := hleft _ List.mem_cons_self v List.mem_cons_self
      have htop : top < count := h.bound top ((h.marked top).mpr (.inr List.mem_cons_self))
      have hmarked : visited v = true := by
        by_contra hnot
        exact hold ⟨hnext top htop v hedge, Bool.eq_false_iff.mpr hnot⟩
      refine ih (h.skip hmarked) fun entry hentry w hw => ?_
      rcases List.mem_cons.mp hentry with rfl | hentry
      · exact hleft _ List.mem_cons_self w (List.mem_cons_of_mem v hw)
      · exact hleft entry (List.mem_cons_of_mem _ hentry) w hw

theorem searching_foldl (starts : List Nat) (hstarts : ∀ v ∈ starts, v < count) :
    Searching count next (starts.foldl (exploreFrom count next) (fun _ => false, [])).1
      (starts.foldl (exploreFrom count next) (fun _ => false, [])).2 [] ∧
    ∀ v ∈ starts, (starts.foldl (exploreFrom count next) (fun _ => false, [])).1 v = true := by
  induction starts using List.reverseRecOn with
  | nil =>
      refine ⟨⟨fun v => by simp, by simp, fun v hv => (nomatch hv), fun u hu => (nomatch hu),
        fun entry hentry => (nomatch hentry), List.Pairwise.nil, fun u hu => (nomatch hu)⟩,
        fun v hv => (nomatch hv)⟩
  | append_singleton starts start ih =>
      obtain ⟨hsearch, hmarked⟩ := ih fun v hv => hstarts v (List.mem_append_left _ hv)
      rw [List.foldl_append, List.foldl_cons, List.foldl_nil]
      revert hsearch hmarked
      generalize starts.foldl (exploreFrom count next) (fun _ => false, []) = searched
      obtain ⟨visited, finish⟩ := searched
      intro hsearch hmarked
      unfold exploreFrom
      split
      · rename_i hold
        refine ⟨hsearch, fun v hv => ?_⟩
        rcases List.mem_append.mp hv with hv | hv
        · exact hmarked v hv
        · exact List.mem_singleton.mp hv ▸ hold
      · rename_i hnew
        have hnotin : start ∉ finish := fun hin =>
          hnew ((hsearch.marked start).mpr (.inl hin))
        have hstart : Searching count next (mark visited start) finish
            [(start, next start)] := by
          refine {
            marked := fun v => ?_
            nodup := ?_
            bound := fun v hv => ?_
            closed := fun u hu v hv => mark_eq_true.mpr (.inr (hsearch.closed u hu v hv))
            scanned := fun entry hentry v hv => ?_
            path := List.pairwise_singleton _ _
            late := fun u hu v hreach => ?_ }
          · have := hsearch.marked v
            simp only [List.map_nil, List.not_mem_nil, or_false] at this
            rw [mark_eq_true, this]
            simp only [List.map_cons, List.map_nil, List.mem_singleton]
            exact Or.comm
          · have := hsearch.nodup
            simp only [List.map_nil, List.append_nil] at this
            refine List.nodup_append.mpr ⟨this, List.nodup_singleton _, fun a ha b hb hab => ?_⟩
            subst hab
            have he : a = start := List.mem_singleton.mp hb
            exact hnotin (he ▸ ha)
          · rcases mark_eq_true.mp hv with rfl | hv
            · exact hstarts v (by simp)
            · exact hsearch.bound v hv
          · rw [List.mem_singleton.mp hentry] at hv ⊢
            exact .inr hv
          · refine (hsearch.late u hu v hreach).imp_right fun hrest => hrest.imp_right ?_
            rintro ⟨s, hs, -⟩
            cases hs
        obtain ⟨hsearch', hkeep⟩ := hstart.explore hnext (by
          intro entry hentry v hv
          rw [List.mem_singleton.mp hentry] at hv ⊢
          exact hv)
        refine ⟨hsearch', fun v hv => hkeep v (mark_eq_true.mpr ?_)⟩
        rcases List.mem_append.mp hv with hv | hv
        · exact .inr (hmarked v hv)
        · exact .inl (List.mem_singleton.mp hv)

theorem finishOrder_mem (v : Nat) :
    v ∈ finishOrder count next ↔ v < count := by
  obtain ⟨hsearch, hall⟩ := searching_foldl hnext (List.range count) fun v hv =>
    List.mem_range.mp hv
  have hmarked := hsearch.marked v
  simp only [List.map_nil, List.not_mem_nil, or_false] at hmarked
  rw [finishOrder, ← hmarked]
  exact ⟨hsearch.bound v, fun hv => hall v (List.mem_range.mpr hv)⟩

theorem finishOrder_nodup :
    (finishOrder count next).Nodup := by
  have := (searching_foldl hnext (List.range count) fun v hv => List.mem_range.mp hv).1.nodup
  simpa [finishOrder] using this

/-- **The finishing order**: a vertex reached from `u` leads back to it, or is finished before
some vertex mutual to `u`. -/
theorem finishOrder_late {u v : Nat} (hu : u < count) (hreach : Reach next u v) :
    Reach next v u ∨ ∃ u', Mutual next u u' ∧ Earlier (finishOrder count next) v u' := by
  have hsearch := (searching_foldl hnext (List.range count) fun v hv => List.mem_range.mp hv).1
  refine (hsearch.late u ((finishOrder_mem hnext u).mpr hu) v hreach).imp_right fun h => ?_
  rcases h with h | ⟨s, hs, -⟩
  · exact h
  · cases hs

end

end

/-! ## Collecting -/

section

variable {count : Nat} {next : Nat → List Nat} {base : Nat → Bool}

theorem spread_spec {vs : List Nat} (hbound : ∀ v ∈ vs, v < count)
    (found : (Nat → Bool) × List Nat) :
    (∀ x, (spread count vs found).1 x = true ↔ found.1 x = true ∨ x ∈ vs) ∧
    (∀ x, x ∈ (spread count vs found).2 ↔ x ∈ found.2 ∨ x ∈ vs ∧ found.1 x = false) := by
  induction vs generalizing found with
  | nil => simp [spread]
  | cons v vs ih =>
      obtain ⟨visited, pending⟩ := found
      have hvs : ∀ w ∈ vs, w < count := fun w hw => hbound w (List.mem_cons_of_mem v hw)
      simp only [spread]
      split
      · rename_i hnew
        obtain ⟨hmarks, hmem⟩ := ih hvs (mark visited v, v :: pending)
        refine ⟨fun x => ?_, fun x => ?_⟩
        · rw [hmarks, mark_eq_true, List.mem_cons]
          tauto
        · rw [hmem, List.mem_cons, List.mem_cons, ← Bool.not_eq_true, ← Bool.not_eq_true,
            mark_eq_true]
          by_cases hx : x = v
          · subst hx
            simp [hnew.2]
          · simp [hx]
      · rename_i hold
        have hv : visited v = true := by
          by_contra hnot
          exact hold ⟨hbound v List.mem_cons_self, Bool.eq_false_iff.mpr hnot⟩
        obtain ⟨hmarks, hmem⟩ := ih hvs (visited, pending)
        refine ⟨fun x => ?_, fun x => ?_⟩
        · rw [hmarks, List.mem_cons]
          constructor
          · tauto
          · rintro (hx | rfl | hx)
            exacts [.inl hx, .inl hv, .inr hx]
        · rw [hmem, List.mem_cons]
          constructor
          · tauto
          · rintro (hx | ⟨rfl | hx, hnew⟩)
            · exact .inl hx
            · cases hv.symm.trans hnew
            · exact .inr ⟨hx, hnew⟩

theorem spread_nodup {vs : List Nat} {found : (Nat → Bool) × List Nat} (h : found.2.Nodup)
    (hmarked : ∀ x ∈ found.2, found.1 x = true) : (spread count vs found).2.Nodup := by
  induction vs generalizing found with
  | nil => exact h
  | cons v vs ih =>
      obtain ⟨visited, pending⟩ := found
      simp only [spread]
      split
      · rename_i hnew
        refine ih (List.nodup_cons.mpr ⟨fun hin => ?_, h⟩) fun x hx => ?_
        · cases (hmarked v hin).symm.trans hnew.2
        · exact mark_eq_true.mpr ((List.mem_cons.mp hx).imp_right (hmarked x))
      · exact ih h hmarked

/-- The invariant of the collection, from marks `base` on. -/
structure Collecting (next : Nat → List Nat) (base : Nat → Bool) (root : Nat)
    (visited : Nat → Bool) (component pending : List Nat) : Prop where
  marked : ∀ x, visited x = true ↔ base x = true ∨ x ∈ component ∨ x ∈ pending
  fresh : ∀ x, x ∈ component ∨ x ∈ pending → base x = false
  nodup_component : component.Nodup
  nodup_pending : pending.Nodup
  apart : ∀ x ∈ component, x ∉ pending
  reached : ∀ x, x ∈ component ∨ x ∈ pending → Reach next root x
  closed : ∀ x ∈ component, ∀ y ∈ next x, visited y = true
  root_mem : root ∈ component ∨ root ∈ pending

theorem Collecting.take (hnext : ∀ u, ∀ v ∈ next u, v < count) {root at_ : Nat}
    {visited : Nat → Bool} {component pending : List Nat}
    (h : Collecting next base root visited component (at_ :: pending)) :
    Collecting next base root (spread count (next at_) (visited, pending)).1 (component ++ [at_])
      (spread count (next at_) (visited, pending)).2 := by
  obtain ⟨hmarks, hmem⟩ := spread_spec (hnext at_) (visited, pending)
  obtain ⟨hnew, hnodup⟩ := List.nodup_cons.mp h.nodup_pending
  have hat : at_ ∉ component := fun hin => h.apart at_ hin List.mem_cons_self
  have hsplit : ∀ x, x ∈ component ++ [at_] ∨ x ∈ (spread count (next at_) (visited, pending)).2 ↔
      (x ∈ component ∨ x ∈ at_ :: pending) ∨ x ∈ next at_ ∧ visited x = false := by
    intro x
    rw [hmem, List.mem_append, List.mem_singleton, List.mem_cons]
    tauto
  refine ⟨fun x => ?_, fun x hx => ?_, ?_, ?_, fun x hx => ?_, fun x hx => ?_, fun x hx y hy => ?_,
    (hsplit root).mpr (.inl h.root_mem)⟩
  · rw [hmarks, hsplit, h.marked]
    constructor
    · rintro ((hx | hx) | hx)
      · exact .inl hx
      · exact .inr (.inl hx)
      · by_cases hold : visited x = true
        · exact ((h.marked x).mp hold).imp_right .inl
        · exact .inr (.inr ⟨hx, Bool.eq_false_iff.mpr hold⟩)
    · rintro (hx | hx | hx)
      exacts [.inl (.inl hx), .inl (.inr hx), .inr hx.1]
  · rcases (hsplit x).mp hx with hx | ⟨-, hx⟩
    · exact h.fresh x hx
    · rw [← Bool.not_eq_true, h.marked] at hx
      exact Bool.eq_false_iff.mpr fun hb => hx (.inl hb)
  · exact List.nodup_append.mpr ⟨h.nodup_component, List.nodup_singleton _, fun a ha b hb hab =>
      hat (List.mem_singleton.mp hb ▸ hab ▸ ha)⟩
  · exact spread_nodup hnodup fun x hx =>
      (h.marked x).mpr (.inr (.inr (List.mem_cons_of_mem _ hx)))
  · intro hin
    have hvisited : visited x = true := by
      rcases List.mem_append.mp hx with hx | hx
      · exact (h.marked x).mpr (.inr (.inl hx))
      · exact (h.marked x).mpr (.inr (.inr (List.mem_singleton.mp hx ▸ List.mem_cons_self)))
    rcases (hmem x).mp hin with hin | ⟨-, hin⟩
    · rcases List.mem_append.mp hx with hx | hx
      · exact h.apart x hx (List.mem_cons_of_mem _ hin)
      · exact hnew (List.mem_singleton.mp hx ▸ hin)
    · cases hvisited.symm.trans hin
  · rcases (hsplit x).mp hx with hx | ⟨hx, -⟩
    · exact h.reached x hx
    · exact (h.reached at_ (.inr List.mem_cons_self)).tail hx
  · rcases List.mem_append.mp hx with hx | hx
    · exact (hmarks y).mpr (.inl (h.closed x hx y hy))
    · exact (hmarks y).mpr (.inr (List.mem_singleton.mp hx ▸ hy))

theorem Collecting.collect (hnext : ∀ u, ∀ v ∈ next u, v < count) {root : Nat}
    {visited : Nat → Bool} {component pending : List Nat}
    (h : Collecting next base root visited component pending) :
    Collecting next base root (Lib.collect count next visited component pending).1
      (Lib.collect count next visited component pending).2 [] := by
  induction visited, component, pending using collect.induct count next with
  | case1 visited component =>
      rw [Lib.collect]
      exact h
  | case2 visited component at_ pending found ih =>
      rw [Lib.collect]
      exact ih (h.take hnext)

/-- **What is collected** from a root outside the base. -/
theorem collect_root (hnext : ∀ u, ∀ v ∈ next u, v < count) {root : Nat}
    (hroot : base root = false) :
    Collecting next base root (collect count next (mark base root) [] [root]).1
      (collect count next (mark base root) [] [root]).2 [] := by
  refine Collecting.collect hnext ⟨fun x => ?_, fun x hx => ?_, List.nodup_nil,
    List.nodup_singleton _, fun x hx => (nomatch hx), fun x hx => ?_, fun x hx => (nomatch hx),
    .inr (List.mem_singleton_self _)⟩
  · simp only [mark_eq_true, List.not_mem_nil, false_or, List.mem_singleton]
    exact Or.comm
  · rcases hx with hx | hx
    · cases hx
    · exact List.mem_singleton.mp hx ▸ hroot
  · rcases hx with hx | hx
    · cases hx
    · rw [List.mem_singleton.mp hx]

end

end Lib
