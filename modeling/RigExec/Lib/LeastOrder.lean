/-
# `RigExec.Lib.LeastOrder` — the topological order with the least keys

Kahn's sort with a bag of ready vertices from which the one with the least key is
taken.  What it leaves is a topological order (`LeastDraining.finish`), it holds
every vertex when there is no cycle (`all_of_acyclic`), and of all topological
orders of the same vertices its keys come first lexicographically
(`LeastDraining.le`): up to the first difference both have the same vertices
ready, and the sort took the least of them.
-/
import Mathlib.Data.List.Lex
import Mathlib.Data.List.MinMax
import Mathlib.Order.WellFounded
import Mathlib.Data.Fintype.EquivFin
import Mathlib.Data.Fin.Basic
import RigExec.Lib.Countdown

namespace Lib

variable {κ : Type} [LinearOrder κ]

/-! ## The sort -/

/-- The ready vertices, taken by least key. -/
def drainLeast (key : Nat → κ) (succs : Nat → List Nat) (counted : List Int × List Nat)
    (order : List Nat) : List Nat :=
  match _h : counted.2.argmin key with
  | none => order
  | some at_ =>
      drainLeast key succs ((succs at_).foldl release (counted.1, counted.2.erase at_))
        (order ++ [at_])
termination_by counted.1.countP (0 < ·) + counted.2.length
decreasing_by
  have hmem : at_ ∈ counted.2 := List.argmin_mem (Option.mem_def.mpr _h)
  have hlength := List.length_erase_of_mem hmem
  have hpos := List.length_pos_of_mem hmem
  have := countP_foldl_release_le (succs at_) (counted.1, counted.2.erase at_)
  simp only at this
  omega

theorem drainLeast_none {key : Nat → κ} {succs : Nat → List Nat} {counted : List Int × List Nat}
    {order : List Nat} (h : counted.2.argmin key = none) :
    drainLeast key succs counted order = order := by
  rw [drainLeast]
  split
  · rfl
  · rename_i at_ hat
    cases hat.symm.trans h

theorem drainLeast_some {key : Nat → κ} {succs : Nat → List Nat} {counted : List Int × List Nat}
    {order : List Nat} {at_ : Nat} (h : counted.2.argmin key = some at_) :
    drainLeast key succs counted order =
      drainLeast key succs ((succs at_).foldl release (counted.1, counted.2.erase at_))
        (order ++ [at_]) := by
  rw [drainLeast]
  split
  · rename_i hnone
    cases hnone.symm.trans h
  · rename_i other hother
    cases hother.symm.trans h
    rfl

/-! ## Releases behind a prefix -/

theorem release_append (counts : List Int) (front bag : List Nat) (v : Nat) :
    release (counts, front ++ bag) v =
      ((release (counts, bag) v).1, front ++ (release (counts, bag) v).2) := by
  simp only [release]
  split
  · rfl
  · split <;> simp

theorem foldl_release_front (targets : List Nat) (counts : List Int) (front bag : List Nat) :
    targets.foldl release (counts, front ++ bag) =
      ((targets.foldl release (counts, bag)).1,
        front ++ (targets.foldl release (counts, bag)).2) := by
  induction targets generalizing counts bag with
  | nil => rfl
  | cons v targets ih =>
      rw [List.foldl_cons, release_append, ih]
      rfl

section

variable {scope : Nat → Prop} {preds succs : Nat → List Nat} {released : Nat → Nat → Bool}

theorem Countdown.perm {counts : List Int} {ready ready' : List Nat}
    (h : Countdown scope preds released (counts, ready)) (hperm : ready.Perm ready') :
    Countdown scope preds released (counts, ready') :=
  ⟨h.count, fun v => (hperm.mem_iff).symm.trans (h.ready v), hperm.nodup_iff.mp h.nodup⟩

/-! ## The invariant -/

/-- A topological order of exactly the vertices in scope. -/
structure OrderOf (scope : Nat → Prop) (preds : Nat → List Nat) (other : List Nat) : Prop where
  topological : Topological preds other
  nodup : other.Nodup
  mem_iff : ∀ v, v ∈ other ↔ scope v

/-- One list stops agreeing with another at a smaller key. -/
def SmallerAt (key : Nat → κ) (order other : List Nat) : Prop :=
  ∃ pre a b rest rest', order = pre ++ a :: rest ∧ other = pre ++ b :: rest' ∧ key a < key b

/-- The invariant of a sort that takes ready vertices from a bag, in whatever order. -/
structure BagDraining (scope : Nat → Prop) (preds : Nat → List Nat)
    (counted : List Int × List Nat) (order : List Nat) : Prop where
  countdown : Countdown scope preds (fun p _ => order.contains p) (counted.1, order ++ counted.2)
  topological : Topological preds order

/-- The loop invariant. -/
structure LeastDraining (key : Nat → κ) (scope : Nat → Prop) (preds : Nat → List Nat)
    (counted : List Int × List Nat) (order : List Nat) : Prop where
  countdown : Countdown scope preds (fun p _ => order.contains p) (counted.1, order ++ counted.2)
  topological : Topological preds order
  least : ∀ other, OrderOf scope preds other → order <+: other ∨ SmallerAt key order other

variable {key : Nat → κ} {counted : List Int × List Nat} {order : List Nat}

theorem BagDraining.ready (h : BagDraining scope preds counted order) {at_ : Nat}
    (hat : at_ ∈ counted.2) : scope at_ ∧ (∀ p ∈ preds at_, p ∈ order) ∧ at_ ∉ order := by
  have hready := (h.countdown.ready at_).mp (List.mem_append_right order hat)
  refine ⟨hready.1, fun p hp => List.contains_iff_mem.mp (hready.2 p hp), fun hin => ?_⟩
  exact (List.nodup_append.mp h.countdown.nodup).2.2 at_ hin at_ hat rfl

theorem BagDraining.take (hl : Links scope preds succs) (h : BagDraining scope preds counted order)
    {at_ : Nat} {rest : List Nat} (hperm : counted.2.Perm (at_ :: rest)) :
    BagDraining scope preds ((succs at_).foldl release (counted.1, rest)) (order ++ [at_]) := by
  obtain ⟨hscope, hpreds, hnew⟩ := h.ready (hperm.mem_iff.mpr List.mem_cons_self)
  have hsplit : (order ++ counted.2).Perm ((order ++ [at_]) ++ rest) := by
    rw [List.append_assoc]
    exact hperm.append_left order
  have hall := (h.countdown.perm hsplit).releaseAll (hl.nodup_succs at_ hscope) fun v hv => by
    obtain ⟨hscope, hin⟩ := hl.mem_succs at_ hscope v hv
    exact ⟨hscope, hl.nodup_preds v hscope, hin, by simpa using hnew⟩
  rw [foldl_release_front] at hall
  refine ⟨hall.congr fun v hv p hp => ?_, ?_⟩
  · rw [Bool.eq_iff_iff]
    simp only [Bool.or_eq_true, Bool.and_eq_true, List.contains_iff_mem, List.mem_append,
      List.mem_singleton, beq_iff_eq]
    refine or_congr_right ⟨fun hpu => hpu.1, fun he => ⟨he, ?_⟩⟩
    exact he ▸ (hl.mem_preds v hv p hp).2
  · exact topological_append_singleton.mpr ⟨h.topological, hpreds⟩

theorem LeastDraining.bag (h : LeastDraining key scope preds counted order) :
    BagDraining scope preds counted order := ⟨h.countdown, h.topological⟩

theorem SmallerAt.append {other : List Nat} (h : SmallerAt key order other) (more : List Nat) :
    SmallerAt key (order ++ more) other := by
  obtain ⟨pre, a, b, rest, rest', rfl, hother, hlt⟩ := h
  exact ⟨pre, a, b, rest ++ more, rest', by simp, hother, hlt⟩

theorem LeastDraining.advance (hl : Links scope preds succs)
    (hkey : ∀ v w, scope v → scope w → key v = key w → v = w)
    (h : LeastDraining key scope preds counted order) {at_ : Nat}
    (hat : counted.2.argmin key = some at_) :
    LeastDraining key scope preds
      ((succs at_).foldl release (counted.1, counted.2.erase at_)) (order ++ [at_]) := by
  have hmem : at_ ∈ counted.2 := List.argmin_mem (Option.mem_def.mpr hat)
  obtain ⟨hscope, -, hnew⟩ := h.bag.ready hmem
  obtain ⟨hcountdown, htopological⟩ := h.bag.take hl (List.perm_cons_erase hmem)
  refine ⟨hcountdown, htopological, fun other hother => ?_⟩
  rcases h.least other hother with ⟨rest, rfl⟩ | hsmaller
  · -- both orders agree so far; the other one goes on with a ready vertex
    have hrest : at_ ∈ rest := by
      have := (hother.mem_iff at_).mpr hscope
      exact (List.mem_append.mp this).resolve_left hnew
    obtain ⟨b, rest', rfl⟩ := List.exists_cons_of_ne_nil (List.ne_nil_of_mem hrest)
    have hb : scope b := (hother.mem_iff b).mp (by simp)
    have hbnew : b ∉ order := fun hin =>
      (List.nodup_append.mp hother.nodup).2.2 b hin b List.mem_cons_self rfl
    have hbready : b ∈ counted.2 := by
      have hall' := (h.countdown.ready b).mpr ⟨hb, fun p hp =>
        List.contains_iff_mem.mpr (hother.topological order b rest' rfl p hp)⟩
      exact (List.mem_append.mp hall').resolve_left hbnew
    have hle : key at_ ≤ key b := List.le_of_mem_argmin hbready (Option.mem_def.mpr hat)
    rcases hle.lt_or_eq with hlt | heq
    · exact .inr ⟨order, at_, b, [], rest', rfl, rfl, hlt⟩
    · rw [hkey at_ b hscope hb heq]
      exact .inl ⟨rest', by simp⟩
  · exact .inr (hsmaller.append [at_])

/-- **What the sort leaves**: no vertex is ready any more. -/
theorem LeastDraining.finish (hl : Links scope preds succs)
    (hkey : ∀ v w, scope v → scope w → key v = key w → v = w)
    (h : LeastDraining key scope preds counted order) :
    ∃ counts, LeastDraining key scope preds (counts, [])
      (drainLeast key succs counted order) := by
  induction counted, order using drainLeast.induct key succs with
  | case1 counted order hnone =>
      rw [drainLeast_none hnone]
      obtain ⟨counts, bag⟩ := counted
      cases List.argmin_eq_none.mp hnone
      exact ⟨counts, h⟩
  | case2 counted order at_ hat ih =>
      rw [drainLeast_some hat]
      exact ih (h.advance hl hkey hat)

theorem all_of_acyclic {count : Nat} (hbound : ∀ v, scope v → v < count)
    (hpreds : ∀ v, scope v → ∀ p ∈ preds v, scope p)
    (hacyclic : ∀ v, scope v → ¬ Relation.TransGen (fun p w => p ∈ preds w) v v)
    {P : Nat → Prop} (hstep : ∀ v, scope v → (∀ p ∈ preds v, P p) → P v) {v : Nat} (hv : scope v) :
    P v := by
  let r : {v : Fin count // scope v} → {v : Fin count // scope v} → Prop :=
    fun a b => Relation.TransGen (fun p w => p ∈ preds w) a.1.1 b.1.1
  have : IsTrans {v : Fin count // scope v} r := ⟨fun _ _ _ hab hbc => hab.trans hbc⟩
  have : Std.Irrefl r := ⟨fun a => hacyclic a.1.1 a.2⟩
  have hwf : WellFounded r := Finite.wellFounded_of_trans_of_irrefl r
  have hall : ∀ a : {v : Fin count // scope v}, P a.1.1 := fun a => by
    induction a using hwf.induction with
    | _ a ih =>
        refine hstep a.1.1 a.2 fun p hp => ?_
        have hp' := hpreds a.1.1 a.2 p hp
        exact ih ⟨⟨p, hbound p hp'⟩, hp'⟩ (Relation.TransGen.single hp)
  exact hall ⟨⟨v, hbound v hv⟩, hv⟩

theorem BagDraining.orderOf {counts : List Int} {count : Nat}
    (h : BagDraining scope preds (counts, []) order) (hl : Links scope preds succs)
    (hbound : ∀ v, scope v → v < count)
    (hacyclic : ∀ v, scope v → ¬ Relation.TransGen (fun p w => p ∈ preds w) v v) :
    OrderOf scope preds order := by
  have hnodup := h.countdown.nodup
  have hready := h.countdown.ready
  simp only [List.append_nil] at hnodup hready
  refine ⟨h.topological, hnodup, fun v => ⟨fun hv => ((hready v).mp hv).1, fun hv => ?_⟩⟩
  refine all_of_acyclic hbound (fun w hw p hp => (hl.mem_preds w hw p hp).1) hacyclic
    (P := fun w => w ∈ order) (fun w hw hall => ?_) hv
  exact (hready w).mpr ⟨hw, fun p hp => List.contains_iff_mem.mpr (hall p hp)⟩

theorem map_lt_of_smallerAt {other : List Nat} (h : SmallerAt key order other) :
    order.map key < other.map key := by
  obtain ⟨pre, a, b, rest, rest', rfl, rfl, hlt⟩ := h
  induction pre with
  | nil => exact List.cons_lt_cons_iff.mpr (.inl hlt)
  | cons c pre ih => exact List.cons_lt_cons_iff.mpr (.inr ⟨rfl, ih⟩)

/-- **The order the sort leaves has the least keys** among all topological orders of the same
vertices. -/
theorem LeastDraining.le {counts : List Int} (h : LeastDraining key scope preds (counts, []) order)
    (horder : OrderOf scope preds order) {other : List Nat} (hother : OrderOf scope preds other) :
    order.map key ≤ other.map key := by
  rcases h.least other hother with hfront | hsmaller
  · have hperm : order.Perm other := (List.perm_ext_iff_of_nodup horder.nodup hother.nodup).mpr
      fun v => (horder.mem_iff v).trans (hother.mem_iff v).symm
    rw [hfront.eq_of_length hperm.length_eq]
  · exact (map_lt_of_smallerAt hsmaller).le

end

/-! ## Orders of renamed vertices -/

section

variable {scope scope' : Nat → Prop} {preds preds' : Nat → List Nat} {place : Nat → Nat}
  {order order' : List Nat}

/-- The vertices of one graph are those of another under other names. -/
structure Placed (scope scope' : Nat → Prop) (preds preds' : Nat → List Nat) (place : Nat → Nat) :
    Prop where
  injective : ∀ u v, scope u → scope v → place u = place v → u = v
  scope_iff : ∀ w, scope' w ↔ ∃ v, scope v ∧ place v = w
  within : ∀ v, scope v → ∀ u ∈ preds v, scope u
  forth : ∀ v, scope v → ∀ u ∈ preds v, place u ∈ preds' (place v)
  back : ∀ v, scope v → ∀ p ∈ preds' (place v), ∃ u ∈ preds v, place u = p

theorem Placed.order_map (h : Placed scope scope' preds preds' place)
    (horder : OrderOf scope preds order) : OrderOf scope' preds' (order.map place) where
  topological := by
    intro pre w post heq p hp
    obtain ⟨before, rest, rfl, rfl, hrest⟩ := List.map_eq_append_iff.mp heq
    obtain ⟨v, after, rfl, rfl, rfl⟩ := List.map_eq_cons_iff.mp hrest
    have hv : scope v := (horder.mem_iff v).mp (by simp)
    obtain ⟨u, hu, rfl⟩ := h.back v hv p hp
    exact List.mem_map_of_mem (horder.topological before v after rfl u hu)
  nodup := by
    refine horder.nodup.map_on ?_
    intro u hu v hv
    exact h.injective u v ((horder.mem_iff u).mp hu) ((horder.mem_iff v).mp hv)
  mem_iff := by
    intro w
    rw [h.scope_iff w, List.mem_map]
    simp only [horder.mem_iff]

theorem Placed.exists_map (h : Placed scope scope' preds preds' place)
    (horder : OrderOf scope' preds' order') :
    ∃ list, OrderOf scope preds list ∧ list.map place = order' := by
  have hlift : ∀ ws : List Nat, (∀ w ∈ ws, scope' w) →
      ∃ list : List Nat, (∀ v ∈ list, scope v) ∧ list.map place = ws := by
    intro ws hws
    induction ws with
    | nil => exact ⟨[], by simp, rfl⟩
    | cons w ws ih =>
        obtain ⟨v, hv, rfl⟩ := (h.scope_iff w).mp (hws w List.mem_cons_self)
        obtain ⟨list, hlist, rfl⟩ := ih fun x hx => hws x (List.mem_cons_of_mem _ hx)
        exact ⟨v :: list, List.forall_mem_cons.mpr ⟨hv, hlist⟩, rfl⟩
  obtain ⟨list, hlist, rfl⟩ := hlift order' fun w hw => (horder.mem_iff w).mp hw
  refine ⟨list, ⟨?_, horder.nodup.of_map place, ?_⟩, rfl⟩
  · rintro pre v post rfl u hu
    have hv : scope v := hlist v (by simp)
    have hin := horder.topological (pre.map place) (place v) (post.map place) (by simp) (place u)
      (h.forth v hv u hu)
    obtain ⟨u', hu', heq⟩ := List.mem_map.mp hin
    have hsame := h.injective u' u (hlist u' (List.mem_append_left _ hu')) (h.within v hv u hu) heq
    exact hsame ▸ hu'
  · intro v
    refine ⟨hlist v, ?_⟩
    intro hv
    have hin := (horder.mem_iff (place v)).mpr ((h.scope_iff _).mpr ⟨v, hv, rfl⟩)
    obtain ⟨u, hu, heq⟩ := List.mem_map.mp hin
    exact h.injective u v (hlist u hu) hv heq ▸ hu

theorem eq_of_map_eq {A B : Type} {key : A → B} {first second : List A}
    (hkeys : ∀ a ∈ first, ∀ b ∈ second, key a = key b → a = b)
    (h : first.map key = second.map key) : first = second := by
  induction first generalizing second with
  | nil => exact (List.map_eq_nil_iff.mp h.symm).symm
  | cons a first ih =>
      obtain ⟨b, rest, rfl, hab, hrest⟩ := List.map_eq_cons_iff.mp h.symm
      rw [hkeys a List.mem_cons_self b List.mem_cons_self hab.symm]
      refine congrArg (b :: ·) (ih ?_ hrest.symm)
      intro x hx y hy
      exact hkeys x (List.mem_cons_of_mem a hx) y (List.mem_cons_of_mem b hy)

/-- **The least order of the renamed vertices is the least order, renamed.** -/
theorem Placed.least_eq {key key' : Nat → κ} (h : Placed scope scope' preds preds' place)
    (hkey : ∀ v, scope v → key' (place v) = key v)
    (hkeys : ∀ u v, scope' u → scope' v → key' u = key' v → u = v)
    (horder : OrderOf scope preds order)
    (hleast : ∀ other, OrderOf scope preds other → order.map key ≤ other.map key)
    (horder' : OrderOf scope' preds' order')
    (hleast' : ∀ other, OrderOf scope' preds' other → order'.map key' ≤ other.map key') :
    order' = order.map place := by
  have hmap : ∀ list, OrderOf scope preds list → (list.map place).map key' = list.map key := by
    intro list hlist
    rw [List.map_map]
    refine List.map_congr_left ?_
    intro v hv
    exact hkey v ((hlist.mem_iff v).mp hv)
  obtain ⟨list, hlist, rfl⟩ := h.exists_map horder'
  have hsame : (list.map place).map key' = (order.map place).map key' := by
    refine le_antisymm (hleast' _ (h.order_map horder)) ?_
    rw [hmap order horder, hmap list hlist]
    exact hleast list hlist
  refine eq_of_map_eq ?_ hsame
  intro u hu v hv
  exact hkeys u v ((horder'.mem_iff u).mp hu) (((h.order_map horder).mem_iff v).mp hv)

end

end Lib
