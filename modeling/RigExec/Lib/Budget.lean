/-
# `RigExec.Lib.Budget` — walks that pay for what they visit

A tree is given by the children of each of its elements; listed from the root, an element stands
once for every path that leads to it, so that sharing makes the list long.  A walk over the tree
holds a budget, pays for an element before it goes on to the children, and refuses when it cannot.

    preorder     the elements of the tree, if it is no deeper than a bound
    LeadsTo      an element lies in the tree below another
    Walk         what a walk answers, and the ledger it leaves
    Visits       the ledger balances, and a walk that accepts has listed the tree
-/
import Mathlib.Algebra.BigOperators.Group.List.Basic
import Mathlib.Algebra.GroupWithZero.Nat
import Mathlib.Logic.Relation

namespace Lib

/-! ## Trees, listed -/

section Trees

variable {α β γ : Type}

/-- What `f` gives of all, one after another; nothing, if it gives nothing of one. -/
def gather (f : α → Option (List β)) : List α → Option (List β)
  | [] => some []
  | a :: as => (f a).bind fun found => (gather f as).map (found ++ ·)

/-- The tree below an element, from the root, if it has no more than `n` levels. -/
def preorder (children : α → Option (List α)) : Nat → α → Option (List α)
  | 0, _ => none
  | n + 1, a => ((children a).bind (gather (preorder children n))).map (a :: ·)

variable {f : α → Option (List β)} {g : γ → Option (List α)}

theorem gather_singleton (f : α → Option (List β)) (a : α) : gather f [a] = f a := by
  rw [gather, gather]
  cases f a with
  | none => rfl
  | some found => exact congrArg some (List.append_nil found)

theorem gather_append (f : α → Option (List β)) (as bs : List α) :
    gather f (as ++ bs) = (gather f as).bind fun x => (gather f bs).map (x ++ ·) := by
  induction as with
  | nil =>
      show gather f bs = (gather f bs).map (fun y => [] ++ y)
      cases gather f bs <;> rfl
  | cons a as ih =>
      rw [List.cons_append, gather, gather, ih]
      cases f a with
      | none => rfl
      | some found =>
          cases gather f as with
          | none => rfl
          | some x =>
              cases gather f bs with
              | none => rfl
              | some y => exact congrArg some (List.append_assoc found x y).symm

theorem gather_gather (l : List γ) :
    (gather g l).bind (gather f) = gather (fun c => (g c).bind (gather f)) l := by
  induction l with
  | nil => rfl
  | cons c l ih =>
      rw [gather, gather, ← ih]
      cases g c with
      | none => rfl
      | some x =>
          cases gather g l with
          | none =>
              show none = (gather f x).bind fun _ => none
              cases gather f x <;> rfl
          | some y => exact gather_append f x y

theorem gather_mono {f' : α → Option (List β)}
    (h : ∀ a found, f a = some found → f' a = some found) {l : List α} {found : List β}
    (hfound : gather f l = some found) : gather f' l = some found := by
  induction l generalizing found with
  | nil => exact hfound
  | cons a l ih =>
      rw [gather, Option.bind_eq_some_iff] at hfound
      obtain ⟨x, hx, hrest⟩ := hfound
      obtain ⟨y, hy, rfl⟩ := Option.map_eq_some_iff.mp hrest
      rw [gather, h a x hx, ih hy]
      rfl

theorem preorder_mono {children : α → Option (List α)} {n m : Nat} (hle : n ≤ m) {a : α}
    {found : List α} (h : preorder children n a = some found) :
    preorder children m a = some found := by
  induction n generalizing m a found with
  | zero => cases h
  | succ n ih =>
      obtain ⟨m, rfl⟩ := Nat.exists_eq_succ_of_ne_zero (by omega : m ≠ 0)
      obtain ⟨rest, hrest, rfl⟩ := Option.map_eq_some_iff.mp h
      obtain ⟨below, hbelow, hgather⟩ := Option.bind_eq_some_iff.mp hrest
      have hmore : gather (preorder children m) below = some rest :=
        gather_mono (fun _ _ hfound => ih (by omega) hfound) hgather
      rw [preorder, hbelow, Option.bind_some, hmore]
      rfl

/-- The tree below `a` holds `a'`. -/
def LeadsTo (children : α → Option (List α)) : α → α → Prop :=
  Relation.ReflTransGen fun a a' => ∃ below, children a = some below ∧ a' ∈ below

theorem gather_congr {f' : α → Option (List β)} {l : List α} (h : ∀ a ∈ l, f' a = f a) :
    gather f' l = gather f l := by
  induction l with
  | nil => rfl
  | cons a l ih =>
      rw [gather, gather, h a List.mem_cons_self,
        ih fun a' ha' => h a' (List.mem_cons_of_mem _ ha')]

/-- **Trees that agree below an element** list it alike. -/
theorem preorder_congr {children children' : α → Option (List α)} {a : α}
    (h : ∀ a', LeadsTo children a a' → children' a' = children a') (n : Nat) :
    preorder children' n a = preorder children n a := by
  induction n generalizing a with
  | zero => rfl
  | succ n ih =>
      rw [preorder, preorder, h a .refl]
      cases hbelow : children a with
      | none => rfl
      | some below =>
          rw [Option.bind_some, Option.bind_some]
          refine congrArg (Option.map (a :: ·)) (gather_congr fun a' ha' => ih fun a'' hleads => ?_)
          exact h a'' (.head ⟨below, hbelow, ha'⟩ hleads)

end Trees

/-! ## Walks -/

section Walks

variable {α β : Type}

/-- What is left of a budget, and what it was spent on. -/
structure Ledger (α : Type) where
  left : Nat
  charged : List α
  deriving DecidableEq

/-- A walk says whether it accepts, and leaves a ledger either way. -/
abbrev Walk (α : Type) := Ledger α → Bool × Ledger α

namespace Walk

def refuse : Walk α := fun s => (false, s)

def done : Walk α := fun s => (true, s)

/-- Pay for an element, if there is enough left. -/
def charge (a : α) (cost : Nat) : Walk α := fun s =>
  if s.left < cost then (false, s)
  else (true, { left := s.left - cost, charged := s.charged ++ [a] })

/-- The second walk follows if the first one accepts. -/
def andThen (first second : Walk α) : Walk α := fun s =>
  match first s with
  | (true, s) => second s
  | (false, s) => (false, s)

/-- One walk after another, up to the first that refuses. -/
def all (step : β → Walk α) : List β → Walk α
  | [] => done
  | b :: bs => andThen (step b) (all step bs)

end Walk

/-- The ledger balances: what was spent is the cost of what was charged.  A walk that accepts has
charged the elements that were to be found, in their order. -/
def Visits (cost : α → Nat) (walk : Walk α) (found : Option (List α)) : Prop :=
  ∀ s, ∃ visited, (walk s).2.charged = s.charged ++ visited ∧
    (visited.map cost).sum + (walk s).2.left = s.left ∧
    ((walk s).1 = true → found = some visited)

variable {cost : α → Nat}

theorem visits_refuse (found : Option (List α)) : Visits cost Walk.refuse found := by
  intro s
  refine ⟨[], (List.append_nil _).symm, Nat.zero_add _, fun h => ?_⟩
  cases h

theorem visits_done : Visits cost Walk.done (some []) :=
  fun _ => ⟨[], (List.append_nil _).symm, Nat.zero_add _, fun _ => rfl⟩

theorem visits_charge {a : α} {n : Nat} (h : n = cost a) :
    Visits cost (Walk.charge a n) (some [a]) := by
  intro s
  rw [Walk.charge]
  split
  · refine ⟨[], (List.append_nil _).symm, Nat.zero_add _, fun h => ?_⟩
    cases h
  · rename_i henough
    refine ⟨[a], rfl, ?_, fun _ => rfl⟩
    show cost a + 0 + (s.left - n) = s.left
    omega

theorem Visits.mono {walk : Walk α} {found found' : Option (List α)} (h : Visits cost walk found)
    (hle : ∀ l, found = some l → found' = some l) : Visits cost walk found' := by
  intro s
  obtain ⟨visited, hcharged, hbalance, hfound⟩ := h s
  exact ⟨visited, hcharged, hbalance, fun hok => hle _ (hfound hok)⟩

theorem Visits.andThen {first second : Walk α} {x y : Option (List α)}
    (hfirst : Visits cost first x) (hsecond : Visits cost second y) :
    Visits cost (first.andThen second) (x.bind fun l => y.map (l ++ ·)) := by
  intro s
  obtain ⟨visited, hcharged, hbalance, hfound⟩ := hfirst s
  rw [Walk.andThen]
  cases hout : first s with
  | mk ok s' =>
      rw [hout] at hcharged hbalance hfound
      cases ok with
      | false => exact ⟨visited, hcharged, hbalance, fun h => by cases h⟩
      | true =>
          obtain ⟨visited', hcharged', hbalance', hfound'⟩ := hsecond s'
          dsimp only at hcharged hbalance hfound ⊢
          refine ⟨visited ++ visited', ?_, ?_, fun hok => ?_⟩
          · rw [hcharged', hcharged, List.append_assoc]
          · rw [List.map_append, List.sum_append]
            omega
          · rw [hfound rfl, hfound' hok]
            rfl

theorem visits_all {step : β → Walk α} {f : β → Option (List α)} {l : List β}
    (h : ∀ b ∈ l, Visits cost (step b) (f b)) : Visits cost (Walk.all step l) (gather f l) := by
  induction l with
  | nil => exact visits_done
  | cons b l ih =>
      exact (h b List.mem_cons_self).andThen (ih fun b' hb' => h b' (List.mem_cons_of_mem b hb'))

theorem visits_node {a : α} {n : Nat} (h : n = cost a) {walk : Walk α} {found : Option (List α)}
    (hbelow : Visits cost walk found) :
    Visits cost ((Walk.charge a n).andThen walk) (found.map (a :: ·)) := by
  refine ((visits_charge h).andThen hbelow).mono fun l hl => ?_
  rw [Option.bind_some] at hl
  exact hl

theorem Visits.within {walk : Walk α} {found : Option (List α)} (h : Visits cost walk found)
    (size : Nat) :
    ((walk ⟨size, []⟩).2.charged.map cost).sum ≤ size ∧
      ((walk ⟨size, []⟩).1 = true → found = some (walk ⟨size, []⟩).2.charged) := by
  obtain ⟨visited, hcharged, hbalance, hfound⟩ := h ⟨size, []⟩
  rw [List.nil_append] at hcharged
  dsimp only at hbalance
  rw [hcharged]
  exact ⟨by omega, hfound⟩

end Walks

end Lib
