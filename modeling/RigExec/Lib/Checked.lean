/-
# `RigExec.Lib.Checked` — array programs that may refuse

A program over arrays returns a value or stops: it refuses its input, reads or
writes outside an array, or runs out of the turns its loops were given.  Only
the first is an outcome the program means; `Safe program post` says that the
other two do not happen and that a returned value satisfies `post`.

    Range                values that are borrowed, or a null pointer with a size
    fetch, store         the accesses, with the check the source leaves out
    Safe.bind            one statement after another
    Safe.foldlM          a loop over a list, by an invariant of the part passed
-/
import Mathlib.Data.List.Basic

namespace Lib

/-- Why a program stops. -/
inductive Stop where
  | refused
  | outside
  | endless
deriving DecidableEq, Repr

variable {α β : Type}

/-- A borrowed range. -/
inductive Range (α : Type) where
  | null (size : Nat)
  | of (values : List α)

namespace Range

def size : Range α → Nat
  | .null size => size
  | .of values => values.length

/-- What a range holds. -/
def values : Range α → List α
  | .null _ => []
  | .of values => values

/-- Whether a range is null with a nonzero size. -/
def isMissing : Range α → Bool
  | .null size => size > 0
  | .of _ => false

theorem length_values {range : Range α} (h : range.isMissing = false) :
    range.values.length = range.size := by
  cases range with
  | null size => exact (Nat.eq_zero_of_not_pos (of_decide_eq_false h)).symm
  | of values => rfl

end Range

/-- `array[i]`. -/
def fetch (array : List α) (i : Int) : Except Stop α :=
  if i < 0 then .error .outside
  else
    match array[i.toNat]? with
    | some x => .ok x
    | none => .error .outside

/-- `array[i] = x`. -/
def store (array : List α) (i : Int) (x : α) : Except Stop (List α) :=
  if 0 ≤ i ∧ i.toNat < array.length then .ok (array.set i.toNat x) else .error .outside

/-- A program that stops only to refuse, and returns what satisfies `post`. -/
def Safe (program : Except Stop α) (post : α → Prop) : Prop :=
  match program with
  | .ok x => post x
  | .error stop => stop = .refused

variable {program : Except Stop α} {post : α → Prop}

@[simp] theorem Safe.ok_iff {x : α} : Safe (.ok x) post ↔ post x := Iff.rfl

theorem Safe.pure {x : α} (h : post x) : Safe (Pure.pure x) post := h

theorem Safe.refuse : Safe (.error .refused : Except Stop α) post := rfl

theorem Safe.mono {post' : α → Prop} (h : Safe program post) (himp : ∀ x, post x → post' x) :
    Safe program post' := by
  cases program with
  | ok x => exact himp x h
  | error stop => exact h

theorem Safe.bind {next : α → Except Stop β} {post' : β → Prop} (h : Safe program post)
    (hnext : ∀ x, post x → Safe (next x) post') : Safe (program >>= next) post' := by
  cases program with
  | ok x => exact hnext x h
  | error stop => exact h

theorem Safe.value {x : α} (h : Safe program post) (hx : program = .ok x) : post x := by
  rw [hx] at h
  exact h

theorem Safe.stop {stop : Stop} (h : Safe program post) (hstop : program = .error stop) :
    stop = .refused := by
  rw [hstop] at h
  exact h

theorem Safe.unless {c : Prop} [Decidable c] (h : ¬c → Safe program post) :
    Safe (if c then .error .refused else program) post := by
  by_cases hc : c
  · rw [if_pos hc]
    exact .refuse
  · rw [if_neg hc]
    exact h hc

theorem Safe.ite {c : Prop} [Decidable c] {program' : Except Stop α} (h : c → Safe program post)
    (h' : ¬c → Safe program' post) : Safe (if c then program else program') post := by
  by_cases hc : c
  · rw [if_pos hc]
    exact h hc
  · rw [if_neg hc]
    exact h' hc

theorem Safe.fetch {array : List α} {i : Int} (hi : 0 ≤ i) (hlt : i.toNat < array.length) :
    Safe (Lib.fetch array i) fun x => array[i.toNat]? = some x := by
  unfold Lib.fetch
  rw [if_neg (by omega), List.getElem?_eq_getElem hlt]
  exact Safe.ok_iff.mpr rfl

theorem Safe.store {array : List α} {i : Int} {x : α} (hi : 0 ≤ i) (hlt : i.toNat < array.length) :
    Safe (Lib.store array i x) fun array' => array' = array.set i.toNat x := by
  unfold Lib.store
  rw [if_pos ⟨hi, hlt⟩]
  exact Safe.ok_iff.mpr rfl

/-- **The loop rule**: the invariant is about the part of the list the loop has passed. -/
theorem Safe.foldlM {step : β → α → Except Stop β} {l : List α} {b : β} (inv : List α → β → Prop)
    (hfirst : inv [] b)
    (hstep : ∀ (passed : List α) (a : α) (rest : List α), l = passed ++ a :: rest →
      ∀ b, inv passed b → Safe (step b a) (inv (passed ++ [a]))) :
    Safe (l.foldlM step b) (inv l) := by
  have hloop : ∀ (rest passed : List α) (b : β), l = passed ++ rest → inv passed b →
      Safe (rest.foldlM step b) (inv l) := by
    intro rest
    induction rest with
    | nil =>
        intro passed b hl hb
        rw [List.append_nil] at hl
        subst hl
        exact hb
    | cons a rest ih =>
        intro passed b hl hb
        rw [List.foldlM_cons]
        refine (hstep passed a rest hl b hb).bind ?_
        intro b' hb'
        exact ih (passed ++ [a]) b' (by rw [hl, List.append_assoc, List.singleton_append]) hb'
  exact hloop l [] b rfl hfirst

end Lib
