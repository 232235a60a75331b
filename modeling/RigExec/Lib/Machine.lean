/-
# `RigExec.Lib.Machine` — runs of a labelled machine

A machine is a partial step function `S → E → Option S`: an event that is not
enabled in a state has no successor.  A run is the fold of a list of events, so
runs can be evaluated as well as reasoned about, and a history is just the list
of its events.

Two ways of bounding a history are used by the developments built on this file.

* `Meets step C s es` says that every step the run actually takes satisfies `C`,
  a condition on the state before the step and the event.
* `run_append` splits a history at a point of interest, which is how "once X,
  never Y again" is stated.
-/
import Mathlib.Data.List.Basic
import Mathlib.Algebra.GroupWithZero.Nat

namespace Lib

variable {S E : Type}

/-- The run of a list of events; `none` as soon as one of them is not enabled. -/
def run (step : S → E → Option S) : S → List E → Option S
  | s, [] => some s
  | s, e :: es => (step s e).bind fun s' => run step s' es

/-- Every step of the run of `es` from `s` satisfies `C`. -/
def Meets (step : S → E → Option S) (C : S → E → Prop) : S → List E → Prop
  | _, [] => True
  | s, e :: es => C s e ∧ ∀ s', step s e = some s' → Meets step C s' es

variable {step : S → E → Option S} {C : S → E → Prop}

@[simp] theorem run_nil (s : S) : run step s [] = some s := rfl

theorem run_cons (s : S) (e : E) (es : List E) :
    run step s (e :: es) = (step s e).bind fun s' => run step s' es := rfl

theorem run_cons_eq_some {s t : S} {e : E} {es : List E} :
    run step s (e :: es) = some t ↔ ∃ s', step s e = some s' ∧ run step s' es = some t := by
  simp only [run_cons, Option.bind_eq_some_iff]

theorem run_append (s : S) (es fs : List E) :
    run step s (es ++ fs) = (run step s es).bind fun s' => run step s' fs := by
  induction es generalizing s with
  | nil => rfl
  | cons e es ih =>
      simp only [List.cons_append, run_cons]
      cases step s e with
      | none => rfl
      | some s' => exact ih s'

theorem run_append_eq_some {s u : S} {es fs : List E} :
    run step s (es ++ fs) = some u ↔ ∃ t, run step s es = some t ∧ run step t fs = some u := by
  simp only [run_append, Option.bind_eq_some_iff]

theorem Meets.append {s : S} {es fs : List E} (h : Meets step C s (es ++ fs)) :
    Meets step C s es ∧ ∀ t, run step s es = some t → Meets step C t fs := by
  induction es generalizing s with
  | nil =>
      refine ⟨trivial, fun t ht => ?_⟩
      cases ht
      exact h
  | cons e es ih =>
      refine ⟨⟨h.1, fun s' hs' => (ih (h.2 s' hs')).1⟩, fun t ht => ?_⟩
      obtain ⟨s', hs', ht'⟩ := run_cons_eq_some.mp ht
      exact (ih (h.2 s' hs')).2 t ht'

theorem meets_append_singleton {s t : S} {es : List E} {e : E} (hrun : run step s es = some t) :
    Meets step C s (es ++ [e]) ↔ Meets step C s es ∧ C t e := by
  induction es generalizing s with
  | nil =>
      cases hrun
      exact ⟨fun h => ⟨trivial, h.1⟩, fun h => ⟨h.2, fun _ _ => trivial⟩⟩
  | cons f es ih =>
      obtain ⟨s', hs', hrun'⟩ := run_cons_eq_some.mp hrun
      constructor
      · rintro ⟨hf, hrest⟩
        obtain ⟨hes, he⟩ := (ih hrun').mp (hrest s' hs')
        refine ⟨⟨hf, fun s'' hs'' => ?_⟩, he⟩
        cases hs'.symm.trans hs''
        exact hes
      · rintro ⟨⟨hf, hes⟩, he⟩
        refine ⟨hf, fun s'' hs'' => ?_⟩
        cases hs'.symm.trans hs''
        exact (ih hrun').mpr ⟨hes s' hs', he⟩

theorem meets_iff_prefix {s : S} {es : List E} :
    Meets step C s es ↔
      ∀ pre e post t, es = pre ++ e :: post → run step s pre = some t → C t e := by
  constructor
  · rintro h pre e post t rfl ht
    exact (h.append.2 t ht).1
  · intro h
    induction es generalizing s with
    | nil => trivial
    | cons e es ih =>
        refine ⟨h [] e es s rfl rfl, fun s' hs' => ih fun pre f post t hes ht => ?_⟩
        exact h (e :: pre) f post t (by rw [hes]; rfl) (run_cons_eq_some.mpr ⟨s', hs', ht⟩)

theorem Meets.and {C' : S → E → Prop} {s : S} {es : List E} (h : Meets step C s es)
    (h' : Meets step C' s es) : Meets step (fun s e => C s e ∧ C' s e) s es := by
  induction es generalizing s with
  | nil => trivial
  | cons e es ih => exact ⟨⟨h.1, h'.1⟩, fun s' hs' => ih (h.2 s' hs') (h'.2 s' hs')⟩

/-- **The invariant rule.**  What every step satisfying `C` preserves, every run whose steps all
satisfy `C` preserves. -/
theorem run_invariant {P : S → Prop}
    (hstep : ∀ s e s', P s → C s e → step s e = some s' → P s')
    {s t : S} {es : List E} (hs : P s) (hC : Meets step C s es) (hrun : run step s es = some t) :
    P t := by
  induction es generalizing s with
  | nil =>
      cases hrun
      exact hs
  | cons e es ih =>
      obtain ⟨s', hs', hrun'⟩ := run_cons_eq_some.mp hrun
      exact ih (hstep s e s' hs hC.1 hs') (hC.2 s' hs') hrun'

theorem run_preserves {P : S → Prop} (hstep : ∀ s e s', P s → step s e = some s' → P s')
    {s t : S} {es : List E} (hs : P s) (hrun : run step s es = some t) : P t := by
  induction es generalizing s with
  | nil =>
      cases hrun
      exact hs
  | cons e es ih =>
      obtain ⟨s', hs', hrun'⟩ := run_cons_eq_some.mp hrun
      exact ih (hstep s e s' hs hs') hrun'

theorem run_relates {R : S → S → Prop} (hrefl : ∀ s, R s s)
    (htrans : ∀ {s t u}, R s t → R t u → R s u)
    (hstep : ∀ s e s', C s e → step s e = some s' → R s s')
    {s t : S} {es : List E} (hC : Meets step C s es) (hrun : run step s es = some t) : R s t := by
  induction es generalizing s with
  | nil =>
      cases hrun
      exact hrefl _
  | cons e es ih =>
      obtain ⟨s', hs', hrun'⟩ := run_cons_eq_some.mp hrun
      exact htrans (hstep s e s' hC.1 hs') (ih (hC.2 s' hs') hrun')

theorem run_turns {P : S → Prop} {s t : S} {es : List E} (hs : ¬ P s) (ht : P t)
    (hrun : run step s es = some t) :
    ∃ pre e post x y, es = pre ++ e :: post ∧ run step s pre = some x ∧ step x e = some y ∧
      ¬ P x ∧ P y := by
  induction es generalizing s with
  | nil =>
      cases hrun
      exact absurd ht hs
  | cons e es ih =>
      obtain ⟨s', hs', hrun'⟩ := run_cons_eq_some.mp hrun
      by_cases hP : P s'
      · exact ⟨[], e, es, s, s', rfl, rfl, hs', hs, hP⟩
      · obtain ⟨pre, f, post, x, y, rfl, hpre, hrest⟩ := ih hP hrun'
        exact ⟨e :: pre, f, post, x, y, rfl, run_cons_eq_some.mpr ⟨s', hs', hpre⟩, hrest⟩

/-- The steps that the listed threads have left. -/
def total (left : Nat → Nat) (threads : List Nat) : Nat := (threads.map left).sum

theorem total_drop {threads : List Nat} {f g : Nat → Nat} {c : Nat} (hnodup : threads.Nodup)
    (hc : c ∈ threads) (hother : ∀ a, a ≠ c → g a = f a) (hself : g c + 1 = f c) :
    total g threads + 1 = total f threads := by
  induction threads with
  | nil => cases hc
  | cons b threads ih =>
      obtain ⟨hb, hnodup⟩ := List.nodup_cons.mp hnodup
      simp only [total, List.map_cons, List.sum_cons] at ih ⊢
      rcases List.mem_cons.mp hc with rfl | hc
      · have hrest : threads.map g = threads.map f := by
          refine List.map_congr_left fun a ha => hother a ?_
          rintro rfl
          exact hb ha
        rw [hrest]
        omega
      · have hne : b ≠ c := by
          rintro rfl
          exact hb hc
        rw [hother b hne, ← ih hnodup hc]
        omega

end Lib
