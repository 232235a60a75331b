/-
# `RigExec.Lib.Runs` — sets of slots held as separated runs

A set of slots, each under a domain, is kept as a list of half-open runs
`[begin, stop)` in ascending order, no two of one domain overlapping or
touching.

    Mem        a slot of a run
    Before     strictly before, with a gap when the domains agree
    Separated  the invariant of such a list
    Holds      the set the list stands for

What separation buys is `covered_iff`: a range of slots is held exactly when one
run contains it, so a cover is found by one lookup.
-/
import Mathlib.Order.Defs.LinearOrder
import Mathlib.Order.Lattice
import Mathlib.Data.List.Basic

namespace Lib

variable {δ σ : Type} [LinearOrder δ] [LinearOrder σ]

/-- The slots from `begin` up to `stop` of a domain. -/
structure Run (δ σ : Type) where
  domain : δ
  begin : σ
  stop : σ
deriving DecidableEq

namespace Run

/-- A slot of the run. -/
def Mem (run : Run δ σ) (domain : δ) (slot : σ) : Prop :=
  run.domain = domain ∧ run.begin ≤ slot ∧ slot < run.stop

/-- The order of the runs' first slots. -/
def keyLe (a b : Run δ σ) : Bool :=
  a.domain < b.domain ∨ a.domain = b.domain ∧ a.begin ≤ b.begin

/-- Strictly before, and not touching. -/
def Before (a b : Run δ σ) : Prop :=
  a.domain < b.domain ∨ a.domain = b.domain ∧ a.stop < b.begin

theorem keyLe_iff {a b : Run δ σ} :
    a.keyLe b = true ↔ a.domain < b.domain ∨ a.domain = b.domain ∧ a.begin ≤ b.begin := by
  simp only [keyLe, decide_eq_true_eq]

theorem Before.trans {a b c : Run δ σ} (hb : b.begin < b.stop) (hab : a.Before b)
    (hbc : b.Before c) : a.Before c := by
  rcases hab with hab | ⟨hab, hgap⟩
  · rcases hbc with hbc | ⟨hbc, -⟩
    · exact .inl (hab.trans hbc)
    · exact .inl (hbc ▸ hab)
  · rcases hbc with hbc | ⟨hbc, hgap'⟩
    · exact .inl (hab ▸ hbc)
    · exact .inr ⟨hab.trans hbc, (hgap.trans hb).trans hgap'⟩

theorem Before.keyLe {a b : Run δ σ} (ha : a.begin < a.stop) (h : a.Before b) :
    a.keyLe b = true := by
  rw [keyLe_iff]
  exact h.imp_right fun ⟨hd, hgap⟩ => ⟨hd, (ha.trans hgap).le⟩

theorem keyLe_trans {a b c : Run δ σ} (hab : a.keyLe b = true) (hbc : b.keyLe c = true) :
    a.keyLe c = true := by
  rw [keyLe_iff] at hab hbc ⊢
  rcases hab with hab | ⟨hab, hle⟩
  · rcases hbc with hbc | ⟨hbc, -⟩
    · exact .inl (hab.trans hbc)
    · exact .inl (hbc ▸ hab)
  · rcases hbc with hbc | ⟨hbc, hle'⟩
    · exact .inl (hab ▸ hbc)
    · exact .inr ⟨hab.trans hbc, hle.trans hle'⟩

end Run

/-- The slots a list of runs stands for. -/
def Holds (runs : List (Run δ σ)) (domain : δ) (slot : σ) : Prop :=
  ∃ run ∈ runs, run.Mem domain slot

/-- Nonempty runs in ascending order, with a gap between any two of one domain. -/
structure Separated (runs : List (Run δ σ)) : Prop where
  nonempty : ∀ run ∈ runs, run.begin < run.stop
  before : runs.Pairwise Run.Before

section

variable {runs front back : List (Run δ σ)} {domain : δ} {slot : σ}

omit [LinearOrder δ] in
theorem holds_append : Holds (front ++ back) domain slot ↔
    Holds front domain slot ∨ Holds back domain slot := by
  simp only [Holds, List.mem_append, or_and_right, exists_or]

omit [LinearOrder δ] in
theorem holds_cons {run : Run δ σ} : Holds (run :: runs) domain slot ↔
    run.Mem domain slot ∨ Holds runs domain slot := by
  simp only [Holds, List.mem_cons, or_and_right, exists_or, exists_eq_left]

theorem separated_append : Separated (front ++ back) ↔ Separated front ∧ Separated back ∧
    ∀ a ∈ front, ∀ b ∈ back, a.Before b := by
  constructor
  · intro h
    obtain ⟨hfront, hback, hcross⟩ := List.pairwise_append.mp h.before
    exact ⟨⟨fun a ha => h.nonempty a (List.mem_append_left _ ha), hfront⟩,
      ⟨fun b hb => h.nonempty b (List.mem_append_right _ hb), hback⟩, hcross⟩
  · rintro ⟨hfront, hback, hcross⟩
    refine ⟨fun run hrun => ?_, List.pairwise_append.mpr ⟨hfront.before, hback.before, hcross⟩⟩
    rcases List.mem_append.mp hrun with hrun | hrun
    · exact hfront.nonempty run hrun
    · exact hback.nonempty run hrun

theorem separated_cons {run : Run δ σ} : Separated (run :: runs) ↔
    run.begin < run.stop ∧ (∀ next ∈ runs, run.Before next) ∧ Separated runs := by
  constructor
  · intro h
    obtain ⟨hrun, hruns⟩ := List.pairwise_cons.mp h.before
    exact ⟨h.nonempty run List.mem_cons_self, hrun,
      fun next hnext => h.nonempty next (List.mem_cons_of_mem _ hnext), hruns⟩
  · rintro ⟨hne, hrun, hruns⟩
    refine ⟨fun next hnext => ?_, List.pairwise_cons.mpr ⟨hrun, hruns.before⟩⟩
    rcases List.mem_cons.mp hnext with rfl | hnext
    · exact hne
    · exact hruns.nonempty next hnext

theorem Separated.eq_or_before (h : Separated runs) {a b : Run δ σ} (ha : a ∈ runs)
    (hb : b ∈ runs) : a = b ∨ a.Before b ∨ b.Before a := by
  induction runs with
  | nil => cases ha
  | cons run runs ih =>
      obtain ⟨-, hrun, hruns⟩ := separated_cons.mp h
      rcases List.mem_cons.mp ha with rfl | ha' <;> rcases List.mem_cons.mp hb with rfl | hb'
      · exact .inl rfl
      · exact .inr (.inl (hrun b hb'))
      · exact .inr (.inr (hrun a ha'))
      · exact ih hruns ha' hb'

/-- **A range is held by a separated list exactly when one run contains it.** -/
theorem Separated.covered_iff (h : Separated runs) {begin stop : σ} (hlt : begin < stop) :
    (∀ slot, begin ≤ slot → slot < stop → Holds runs domain slot) ↔
      ∃ run ∈ runs, run.domain = domain ∧ run.begin ≤ begin ∧ begin < run.stop ∧
        stop ≤ run.stop := by
  constructor
  · intro hall
    obtain ⟨run, hrun, hd, hbegin, hstop⟩ := hall begin le_rfl hlt
    refine ⟨run, hrun, hd, hbegin, hstop, le_of_not_gt fun hshort => ?_⟩
    -- the slot just past the run would be held by a run that touches it
    obtain ⟨next, hnext, hd', hbegin', hstop'⟩ := hall run.stop hstop.le hshort
    rcases h.eq_or_before hrun hnext with rfl | hbefore | hbefore
    · exact hstop'.false
    · rcases hbefore with hlt' | ⟨-, hgap⟩
      · exact (hd.trans hd'.symm ▸ hlt').false
      · exact (hgap.trans_le hbegin').false
    · rcases hbefore with hlt' | ⟨-, hgap⟩
      · exact (hd'.trans hd.symm ▸ hlt').false
      · exact ((hstop'.trans hgap).trans_le (hbegin.trans hstop.le)).false
  · rintro ⟨run, hrun, hd, hbegin, -, hstop⟩ slot hle hlt'
    exact ⟨run, hrun, hd, hbegin.trans hle, hlt'.trans_le hstop⟩

/-- Of the runs whose first slot is at most that of a slot's range, the one holding the slot is
the last. -/
theorem Separated.holder_last (key : Run δ σ) (h : Separated (front ++ back)) {run : Run δ σ}
    (hrun : run ∈ front ++ back) (hmem : run.Mem key.domain key.begin)
    (hfront : ∀ a ∈ front, a.keyLe key = true) (hback : ∀ b ∈ back, ¬ b.keyLe key = true) :
    front.getLast? = some run := by
  obtain ⟨hd, hbegin, hstop⟩ := hmem
  have hin : run ∈ front := by
    rcases List.mem_append.mp hrun with hin | hin
    · exact hin
    · exact absurd (Run.keyLe_iff.mpr (.inr ⟨hd, hbegin⟩)) (hback run hin)
  obtain ⟨init, last, rfl⟩ := List.eq_nil_or_concat front |>.resolve_left (List.ne_nil_of_mem hin)
  rw [List.concat_eq_append, List.getLast?_concat]
  rw [List.concat_eq_append] at hin hfront h
  rcases List.mem_append.mp hin with hinit | hlast
  · have hfrontSep := (separated_append.mp h).1
    have hbefore := (separated_append.mp hfrontSep).2.2 run hinit last (List.mem_singleton.mpr rfl)
    have hle := Run.keyLe_iff.mp (hfront last (by simp))
    rcases hbefore with hlt | ⟨hd', hgap⟩
    · rcases hle with hle | ⟨hle, -⟩
      · exact absurd (hd ▸ hlt) (lt_asymm hle)
      · exact absurd hlt (by rw [hd, hle]; exact lt_irrefl _)
    · rcases hle with hle | ⟨-, hle⟩
      · exact absurd hle (by rw [← hd', hd]; exact lt_irrefl _)
      · exact absurd (hgap.trans_le hle) (lt_asymm hstop)
  · rw [List.mem_singleton.mp hlast]

end

end Lib
