/-
# `RigExec.StepGraph.Written` — the written slots as a set

`WrittenRuns` keeps a separated list of runs, so its two operations are a set's:

    separated_add   the invariant is kept
    holds_add       `Add` adds the slots of a range
    covers_iff      `Covers` asks whether all slots of a range are in the set

From these `readsError_eq_none` reads the loop over the steps: each slot a step
reads is held before the run, excluded, or written by an earlier step.
-/
import Mathlib.Data.List.TakeWhile
import Mathlib.Data.Option.Basic
import RigExec.StepGraph.Model

namespace RigExec.StepGraph

open Lib (Holds Separated holds_append holds_cons separated_append separated_cons)

namespace WrittenRuns

theorem absorb_shape (run : StepGraphRange) (after : WrittenRuns) :
    ∃ stop rest, absorb run after = { run with stop } :: rest ∧ rest <:+ after := by
  induction after generalizing run with
  | nil => exact ⟨run.stop, [], rfl, List.suffix_refl []⟩
  | cons next rest ih =>
      simp only [absorb]
      split
      · obtain ⟨stop, rest', he, hsuffix⟩ := ih { run with stop := max run.stop next.stop }
        exact ⟨stop, rest', he, hsuffix.trans (List.suffix_cons next rest)⟩
      · exact ⟨run.stop, next :: rest, rfl, List.suffix_refl _⟩

theorem absorb_spec (run : StepGraphRange) {after : WrittenRuns} (hrun : run.begin < run.stop)
    (hafter : Separated after) (hle : ∀ next ∈ after, run.keyLe next = true) :
    Separated (absorb run after) ∧ ∀ domain slot,
      Holds (absorb run after) domain slot ↔ run.Mem domain slot ∨ Holds after domain slot := by
  induction after generalizing run with
  | nil =>
      refine ⟨separated_cons.mpr ⟨hrun, fun next hnext => (nomatch hnext), hafter⟩, ?_⟩
      exact fun domain slot => holds_cons
  | cons next rest ih =>
      obtain ⟨hnext, hbefore, hrest⟩ := separated_cons.mp hafter
      have hkey := Lib.Run.keyLe_iff.mp (hle next List.mem_cons_self)
      simp only [absorb]
      split
      · rename_i hreach
        obtain ⟨hdomain, hreach⟩ := hreach
        have hbegin : run.begin ≤ next.begin := by
          rcases hkey with hlt | ⟨-, hbegin⟩
          · exact absurd hlt (by rw [hdomain]; exact Nat.lt_irrefl _)
          · exact hbegin
        obtain ⟨hsep, hholds⟩ := ih { run with stop := max run.stop next.stop }
          (Nat.lt_of_lt_of_le hrun (Nat.le_max_left _ _)) hrest fun later hlater =>
            hle later (List.mem_cons_of_mem next hlater)
        refine ⟨hsep, fun domain slot => ?_⟩
        -- the two runs overlap or touch, so their union is one run
        rw [hholds, holds_cons, ← or_assoc]
        refine or_congr_left ?_
        simp only [Lib.Run.Mem, hdomain, ← and_or_left]
        refine and_congr_right fun _ => ?_
        omega
      · rename_i hapart
        refine ⟨separated_cons.mpr ⟨hrun, fun later hlater => ?_, hafter⟩,
          fun domain slot => holds_cons⟩
        have hrunNext : run.Before next := by
          rcases hkey with hlt | ⟨hd, -⟩
          · exact .inl hlt
          · exact .inr ⟨hd, Nat.lt_of_not_le fun hreach => hapart ⟨hd.symm, hreach⟩⟩
        rcases List.mem_cons.mp hlater with rfl | hlater
        · exact hrunNext
        · exact hrunNext.trans hnext (hbefore later hlater)

section

variable {runs : WrittenRuns} {range : StepGraphRange}

theorem keyLe_of_mem_takeWhile {run : StepGraphRange}
    (h : run ∈ runs.takeWhile fun run => run.keyLe range) : run.keyLe range = true :=
  List.mem_takeWhile_imp (p := fun run : StepGraphRange => run.keyLe range) h

theorem not_keyLe_of_mem_dropWhile (h : Separated runs) {run : StepGraphRange}
    (hrun : run ∈ runs.dropWhile fun run => run.keyLe range) : ¬ run.keyLe range = true := by
  have hback : Separated (runs.dropWhile fun run => run.keyLe range) := by
    rw [← List.takeWhile_append_dropWhile (p := fun run => run.keyLe range) (l := runs)] at h
    exact (separated_append.mp h).2.1
  cases hdrop : runs.dropWhile fun run => run.keyLe range with
  | nil => rw [hdrop] at hrun; cases hrun
  | cons first rest =>
      have hfirst : ¬ first.keyLe range = true := by
        have := List.head?_dropWhile_not (fun run => run.keyLe range) runs
        rw [hdrop] at this
        simpa using this
      rw [hdrop] at hrun hback
      rcases List.mem_cons.mp hrun with rfl | hrun
      · exact hfirst
      · obtain ⟨hne, hbefore, -⟩ := separated_cons.mp hback
        exact fun hle => hfirst (Lib.Run.keyLe_trans ((hbefore run hrun).keyLe hne) hle)

theorem keyLe_total {a b : StepGraphRange} (h : ¬ a.keyLe b = true) : b.keyLe a = true := by
  rw [Lib.Run.keyLe_iff] at h ⊢
  omega

/-- **`Add` keeps the runs separated and adds the slots of the range.** -/
theorem add_spec (h : Separated runs) (range : StepGraphRange) :
    Separated (runs.add range) ∧ ∀ domain slot,
      Holds (runs.add range) domain slot ↔ Holds runs domain slot ∨ range.Mem domain slot := by
  unfold add
  split
  · rename_i hempty
    refine ⟨h, fun domain slot => (or_iff_left fun hmem => ?_).symm⟩
    exact absurd (Nat.lt_of_le_of_lt hmem.2.1 hmem.2.2) (Nat.not_lt.mpr hempty)
  rename_i hrange
  have hlt : range.begin < range.stop := Nat.lt_of_not_le hrange
  have hsplit : runs = (runs.takeWhile fun run => run.keyLe range) ++
      runs.dropWhile fun run => run.keyLe range :=
    List.takeWhile_append_dropWhile.symm
  have hle : ∀ run ∈ runs.takeWhile fun run => run.keyLe range, run.keyLe range = true :=
    fun run hrun => keyLe_of_mem_takeWhile hrun
  have hgt : ∀ run ∈ runs.dropWhile fun run => run.keyLe range, range.keyLe run = true :=
    fun run hrun => keyLe_total (not_keyLe_of_mem_dropWhile h hrun)
  revert hle hgt hsplit
  generalize (runs.takeWhile fun run => run.keyLe range) = before
  generalize (runs.dropWhile fun run => run.keyLe range) = after
  intro hsplit hle hgt
  subst hsplit
  obtain ⟨hbefore, hafter, hcross⟩ := separated_append.mp h
  simp only
  split
  · rename_i hlast
    rw [List.getLast?_eq_none_iff.mp hlast, List.nil_append]
    obtain ⟨hsep, hholds⟩ := absorb_spec range hlt hafter hgt
    exact ⟨hsep, fun domain slot => (hholds domain slot).trans Or.comm⟩
  rename_i last hlast
  obtain ⟨init, rfl⟩ := List.getLast?_eq_some_iff.mp hlast
  obtain ⟨hinit, hlastSep, hinitLast⟩ := separated_append.mp hbefore
  have hlastLt : last.begin < last.stop := hlastSep.nonempty last (List.mem_singleton.mpr rfl)
  have hkey := Lib.Run.keyLe_iff.mp (hle last (by simp))
  split
  · rename_i hreach
    obtain ⟨hdomain, hreach⟩ := hreach
    have hbegin : last.begin ≤ range.begin := by
      rcases hkey with hlt' | ⟨-, hbegin⟩
      · exact absurd hlt' (by rw [hdomain]; exact Nat.lt_irrefl _)
      · exact hbegin
    have hmergedLe : ∀ next ∈ after,
        Lib.Run.keyLe ⟨range.domain, last.begin, max range.stop last.stop⟩ next = true := by
      intro next hnext
      have := Lib.Run.keyLe_iff.mp (hgt next hnext)
      exact Lib.Run.keyLe_iff.mpr (this.imp_right fun hd => ⟨hd.1, hbegin.trans hd.2⟩)
    obtain ⟨hsep, hholds⟩ :=
      absorb_spec ⟨range.domain, last.begin, max range.stop last.stop⟩
        (Nat.lt_of_lt_of_le hlastLt (Nat.le_max_right _ _)) hafter hmergedLe
    obtain ⟨stop, rest, hshape, hsuffix⟩ :=
      absorb_shape ⟨range.domain, last.begin, max range.stop last.stop⟩ after
    rw [List.dropLast_concat]
    refine ⟨separated_append.mpr ⟨hinit, hsep, fun a ha b hb => ?_⟩, fun domain slot => ?_⟩
    · rw [hshape] at hb
      rcases List.mem_cons.mp hb with rfl | hb
      · have := hinitLast a ha last (List.mem_singleton.mpr rfl)
        rwa [Lib.Run.Before, hdomain] at this
      · exact hcross a (List.mem_append_left _ ha) b (hsuffix.subset hb)
    · rw [holds_append, hholds, holds_append, holds_append, holds_cons]
      have hmerge : Lib.Run.Mem ⟨range.domain, last.begin, max range.stop last.stop⟩ domain slot ↔
          last.Mem domain slot ∨ range.Mem domain slot := by
        simp only [Lib.Run.Mem, hdomain, ← and_or_left]
        refine and_congr_right fun _ => ?_
        omega
      rw [hmerge]
      have hnil : ¬ Holds ([] : WrittenRuns) domain slot := fun ⟨run, hrun, _⟩ => (nomatch hrun)
      simp only [hnil, or_false]
      tauto
  · rename_i hapart
    have hlastRange : last.Before range := by
      rcases hkey with hlt' | ⟨hd, -⟩
      · exact .inl hlt'
      · exact .inr ⟨hd, Nat.lt_of_not_le fun hreach => hapart ⟨hd, hreach⟩⟩
    have hall : ∀ a ∈ init ++ [last], a.Before range := by
      intro a ha
      rcases List.mem_append.mp ha with ha | ha
      · exact (hinitLast a ha last (List.mem_singleton.mpr rfl)).trans hlastLt hlastRange
      · exact List.mem_singleton.mp ha ▸ hlastRange
    obtain ⟨hsep, hholds⟩ := absorb_spec range hlt hafter hgt
    obtain ⟨stop, rest, hshape, hsuffix⟩ := absorb_shape range after
    refine ⟨separated_append.mpr ⟨hbefore, hsep, fun a ha b hb => ?_⟩, fun domain slot => ?_⟩
    · rw [hshape] at hb
      rcases List.mem_cons.mp hb with rfl | hb
      · exact hall a ha
      · exact hcross a ha b (hsuffix.subset hb)
    · rw [holds_append, hholds, @holds_append _ _ _ (init ++ [last]), or_assoc]
      exact or_congr_right Or.comm

/-- **`Covers` asks whether every slot of a range is held.** -/
theorem covers_iff (h : Separated runs) (hlt : range.begin < range.stop) :
    runs.covers range = true ↔
      ∀ slot, range.begin ≤ slot → slot < range.stop → Holds runs range.domain slot := by
  have hsplit : (runs.takeWhile fun run => run.keyLe range) ++
      (runs.dropWhile fun run => run.keyLe range) = runs :=
    List.takeWhile_append_dropWhile
  rw [h.covered_iff hlt]
  constructor
  · intro hcovers
    unfold covers at hcovers
    split at hcovers
    · cases hcovers
    · rename_i run hlast
      obtain ⟨hdomain, hstop⟩ := decide_eq_true_eq.mp hcovers
      have hin := List.mem_of_getLast? hlast
      refine ⟨run, ?_, hdomain, ?_, hlt.trans_le hstop, hstop⟩
      · exact (List.takeWhile_prefix _).subset hin
      · rcases Lib.Run.keyLe_iff.mp (keyLe_of_mem_takeWhile hin) with hlt' | ⟨-, hbegin⟩
        · exact absurd hlt' (by rw [hdomain]; exact Nat.lt_irrefl _)
        · exact hbegin
  · rintro ⟨run, hrun, hdomain, hbegin, hwithin, hstop⟩
    have hlast := Lib.Separated.holder_last range (hsplit.symm ▸ h) (hsplit.symm ▸ hrun)
      ⟨hdomain, hbegin, hwithin⟩ (fun a ha => keyLe_of_mem_takeWhile ha)
      fun b hb => not_keyLe_of_mem_dropWhile h hb
    unfold covers
    rw [hlast]
    exact decide_eq_true ⟨hdomain, hstop⟩

end

theorem separated_nil : Separated ([] : WrittenRuns) :=
  ⟨fun _ h => (nomatch h), List.Pairwise.nil⟩

theorem foldl_add_spec {α : Type} (rangeOf : α → StepGraphRange) (items : List α)
    {runs : WrittenRuns} (h : Separated runs) :
    Separated (items.foldl (fun runs item => WrittenRuns.add runs (rangeOf item)) runs) ∧ ∀ domain slot,
      Holds (items.foldl (fun runs item => WrittenRuns.add runs (rangeOf item)) runs) domain slot ↔
        Holds runs domain slot ∨ ∃ item ∈ items, (rangeOf item).Mem domain slot := by
  induction items generalizing runs with
  | nil => exact ⟨h, fun domain slot => by simp⟩
  | cons item items ih =>
      obtain ⟨hsep, hholds⟩ := add_spec h (rangeOf item)
      obtain ⟨hsep', hholds'⟩ := ih hsep
      refine ⟨hsep', fun domain slot => ?_⟩
      rw [List.foldl_cons, hholds', hholds]
      simp only [List.mem_cons, or_and_right, exists_or, exists_eq_left, or_assoc]

end WrittenRuns

/-! ## The reads of the steps -/

section

variable {ρ : Type} {rangeOf : ρ → StepGraphRange}

/-- A slot that is excluded, or written by a step before the `s`th. -/
def WrittenBefore (rangeOf : ρ → StepGraphRange) (excluded : List StepGraphRange)
    (steps : List (Step ρ)) (s : Nat) (domain slot : Nat) : Prop :=
  (∃ range ∈ excluded, range.Mem domain slot) ∨
    ∃ earlier step, earlier < s ∧ steps[earlier]? = some step ∧
      ∃ write ∈ step.writes, (rangeOf write).Mem domain slot

/-- Every slot a step reads, in a domain with no value before the run, is written before. -/
def ReadsWritten (rangeOf : ρ → StepGraphRange) (excluded : List StepGraphRange)
    (steps : List (Step ρ)) : Prop :=
  ∀ s step, steps[s]? = some step → ∀ read ∈ step.reads,
    domainHoldsValue (rangeOf read).domain = false →
      ∀ slot, (rangeOf read).begin ≤ slot → slot < (rangeOf read).stop →
        WrittenBefore rangeOf excluded steps s (rangeOf read).domain slot

theorem stepReads_eq_none {written : WrittenRuns} (h : Separated written) (s : Nat)
    (reads : List ρ) :
    (reads.findSome? fun read =>
        if (rangeOf read).begin < (rangeOf read).stop ∧
            domainHoldsValue (rangeOf read).domain = false ∧
            written.covers (rangeOf read) = false then
          some (Fault.unwritten s (rangeOf read)) else none) = none ↔
      ∀ read ∈ reads, domainHoldsValue (rangeOf read).domain = false →
        ∀ slot, (rangeOf read).begin ≤ slot → slot < (rangeOf read).stop →
          Holds written (rangeOf read).domain slot := by
  rw [List.findSome?_eq_none_iff]
  refine forall₂_congr fun read _ => ?_
  simp only [ite_eq_right_iff, reduceCtorEq, imp_false, not_and, Bool.not_eq_false]
  constructor
  · intro hcovers hdomain slot hbegin hstop
    have hlt := Nat.lt_of_le_of_lt hbegin hstop
    exact (WrittenRuns.covers_iff h hlt).mp (hcovers hlt hdomain) slot hbegin hstop
  · intro hheld hlt hdomain
    exact (WrittenRuns.covers_iff h hlt).mpr (hheld hdomain)

theorem readsError_eq_none (excluded : List StepGraphRange) (done steps : List (Step ρ))
    {written : WrittenRuns} (hsep : Separated written)
    (hwritten : ∀ domain slot, Holds written domain slot ↔
      WrittenBefore rangeOf excluded (done ++ steps) done.length domain slot) :
    readsError rangeOf done.length written steps = none ↔
      ∀ s step, steps[s]? = some step → ∀ read ∈ step.reads,
        domainHoldsValue (rangeOf read).domain = false →
          ∀ slot, (rangeOf read).begin ≤ slot → slot < (rangeOf read).stop →
            WrittenBefore rangeOf excluded (done ++ steps) (done.length + s)
              (rangeOf read).domain slot := by
  induction steps generalizing done written with
  | nil => simp [readsError]
  | cons step steps ih =>
      obtain ⟨hsep', hholds⟩ := WrittenRuns.foldl_add_spec rangeOf step.writes hsep
      have hassoc : done ++ step :: steps = (done ++ [step]) ++ steps := by simp
      have hlen : (done ++ [step]).length = done.length + 1 := by simp
      have hself : (done ++ step :: steps)[done.length]? = some step := by simp
      have hnext := ih (done ++ [step]) hsep' fun domain slot => by
        rw [hholds, hwritten, ← hassoc, hlen]
        constructor
        · rintro ((hexcluded | ⟨earlier, at_, hlt, hat, hwrite⟩) | hwrite)
          · exact .inl hexcluded
          · exact .inr ⟨earlier, at_, Nat.lt_succ_of_lt hlt, hat, hwrite⟩
          · exact .inr ⟨done.length, step, Nat.lt_succ_self _, hself, hwrite⟩
        · rintro (hexcluded | ⟨earlier, at_, hlt, hat, hwrite⟩)
          · exact .inl (.inl hexcluded)
          · rcases Nat.lt_succ_iff_lt_or_eq.mp hlt with hlt | rfl
            · exact .inl (.inr ⟨earlier, at_, hlt, hat, hwrite⟩)
            · cases hself.symm.trans hat
              exact .inr hwrite
      rw [readsError, Option.orElse_eq_none, stepReads_eq_none hsep, ← hlen, hnext, ← hassoc]
      constructor
      · rintro ⟨hfirst, hrest⟩ s at_ hat read hread hdomain slot hbegin hstop
        cases s with
        | zero =>
            cases hat
            exact (hwritten _ _).mp (hfirst read hread hdomain slot hbegin hstop)
        | succ s =>
            have := hrest s at_ hat read hread hdomain slot hbegin hstop
            rwa [hlen, Nat.add_right_comm] at this
      · intro hall
        refine ⟨fun read hread hdomain slot hbegin hstop => (hwritten _ _).mpr
            (hall 0 step rfl read hread hdomain slot hbegin hstop),
          fun s at_ hat read hread hdomain slot hbegin hstop => ?_⟩
        have := hall (s + 1) at_ hat read hread hdomain slot hbegin hstop
        rwa [hlen, Nat.add_right_comm]

/-- **The reads check** accepts exactly when every read slot is written before it is read. -/
theorem readsError_excluded_eq_none (excluded : List StepGraphRange) (steps : List (Step ρ)) :
    readsError rangeOf 0 (excluded.foldl WrittenRuns.add []) steps = none ↔
      ReadsWritten rangeOf excluded steps := by
  obtain ⟨hsep, hholds⟩ := WrittenRuns.foldl_add_spec id excluded WrittenRuns.separated_nil
  have hmain := @readsError_eq_none ρ rangeOf excluded [] steps _ hsep
    fun domain slot => by
      rw [hholds]
      constructor
      · rintro (⟨run, hrun, -⟩ | hexcluded)
        · cases hrun
        · exact .inl hexcluded
      · rintro (hexcluded | ⟨earlier, step, hlt, -⟩)
        · exact .inr hexcluded
        · exact absurd hlt (Nat.not_lt_zero _)
  simp only [List.length_nil, List.nil_append, Nat.zero_add] at hmain
  exact hmain

end

end RigExec.StepGraph
