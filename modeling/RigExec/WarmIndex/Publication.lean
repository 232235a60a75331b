/-
# `RigExec.WarmIndex.Publication` — a row is published by its own cells only

Over a history a row's cell has one origin, the event that filled the row, and
what came before that event cannot reach the row any more:

    row_provenance       who filled the row, and that nothing cleared it since
    run_row_fresh        a row never gets back a cell made before
    run_claimedIn        a ready cell was claimed after it was made
    requestCells_never_resurrected   the three together, for every history
-/
import RigExec.WarmIndex.Desk

namespace RigExec.WarmIndex.Desk

open WarmFrameIndex

variable {Rig Time : Type} [DecidableEq Rig] [DecidableEq Time] {d d' : Desk Rig Time}

/-! ## Runs -/

theorem run_cell {events : List (DeskEvent Rig Time)} (hwf : DeskWf d)
    (h : Lib.run Desk.step d events = some d') {number : Nat} {progress : Progress}
    (hcell : d.index.cells[number]? = some progress) :
    ∃ progress', d'.index.cells[number]? = some progress' ∧
      progress'.generation = progress.generation ∧
      progress'.epochDigest = progress.epochDigest ∧
      (progress.state ≠ .unclaimed → progress'.state ≠ .unclaimed) := by
  induction events generalizing d progress with
  | nil =>
      cases h
      exact ⟨progress, hcell, rfl, rfl, id⟩
  | cons event events ih =>
      obtain ⟨next, hstep, hrun⟩ := Lib.run_cons_eq_some.mp h
      obtain ⟨middle, hmiddle, hgeneration, hepoch, hstays, -⟩ := step_cell hwf hstep hcell
      obtain ⟨last, hlast, hgeneration', hepoch', hstays'⟩ := ih (hwf.step hstep) hrun hmiddle
      exact ⟨last, hlast, hgeneration'.trans hgeneration, hepoch'.trans hepoch,
        fun hne => hstays' (hstays hne)⟩

/-- Some event of the run claims the cell. -/
def ClaimedIn (d : Desk Rig Time) (events : List (DeskEvent Rig Time)) (number : Nat) : Prop :=
  ∃ pre event post at_, events = pre ++ event :: post ∧ Lib.run Desk.step d pre = some at_ ∧
    at_.claimed event = some number

/-- A cell that left `unclaimed` during a run was claimed in it. -/
theorem run_claimedIn {events : List (DeskEvent Rig Time)} (hwf : DeskWf d)
    (h : Lib.run Desk.step d events = some d') {number : Nat} {progress progress' : Progress}
    (hcell : d.index.cells[number]? = some progress) (hun : progress.state = .unclaimed)
    (hcell' : d'.index.cells[number]? = some progress') (hne : progress'.state ≠ .unclaimed) :
    ClaimedIn d events number := by
  induction events generalizing d progress with
  | nil =>
      cases h
      cases hcell.symm.trans hcell'
      exact absurd hun hne
  | cons event events ih =>
      obtain ⟨next, hstep, hrun⟩ := Lib.run_cons_eq_some.mp h
      obtain ⟨middle, hmiddle, -, -, -, hclaim⟩ := step_cell hwf hstep hcell
      by_cases hm : middle.state = .unclaimed
      · obtain ⟨pre, event', post, at_, rfl, hpre, hclaimed⟩ :=
          ih (hwf.step hstep) hrun hmiddle hm
        exact ⟨event :: pre, event', post, at_, rfl,
          Lib.run_cons_eq_some.mpr ⟨next, hstep, hpre⟩, hclaimed⟩
      · exact ⟨[], event, events, d, rfl, rfl, hclaim hun hm⟩

theorem run_row_fresh {events : List (DeskEvent Rig Time)} (hwf : DeskWf d)
    (h : Lib.run Desk.step d events = some d') {rig : Rig} {time : Time} {bound : Nat}
    (hbound : bound ≤ d.index.cells.length)
    (hrow : ∀ number, d.index.rowCell rig time = some number → bound ≤ number) :
    ∀ number, d'.index.rowCell rig time = some number → bound ≤ number := by
  induction events generalizing d with
  | nil =>
      cases h
      exact hrow
  | cons event events ih =>
      obtain ⟨next, hstep, hrun⟩ := Lib.run_cons_eq_some.mp h
      refine ih (hwf.step hstep) hrun (hbound.trans (step_cells_length hwf hstep)) ?_
      intro number hnumber
      rcases step_row hstep rig time with ⟨-, hsame⟩ | hnone | ⟨fresh, hfresh, hge, -⟩
      · exact hrow number (hsame ▸ hnumber)
      · cases hnumber.symm.trans hnone
      · cases hnumber.symm.trans hfresh
        exact hbound.trans hge

/-- **Where a row's cell comes from**: one event of the history filled the row, and nothing has
invalidated it since. -/
theorem row_provenance {events : List (DeskEvent Rig Time)} (h : history events = some d)
    {rig : Rig} {time : Time} {number : Nat} (hrow : d.index.rowCell rig time = some number) :
    ∃ pre event post before after, events = pre ++ event :: post ∧ history pre = some before ∧
      before.step event = some after ∧ Lib.run Desk.step after post = some d ∧
      Fills before event after rig time number ∧
      Lib.Meets Desk.step (fun s e => ¬ s.invalidates e rig time) after post := by
  induction events using List.reverseRecOn generalizing d with
  | nil =>
      cases h
      cases hrow
  | append_singleton events event ih =>
      obtain ⟨before, hbefore, hone⟩ := Lib.run_append_eq_some.mp h
      obtain ⟨last, hstep, hnil⟩ := Lib.run_cons_eq_some.mp hone
      cases hnil
      rcases step_row hstep rig time with ⟨hkept, hsame⟩ | hnone | ⟨fresh, hfresh, -, hfills⟩
      · obtain ⟨pre, filling, post, start, after, rfl, hpre, hfill, hpost, hfills, hmeets⟩ :=
          ih hbefore (hsame ▸ hrow)
        refine ⟨pre, filling, post ++ [event], start, after, by simp, hpre, hfill,
          Lib.run_append_eq_some.mpr ⟨before, hpost, hone⟩, hfills, ?_⟩
        rw [Lib.meets_append_singleton hpost]
        exact ⟨hmeets, hkept⟩
      · cases hrow.symm.trans hnone
      · cases hrow.symm.trans hfresh
        exact ⟨events, event, [], before, d, rfl, hbefore, hstep, rfl, hfills, trivial⟩

/-! ## Every history -/

/-- **Request cells are never resurrected.**  In the state a history reaches,

* a row is published only through the seed of the `SetRequest` in force, or through the cell
  captured by an event after which nothing invalidated the row, claimed since;
* a cell in anybody's hands when a row was invalidated is not in the row, and overwriting it
  leaves the row's answer as it is;
* no two events of the history claim one cell. -/
theorem requestCells_never_resurrected {events : List (DeskEvent Rig Time)}
    (h : history events = some d) :
    (∀ rig time generation epochDigest,
      d.index.hasRequestPublished rig time generation epochDigest = true →
      ∃ pre event post before after, events = pre ++ event :: post ∧
        history pre = some before ∧ before.step event = some after ∧
        Lib.Meets Desk.step (fun s e => ¬ s.invalidates e rig time) after post ∧
        ((∃ times, event = .op (.setRequest rig times generation epochDigest) ∧ time ∈ times ∧
          (before.index.frames (rig, time)).currentCompletion generation epochDigest = true) ∨
        ∃ number, before.captures event = some (rig, time, generation, epochDigest) ∧
          (before.index.requestPublicationFor rig time generation epochDigest).1 = some number ∧
          ClaimedIn after post number)) ∧
    (∀ pre event post before rig time, events = pre ++ event :: post →
      history pre = some before → before.invalidates event rig time →
      ∀ number, before.handedOut number → d.index.rowCell rig time ≠ some number ∧
        ∀ state generation epochDigest,
          (d.index.setState number state).hasRequestPublished rig time generation epochDigest =
            d.index.hasRequestPublished rig time generation epochDigest) ∧
    ∀ pre event mid event' post before between number,
      events = pre ++ event :: (mid ++ event' :: post) → history pre = some before →
      history (pre ++ event :: mid) = some between → before.claimed event = some number →
      between.claimed event' ≠ some number := by
  refine ⟨fun rig time generation epochDigest hpublished => ?_,
    fun pre event post before rig time hevents hpre hinv number hout => ?_,
    fun pre event mid event' post before between number hevents hpre hmid hclaimed hagain => ?_⟩
  · obtain ⟨number, hrow, hcell⟩ := hasRequestPublished_eq_true.mp hpublished
    obtain ⟨pre, event, post, before, after, hevents, hpre, hstep, hpost, hfills, hmeets⟩ :=
      row_provenance h hrow
    have hwf : DeskWf after := (DeskWf.history hpre).step hstep
    refine ⟨pre, event, post, before, after, hevents, hpre, hstep, hmeets, ?_⟩
    cases hfills with
    | seed times g e call asked standing cell =>
        obtain ⟨progress', hcell', hg, he, -⟩ := run_cell hwf hpost cell
        cases hcell.symm.trans hcell'
        cases hg
        cases he
        exact .inl ⟨times, call, asked, standing⟩
    | capture g e call given cell =>
        obtain ⟨progress', hcell', hg, he, -⟩ := run_cell hwf hpost cell
        cases hcell.symm.trans hcell'
        cases hg
        cases he
        exact .inr ⟨number, call, given,
          run_claimedIn hwf hpost cell rfl hcell' (nomatch ·)⟩
  · subst hevents
    obtain ⟨start, hstart, hrest⟩ := Lib.run_append_eq_some.mp h
    cases hpre.symm.trans hstart
    obtain ⟨after, hstep, hpost⟩ := Lib.run_cons_eq_some.mp hrest
    have hwf : DeskWf before := .history hpre
    have hfresh : ∀ n, after.index.rowCell rig time = some n → before.index.cells.length ≤ n := by
      intro n hn
      rcases step_row hstep rig time with ⟨hkept, -⟩ | hnone | ⟨fresh, hrow, hge, -⟩
      · exact absurd hinv hkept
      · cases hn.symm.trans hnone
      · cases hn.symm.trans hrow
        exact hge
    have hne : d.index.rowCell rig time ≠ some number := fun hrow =>
      absurd (hwf.handedOut number hout) (Nat.not_lt_of_le
        (run_row_fresh (hwf.step hstep) hpost (step_cells_length hwf hstep) hfresh number hrow))
    exact ⟨hne, fun state generation epochDigest =>
      setState_hasRequestPublished hne state generation epochDigest⟩
  · obtain ⟨start, hstart, hrest⟩ := Lib.run_append_eq_some.mp hmid
    cases hpre.symm.trans hstart
    obtain ⟨after, hstep, hbetween⟩ := Lib.run_cons_eq_some.mp hrest
    obtain ⟨progress, hcell, hne⟩ := step_claimed hstep hclaimed
    obtain ⟨progress', hcell', -, -, hstays⟩ :=
      run_cell ((DeskWf.history hpre).step hstep) hbetween hcell
    obtain ⟨-, found, hfound, hun⟩ := claimed_spec hagain
    cases hcell'.symm.trans hfound
    exact hstays hne hun

/-- A captured cell outlives the edit that clears its row: the row gets cell 1, which is published,
and cell 0 stays out of it. -/
theorem requestCells_never_resurrected_dirtied :
    ∃ d : Desk Nat Int,
      history [.op (.setRequest 0 [1] 0 7), .requestPublicationFor 0 1 0 7,
        .op (.noteDirtied 0 1), .requestPublicationFor 0 1 0 7, .publish 0 1 ⟨7, 0⟩ 0,
        .store 0] = some d ∧
      d.index.hasRequestPublished 0 1 0 7 = true ∧ d.index.rowCell 0 1 ≠ some 0 := by
  refine ⟨_, rfl, rfl, ?_⟩
  exact ((@requestCells_never_resurrected Nat Int _ _ _
    [.op (.setRequest 0 [1] 0 7), .requestPublicationFor 0 1 0 7, .op (.noteDirtied 0 1),
      .requestPublicationFor 0 1 0 7, .publish 0 1 ⟨7, 0⟩ 0, .store 0] rfl).2.1
    [.op (.setRequest 0 [1] 0 7), .requestPublicationFor 0 1 0 7] (.op (.noteDirtied 0 1)) _ _ 0 1
    rfl rfl rfl 0 (.inl (List.mem_singleton.mpr rfl))).1

end RigExec.WarmIndex.Desk
