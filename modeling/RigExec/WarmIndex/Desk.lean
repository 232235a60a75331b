/-
# `RigExec.WarmIndex.Desk` — request cells between the owner and the workers

The request map belongs to one owner thread; workers only hold cells that
`RequestPublicationFor` handed out, and publish through them at any later time:

    owner     replaces and clears the cells in the rows, one call at a time
    worker    claims a captured cell (compare-exchange), then stores `ready`

A cell is never reset and never put back.  A row that loses its cell can only
get a new one, so every cell captured before is out of reach of the row
(`step_row`); and a cell leaves `unclaimed` once (`step_cell`).
-/
import RigExec.WarmIndex.Cells

namespace RigExec.WarmIndex

open RigExec.Scheduler

variable {Rig Time : Type}

/-! ## The threads around the request map -/

/-- Where the owner stands inside `NoteRequestPublished`. -/
inductive OwnerPhase where
  | ready
  | publishing (captured : Option Nat) (key : FrameCacheKey) (generation : Nat)
  | storing (number : Nat)

/-- The index, the publications handed out, and the publishes between claim and store. -/
structure Desk (Rig Time : Type) where
  index : WarmFrameIndex Rig Time := {}
  captured : List (Option Nat) := []
  storing : Nat → Option Nat := fun _ => none
  owner : OwnerPhase := .ready

/-- A call of the owner or of a worker, or the next atomic of one. -/
inductive DeskEvent (Rig Time : Type) where
  | op (op : IndexOp Rig Time)
  | transition (transition : WarmTransition Rig Time)
  | requestPublicationFor (rig : Rig) (time : Time) (generation : Nat) (epochDigest : UInt64)
  | publish (worker : Nat) (publication : Nat) (key : FrameCacheKey) (generation : Nat)
  | store (worker : Nat)
  | noteRequestPublished (rig : Rig) (time : Time) (key : FrameCacheKey) (generation : Nat)
      (requestToken : Nat)
  | ownerPublish
  | ownerStore

/-- The calls registry-owner serialization is required for. -/
def IndexOp.byOwner : IndexOp Rig Time → Bool
  | .noteGeneration _ _ => true
  | .noteDirtied _ _ => true
  | .resetRig _ => true
  | .setRequest _ _ _ _ => true
  | .invalidateRequest _ => true
  | _ => false

namespace Desk

/-- The cell an event claims. -/
def claimed (d : Desk Rig Time) : DeskEvent Rig Time → Option Nat
  | .publish worker publication key generation =>
      match d.storing worker, d.captured[publication]? with
      | none, some captured => d.index.claims captured key generation
      | _, _ => none
  | .ownerPublish =>
      match d.owner with
      | .publishing captured key generation => d.index.claims captured key generation
      | _ => none
  | _ => none

section

variable [DecidableEq Rig] [DecidableEq Time]

/-- One call or atomic; an owner call waits while the owner is inside another. -/
def step (d : Desk Rig Time) (event : DeskEvent Rig Time) : Option (Desk Rig Time) :=
  match event with
  | .op op =>
      match op.byOwner, d.owner with
      | true, .publishing _ _ _ => none
      | true, .storing _ => none
      | _, _ => some { d with index := op.apply d.index }
  | .transition transition => some { d with index := d.index.noteTransition transition }
  | .requestPublicationFor rig time generation epochDigest =>
      match d.owner with
      | .ready =>
          let made := d.index.requestPublicationFor rig time generation epochDigest
          some { d with index := made.2, captured := d.captured ++ [made.1] }
      | _ => none
  | .publish worker publication _ _ =>
      match d.storing worker, d.captured[publication]? with
      | none, some _ =>
          match d.claimed event with
          | some number =>
              some { d with
                index := d.index.setState number .claimed
                storing := Function.update d.storing worker (some number) }
          | none => some d
      | _, _ => none
  | .store worker =>
      match d.storing worker with
      | some number =>
          some { d with
            index := d.index.setState number .ready
            storing := Function.update d.storing worker none }
      | none => none
  | .noteRequestPublished rig time key generation requestToken =>
      match d.owner with
      | .ready =>
          if requestToken = 0 ∨ (d.index.requests rig).isNone ∨
              d.index.requestToken rig ≠ requestToken then some d
          else
            let made := d.index.requestPublicationFor rig time generation key.epochDigest
            some { d with index := made.2, owner := .publishing made.1 key generation }
      | _ => none
  | .ownerPublish =>
      match d.owner with
      | .publishing _ _ _ =>
          match d.claimed event with
          | some number =>
              some { d with index := d.index.setState number .claimed, owner := .storing number }
          | none => some { d with owner := .ready }
      | _ => none
  | .ownerStore =>
      match d.owner with
      | .storing number =>
          some { d with index := d.index.setState number .ready, owner := .ready }
      | _ => none

/-- A history of the index and its publishers. -/
abbrev history (events : List (DeskEvent Rig Time)) : Option (Desk Rig Time) :=
  Lib.run step {} events

/-- The request row an event captures, with its scope. -/
def captures (d : Desk Rig Time) : DeskEvent Rig Time → Option (Rig × Time × Nat × UInt64)
  | .requestPublicationFor rig time generation epochDigest =>
      some (rig, time, generation, epochDigest)
  | .noteRequestPublished rig time key generation requestToken =>
      if requestToken = 0 ∨ (d.index.requests rig).isNone ∨
          d.index.requestToken rig ≠ requestToken then none
      else some (rig, time, generation, key.epochDigest)
  | _ => none

/-- Whether an event invalidates a row: the calls that clear or replace the rows of its rig, and a
capture that gives the row a cell of another generation or epoch. -/
def invalidates (d : Desk Rig Time) (event : DeskEvent Rig Time) (rig : Rig) (time : Time) : Prop :=
  match event with
  | .op (.noteGeneration at_ _) => at_ = rig
  | .op (.noteDirtied at_ _) => at_ = rig
  | .op (.resetRig at_) => at_ = rig
  | .op (.setRequest at_ _ _ _) => at_ = rig
  | .op (.invalidateRequest at_) => at_ = rig
  | event => ∃ generation epochDigest, d.captures event = some (rig, time, generation, epochDigest) ∧
      (d.index.requestPublicationFor rig time generation epochDigest).2.rowCell rig time ≠
        d.index.rowCell rig time

/-- A cell some thread can still publish through. -/
def handedOut (d : Desk Rig Time) (number : Nat) : Prop :=
  some number ∈ d.captured ∨ (∃ key generation, d.owner = .publishing (some number) key generation) ∨
    d.owner = .storing number ∨ ∃ worker, d.storing worker = some number

end

end Desk

/-! ## What one event does -/

section

variable [DecidableEq Rig] [DecidableEq Time]

open WarmFrameIndex

namespace Desk

variable {d d' : Desk Rig Time} {event : DeskEvent Rig Time}

/-- The state a step writes over a cell: the claim of an unclaimed cell, or the store of a cell
whose claim went before. -/
inductive CellWrite (d : Desk Rig Time) (event : DeskEvent Rig Time) (number : Nat) :
    ProgressState → Prop where
  | claim (h : d.claimed event = some number) : CellWrite d event number .claimed
  | store (h : d.owner = .storing number ∨ ∃ worker, d.storing worker = some number) :
      CellWrite d event number .ready

/-- **What a step does to the index**: an owner or hook call, a capture, one cell overwritten, or
nothing. -/
theorem step_index (h : d.step event = some d') :
    (∃ op, event = .op op ∧ d'.index = op.apply d.index) ∨
    (∃ transition, event = .transition transition ∧
      d'.index = d.index.noteTransition transition) ∨
    (∃ rig time generation epochDigest,
      d.captures event = some (rig, time, generation, epochDigest) ∧
      d'.index = (d.index.requestPublicationFor rig time generation epochDigest).2) ∨
    ((∀ op, event ≠ .op op) ∧ d.captures event = none) ∧
      ((∃ number state, d.CellWrite event number state ∧
        d'.index = d.index.setState number state) ∨ d'.index = d.index) := by
  cases event with
  | op op =>
      simp only [step] at h
      split at h
      · cases h
      · cases h
      · cases h
        exact .inl ⟨op, rfl, rfl⟩
  | transition transition =>
      cases h
      exact .inr (.inl ⟨transition, rfl, rfl⟩)
  | requestPublicationFor rig time generation epochDigest =>
      simp only [step] at h
      split at h
      · cases h
        exact .inr (.inr (.inl ⟨rig, time, generation, epochDigest, rfl, rfl⟩))
      · cases h
  | publish worker publication key generation =>
      simp only [step] at h
      split at h
      · split at h
        · rename_i number hclaim
          cases h
          exact .inr (.inr (.inr ⟨⟨by simp, rfl⟩, .inl ⟨number, .claimed, .claim hclaim, rfl⟩⟩))
        · cases h
          exact .inr (.inr (.inr ⟨⟨by simp, rfl⟩, .inr rfl⟩))
      · cases h
  | store worker =>
      simp only [step] at h
      split at h
      · rename_i number hstoring
        cases h
        exact .inr (.inr (.inr ⟨⟨by simp, rfl⟩,
          .inl ⟨number, .ready, .store (.inr ⟨worker, hstoring⟩), rfl⟩⟩))
      · cases h
  | noteRequestPublished rig time key generation requestToken =>
      simp only [step] at h
      split at h
      · split at h
        · rename_i hstale
          cases h
          exact .inr (.inr (.inr ⟨⟨by simp, if_pos hstale⟩, .inr rfl⟩))
        · rename_i hcurrent
          cases h
          exact .inr (.inr (.inl ⟨rig, time, generation, key.epochDigest, if_neg hcurrent, rfl⟩))
      · cases h
  | ownerPublish =>
      simp only [step] at h
      split at h
      · split at h
        · rename_i number hclaim
          cases h
          exact .inr (.inr (.inr ⟨⟨by simp, rfl⟩, .inl ⟨number, .claimed, .claim hclaim, rfl⟩⟩))
        · cases h
          exact .inr (.inr (.inr ⟨⟨by simp, rfl⟩, .inr rfl⟩))
      · cases h
  | ownerStore =>
      simp only [step] at h
      split at h
      · rename_i number howner
        cases h
        exact .inr (.inr (.inr ⟨⟨by simp, rfl⟩, .inl ⟨number, .ready, .store (.inl howner), rfl⟩⟩))
      · cases h

omit [DecidableEq Rig] [DecidableEq Time] in
/-- What a claim finds: an unclaimed cell that was handed out. -/
theorem claimed_spec {number : Nat} (h : d.claimed event = some number) :
    d.handedOut number ∧
      ∃ progress, d.index.cells[number]? = some progress ∧ progress.state = .unclaimed := by
  cases event with
  | publish worker publication key generation =>
      simp only [claimed] at h
      split at h
      · rename_i captured hcaptured
        obtain ⟨rfl, hcell⟩ := claims_eq_some h
        exact ⟨.inl (List.mem_of_getElem? hcaptured), _, hcell, rfl⟩
      · cases h
  | ownerPublish =>
      simp only [claimed] at h
      split at h
      · rename_i captured key generation howner
        obtain ⟨rfl, hcell⟩ := claims_eq_some h
        exact ⟨.inr (.inl ⟨key, generation, howner⟩), _, hcell, rfl⟩
      · cases h
  | _ => cases h

/-! ## The invariant -/

/-- A publish stands between the claim and the store of this cell. -/
def stores (d : Desk Rig Time) (number : Nat) : Prop :=
  d.owner = .storing number ∨ ∃ worker, d.storing worker = some number

/-- Every cell in a row or in somebody's hands was made, and a cell about to be stored is claimed. -/
structure DeskWf (d : Desk Rig Time) : Prop where
  row : ∀ rig time number, d.index.rowCell rig time = some number → number < d.index.cells.length
  handedOut : ∀ number, d.handedOut number → number < d.index.cells.length
  stores : ∀ number, d.stores number →
    ∃ progress, d.index.cells[number]? = some progress ∧ progress.state ≠ .unclaimed

/-- **Cells across a step**: the scope stays, and a cell leaves `unclaimed` only by the claim of it
and never comes back. -/
theorem step_cell (hwf : DeskWf d) (h : d.step event = some d') {number : Nat}
    {progress : Progress} (hcell : d.index.cells[number]? = some progress) :
    ∃ progress', d'.index.cells[number]? = some progress' ∧
      progress'.generation = progress.generation ∧
      progress'.epochDigest = progress.epochDigest ∧
      (progress.state ≠ .unclaimed → progress'.state ≠ .unclaimed) ∧
      (progress.state = .unclaimed → progress'.state ≠ .unclaimed →
        d.claimed event = some number) := by
  have hgrown : ∀ made, d'.index.cells = d.index.cells ++ made →
      d'.index.cells[number]? = some progress := by
    intro made hmade
    rw [hmade, List.getElem?_append_left (List.getElem?_eq_some_iff.mp hcell).1, hcell]
  have hsame : d'.index.cells[number]? = some progress →
      ∃ progress', d'.index.cells[number]? = some progress' ∧
        progress'.generation = progress.generation ∧
        progress'.epochDigest = progress.epochDigest ∧
        (progress.state ≠ .unclaimed → progress'.state ≠ .unclaimed) ∧
        (progress.state = .unclaimed → progress'.state ≠ .unclaimed →
          d.claimed event = some number) :=
    fun hcell' => ⟨progress, hcell', rfl, rfl, id, fun hun hne => absurd hun hne⟩
  rcases step_index h with ⟨op, -, hindex⟩ | ⟨transition, -, hindex⟩ |
    ⟨rig, time, generation, epochDigest, -, hindex⟩ | ⟨-, ⟨other, state, hwrite, hindex⟩ | hindex⟩
  · obtain ⟨made, hmade⟩ := apply_cells d.index op
    exact hsame (hgrown made (hindex ▸ hmade))
  · exact hsame (hgrown [] (by rw [hindex, List.append_nil]; rfl))
  · rcases d.index.requestPublicationFor_cases rig time generation epochDigest with
      ⟨hmade, -⟩ | ⟨-, hmade, -, -⟩
    · exact hsame (hgrown [] (by rw [hindex, hmade, List.append_nil]))
    · exact hsame (hgrown _ (hindex ▸ hmade))
  · by_cases hn : other = number
    · subst hn
      have hcell' : d'.index.cells[other]? = some { progress with state } := by
        simp only [hindex, setState, List.getElem?_modify_eq, hcell, Option.map_eq_map, Option.map_some]
      cases hwrite with
      | claim hclaimed =>
          exact ⟨_, hcell', rfl, rfl, fun _ h => (by cases h), fun _ _ => hclaimed⟩
      | store hstores =>
          obtain ⟨found, hfound, hne⟩ := hwf.stores other hstores
          cases hcell.symm.trans hfound
          exact ⟨_, hcell', rfl, rfl, fun _ h => (by cases h), fun hun _ => absurd hun hne⟩
    · refine hsame ?_
      simp only [hindex, setState, List.getElem?_modify_ne _ _ hn, hcell]
  · exact hsame (by rw [hindex, hcell])

theorem step_cells_length (hwf : DeskWf d) (h : d.step event = some d') :
    d.index.cells.length ≤ d'.index.cells.length := by
  refine Nat.le_of_not_lt fun hlt => ?_
  obtain ⟨progress, hcell, -⟩ := step_cell hwf h (List.getElem?_eq_getElem hlt)
  exact Nat.lt_irrefl _ (List.getElem?_eq_some_iff.mp hcell).1

/-- How a row gets a fresh cell: a seed of the request made, or the capture of the row. -/
inductive Fills (d : Desk Rig Time) (event : DeskEvent Rig Time) (d' : Desk Rig Time) (rig : Rig)
    (time : Time) (number : Nat) : Prop where
  | seed (times : List Time) (generation : Nat) (epochDigest : UInt64)
      (call : event = .op (.setRequest rig times generation epochDigest)) (asked : time ∈ times)
      (standing : (d.index.frames (rig, time)).currentCompletion generation epochDigest = true)
      (cell : d'.index.cells[number]? = some ⟨generation, epochDigest, .ready⟩)
  | capture (generation : Nat) (epochDigest : UInt64)
      (call : d.captures event = some (rig, time, generation, epochDigest))
      (given : (d.index.requestPublicationFor rig time generation epochDigest).1 = some number)
      (cell : d'.index.cells[number]? = some ⟨generation, epochDigest, .unclaimed⟩)

theorem clears_of_invalidates_op {op : IndexOp Rig Time} {rig : Rig} {time : Time}
    (h : d.invalidates (.op op) rig time) : op.clears = some rig := by
  cases op with
  | noteGeneration other generation => exact congrArg some h
  | noteDirtied other at_ => exact congrArg some h
  | resetRig other => exact congrArg some h
  | setRequest other times generation epochDigest => exact congrArg some h
  | invalidateRequest other => exact congrArg some h
  | _ =>
      obtain ⟨_, _, hcaptures, -⟩ := h
      cases hcaptures

theorem not_invalidates_of_no_capture {rig : Rig} {time : Time} (hop : ∀ op, event ≠ .op op)
    (hcaptures : ∀ generation epochDigest,
      d.captures event ≠ some (rig, time, generation, epochDigest)) :
    ¬ d.invalidates event rig time := by
  cases event with
  | op op => exact absurd rfl (hop op)
  | _ =>
      rintro ⟨generation, epochDigest, h, -⟩
      exact hcaptures generation epochDigest h

/-- **A row across a step**: it keeps its cell and is not invalidated, or loses it, or gets a fresh
one. -/
theorem step_row (h : d.step event = some d') (rig : Rig) (time : Time) :
    (¬ d.invalidates event rig time ∧ d'.index.rowCell rig time = d.index.rowCell rig time) ∨
    d'.index.rowCell rig time = none ∨
    ∃ number, d'.index.rowCell rig time = some number ∧ d.index.cells.length ≤ number ∧
      Fills d event d' rig time number := by
  rcases step_index h with ⟨op, rfl, hindex⟩ | ⟨transition, rfl, hindex⟩ |
    ⟨other, at_, generation, epochDigest, hcaptures, hindex⟩ |
    ⟨⟨hop, hcaptures⟩, hwrite⟩
  · rcases apply_row d.index op rig time with ⟨hclears, hrow⟩ | hrow |
      ⟨times, generation, epochDigest, number, rfl, hrow, hge, hcell, hmem, hcurrent⟩
    · exact .inl ⟨fun hinv => hclears (clears_of_invalidates_op hinv), hindex ▸ hrow⟩
    · exact .inr (.inl (hindex ▸ hrow))
    · exact .inr (.inr ⟨number, hindex ▸ hrow, hge,
        .seed times generation epochDigest rfl hmem hcurrent (hindex ▸ hcell)⟩)
  · refine .inl ⟨not_invalidates_of_no_capture (by simp) (by simp [captures]), ?_⟩
    rw [hindex]
    rfl
  · have hop : ∀ op, event ≠ .op op := by
      rintro op rfl
      cases hcaptures
    rcases d.index.requestPublicationFor_cases other at_ generation epochDigest with
      ⟨hsame, -⟩ | ⟨hgiven, hcells, hrow, hothers⟩
    · refine .inl ⟨?_, by rw [hindex, hsame]⟩
      cases event with
      | op op => exact absurd rfl (hop op)
      | _ =>
          rintro ⟨generation', epochDigest', hcaptures', hne⟩
          cases hcaptures.symm.trans hcaptures'
          exact hne (by rw [hsame])
    · by_cases hplace : (rig, time) = (other, at_)
      · obtain ⟨rfl, rfl⟩ := Prod.mk.inj hplace
        refine .inr (.inr ⟨_, hindex ▸ hrow, Nat.le_refl _,
          .capture generation epochDigest hcaptures hgiven ?_⟩)
        rw [hindex, hcells, List.getElem?_append_right (Nat.le_refl _), Nat.sub_self]
        rfl
      · refine .inl ⟨not_invalidates_of_no_capture hop fun g e hcaptures' => hplace ?_,
          hindex ▸ hothers rig time hplace⟩
        cases hcaptures.symm.trans hcaptures'
        rfl
  · refine .inl ⟨not_invalidates_of_no_capture hop (by simp [hcaptures]), ?_⟩
    rcases hwrite with ⟨number, state, -, hindex⟩ | hindex
    · rw [hindex]
      rfl
    · rw [hindex]

theorem step_claimed (h : d.step event = some d') {number : Nat}
    (hclaimed : d.claimed event = some number) :
    ∃ progress, d'.index.cells[number]? = some progress ∧ progress.state ≠ .unclaimed := by
  obtain ⟨-, progress, hcell, -⟩ := claimed_spec hclaimed
  have hwritten : d'.index = d.index.setState number .claimed →
      ∃ progress, d'.index.cells[number]? = some progress ∧ progress.state ≠ .unclaimed := by
    intro hindex
    refine ⟨{ progress with state := .claimed }, ?_, (nomatch ·)⟩
    simp only [hindex, setState, List.getElem?_modify_eq, hcell, Option.map_eq_map,
      Option.map_some]
  cases event with
  | publish worker publication key generation | ownerPublish =>
      simp only [step] at h
      split at h
      · rw [hclaimed] at h
        cases h
        exact hwritten rfl
      · cases h
  | _ => cases hclaimed

omit [DecidableEq Rig] [DecidableEq Time] in
theorem storing_update {storing : Nat → Option Nat} {worker w number : Nat} {cell : Option Nat}
    (h : Function.update storing worker cell w = some number) :
    cell = some number ∨ storing w = some number := by
  by_cases hw : w = worker
  · subst hw
    rw [Function.update_self] at h
    exact .inl h
  · rw [Function.update_of_ne hw] at h
    exact .inr h

theorem step_handedOut (h : d.step event = some d') {number : Nat} (hout : d'.handedOut number) :
    d.handedOut number ∨ ∃ rig time generation epochDigest,
      d'.index = (d.index.requestPublicationFor rig time generation epochDigest).2 ∧
      (d.index.requestPublicationFor rig time generation epochDigest).1 = some number := by
  cases event with
  | op op =>
      simp only [step] at h
      split at h
      · cases h
      · cases h
      · cases h
        exact .inl hout
  | transition transition =>
      cases h
      exact .inl hout
  | requestPublicationFor rig time generation epochDigest =>
      simp only [step] at h
      split at h
      · cases h
        rcases hout with hcaptured | hout
        · rcases List.mem_append.mp hcaptured with hcaptured | hgiven
          · exact .inl (.inl hcaptured)
          · exact .inr ⟨rig, time, generation, epochDigest, rfl,
              (List.mem_singleton.mp hgiven).symm⟩
        · exact .inl (.inr hout)
      · cases h
  | publish worker publication key generation =>
      simp only [step] at h
      split at h
      · split at h
        · rename_i claimed hclaimed
          cases h
          rcases hout with hcaptured | hpublishing | howner | ⟨w, hstoring⟩
          · exact .inl (.inl hcaptured)
          · exact .inl (.inr (.inl hpublishing))
          · exact .inl (.inr (.inr (.inl howner)))
          · rcases storing_update hstoring with he | hstoring
            · cases he
              exact .inl (claimed_spec hclaimed).1
            · exact .inl (.inr (.inr (.inr ⟨w, hstoring⟩)))
        · cases h
          exact .inl hout
      · cases h
  | store worker =>
      simp only [step] at h
      split at h
      · cases h
        rcases hout with hcaptured | hpublishing | howner | ⟨w, hstoring⟩
        · exact .inl (.inl hcaptured)
        · exact .inl (.inr (.inl hpublishing))
        · exact .inl (.inr (.inr (.inl howner)))
        · rcases storing_update hstoring with he | hstoring
          · cases he
          · exact .inl (.inr (.inr (.inr ⟨w, hstoring⟩)))
      · cases h
  | noteRequestPublished rig time key generation requestToken =>
      simp only [step] at h
      split at h
      · split at h
        · cases h
          exact .inl hout
        · cases h
          rcases hout with hcaptured | ⟨key', generation', hpublishing⟩ | howner | hstoring
          · exact .inl (.inl hcaptured)
          · exact .inr ⟨rig, time, generation, key.epochDigest, rfl,
              (OwnerPhase.publishing.inj hpublishing).1⟩
          · cases howner
          · exact .inl (.inr (.inr (.inr hstoring)))
      · cases h
  | ownerPublish =>
      simp only [step] at h
      split at h
      · split at h
        · rename_i claimed hclaimed
          cases h
          rcases hout with hcaptured | ⟨key', generation', hpublishing⟩ | howner | hstoring
          · exact .inl (.inl hcaptured)
          · cases hpublishing
          · cases howner
            exact .inl (claimed_spec hclaimed).1
          · exact .inl (.inr (.inr (.inr hstoring)))
        · cases h
          rcases hout with hcaptured | ⟨key', generation', hpublishing⟩ | howner | hstoring
          · exact .inl (.inl hcaptured)
          · cases hpublishing
          · cases howner
          · exact .inl (.inr (.inr (.inr hstoring)))
      · cases h
  | ownerStore =>
      simp only [step] at h
      split at h
      · cases h
        rcases hout with hcaptured | ⟨key', generation', hpublishing⟩ | howner | hstoring
        · exact .inl (.inl hcaptured)
        · cases hpublishing
        · cases howner
        · exact .inl (.inr (.inr (.inr hstoring)))
      · cases h

theorem step_stores (h : d.step event = some d') {number : Nat} (hstores : d'.stores number) :
    d.stores number ∨ d.claimed event = some number := by
  cases event with
  | op op =>
      simp only [step] at h
      split at h
      · cases h
      · cases h
      · cases h
        exact .inl hstores
  | transition transition =>
      cases h
      exact .inl hstores
  | requestPublicationFor rig time generation epochDigest =>
      simp only [step] at h
      split at h
      · cases h
        exact .inl hstores
      · cases h
  | publish worker publication key generation =>
      simp only [step] at h
      split at h
      · split at h
        · rename_i claimed hclaimed
          cases h
          rcases hstores with howner | ⟨w, hstoring⟩
          · exact .inl (.inl howner)
          · rcases storing_update hstoring with he | hstoring
            · exact .inr (hclaimed.trans he)
            · exact .inl (.inr ⟨w, hstoring⟩)
        · cases h
          exact .inl hstores
      · cases h
  | store worker =>
      simp only [step] at h
      split at h
      · cases h
        rcases hstores with howner | ⟨w, hstoring⟩
        · exact .inl (.inl howner)
        · rcases storing_update hstoring with he | hstoring
          · cases he
          · exact .inl (.inr ⟨w, hstoring⟩)
      · cases h
  | noteRequestPublished rig time key generation requestToken =>
      simp only [step] at h
      split at h
      · split at h
        · cases h
          exact .inl hstores
        · cases h
          rcases hstores with howner | hstoring
          · cases howner
          · exact .inl (.inr hstoring)
      · cases h
  | ownerPublish =>
      simp only [step] at h
      split at h
      · split at h
        · rename_i claimed hclaimed
          cases h
          rcases hstores with howner | hstoring
          · cases howner
            exact .inr hclaimed
          · exact .inl (.inr hstoring)
        · cases h
          rcases hstores with howner | hstoring
          · cases howner
          · exact .inl (.inr hstoring)
      · cases h
  | ownerStore =>
      simp only [step] at h
      split at h
      · cases h
        rcases hstores with howner | hstoring
        · cases howner
        · exact .inl (.inr hstoring)
      · cases h

theorem DeskWf.step (hwf : DeskWf d) (h : d.step event = some d') : DeskWf d' := by
  have hlength := step_cells_length hwf h
  refine ⟨fun rig time number hrow => ?_, fun number hout => ?_, fun number hstores => ?_⟩
  · rcases step_row h rig time with ⟨-, hsame⟩ | hnone | ⟨fresh, hfresh, -, hfills⟩
    · exact Nat.lt_of_lt_of_le (hwf.row rig time number (hsame ▸ hrow)) hlength
    · cases hrow.symm.trans hnone
    · cases hrow.symm.trans hfresh
      cases hfills with
      | seed _ _ _ _ _ _ cell | capture _ _ _ _ cell => exact (List.getElem?_eq_some_iff.mp cell).1
  · rcases step_handedOut h hout with hout | ⟨rig, time, generation, epochDigest, hindex, hgiven⟩
    · exact Nat.lt_of_lt_of_le (hwf.handedOut number hout) hlength
    · rcases d.index.requestPublicationFor_cases rig time generation epochDigest with
        ⟨-, hrow⟩ | ⟨hfresh, hcells, -, -⟩
      · exact Nat.lt_of_lt_of_le (hrow number hgiven).2 hlength
      · cases hfresh.symm.trans hgiven
        rw [hindex, hcells, List.length_append]
        exact Nat.lt_succ_self _
  · rcases step_stores h hstores with hstores | hclaimed
    · obtain ⟨progress, hcell, hne⟩ := hwf.stores number hstores
      obtain ⟨progress', hcell', -, -, hstays, -⟩ := step_cell hwf h hcell
      exact ⟨progress', hcell', hstays hne⟩
    · exact step_claimed h hclaimed

omit [DecidableEq Rig] [DecidableEq Time] in
theorem DeskWf.initial : DeskWf ({} : Desk Rig Time) where
  row := fun _ _ _ h => (nomatch h)
  handedOut := by
    rintro number (h | ⟨key, generation, h⟩ | h | ⟨worker, h⟩) <;> cases h
  stores := by
    rintro number (h | ⟨worker, h⟩) <;> cases h

theorem DeskWf.history {events : List (DeskEvent Rig Time)} (h : history events = some d) :
    DeskWf d :=
  Lib.run_preserves (fun _ _ _ hwf hstep => hwf.step hstep) .initial h
end Desk

end

end RigExec.WarmIndex
