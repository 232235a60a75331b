/-
# `RigExec.Baked.LiveOrders` — running an accepted schedule in another order

The checks of the edges, of the slot producers and of the pose versions, read together as
statements about every order of execution that respects the step edges:

    noted            nothing is wrong with the recorded versions: each has one writer
    Bound            the one writer of a version a read is bound to stands before the reader
    IsShared         a slot whose writers the checks do not order
    Ordered          the edges order them all the same, for what a step reads and before it
    LiveSchedule     a read has its producer, and such a step sees what it sees in step order

Only the edge from a slot's first writer is checked.  A slot that several steps declare to write is
read as the order of their edges leaves it.
-/
import RigExec.Baked.PoseVersions
import RigExec.Lib.Dataflow

namespace RigExec.Baked

open Lib (Before Comparable Topological)

/-! ## What is recorded -/

def Entry.record? : Entry → Option Record
  | .version record => some record
  | .frame _ _ => none

def Entry.frame? : Entry → Option (Nat × Nat)
  | .version _ => none
  | .frame step object => some (object.toNat, step)

/-- A version, as it is looked up. -/
def Record.version (record : Record) : SlotDomain × Nat := (record.domain, record.entry)

/-- Each version has one writer, and each frame record one step. -/
structure Recorded.Distinct (t : Recorded) : Prop where
  written : (t.written.map Record.version).Nodup
  frameSteps : (t.frameSteps.map Prod.fst).Nodup

/-- `t` with one more entry. -/
def Recorded.add (t : Recorded) (entry : Entry) : Recorded :=
  { t with
    written := t.written ++ entry.record?.toList
    frameSteps := t.frameSteps ++ entry.frame?.toList }

/-- A frame entry names a record. -/
def Entry.inRange (P : PoseProgram) : Entry → Prop
  | .version _ => True
  | .frame _ object => within object P.frameRecords.length = true

variable {P : PoseProgram}

theorem writersOf_eq_nil {written : List Record} {record : Record}
    (h : writersOf written record.domain record.entry = []) :
    record.version ∉ written.map Record.version := by
  intro hmem
  obtain ⟨other, hother, heq⟩ := List.mem_map.mp hmem
  have hnot := List.filter_eq_nil_iff.mp h other hother
  simp only [Record.version, Prod.mk.injEq] at heq
  simp [heq] at hnot

theorem lines_of_note {t : Recorded} {entry : Entry} (h : (note P t entry).lines = []) :
    t.lines = [] := by
  cases entry with
  | version record =>
      simp only [note] at h
      split at h
      · exact absurd h (by simp)
      · split at h
        · exact h
        · exact absurd h (by simp)
  | frame step object =>
      simp only [note] at h
      split at h
      · exact absurd h (by simp)
      · split at h
        · exact absurd h (by simp)
        · exact h

theorem note_eq_add {t : Recorded} {entry : Entry} (h : (note P t entry).lines = [])
    (ht : t.Distinct) :
    note P t entry = t.add entry ∧ (t.add entry).Distinct ∧ entry.inRange P := by
  have hlines := lines_of_note h
  cases entry with
  | version record =>
      simp only [note, hlines, List.nil_append] at h ⊢
      by_cases hpast : P.sizeOf record.domain ≤ record.entry
      · simp [hpast] at h
      · rw [if_neg hpast] at h ⊢
        cases hw : writersOf t.written record.domain record.entry with
        | cons other rest => simp [hw] at h
        | nil =>
            refine ⟨by simp [Recorded.add, Entry.record?, Entry.frame?, hlines], ⟨?_, ?_⟩, trivial⟩
            · rw [Recorded.add, List.map_append, List.nodup_append_comm]
              exact List.nodup_cons.mpr ⟨writersOf_eq_nil hw, ht.written⟩
            · simpa [Recorded.add, Entry.frame?] using ht.frameSteps
  | frame step object =>
      simp only [note, hlines, List.nil_append] at h ⊢
      by_cases hrange : within object P.frameRecords.length = true
      · rw [if_neg (by simp [hrange])] at h ⊢
        cases hstep : t.frameSteps.lookup object.toNat with
        | some other => simp [hstep] at h
        | none =>
            have hnew : object.toNat ∉ t.frameSteps.map Prod.fst := by
              intro hmem
              obtain ⟨other, hother, heq⟩ := List.mem_map.mp hmem
              have hne := List.lookup_eq_none_iff.mp hstep other hother
              simp [heq] at hne
            refine ⟨by simp [Recorded.add, Entry.record?, Entry.frame?, hlines], ⟨?_, ?_⟩, hrange⟩
            · simpa [Recorded.add, Entry.record?] using ht.written
            · rw [Recorded.add, List.map_append, List.nodup_append_comm]
              exact List.nodup_cons.mpr ⟨hnew, ht.frameSteps⟩
      · simp [hrange] at h

theorem foldl_note {entries : List Entry} {t : Recorded}
    (h : (entries.foldl (note P) t).lines = []) (ht : t.Distinct) :
    (entries.foldl (note P) t).written = t.written ++ entries.filterMap Entry.record? ∧
      (entries.foldl (note P) t).frameSteps = t.frameSteps ++ entries.filterMap Entry.frame? ∧
      (entries.foldl (note P) t).Distinct ∧ ∀ entry ∈ entries, entry.inRange P := by
  induction entries using List.reverseRecOn with
  | nil => exact ⟨by simp, by simp, ht, by simp⟩
  | append_singleton entries entry ih =>
      rw [List.foldl_append, List.foldl_cons, List.foldl_nil] at h ⊢
      obtain ⟨hwritten, hframes, hdistinct, hall⟩ := ih (lines_of_note h)
      obtain ⟨hadd, hnext, hrange⟩ := note_eq_add h hdistinct
      rw [hadd]
      refine ⟨?_, ?_, hnext, ?_⟩
      · rw [Recorded.add, hwritten, List.append_assoc, List.filterMap_append]
        cases entry <;> rfl
      · rw [Recorded.add, hframes, List.append_assoc, List.filterMap_append]
        cases entry <;> rfl
      · intro other hother
        rcases List.mem_append.mp hother with hmem | hmem
        · exact hall other hmem
        · rw [List.mem_singleton.mp hmem]
          exact hrange

variable (P) in
/-- The versions that are written, each with the step that writes it. -/
def versions : List Record := (entries P).filterMap Entry.record?

/-- What the check finds in the tables of an accepted program. -/
structure Noted (P : PoseProgram) : Prop where
  written : (recorded P).written = versions P
  nodup : ((versions P).map Record.version).Nodup
  frameStep : ∀ reader < P.steps.length, (P.stepAt reader).kind = .frameMatrix →
    within (P.stepAt reader).object P.frameRecords.length = true ∧
      (recorded P).frameSteps.lookup (P.stepAt reader).object.toNat = some reader

theorem lookup_of_nodup {keyed : List (Nat × Nat)} {key value : Nat}
    (hnodup : (keyed.map Prod.fst).Nodup) (h : (key, value) ∈ keyed) :
    keyed.lookup key = some value := by
  obtain ⟨front, back, rfl⟩ := List.append_of_mem h
  refine List.lookup_eq_some_iff.mpr ⟨front, back, rfl, fun other hother => ?_⟩
  rw [List.map_append, List.map_cons, List.nodup_middle, List.nodup_cons] at hnodup
  refine bne_iff_ne.mpr fun heq => hnodup.1 (List.mem_append_left _ ?_)
  exact List.mem_map.mpr ⟨other, hother, heq.symm⟩

theorem frame_mem_entries {reader : Nat} (hreader : reader < P.steps.length)
    (hkind : (P.stepAt reader).kind = .frameMatrix) :
    Entry.frame reader (P.stepAt reader).object ∈ entries P := by
  refine List.mem_append_left _ (List.mem_append_left _ ?_)
  refine List.mem_flatMap.mpr ⟨reader, List.mem_range.mpr hreader, ?_⟩
  simp [stepEntries, hkind]

theorem noted_of_lines (h : (recorded P).lines = []) : Noted P := by
  have hempty : Recorded.Distinct ⟨[], [], []⟩ := ⟨List.nodup_nil, List.nodup_nil⟩
  obtain ⟨hwritten, hframes, hdistinct, hrange⟩ := foldl_note h hempty
  rw [List.nil_append] at hwritten hframes
  have hnodup := hdistinct.written
  rw [hwritten] at hnodup
  refine ⟨hwritten, hnodup, fun reader hreader hkind => ?_⟩
  have hmem := frame_mem_entries hreader hkind
  refine ⟨hrange _ hmem, lookup_of_nodup hdistinct.frameSteps ?_⟩
  refine hframes ▸ List.mem_filterMap.mpr ⟨_, hmem, rfl⟩

theorem writersOf_versions (hnoted : Noted P) {record : Record} (h : record ∈ versions P) :
    writersOf (versions P) record.domain record.entry = [record] := by
  have hkey : ∀ other : Record,
      ((other.domain = record.domain) && other.entry == record.entry) = true ↔
        other.version = record.version := by
    simp [Record.version]
  obtain ⟨front, back, hcut⟩ := List.append_of_mem h
  have hnodup := hnoted.nodup
  rw [hcut, List.map_append, List.map_cons, List.nodup_middle, List.nodup_cons, List.mem_append,
    not_or] at hnodup
  have hother : ∀ others : List Record, record.version ∉ others.map Record.version →
      writersOf others record.domain record.entry = [] := by
    intro others hout
    refine List.filter_eq_nil_iff.mpr fun other hmem heq => hout ?_
    exact List.mem_map.mpr ⟨other, hmem, (hkey other).mp heq⟩
  have hfront := hother front hnodup.1.1
  have hback := hother back hnodup.1.2
  have hself : writersOf (record :: back) record.domain record.entry
      = record :: writersOf back record.domain record.entry :=
    List.filter_cons_of_pos ((hkey record).mpr rfl)
  rw [hcut, writersOf, List.filter_append, ← writersOf, ← writersOf, hfront, hself, hback]
  rfl

theorem writerOf_eq_some (hnoted : Noted P) {domain : SlotDomain} {entry : Nat} {record : Record} :
    writerOf P domain entry = some record ↔
      record ∈ versions P ∧ record.version = (domain, entry) := by
  constructor
  · intro h
    have hmem := List.mem_of_mem_head? h
    rw [hnoted.written] at hmem
    obtain ⟨hin, hkey⟩ := List.mem_filter.mp hmem
    simp only [Bool.and_eq_true, decide_eq_true_eq, beq_iff_eq] at hkey
    exact ⟨hin, by rw [Record.version, hkey.1, hkey.2]⟩
  · rintro ⟨hin, hkey⟩
    simp only [Record.version, Prod.mk.injEq] at hkey
    rw [writerOf, hnoted.written, ← hkey.1, ← hkey.2, writersOf_versions hnoted hin]
    rfl

/-! ## What a read is bound to -/

variable (P) in
/-- The version that the frame record of a `FrameMatrix` step names. -/
def frameBindings (reader : Nat) : List Binding :=
  if (P.stepAt reader).kind = .frameMatrix then
    match entryAt P.frameRecords (P.stepAt reader).object with
    | none => []
    | some record => [⟨.poseFin, record.version, false⟩]
  else []

variable (P) in
/-- The versions that a step's reads are bound to, by its tables and by its declaration. -/
def boundReads (reader : Nat) : List Binding :=
  bindings P reader ++ frameBindings P reader ++ declaredBindings P reader

/-- What is checked of a binding: no step writes the version and it is a seed or excluded, or one
step writes it, which stands before the reader with an edge to it.  A carry may name what its own
step writes. -/
def Bound (P : PoseProgram) (reader : Nat) (binding : Binding) : Prop :=
  (writersOf (versions P) binding.domain binding.entry = [] ∧
      isDeclaredSeedOrExcluded P.toProgram binding.domain binding.entry = true ∧
      covers (P.stepAt reader).reads binding.domain binding.entry = true) ∨
  ∃ writer, writersOf (versions P) binding.domain binding.entry = [writer] ∧
    (writer.step < reader ∧ (writer.step : Int) ∈ (P.stepAt reader).preds ∧
        covers (P.stepAt reader).reads binding.domain binding.entry = true ∨
      binding.carried = true ∧ writer.step = reader ∧
        covers (P.stepAt reader).writes binding.domain binding.entry = true)

theorem bound_of_checked (hnoted : Noted P) {reader : Nat} {binding : Binding}
    (h : checkBinding P reader binding = []) : Bound P reader binding := by
  unfold checkBinding at h
  cases hw : writerOf P binding.domain binding.entry with
  | none =>
      rw [hw] at h
      dsimp only at h
      split at h
      · exact absurd h (by simp)
      · rename_i hseed
        refine Or.inl ⟨?_, by simpa using hseed, by simpa using lineIf_eq_nil.mp h⟩
        rw [writerOf, List.head?_eq_none_iff, hnoted.written] at hw
        exact hw
  | some writer =>
      rw [hw] at h
      dsimp only at h
      obtain ⟨hin, hkey⟩ := (writerOf_eq_some hnoted).mp hw
      have hone := writersOf_versions hnoted hin
      simp only [Record.version, Prod.mk.injEq] at hkey
      rw [hkey.1, hkey.2] at hone
      refine Or.inr ⟨writer, hone, ?_⟩
      split at h
      · rename_i hinternal
        rw [isInternal, hw, Option.any_some, Bool.and_eq_true, Bool.and_eq_true] at hinternal
        exact Or.inr ⟨hinternal.1.1, by simpa using hinternal.1.2, hinternal.2⟩
      · split at h
        · exact absurd h (by simp)
        · split at h
          · exact absurd h (by simp)
          · rename_i hbefore hcovers
            refine Or.inl ⟨by omega, by simpa using lineIf_eq_nil.mp h, by simpa using hcovers⟩

theorem parts_of_poseVersions (h : validatePoseVersions P = []) (hpaths : P.pathCount ≠ 0) :
    (recorded P).lines = [] ∧
      (∀ reader < P.steps.length, ∀ binding ∈ bindings P reader,
        checkBinding P reader binding = []) ∧
      (∀ r record, P.frameRecords[r]? = some record → frameLines P r record = []) ∧
      ∀ reader < P.steps.length, ∀ binding ∈ declaredBindings P reader,
        checkBinding P reader binding = [] := by
  unfold validatePoseVersions at h
  rw [if_neg hpaths] at h
  split at h
  · exact absurd h (by simp)
  · obtain ⟨hfront, hdeclared⟩ := List.append_eq_nil_iff.mp h
    obtain ⟨hfront, hframes⟩ := List.append_eq_nil_iff.mp hfront
    obtain ⟨hlines, hbindings⟩ := List.append_eq_nil_iff.mp hfront
    refine ⟨hlines, ?_, ?_, ?_⟩
    · intro reader hreader
      have hreads := List.flatMap_eq_nil_iff.mp hbindings reader (List.mem_range.mpr hreader)
      exact List.flatMap_eq_nil_iff.mp (List.append_eq_nil_iff.mp hreads).1
    · intro r record hrecord
      exact List.flatMap_eq_nil_iff.mp hframes (record, r)
        (List.mem_zipIdx_iff_getElem?.mpr hrecord)
    · intro reader hreader
      exact List.flatMap_eq_nil_iff.mp
        (List.flatMap_eq_nil_iff.mp hdeclared reader (List.mem_range.mpr hreader))

theorem frame_checked (hnoted : Noted P) {reader : Nat} (hreader : reader < P.steps.length)
    (hframes : ∀ r record, P.frameRecords[r]? = some record → frameLines P r record = [])
    {binding : Binding} (h : binding ∈ frameBindings P reader) :
    checkBinding P reader binding = [] := by
  unfold frameBindings at h
  split at h
  · rename_i hkind
    obtain ⟨hrange, hstep⟩ := hnoted.frameStep reader hreader hkind
    cases hentry : entryAt P.frameRecords (P.stepAt reader).object with
    | none => simp [hentry] at h
    | some record =>
        rw [hentry, List.mem_singleton] at h
        have hrecord : P.frameRecords[(P.stepAt reader).object.toNat]? = some record := by
          unfold entryAt at hentry
          split at hentry
          · exact absurd hentry (by simp)
          · exact hentry
        have hline := hframes _ record hrecord
        unfold frameLines at hline
        rw [hstep] at hline
        dsimp only at hline
        split at hline
        · exact absurd hline (by simp)
        · rw [h]
          obtain ⟨hline, -⟩ := List.append_eq_nil_iff.mp hline
          obtain ⟨hline, -⟩ := List.append_eq_nil_iff.mp hline
          exact (List.append_eq_nil_iff.mp hline).1
  · exact absurd h (by simp)

/-- **`ValidatePoseVersions`.** -/
theorem bound_of_accepted (h : validatePoseVersions P = []) (hpaths : P.pathCount ≠ 0) :
    Noted P ∧ ∀ reader < P.steps.length, ∀ binding ∈ boundReads P reader,
      Bound P reader binding := by
  obtain ⟨hlines, hbindings, hframes, hdeclared⟩ := parts_of_poseVersions h hpaths
  have hnoted := noted_of_lines hlines
  refine ⟨hnoted, fun reader hreader binding hbinding => bound_of_checked hnoted ?_⟩
  rcases List.mem_append.mp hbinding with hfront | hmem
  · rcases List.mem_append.mp hfront with hmem | hmem
    · exact hbindings reader hreader binding hmem
    · exact frame_checked hnoted hreader hframes hmem
  · exact hdeclared reader hreader binding hmem

/-! ## Slots -/

/-- What is checked of a slot that a step reads: no step writes it and it is a seed or excluded, or
a step before the reader writes it, with an edge to the reader. -/
def HasProducer (B : Program) (index : Nat) (domain : SlotDomain) (slot : Nat) : Prop :=
  ((∀ writer, covers (B.stepAt writer).writes domain slot = false) ∧
      isDeclaredSeedOrExcluded B domain slot = true) ∨
  ∃ writer < index, covers (B.stepAt writer).writes domain slot = true ∧
    (writer : Int) ∈ (B.stepAt index).preds

theorem lt_of_covers_writes {B : Program} {index slot : Nat} {domain : SlotDomain}
    (h : covers (B.stepAt index).writes domain slot = true) : index < B.steps.length := by
  by_contra hge
  rw [stepAt_of_ge (Nat.le_of_not_lt hge)] at h
  exact absurd h (by simp [covers])

theorem covers_of_firstWriter {B : Program} {domain : SlotDomain} {slot writer : Nat}
    (h : firstWriter B domain slot = some writer) :
    covers (B.stepAt writer).writes domain slot = true := by
  unfold firstWriter at h
  simpa using List.find?_some h

theorem hasProducer_of_accepted {B : Program} (h : validateSlotProducers B = []) {index : Nat}
    (hindex : index < B.steps.length) {domain : SlotDomain} {slot : Nat}
    (hsource : domain.isSource = false)
    (hcovers : covers (B.stepAt index).reads domain slot = true) :
    HasProducer B index domain slot := by
  cases hfirst : firstWriter B domain slot with
  | some writer =>
      obtain ⟨hbefore, hedge⟩ := produced_of_accepted h index hindex domain slot hsource hcovers
        writer hfirst
      exact Or.inr ⟨writer, hbefore, covers_of_firstWriter hfirst, hedge⟩
  | none =>
      obtain ⟨hproduced, -⟩ := slot_of_accepted h hindex hsource hcovers
      refine Or.inl ⟨?_, by simpa [isUnproduced, hfirst] using hproduced⟩
      intro writer
      refine eq_false_of_ne_true fun hw => ?_
      exact List.find?_eq_none.mp hfirst writer (List.mem_range.mpr (lt_of_covers_writes hw)) hw

/-! ## Orders of execution -/

section

variable (P)

/-- A domain whose entries are versions, checked by who records them. -/
def isVersioned (domain : SlotDomain) : Bool :=
  P.pathCount != 0 && (domain = .poseFin || domain = .poseBase)

/-- A step may write a slot: a version by the tables, any other slot by its declaration. -/
def mayWrite (index : Nat) (slot : SlotDomain × Nat) : Bool :=
  if isVersioned P slot.1 then
    (versions P).any fun record => record.step == index && record.version = slot
  else covers (P.stepAt index).writes slot.1 slot.2

/-- The steps over the slots; what a step computes is any function of what it reads. -/
def flow {V : Type} (body : Nat → (SlotDomain × Nat → Option V) → SlotDomain × Nat → Option V) :
    Lib.Flow Nat (SlotDomain × Nat) V where
  reads index slot := covers (P.stepAt index).reads slot.1 slot.2
  writes := mayWrite P
  body := body

def predSteps (index : Nat) : List Nat := (P.stepAt index).preds.map Int.toNat

/-- An order of execution: every step once, after the steps it depends on. -/
structure ExecutionOrder (order : List Nat) : Prop where
  nodup : order.Nodup
  complete : ∀ index, index ∈ order ↔ index < P.steps.length
  respects : Topological (predSteps P) order

/-- A slot whose writers the checks do not order: it is no pose version, and it is a source, or two
steps declare to write it. -/
def IsShared (slot : SlotDomain × Nat) : Prop :=
  isVersioned P slot.1 = false ∧
    (slot.1.isSource = true ∨ ∃ writer other, writer ≠ other ∧ mayWrite P writer slot = true ∧
      mayWrite P other slot = true)

/-- The edges order the writers of a shared slot that the step reads, with the step and among
themselves; and so it is before the step. -/
inductive Ordered : Nat → Prop where
  | intro {index : Nat} :
      (∀ (slot : SlotDomain × Nat) (writer : Nat), IsShared P slot →
        covers (P.stepAt index).reads slot.1 slot.2 = true → mayWrite P writer slot = true →
        Comparable (predSteps P) writer index) →
      (∀ (slot : SlotDomain × Nat) (writer other : Nat), IsShared P slot →
        covers (P.stepAt index).reads slot.1 slot.2 = true → mayWrite P writer slot = true →
        mayWrite P other slot = true → Before (predSteps P) writer index →
        Before (predSteps P) other index → Comparable (predSteps P) writer other) →
      (∀ (slot : SlotDomain × Nat) (writer : Nat),
        covers (P.stepAt index).reads slot.1 slot.2 = true → mayWrite P writer slot = true →
        Before (predSteps P) writer index → Ordered writer) →
      Ordered index

end

theorem executionOrder_range (h : StepEdges P.toProgram) :
    ExecutionOrder P (List.range P.steps.length) where
  nodup := List.nodup_range
  complete := fun _ => List.mem_range
  respects := by
    intro front index back hsplit pred hpred
    obtain ⟨edge, hedge, rfl⟩ := List.mem_map.mp hpred
    have hfront : front.length < P.steps.length := by
      have hlength := congrArg List.length hsplit
      simp only [List.length_range, List.length_append, List.length_cons] at hlength
      omega
    have hat : (List.range P.steps.length)[front.length]? = some index := by
      rw [hsplit, List.getElem?_append_right (Nat.le_refl _), Nat.sub_self]
      rfl
    rw [List.getElem?_range hfront, Option.some_inj] at hat
    obtain ⟨hnonneg, hbefore, -⟩ := h.preds index (hat ▸ hfront) edge hedge
    have htake : front = List.range index := by
      have hcut := congrArg (List.take front.length) hsplit
      rw [List.take_left, List.take_range, Nat.min_eq_left hfront.le, hat] at hcut
      exact hcut.symm
    rw [htake, List.mem_range]
    omega

theorem isVersioned_iff {domain : SlotDomain} : isVersioned P domain = true ↔
    P.pathCount ≠ 0 ∧ (domain = .poseFin ∨ domain = .poseBase) := by
  simp [isVersioned]

theorem mem_boundReads {index slot : Nat} {domain : SlotDomain}
    (hversioned : isVersioned P domain = true)
    (hcovers : covers (P.stepAt index).reads domain slot = true) :
    ⟨domain, slot, false⟩ ∈ boundReads P index := by
  obtain ⟨read, hread, rfl, hslot⟩ := covers_iff.mp hcovers
  refine List.mem_append_right _ (List.mem_flatMap.mpr ⟨read, hread, ?_⟩)
  rw [if_neg fun hnot => (isVersioned_iff.mp hversioned).2.elim hnot.1 hnot.2]
  exact List.mem_map.mpr ⟨slot, hslot, rfl⟩

/-- The one writer of what a step reads, and the edge from it. -/
structure WrittenBefore (P : PoseProgram) (index : Nat) (slot : SlotDomain × Nat)
    (writer : Nat) : Prop where
  before : writer < index
  edge : writer ∈ predSteps P index
  only : ∀ other, mayWrite P other slot = true → other = writer

theorem writtenBefore_of_version (hposes : validatePoseVersions P = []) {index writer : Nat}
    (hindex : index < P.steps.length) {slot : SlotDomain × Nat}
    (hversioned : isVersioned P slot.1 = true)
    (hread : covers (P.stepAt index).reads slot.1 slot.2 = true)
    (hwrite : mayWrite P writer slot = true) : WrittenBefore P index slot writer := by
  obtain ⟨hnoted, hbound⟩ := bound_of_accepted hposes (isVersioned_iff.mp hversioned).1
  have hrecords : ∀ other, mayWrite P other slot = true →
      ∃ record ∈ writersOf (versions P) slot.1 slot.2, record.step = other := by
    intro other hother
    rw [mayWrite, if_pos hversioned, List.any_eq_true] at hother
    obtain ⟨record, hin, hrecord⟩ := hother
    simp only [Bool.and_eq_true, beq_iff_eq, decide_eq_true_eq] at hrecord
    refine ⟨record, List.mem_filter.mpr ⟨hin, ?_⟩, hrecord.1⟩
    simp [← hrecord.2, Record.version]
  obtain ⟨record, hin, hstep⟩ := hrecords writer hwrite
  rcases hbound index hindex _ (mem_boundReads hversioned hread) with ⟨hnone, -⟩ |
    ⟨one, hone, hplace⟩
  · rw [hnone] at hin
    exact absurd hin (by simp)
  · have hwriter : one.step = writer := by
      rw [hone, List.mem_singleton] at hin
      rw [← hin, hstep]
    rcases hplace with ⟨hbefore, hedge, -⟩ | ⟨hcarried, -⟩
    · rw [hwriter] at hbefore hedge
      refine ⟨hbefore, List.mem_map.mpr ⟨_, hedge, Int.toNat_natCast writer⟩, ?_⟩
      intro other hother
      obtain ⟨record', hin', hstep'⟩ := hrecords other hother
      rw [hone, List.mem_singleton] at hin'
      rw [← hstep', hin', hwriter]
    · exact absurd hcarried (by simp)

theorem writtenBefore_of_slot (hproducers : validateSlotProducers P.toProgram = [])
    {index writer : Nat} (hindex : index < P.steps.length) {slot : SlotDomain × Nat}
    (hversioned : isVersioned P slot.1 = false) (hshared : ¬ IsShared P slot)
    (hread : covers (P.stepAt index).reads slot.1 slot.2 = true)
    (hwrite : mayWrite P writer slot = true) : WrittenBefore P index slot writer := by
  have hdeclared : ∀ other,
      mayWrite P other slot = covers (P.stepAt other).writes slot.1 slot.2 := by
    intro other
    rw [mayWrite, hversioned, if_neg Bool.false_ne_true]
  have hsource : slot.1.isSource = false :=
    eq_false_of_ne_true fun hsource => hshared ⟨hversioned, Or.inl hsource⟩
  have honly : ∀ other, mayWrite P other slot = true → other = writer := by
    intro other hother
    by_contra hne
    exact hshared ⟨hversioned, Or.inr ⟨other, writer, hne, hother, hwrite⟩⟩
  rcases hasProducer_of_accepted hproducers hindex hsource hread with ⟨hnone, -⟩ |
    ⟨first, hbefore, hcovers, hedge⟩
  · rw [hdeclared, hnone] at hwrite
    exact absurd hwrite Bool.false_ne_true
  · obtain rfl := honly first ((hdeclared first).trans hcovers)
    exact ⟨hbefore, List.mem_map.mpr ⟨_, hedge, Int.toNat_natCast first⟩, honly⟩

theorem steady_of_ordered (hproducers : validateSlotProducers P.toProgram = [])
    (hposes : validatePoseVersions P = []) (hedges : StepEdges P.toProgram) {V : Type}
    {body : Nat → (SlotDomain × Nat → Option V) → SlotDomain × Nat → Option V} {index : Nat}
    (h : Ordered P index) (hindex : index < P.steps.length) :
    (flow P body).Steady (predSteps P) index := by
  induction h with
  | @intro index hwith hamong _ ih =>
      have hwritten : ∀ (slot : SlotDomain × Nat) (writer : Nat), ¬ IsShared P slot →
          covers (P.stepAt index).reads slot.1 slot.2 = true → mayWrite P writer slot = true →
          WrittenBefore P index slot writer := by
        intro slot writer hshared hread hwrite
        cases hversioned : isVersioned P slot.1 with
        | true => exact writtenBefore_of_version hposes hindex hversioned hread hwrite
        | false => exact writtenBefore_of_slot hproducers hindex hversioned hshared hread hwrite
      refine .intro ?_ ?_ ?_
      · intro slot writer hread hwrite
        by_cases hshared : IsShared P slot
        · exact hwith slot writer hshared hread hwrite
        · exact Or.inr (Or.inl (.single (hwritten slot writer hshared hread hwrite).edge))
      · intro slot writer other hread hwrite hother hbefore hbefore'
        by_cases hshared : IsShared P slot
        · exact hamong slot writer other hshared hread hwrite hother hbefore hbefore'
        · exact Or.inl ((hwritten slot writer hshared hread hwrite).only other hother).symm
      · intro slot writer hread hwrite hbefore
        have hsteps := (executionOrder_range hedges).respects
        obtain ⟨front, back, hsplit⟩ := List.append_of_mem (List.mem_range.mpr hindex)
        have hmem := List.mem_append_left (index :: back) (hsteps.mem_of_before hsplit hbefore)
        rw [← hsplit, List.mem_range] at hmem
        exact ih slot writer hread hwrite hbefore hmem

/-! ## Accepted schedules -/

/-- The three checks find nothing. -/
structure Passes (P : PoseProgram) : Prop where
  edges : validateStepEdges P.toProgram = []
  producers : validateSlotProducers P.toProgram = []
  poses : validatePoseVersions P = []

/-- What an accepted schedule promises of its reads. -/
structure LiveSchedule (P : PoseProgram) : Prop where
  producer : ∀ index < P.steps.length, ∀ (domain : SlotDomain) (slot : Nat),
    domain.isSource = false → covers (P.stepAt index).reads domain slot = true →
    HasProducer P.toProgram index domain slot
  bound : P.pathCount ≠ 0 → ∀ reader < P.steps.length, ∀ binding ∈ boundReads P reader,
    Bound P reader binding
  sees : ∀ {V : Type} (body : Nat → (SlotDomain × Nat → Option V) → SlotDomain × Nat → Option V)
    (slots : SlotDomain × Nat → V) (order : List Nat), ExecutionOrder P order →
    ∀ index < P.steps.length, Ordered P index →
      (flow P body).seenIn order slots index
        = (flow P body).seenIn (List.range P.steps.length) slots index

/-- **An accepted schedule runs in any order of its edges.**  Each read has a producer before it,
with an edge, and a step sees what it sees in step order, if the edges order the writers of the
shared slots. -/
theorem liveSchedule_of_accepted (h : Passes P) : LiveSchedule P where
  producer := by
    intro index hindex domain slot hsource hcovers
    exact hasProducer_of_accepted h.producers hindex hsource hcovers
  bound := fun hpaths => (bound_of_accepted h.poses hpaths).2
  sees := by
    intro V body slots order horder index hindex hordered
    have hedges := stepEdges_of_accepted h.edges
    have hsteps := executionOrder_range hedges
    have hsteady := @steady_of_ordered P h.producers h.poses hedges V body index hordered hindex
    exact Lib.Flow.seenIn_eq hsteady horder.respects hsteps.respects horder.nodup hsteps.nodup
      ((horder.complete index).mpr hindex) ((hsteps.complete index).mpr hindex)

/-- One pose slot: a compose, and the matrix of the provider. -/
def onePose : PoseProgram where
  steps :=
    [{ kind := .composeSubtree, object := 0, writes := [⟨.poseFin, 0, 1⟩, ⟨.poseBase, 0, 1⟩],
       succs := [1] },
     { kind := .providerMatrix, object := 0, part := 1, preds := [0]
       reads := [⟨.poseFin, 0, 1⟩, ⟨.poseBase, 0, 1⟩], writes := [⟨.finalMatrix, 0, 1⟩] }]
  pathCount := 1
  pathText := fun _ => "/Rig/root"
  finSize := 1
  baseSize := 1
  finLast := [0]
  baseLast := [0]
  composeGroups := [⟨0, 1⟩]
  commits := []
  walkSteps := []
  constraints := []
  solvers := []
  providerRefreshes := []
  providerValueCount := 0
  poseInterpolators := []
  frameRecords := []

theorem liveSchedule_onePose : LiveSchedule onePose :=
  liveSchedule_of_accepted ⟨by decide, by decide, by decide⟩

/-- Two packets are written to one slot, and the reader depends on the first one only. -/
def twoPackets : PoseProgram :=
  { onePose with
    steps :=
      [{ kind := .weightPacket, object := 0, writes := [⟨.weightPacket, 0, 1⟩], succs := [2] },
       { kind := .weightPacket, object := 1, writes := [⟨.weightPacket, 0, 1⟩] },
       { kind := .weightField, object := 0, reads := [⟨.weightPacket, 0, 1⟩], preds := [0] }]
    composeGroups := [] }

theorem executionOrder_twoPackets : ExecutionOrder twoPackets [0, 2, 1] where
  nodup := by decide
  complete := by
    intro index
    show index ∈ [0, 2, 1] ↔ index < 3
    simp only [List.mem_cons, List.not_mem_nil, or_false]
    omega
  respects := by
    have hfirst := Lib.topological_append_singleton.mpr
      ⟨@Lib.topological_nil _ (predSteps twoPackets), (by decide : ∀ p ∈ predSteps _ 0, p ∈ _)⟩
    have hreader := Lib.topological_append_singleton.mpr
      ⟨hfirst, (by decide : ∀ p ∈ predSteps _ 2, p ∈ _)⟩
    exact Lib.topological_append_singleton.mpr
      ⟨hreader, (by decide : ∀ p ∈ predSteps _ 1, p ∈ _)⟩

/-- A commit carries on what it wrote: the second version of its slot. -/
def ownCarry : PoseProgram :=
  { onePose with
    steps :=
      [{ kind := .composeSubtree, object := 0, writes := [⟨.poseFin, 0, 1⟩, ⟨.poseBase, 0, 1⟩] },
       { kind := .solverCommit, object := 0, writes := [⟨.poseFin, 1, 3⟩, ⟨.poseBase, 1, 3⟩] }]
    finSize := 3
    baseSize := 3
    finLast := [2]
    baseLast := [2]
    commits :=
      [{ slots := [0], propagate := [(0, 0)], slotWrites := [1], slotBaseWrites := [1]
         descendantWrites := [2], descendantBaseWrites := [2], descendantCarry := [1]
         descendantBaseCarry := [1] }] }

/-- The matrix of a provider whose pose is a seed. -/
def seededPose : PoseProgram :=
  { onePose with
    steps :=
      [{ kind := .providerMatrix, object := 0, part := 1
         reads := [⟨.poseFin, 0, 1⟩, ⟨.poseBase, 0, 1⟩], writes := [⟨.finalMatrix, 0, 1⟩] }]
    xformSlots := [0]
    composeGroups := [] }

/-- **Where a read is not bound to an earlier writer, or depends on the order.**  The checks accept
all three.  The edges of `twoPackets` allow the second packet to come last, and the reader then sees
the first; a step of `ownCarry` is bound to what it writes itself, and one of `seededPose` to what
no step writes. -/
theorem accepted_exceptions :
    (Passes twoPackets ∧ ExecutionOrder twoPackets [0, 2, 1] ∧
      (flow twoPackets fun index _ _ => some index).seenIn [0, 2, 1] (fun _ => 9) 2
        ≠ (flow twoPackets fun index _ _ => some index).seenIn (List.range 3) (fun _ => 9) 2) ∧
    (Passes ownCarry ∧ ⟨.poseFin, 1, true⟩ ∈ boundReads ownCarry 1 ∧
      writersOf (versions ownCarry) .poseFin 1 = [⟨.poseFin, 1, 1, 0⟩]) ∧
    (Passes seededPose ∧ ⟨.poseFin, 0, false⟩ ∈ boundReads seededPose 0 ∧
      writersOf (versions seededPose) .poseFin 0 = []) := by
  refine ⟨⟨⟨by decide, by decide, by decide⟩, executionOrder_twoPackets, fun heq => ?_⟩,
    ⟨⟨by decide, by decide, by decide⟩, by decide, by decide⟩,
    ⟨⟨by decide, by decide, by decide⟩, by decide, by decide⟩⟩
  exact absurd (congrFun heq (.weightPacket, 0)) (by decide)

end RigExec.Baked
