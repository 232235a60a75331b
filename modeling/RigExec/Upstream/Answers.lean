/-
# `RigExec.Upstream.Answers` — what a table answers

`ValueAt` answers from one of three stores: the copy at T0, the frames of the window, or the
samples.  The frames are filled once and agree with the samples for good; the copy is
rewritten by every re-anchoring, through `ValueAt` itself.

    keptSamples_eq        the samples an entry keeps, by their times
    valueAt_away          away from T0 the answer is the reconstruction
    Sound.reanchorEntry   one re-anchoring
    Sound.run             any sequence of them

A re-anchoring outside the window finds no value, leaves the copy as it is and moves T0 all
the same; so the copy is right exactly as long as T0 stays in the window, or never moves.
-/
import Mathlib.Data.List.Induction
import Mathlib.Data.List.TakeWhile
import RigExec.Upstream.Table

namespace RigExec.Upstream

variable {T A E : Type} [LinearOrder T] {ops : Arithmetic T A E} {heap : Nat → List E}

/-! ## The samples -/

/-- The samples with a value. -/
def valued (samples : List (Sample T E)) : List (Sample T E) :=
  samples.filter fun sample => !sample.value.isEmpty

/-- **The samples an entry keeps**: for each time, ascending, the first sample with a value. -/
theorem keptSamples_eq (samples : List (Sample T E)) :
    keptSamples samples = (Lib.sortUnique ((valued samples).map Sample.time)).filterMap fun time =>
      (valued samples).find? fun sample => sample.time = time := by
  rw [keptSamples, firstOfRuns, Lib.runs_sortOn, List.filterMap_map]
  refine List.filterMap_congr ?_
  intro time _
  exact List.head?_filter

theorem keptSamples_congr {samples samples' : List (Sample T E)}
    (h : ∀ time, samples.filter (fun sample => sample.time = time) =
      samples'.filter fun sample => sample.time = time) :
    keptSamples samples = keptSamples samples' := by
  have hvalued : ∀ time, (valued samples).filter (fun sample => sample.time = time) =
      (valued samples').filter fun sample => sample.time = time := by
    intro time
    rw [valued, valued, List.filter_comm, h time, List.filter_comm]
  have htimes : ∀ time, time ∈ (valued samples).map Sample.time ↔
      time ∈ (valued samples').map Sample.time := by
    intro time
    have hmem : ∀ list : List (Sample T E), time ∈ list.map Sample.time ↔
        list.filter (fun sample => sample.time = time) ≠ [] := by
      intro list
      rw [List.mem_map, Ne, List.filter_eq_nil_iff]
      simp
    rw [hmem, hmem, hvalued time]
  rw [keptSamples_eq, keptSamples_eq, Lib.sortUnique_congr htimes]
  refine List.filterMap_congr ?_
  intro time _
  rw [← List.head?_filter, ← List.head?_filter, hvalued time]

theorem mem_keptSamples {samples : List (Sample T E)} {sample : Sample T E} :
    sample ∈ keptSamples samples ↔
      (valued samples).find? (fun other => other.time = sample.time) = some sample := by
  rw [keptSamples_eq, List.mem_filterMap]
  constructor
  · rintro ⟨time, -, hfind⟩
    have htime : sample.time = time := by simpa using List.find?_some hfind
    rwa [htime]
  · intro hfind
    refine ⟨sample.time, ?_, hfind⟩
    rw [Lib.mem_sortUnique]
    exact List.mem_map_of_mem (List.mem_of_find?_eq_some hfind)

theorem ascending_keptSamples (samples : List (Sample T E)) :
    ((keptSamples samples).map Sample.time).Pairwise (· < ·) := by
  rw [keptSamples_eq, List.map_filterMap]
  have hsub : ((Lib.sortUnique ((valued samples).map Sample.time)).filterMap fun time =>
      ((valued samples).find? fun sample => sample.time = time).map Sample.time).Sublist
      (Lib.sortUnique ((valued samples).map Sample.time)) := by
    have hid : ∀ times : List T, (times.filterMap fun time =>
        ((valued samples).find? fun sample => sample.time = time).map Sample.time).Sublist times := by
      intro times
      induction times with
      | nil => exact List.Sublist.refl _
      | cons time times ih =>
          rw [List.filterMap_cons]
          cases hfind : (valued samples).find? fun sample => sample.time = time with
          | none => exact ih.trans (List.sublist_cons_self _ _)
          | some sample =>
              have htime : sample.time = time := by simpa using List.find?_some hfind
              simp only [Option.map_some, htime]
              exact ih.cons_cons time
    exact hid _
  exact (Lib.ascending_sortUnique _).sublist hsub

theorem isEmpty_kept {samples : List (Sample T E)} {sample : Sample T E}
    (h : sample ∈ keptSamples samples) : sample.value.isEmpty = false := by
  have hmem := List.mem_of_find?_eq_some (mem_keptSamples.mp h)
  simpa [valued] using (List.mem_filter.mp hmem).2

/-! ## Reconstruction -/

/-- `_Lerp` gives a value when the lower end is one. -/
theorem lerp_isEmpty {lower upper value : Value E} {alpha : A}
    (h : lerp ops heap lower upper alpha = some value) : value.isEmpty = false := by
  unfold lerp at h
  split at h
  · split at h
    · cases h
      rfl
    · cases h
  · split at h
    · split at h
      · cases h
        rfl
      · split at h
        · cases h
          rfl
        · cases h
          rfl
    · cases h
  · cases h

/-- **A reconstruction over samples with values is a value.** -/
theorem reconstruct_isEmpty {samples : List (Sample T E)} (hne : samples ≠ [])
    (hvalues : ∀ sample ∈ samples, sample.value.isEmpty = false) (t : T) (held : Bool) :
    (reconstruct ops heap samples t held).isEmpty = false := by
  have hfront := List.head?_eq_some_head hne
  have hback := List.getLast?_eq_some_getLast hne
  unfold reconstruct
  rw [hfront, hback]
  dsimp only
  split
  · exact hvalues _ (List.head_mem hne)
  · rename_i hafter
    split
    · exact hvalues _ (List.getLast_mem hne)
    · rename_i hbefore
      split
      · rename_i lower upper hlower hupper
        have hin : lower ∈ samples :=
          (List.takeWhile_sublist _).subset (List.mem_of_getLast? hlower)
        split
        · exact hvalues lower hin
        · split
          · exact hvalues lower hin
          · cases hlerp : lerp ops heap lower.value upper.value
                (ops.alpha t lower.time upper.time) with
            | none => exact hvalues lower hin
            | some value => exact lerp_isEmpty hlerp
      · -- the first sample is not after `t`, the last one is
        rename_i hnone
        exfalso
        obtain ⟨front, rest, rfl⟩ := List.exists_cons_of_ne_nil hne
        have hlow : (front :: rest).takeWhile (fun sample => !decide (t < sample.time)) ≠ [] := by
          rw [List.takeWhile_cons_of_pos (by simpa using (not_le.mp hafter).le)]
          exact List.cons_ne_nil _ _
        have hhigh : (front :: rest).dropWhile (fun sample => !decide (t < sample.time)) ≠ [] := by
          intro hnil
          have hall := List.dropWhile_eq_nil_iff.mp hnil _ (List.getLast_mem hne)
          simp only [Bool.not_eq_true', decide_eq_false_iff_not] at hall
          exact hall (not_le.mp hbefore)
        exact hnone _ _ (List.getLast?_eq_some_getLast hlow) (List.head?_eq_some_head hhigh)

/-! ## Hashes -/

theorem foldHash_of_arrayData {value value' : Value E} {data : Nat}
    (h : arrayData heap value = some data) (h' : arrayData heap value' = some data)
    (htype : value.sameType value' = true) :
    foldHash ops heap value = foldHash ops heap value' := by
  have hshared : ∀ v : Value E, arrayData heap v = some data →
      ∃ e, v = .array e (.shared data) := by
    intro v hv
    unfold arrayData at hv
    split at hv
    · cases hv
    · rename_i e address _
      split at hv
      · cases hv
      · cases hv
        exact ⟨e, rfl⟩
    · cases hv
  obtain ⟨e, rfl⟩ := hshared value h
  obtain ⟨e', rfl⟩ := hshared value' h'
  have he : e = e' := of_decide_eq_true htype
  rw [he]

/-- **A sample's hash is reused for its own buffer only.** -/
theorem hashOf_eq (samples : List (Sample T E)) (value : Value E) :
    hashOf ops heap samples value = foldHash ops heap value := by
  unfold hashOf
  split
  · rfl
  · rename_i data hdata
    split
    · rename_i sample hfind
      have hsame := List.find?_some hfind
      simp only [Bool.and_eq_true, decide_eq_true_eq] at hsame
      exact foldHash_of_arrayData hsame.1 hdata hsame.2
    · rfl

/-! ## The frames -/

/-- The entry keeps the samples, and its frames hold what they reconstruct to. -/
structure Framed (ops : Arithmetic T A E) (heap : Nat → List E) (table : Table T E)
    (samples : List (Sample T E)) (entry : Entry T E) : Prop where
  varies : entry.varies = true
  samples_eq : entry.samples = samples
  frames : entry.isArray = false → entry.frameValues = frameRows ops heap table samples
  hashes : entry.isArray = true →
    entry.frameHashes = (frameRows ops heap table samples).map (foldHash ops heap)

/-- An answer is right at a time. -/
def Right (ops : Arithmetic T A E) (heap : Nat → List E) (table : Table T E)
    (samples : List (Sample T E)) (t : T) (value : Value E) (hash : UInt64) : Prop :=
  value = reconstruct ops heap samples t table.held ∧ (hash = foldHash ops heap value ∨ hash = 0)

/-- The time lies in the window. -/
def Table.Inside (table : Table T E) (t : T) : Prop := table.windowLo ≤ t ∧ t ≤ table.windowHi

theorem answer_eq_some {path : String} {value : Value E} {hash : UInt64}
    (h : value.isEmpty = false) : answer path value hash = some ⟨path, value, hash⟩ := by
  rw [answer, if_neg (by simp [h])]

theorem atIndex_frameRows {table : Table T E} {samples : List (Sample T E)} {t : T}
    (hframe : table.isFrame ops t = true) {value : Value E}
    (hrow : atIndex (frameRows ops heap table samples)
      (ops.toInt (ops.floor t) - table.firstFrame) = some value) :
    value = reconstruct ops heap samples t table.held := by
  simp only [Table.isFrame, Bool.and_eq_true, decide_eq_true_eq] at hframe
  obtain ⟨⟨hfloor, hfirst⟩, hlast⟩ := hframe
  have hexact := ops.exact t table.firstFrame table.frameCount hfloor hfirst hlast
  unfold atIndex at hrow
  split at hrow
  · rename_i hindex
    rw [frameRows, List.getElem?_map] at hrow
    obtain ⟨i, hi, rfl⟩ := Option.map_eq_some_iff.mp hrow
    have hval := (List.getElem?_eq_some_iff.mp hi).2
    rw [List.getElem_range] at hval
    have htime : table.firstFrame + (i : Int) = ops.toInt t := by
      rw [hfloor] at hindex hval
      omega
    rw [htime, hexact]
  · cases hrow

section

variable {table : Table T E} {samples : List (Sample T E)} {entry : Entry T E} {path : String}
  {t : T}

/-- **Away from T0**, the answer inside the window is the reconstruction. -/
theorem valueAt_away (path : String) (h : Framed ops heap table samples entry)
    (hvalues : ∀ t, (reconstruct ops heap samples t table.held).isEmpty = false)
    (ht : t ≠ table.t0) (hin : table.Inside t) :
    ∃ hash, valueAt ops heap table path entry t =
        some ⟨path, reconstruct ops heap samples t table.held, hash⟩ ∧
      Right ops heap table samples t (reconstruct ops heap samples t table.held) hash := by
  have hwindow : ¬ (t < table.windowLo ∨ table.windowHi < t) := by
    rintro (hlt | hlt)
    · exact absurd hin.1 (not_le.mpr hlt)
    · exact absurd hin.2 (not_le.mpr hlt)
  unfold valueAt
  rw [if_neg (by simp [h.varies, ht]), if_neg hwindow, h.samples_eq]
  split
  · rename_i hframe
    dsimp only
    split
    · rename_i harray
      refine ⟨_, answer_eq_some (hvalues t), rfl, Or.inl ?_⟩
      rw [h.hashes harray]
      cases hrow : atIndex ((frameRows ops heap table samples).map (foldHash ops heap))
          (ops.toInt (ops.floor t) - table.firstFrame) with
      | none => rfl
      | some hash =>
          unfold atIndex at hrow
          split at hrow
          · rename_i hindex
            rw [List.getElem?_map] at hrow
            obtain ⟨value, hvalue, rfl⟩ := Option.map_eq_some_iff.mp hrow
            have hframeRow : value = reconstruct ops heap samples t table.held :=
              atIndex_frameRows hframe (by rw [atIndex, if_pos hindex, hvalue])
            rw [Option.getD_some, hframeRow]
          · cases hrow
    · rename_i harray
      rw [h.frames (Bool.not_eq_true _ ▸ harray)]
      have hvalue : (atIndex (frameRows ops heap table samples)
          (ops.toInt (ops.floor t) - table.firstFrame)).getD
            (reconstruct ops heap samples t table.held) =
          reconstruct ops heap samples t table.held := by
        cases hrow : atIndex (frameRows ops heap table samples)
            (ops.toInt (ops.floor t) - table.firstFrame) with
        | none => rfl
        | some value => exact atIndex_frameRows hframe hrow
      rw [hvalue]
      exact ⟨0, answer_eq_some (hvalues t), rfl, Or.inr rfl⟩
  · exact ⟨0, answer_eq_some (hvalues t), rfl, Or.inr rfl⟩

theorem valueAt_outside (h : Framed ops heap table samples entry) (ht : t ≠ table.t0)
    (hout : ¬ table.Inside t) : valueAt ops heap table path entry t = none := by
  have hwindow : t < table.windowLo ∨ table.windowHi < t := by
    by_contra hno
    obtain ⟨hlo, hhi⟩ := not_or.mp hno
    exact hout ⟨not_lt.mp hlo, not_lt.mp hhi⟩
  rw [valueAt, if_neg (by simp [h.varies, ht]), if_pos hwindow]

theorem valueAt_t0 (h : entry.atT0.isEmpty = false) :
    valueAt ops heap table path entry table.t0 =
      some ⟨path, entry.atT0, entry.hashAtT0⟩ := by
  rw [valueAt, if_pos (Or.inr rfl), answer_eq_some h]

end

/-! ## Re-anchoring -/

/-- What every re-anchoring keeps: the frames, a copy that is a value, and a right one while T0 is
inside the window. -/
structure Sound (ops : Arithmetic T A E) (heap : Nat → List E) (table : Table T E)
    (samples : List (Sample T E)) (entry : Entry T E) : Prop where
  framed : Framed ops heap table samples entry
  copy : entry.atT0.isEmpty = false
  inside : table.Inside table.t0 →
    Right ops heap table samples table.t0 entry.atT0 entry.hashAtT0

section

variable {table : Table T E} {samples : List (Sample T E)} {entry : Entry T E} {path : String}

theorem Right.kept {t : T} {value : Value E} {hash : UInt64} (isArray : Bool)
    (h : Right ops heap table samples t value hash) :
    Right ops heap table samples t value
      (if isArray then if hash ≠ 0 then hash else foldHash ops heap value else 0) := by
  obtain ⟨hvalue, hhash⟩ := h
  refine ⟨hvalue, ?_⟩
  cases isArray with
  | false => exact Or.inr rfl
  | true =>
      rw [if_pos rfl]
      split
      · exact hhash
      · exact Or.inl rfl

/-- **One re-anchoring.** -/
theorem Sound.reanchorEntry (path : String) (h : Sound ops heap table samples entry)
    (hvalues : ∀ t, (reconstruct ops heap samples t table.held).isEmpty = false) (a : T) :
    Sound ops heap (reanchor ops heap table a) samples
      (reanchorEntry ops heap table a path entry) := by
  have hvaries : ¬ entry.varies = false := by
    rw [h.framed.varies]
    exact Bool.noConfusion
  rcases eq_or_ne a table.t0 with rfl | hne
  · rw [Upstream.reanchorEntry, if_neg hvaries, valueAt_t0 h.copy]
    exact ⟨⟨h.framed.varies, h.framed.samples_eq, h.framed.frames, h.framed.hashes⟩, h.copy,
      fun hin => (h.inside hin).kept entry.isArray⟩
  · by_cases hin : table.Inside a
    · obtain ⟨hash, hanswer, hright⟩ := valueAt_away path h.framed hvalues hne hin
      rw [Upstream.reanchorEntry, if_neg hvaries, hanswer]
      exact ⟨⟨h.framed.varies, h.framed.samples_eq, h.framed.frames, h.framed.hashes⟩, hvalues a,
        fun _ => hright.kept entry.isArray⟩
    · rw [Upstream.reanchorEntry, if_neg hvaries, valueAt_outside h.framed hne hin]
      exact ⟨⟨h.framed.varies, h.framed.samples_eq, h.framed.frames, h.framed.hashes⟩, h.copy,
        fun hin' => absurd hin' hin⟩

theorem Right.reanchorEntry (h : Sound ops heap table samples entry)
    (hright : Right ops heap table samples table.t0 entry.atT0 entry.hashAtT0) :
    Right ops heap (reanchor ops heap table table.t0) samples table.t0
      (reanchorEntry ops heap table table.t0 path entry).atT0
      (reanchorEntry ops heap table table.t0 path entry).hashAtT0 := by
  rw [Upstream.reanchorEntry, if_neg (by rw [h.framed.varies]; exact Bool.noConfusion),
    valueAt_t0 h.copy]
  exact hright.kept entry.isArray

/-- Any sequence of re-anchorings. -/
def reanchorAll (ops : Arithmetic T A E) (heap : Nat → List E) (table : Table T E)
    (anchors : List T) : Table T E :=
  anchors.foldl (reanchor ops heap) table

/-- **Any sequence of re-anchorings** keeps an entry sound, and one whose T0 never moved right. -/
theorem Sound.run {k : Nat} (anchors : List T) (hk : table.entries[k]? = some (path, entry))
    (h : Sound ops heap table samples entry)
    (hvalues : ∀ t, (reconstruct ops heap samples t table.held).isEmpty = false)
    (hright : Right ops heap table samples table.t0 entry.atT0 entry.hashAtT0) :
    ∃ entry', (reanchorAll ops heap table anchors).entries[k]? = some (path, entry') ∧
      Sound ops heap (reanchorAll ops heap table anchors) samples entry' ∧
      (reanchorAll ops heap table anchors).held = table.held ∧
      ((∀ a ∈ anchors, a = table.t0) → (reanchorAll ops heap table anchors).t0 = table.t0 ∧
        Right ops heap (reanchorAll ops heap table anchors) samples table.t0 entry'.atT0
          entry'.hashAtT0) := by
  induction anchors using List.reverseRecOn with
  | nil => exact ⟨entry, hk, h, rfl, fun _ => ⟨rfl, hright⟩⟩
  | append_singleton anchors a ih =>
      obtain ⟨entry', hk', hsound, hheld, hunmoved⟩ := ih
      have hstep : reanchorAll ops heap table (anchors ++ [a]) =
          reanchor ops heap (reanchorAll ops heap table anchors) a := List.foldl_append ..
      rw [hstep]
      refine ⟨_, ?_, hsound.reanchorEntry path (hheld ▸ hvalues) a, hheld, ?_⟩
      · rw [reanchor, List.getElem?_map, hk']
        rfl
      · intro hall
        obtain ⟨ht0, hkept⟩ := hunmoved fun b hb => hall b (List.mem_append_left _ hb)
        have ha := hall a (List.mem_append_right _ (List.mem_singleton_self a))
        refine ⟨ha, ?_⟩
        rw [ha, ← ht0]
        rw [← ht0] at hkept
        exact hkept.reanchorEntry hsound

end

/-! ## Filling -/

/-- **What `RigExecFillVaryingUpstreamEntry` leaves.** -/
theorem fillVarying_sound {table : Table T E} {samples : List (Sample T E)} {entry : Entry T E}
    (h : fillVarying ops heap table samples = some entry) :
    keptSamples samples ≠ [] ∧ Sound ops heap table (keptSamples samples) entry ∧
      Right ops heap table (keptSamples samples) table.t0 entry.atT0 entry.hashAtT0 := by
  unfold fillVarying at h
  split at h
  · cases h
  · rename_i front rest hkept
    have hne : keptSamples samples ≠ [] := by
      rw [hkept]
      exact List.cons_ne_nil _ _
    rw [← hkept] at h
    cases h
    have hhash : (fun value => hashOf ops heap (keptSamples samples) value) =
        foldHash ops heap := funext fun value => hashOf_eq _ value
    have hright : Right ops heap table (keptSamples samples) table.t0
        (reconstruct ops heap (keptSamples samples) table.t0 table.held)
        (if front.value.isArrayValued then
          hashOf ops heap (keptSamples samples)
            (reconstruct ops heap (keptSamples samples) table.t0 table.held) else 0) := by
      refine ⟨rfl, ?_⟩
      split
      · exact Or.inl (hashOf_eq _ _)
      · exact Or.inr rfl
    refine ⟨hne, ⟨⟨rfl, rfl, ?_, ?_⟩, ?_, fun _ => hright⟩, hright⟩
    · intro harray
      simp only at harray ⊢
      rw [harray]
      rfl
    · intro harray
      simp only at harray ⊢
      rw [harray, if_pos rfl]
      exact congrArg (fun f => (frameRows ops heap table (keptSamples samples)).map f) hhash
    · exact reconstruct_isEmpty hne (fun sample hsample => isEmpty_kept hsample) _ _

/-- **The answers of a table.**  The samples an entry keeps are the first of each time, ascending,
whatever order they came in; a varying entry answers every time inside the window, and with the
reconstruction, T0 apart where a re-anchoring moved it out of the window; a uniform entry answers
its value everywhere. -/
theorem valueAt_reconstructs (ops : Arithmetic T A E) (heap : Nat → List E) (table : Table T E)
    (k : Nat) (path : String) (entry : Entry T E) (anchors : List T)
    (hentry : table.entries[k]? = some (path, entry)) :
    (∀ samples, fillVarying ops heap table samples = some entry →
      (entry.samples.map Sample.time).Pairwise (· < ·) ∧
      (∀ sample, sample ∈ entry.samples ↔
        (valued samples).find? (fun other => other.time = sample.time) = some sample) ∧
      (∀ samples', (∀ time, samples'.filter (fun sample => sample.time = time) =
          samples.filter fun sample => sample.time = time) →
        fillVarying ops heap table samples' = some entry) ∧
      ∃ entry', (reanchorAll ops heap table anchors).entries[k]? = some (path, entry') ∧
        (∀ t, (reanchorAll ops heap table anchors).Inside t →
          (valueAt ops heap (reanchorAll ops heap table anchors) path entry' t).isSome = true) ∧
        ∀ t out, valueAt ops heap (reanchorAll ops heap table anchors) path entry' t = some out →
          (t = (reanchorAll ops heap table anchors).t0 →
            (reanchorAll ops heap table anchors).Inside t ∨ ∀ a ∈ anchors, a = table.t0) →
          out.value = reconstruct ops heap entry.samples t table.held ∧
            (out.foldHash = foldHash ops heap out.value ∨ out.foldHash = 0)) ∧
    ∀ value, fillUniform ops heap value = some entry →
      (reanchorAll ops heap table anchors).entries[k]? = some (path, entry) ∧
        ∀ t, valueAt ops heap (reanchorAll ops heap table anchors) path entry t =
          some ⟨path, value, foldHash ops heap value⟩ := by
  refine ⟨?_, ?_⟩
  · intro samples hfill
    obtain ⟨hne, hsound, hright⟩ := fillVarying_sound hfill
    have hvalues : ∀ t, (reconstruct ops heap (keptSamples samples) t table.held).isEmpty = false :=
      fun t => reconstruct_isEmpty hne (fun sample hsample => isEmpty_kept hsample) t _
    have hsamples : entry.samples = keptSamples samples := hsound.framed.samples_eq
    rw [hsamples]
    refine ⟨ascending_keptSamples samples, fun sample => mem_keptSamples, ?_, ?_⟩
    · intro samples' hsame
      rw [← hfill, fillVarying, fillVarying, keptSamples_congr hsame]
    · obtain ⟨entry', hk, hsound', hheld, hunmoved⟩ := hsound.run anchors hentry hvalues hright
      refine ⟨entry', hk, ?_, ?_⟩
      · intro t hin
        rcases eq_or_ne t (reanchorAll ops heap table anchors).t0 with rfl | ht
        · rw [valueAt_t0 hsound'.copy]
          rfl
        · obtain ⟨hash, hanswer, -⟩ :=
            valueAt_away path hsound'.framed (hheld ▸ hvalues) ht hin
          rw [hanswer]
          rfl
      · intro t out hout hsettled
        have hheld' : ∀ {value : Value E} {hash : UInt64},
            Right ops heap (reanchorAll ops heap table anchors) (keptSamples samples) t value hash →
              value = reconstruct ops heap (keptSamples samples) t table.held ∧
                (hash = foldHash ops heap value ∨ hash = 0) := by
          intro value hash hval
          rwa [Right, hheld] at hval
        rcases eq_or_ne t (reanchorAll ops heap table anchors).t0 with rfl | ht
        · rw [valueAt_t0 hsound'.copy] at hout
          cases hout
          rcases hsettled rfl with hin | hall
          · exact hheld' (hsound'.inside hin)
          · obtain ⟨ht0, hkept⟩ := hunmoved hall
            rw [← ht0] at hkept
            exact hheld' hkept
        · by_cases hin : (reanchorAll ops heap table anchors).Inside t
          · obtain ⟨hash, hanswer, hkept⟩ :=
              valueAt_away path hsound'.framed (hheld ▸ hvalues) ht hin
            rw [hanswer] at hout
            cases hout
            exact hheld' hkept
          · rw [valueAt_outside hsound'.framed ht hin] at hout
            cases hout
  · intro value hfill
    unfold fillUniform at hfill
    split at hfill
    · cases hfill
    · rename_i hvalue
      cases hfill
      refine ⟨?_, ?_⟩
      · induction anchors using List.reverseRecOn with
        | nil => exact hentry
        | append_singleton anchors a ih =>
            have hstep : reanchorAll ops heap table (anchors ++ [a]) =
                reanchor ops heap (reanchorAll ops heap table anchors) a := List.foldl_append ..
            rw [hstep, reanchor, List.getElem?_map, ih]
            rfl
      · intro t
        rw [valueAt, if_pos (Or.inl rfl)]
        exact answer_eq_some (Bool.not_eq_true _ ▸ hvalue)

/-! ## A ramp -/

/-- Whole times and whole values. -/
def wholeArithmetic : Arithmetic Int (Int × Int) Int where
  floor := id
  ofInt := id
  toInt := id
  add := (· + ·)
  alpha := fun t lower upper => (t - lower, upper - lower)
  isZero := fun alpha => alpha.1 = 0
  isOne := fun alpha => alpha.1 = alpha.2
  lerpScalar := fun _ alpha a b => a + (b - a) * alpha.1 / alpha.2
  lerpElement := fun _ alpha a b => a + (b - a) * alpha.1 / alpha.2
  fold := fun _ elements => UInt64.ofNat elements.length
  exact := fun _ _ _ _ _ _ => rfl

/-- From 0 at time 0 to 100 at time 10. -/
def rampSamples : List (Sample Int Int) :=
  [⟨10, .scalar .double 100⟩, ⟨0, .scalar .double 0⟩]

/-- An empty table at time 0 over the window `[0, 10]`. -/
def emptyTable : Table Int Int where
  t0 := 0
  windowLo := 0
  windowHi := 10
  firstFrame := 0
  frameCount := 11
  held := false
  entries := []

def rampEntry : Entry Int Int :=
  (fillVarying wholeArithmetic (fun _ => []) emptyTable rampSamples).getD {}

/-- The table of the ramp. -/
def ramp : Table Int Int := { emptyTable with entries := [("avar", rampEntry)] }

/-- Re-anchored at 4, the ramp is at 70 at time 7. -/
theorem valueAt_reconstructs_ramp : ∃ entry' out,
    (reanchorAll wholeArithmetic (fun _ => []) ramp [4]).entries[0]? = some ("avar", entry') ∧
      valueAt wholeArithmetic (fun _ => [])
        (reanchorAll wholeArithmetic (fun _ => []) ramp [4]) "avar" entry' 7 = some out ∧
      out.value = .scalar .double 70 := by
  obtain ⟨-, -, -, entry', hk, hinside, hright⟩ :=
    (valueAt_reconstructs wholeArithmetic (fun _ => []) ramp 0 "avar" rampEntry [4] rfl).1
      rampSamples rfl
  obtain ⟨out, hout⟩ := Option.isSome_iff_exists.mp (hinside 7 ⟨by decide, by decide⟩)
  obtain ⟨hvalue, -⟩ := hright 7 out hout fun ht0 => absurd ht0 (by decide)
  refine ⟨entry', out, hk, hout, ?_⟩
  rw [hvalue]
  decide

/-- **Re-anchored at 20, outside the window**, the ramp still answers its old value there. -/
theorem ramp_outside : ∃ entry',
    (reanchorAll wholeArithmetic (fun _ => []) ramp [20]).entries[0]? = some ("avar", entry') ∧
      valueAt wholeArithmetic (fun _ => []) (reanchorAll wholeArithmetic (fun _ => []) ramp [20])
        "avar" entry' 20 = some ⟨"avar", .scalar .double 0, 0⟩ ∧
      reconstruct wholeArithmetic (fun _ => []) entry'.samples 20 false =
        .scalar .double 100 :=
  ⟨_, rfl, by decide, by decide⟩

end RigExec.Upstream
