/-
# `RigExec.Playback.Sampling` — what one sampling pass leaves in the reader

A bound input is a slot of the file with the name and type it was bound by, and an array
only where the stage transport reaches it (`Bound.Of`).  For such an input:

    sampleInputAt_ok     a set that is taken leaves the stage's value at the time
    sampleBounds_held    a pass leaves every slot as it was, or with that value
    sampleBounds_read    a pass that is not refused has read every input it does not skip
-/
import RigExec.Playback.Sampler

namespace RigExec.Playback

variable {T : Type}

/-! ## Bound inputs -/

/-- The slot a bound input stands for. -/
def Bound.Of (file : File T) (bound : Bound) : Prop :=
  ∃ slot, file.slots[bound.index]? = some slot ∧ slot.name = bound.name ∧
    slot.tag = bound.type ∧ (bound.type.isArray = true → slot.stageArray = true)

/-- The slot holds what the stage holds for the input at a time. -/
def Reader.Holds (reader : Reader T) (stage : Stage T) (time : SampleTime T) (bound : Bound) :
    Prop :=
  (reader.held bound.index).value = stage.valueAt bound.name bound.type time

instance (reader : Reader T) (stage : Stage T) (time : SampleTime T) (bound : Bound) :
    Decidable (reader.Holds stage time bound) :=
  inferInstanceAs (Decidable (_ = _))

theorem Bound.of_decideStatic {file : File T} {bound : Bound} (stage : Stage T) :
    (bound.decideStatic stage).Of file ↔ bound.Of file :=
  Iff.rfl

theorem Bound.Of.unique {file : File T} {b b' : Bound} (h : b.Of file) (h' : b'.Of file)
    (hindex : b'.index = b.index) : b'.name = b.name ∧ b'.type = b.type := by
  obtain ⟨slot, hslot, hname, htag, -⟩ := h
  obtain ⟨slot', hslot', hname', htag', -⟩ := h'
  rw [hindex, hslot] at hslot'
  cases hslot'
  exact ⟨hname'.symm.trans hname, htag'.symm.trans htag⟩

theorem mem_rowBounds {rows : List (String ⊕ Bound)} {bound : Bound} :
    bound ∈ rowBounds rows ↔ Sum.inr bound ∈ rows := by
  simp only [rowBounds, List.mem_filterMap, Sum.getRight?_eq_some_iff]
  constructor
  · rintro ⟨row, hrow, rfl⟩
    exact hrow
  · intro h
    exact ⟨_, h, rfl⟩

theorem mem_binding {stage : Stage T} {slot : Slot} {index : Nat} {animated : Bool}
    {warning : String} {bound : Bound}
    (h : slot.binding stage index animated warning = .inr bound) :
    bound.index = index ∧ bound.name = slot.name ∧ bound.type = slot.tag := by
  unfold Slot.binding at h
  split at h
  · cases h
  · split at h
    · cases h
      exact ⟨rfl, rfl, rfl⟩
    · cases h

theorem mem_listedRow {stage : Stage T} {slot : Slot} {index : Nat} {bound : Bound}
    (h : Sum.inr bound ∈ slot.listedRow stage index) :
    bound.index = index ∧ bound.name = slot.name ∧ bound.type = slot.tag ∧
      slot.tag.isArray = false := by
  unfold Slot.listedRow at h
  split at h
  · cases h
  · rename_i hscalar
    split at h
    · simp at h
    · split at h
      · simp at h
      · split at h
        · simp only [List.mem_singleton, Sum.inr.injEq] at h
          subst h
          exact ⟨rfl, rfl, rfl, Bool.not_eq_true _ ▸ hscalar⟩
        · cases h

theorem Bound.Of.intro {file : File T} {slot : Slot} {bound : Bound}
    (hslot : (slot, bound.index) ∈ file.slots.zipIdx) (hname : bound.name = slot.name)
    (htype : bound.type = slot.tag) (harray : slot.tag.isArray = true → slot.stageArray = true) :
    bound.Of file :=
  ⟨slot, List.mem_zipIdx_iff_getElem?.mp hslot, hname.symm, htype.symm, htype ▸ harray⟩

/-- **Every input `Bind` binds is a slot of the file.** -/
theorem bind_of (sampler : Sampler T) (stage : Stage T) (file : File T) :
    ∀ bound ∈ (sampler.bind stage file).animated, bound.Of file := by
  intro bound hbound
  obtain ⟨row, hrow, rfl⟩ := List.mem_map.mp hbound
  refine (Bound.of_decideStatic stage).mpr ?_
  have hmem : Sum.inr row ∈ bindRows stage file := mem_rowBounds.mp hrow
  simp only [bindRows, List.mem_append, List.mem_flatMap, List.mem_map, List.mem_filter,
    Prod.exists] at hmem
  rcases hmem with ((⟨slot, index, hslot, hmem⟩ | ⟨slot, index, ⟨hslot, harray⟩, hmem⟩) |
    ⟨slot, index, ⟨hslot, htoken⟩, hmem⟩) | ⟨slot, index, ⟨hslot, hvalue⟩, hmem⟩
  · obtain ⟨rfl, hname, htype, hscalar⟩ := mem_listedRow hmem
    refine Bound.Of.intro (List.mem_of_mem_take hslot) hname htype fun harray => ?_
    rw [hscalar] at harray
    cases harray
  · obtain ⟨rfl, hname, htype⟩ := mem_binding hmem
    exact Bound.Of.intro hslot hname htype fun _ => harray
  · obtain ⟨rfl, hname, htype⟩ := mem_binding hmem
    refine Bound.Of.intro hslot hname htype fun harray => ?_
    rw [(slot.stageToken_animated htoken).1] at harray
    cases harray
  · obtain ⟨rfl, hname, htype⟩ := mem_binding hmem
    refine Bound.Of.intro hslot hname htype fun harray => ?_
    simp only [Slot.providerValue, harray, Bool.not_true, Bool.and_false, Bool.false_and] at hvalue
    cases hvalue

/-! ## One input -/

theorem File.findInput_eq {file : File T} {index found : Nat} {slot : Slot}
    (hslot : file.slots[index]? = some slot) (h : file.findInput slot.name = some found) :
    found = index := by
  unfold File.findInput at h
  split at h
  · rename_i i hfind
    split at h
    · cases h
      obtain ⟨hlt, hname, -⟩ := List.findIdx?_eq_some_iff_getElem.mp hfind
      obtain ⟨hlt', rfl⟩ := List.getElem?_eq_some_iff.mp hslot
      have hnames : (file.slots.map Slot.name)[found]? = (file.slots.map Slot.name)[index]? := by
        rw [List.getElem?_map, List.getElem?_map, List.getElem?_eq_getElem hlt,
          List.getElem?_eq_getElem hlt']
        exact congrArg some (of_decide_eq_true hname)
      exact (List.getElem?_inj (by simpa using hlt) file.names_nodup).mp hnames
    · cases h
  · cases h

/-- A stored slot with the value, whatever its blocked flag. -/
def Reader.Stores (reader reader' : Reader T) (index : Nat) (value : Option Value) : Prop :=
  ∃ blocked, reader' = reader.store index ⟨value, blocked⟩

theorem Reader.Stores.file_eq {reader reader' : Reader T} {index : Nat} {value : Option Value}
    (h : reader.Stores reader' index value) : reader'.file = reader.file := by
  obtain ⟨blocked, rfl⟩ := h
  rfl

theorem Reader.Stores.value_eq {reader reader' : Reader T} {index : Nat} {value : Option Value}
    (h : reader.Stores reader' index value) : (reader'.held index).value = value := by
  obtain ⟨blocked, rfl⟩ := h
  rw [Reader.store_held_self]

theorem Reader.Stores.held_of_ne {reader reader' : Reader T} {index other : Nat}
    {value : Option Value} (h : reader.Stores reader' index value) (hne : other ≠ index) :
    reader'.held other = reader.held other := by
  obtain ⟨blocked, rfl⟩ := h
  exact reader.store_held_of_ne _ hne

theorem publishBlocked_stores {attr : Option (Attribute T)} {index : Nat} {time : SampleTime T}
    {reader reader' : Reader T} {value : Option Value} {result : Except String (Reader T)}
    (hset : ∀ after, result = .ok after → reader.Stores after index value)
    (h : publishBlocked attr index time result = .ok reader') :
    reader.Stores reader' index value := by
  cases result with
  | error error => cases h
  | ok after =>
      have hstores := hset after rfl
      simp only [publishBlocked] at h
      split at h
      · rename_i hprovider
        rw [Reader.setSampleBlocked, if_pos hprovider] at h
        cases h
        obtain ⟨blocked, rfl⟩ := hstores
        refine ⟨(attr.map fun a => a.blocked time).getD false, ?_⟩
        simp only [Reader.store, Function.update_self, Function.update_idem]
      · cases h
        exact hstores

section

variable {reader after : Reader T} {index : Nat} {value : Value}

theorem tokenSample_stores {token : Option Value}
    (h : reader.tokenSample index token = .ok after) : reader.Stores after index token := by
  unfold Reader.tokenSample at h
  split at h <;> cases h
  exact ⟨_, rfl⟩

theorem clearSample_stores (h : reader.clearSample index = .ok after) :
    reader.Stores after index none := by
  unfold Reader.clearSample at h
  split at h <;> cases h
  exact ⟨_, rfl⟩

theorem setArraySlot_stores {authored : Bool}
    (h : reader.setArraySlot index value authored = .ok after) :
    reader.Stores after index (some value) := by
  unfold Reader.setArraySlot at h
  repeat' split at h
  all_goals first | cases h; done | (cases h; exact ⟨_, rfl⟩)

theorem setSample_stores (h : reader.setSample index value = .ok after) :
    reader.Stores after index (some value) := by
  unfold Reader.setSample at h
  split at h
  · exact setArraySlot_stores h
  · cases h

theorem setTokenArraySample_stores (h : reader.setTokenArraySample index value = .ok after) :
    reader.Stores after index (some value) := by
  unfold Reader.setTokenArraySample at h
  split at h
  · exact setSample_stores h
  · cases h

theorem setScalarSample_stores (h : reader.setScalarSample index value = .ok after) :
    reader.Stores after index (some value) := by
  unfold Reader.setScalarSample at h
  split at h
  · split at h <;> cases h
    exact ⟨_, rfl⟩
  · cases h

theorem clearScalarSample_stores (h : reader.clearScalarSample index = .ok after) :
    reader.Stores after index none := by
  unfold Reader.clearScalarSample at h
  split at h <;> cases h
  exact ⟨_, rfl⟩

theorem clearInputAt_stores (h : reader.clearInputAt index = .ok after) :
    reader.Stores after index none := by
  unfold Reader.clearInputAt at h
  split at h
  · cases h
  · split at h <;> cases h
    exact ⟨_, rfl⟩

/-- A listed input has no `Vec3i`, so the value is stored as it is. -/
theorem setSampledInputAt_stores (h : reader.setSampledInputAt index value = .ok after) :
    reader.Stores after index (some value) := by
  unfold Reader.setSampledInputAt at h
  split at h
  · cases h
  · rename_i info hinfo
    split at h
    · cases h
    · split at h
      · cases h
      · rename_i htag
        cases h
        have hlisted : index < reader.file.listed := by
          by_contra hno
          rw [File.input, if_neg hno] at hinfo
          cases hinfo
        rw [File.input, if_pos hlisted] at hinfo
        have htags := reader.file.listable index info hlisted hinfo
        have hstored : stored value = value := by
          rw [stored, if_neg]
          intro hvec
          rw [← not_not.mp htag, hvec] at htags
          cases htags
        rw [hstored]
        exact ⟨_, rfl⟩

theorem setInputToken_stores {slot : Slot} (hslot : reader.file.slots[index]? = some slot)
    (h : reader.setInputToken slot.name value = .ok after) :
    reader.Stores after index (some value) := by
  unfold Reader.setInputToken at h
  split at h
  · cases h
  · rename_i found hfound
    cases File.findInput_eq hslot hfound
    split at h
    · cases h
    · split at h <;> cases h
      exact ⟨_, rfl⟩

end

/-- **A set that is taken leaves the stage's value at the time.** -/
theorem sampleInputAt_ok {stage : Stage T} {time : SampleTime T} {reader reader' : Reader T}
    {bound : Bound} (hof : bound.Of reader.file)
    (h : sampleInputAt (stage bound.name) bound.index bound.name bound.type time reader =
      .ok reader') :
    reader.Stores reader' bound.index (stage.valueAt bound.name bound.type time) := by
  obtain ⟨slot, hslot, hname, htag, harray⟩ := hof
  have hsample : bound.type.isArray = true → reader.canSample bound.index = true := by
    intro h
    rw [Reader.canSample, File.slotFlag, hslot]
    exact harray h
  unfold sampleInputAt at h
  split at h
  · rename_i htoken
    rw [htoken.1]
    exact publishBlocked_stores (fun _ => tokenSample_stores) h
  · split at h
    · rename_i hisArray
      rw [if_neg (by rw [hsample hisArray]; exact Bool.noConfusion)] at h
      split at h
      · rename_i hnone
        have hvalue : stage.valueAt bound.name bound.type time = none := by
          rw [Stage.valueAt, typedGet, hnone]
          rfl
        rw [hvalue]
        exact publishBlocked_stores (fun _ => clearSample_stores) h
      · rename_i value hsome
        split at h
        · cases h
        · rename_i htype
          have hvalue : stage.valueAt bound.name bound.type time = some value := by
            rw [Stage.valueAt, typedGet, hsome, Option.filter_some_pos (by simpa using htype)]
          rw [hvalue]
          split at h
          · exact publishBlocked_stores (fun _ => setTokenArraySample_stores) h
          · exact publishBlocked_stores (fun _ => setSample_stores) h
    · split at h
      · rename_i value hsome
        rw [Stage.valueAt, hsome]
        split at h
        · rw [← hname] at h
          exact publishBlocked_stores (fun _ => setInputToken_stores hslot) h
        · split at h
          · exact publishBlocked_stores (fun _ => setScalarSample_stores) h
          · exact publishBlocked_stores (fun _ => setSampledInputAt_stores) h
      · rename_i hnone
        rw [Stage.valueAt, hnone]
        split at h
        · exact publishBlocked_stores (fun _ => clearScalarSample_stores) h
        · exact publishBlocked_stores (fun _ => clearInputAt_stores) h

/-! ## One pass -/

section

variable (stage : Stage T) (time : SampleTime T) (skipStatic : Bool)

theorem sampleBounds_file {bounds : List Bound} {reader : Reader T} (reads : Nat)
    (hof : ∀ b ∈ bounds, b.Of reader.file) :
    (sampleBounds stage time skipStatic bounds reader reads).1.file = reader.file := by
  induction bounds generalizing reader reads with
  | nil => rfl
  | cons b bounds ih =>
      have hrest : ∀ b ∈ bounds, b.Of reader.file := fun b hb => hof b (List.mem_cons_of_mem _ hb)
      unfold sampleBounds
      split
      · exact ih _ hrest
      · split
        · rename_i after hset
          have hfile := (sampleInputAt_ok (hof b List.mem_cons_self) hset).file_eq
          exact (ih _ (hfile ▸ hrest)).trans hfile
        · rfl

/-- **A pass leaves every slot as it was, or with the stage's value.** -/
theorem sampleBounds_held {bounds : List Bound} {reader : Reader T} (reads : Nat)
    (hof : ∀ b ∈ bounds, b.Of reader.file) {b : Bound} (hb : b.Of reader.file) :
    (sampleBounds stage time skipStatic bounds reader reads).1.held b.index =
        reader.held b.index ∨
      (sampleBounds stage time skipStatic bounds reader reads).1.Holds stage time b := by
  induction bounds generalizing reader reads with
  | nil => exact Or.inl rfl
  | cons b' bounds ih =>
      have hrest : ∀ b ∈ bounds, b.Of reader.file := fun b hb => hof b (List.mem_cons_of_mem _ hb)
      have hb' := hof b' List.mem_cons_self
      unfold sampleBounds
      split
      · exact ih _ hrest hb
      · split
        · rename_i after hset
          have hstores := sampleInputAt_ok hb' hset
          rcases ih (reads + 1) (hstores.file_eq ▸ hrest) (hstores.file_eq ▸ hb) with
            hkept | hholds
          · by_cases hindex : b.index = b'.index
            · obtain ⟨hname, htype⟩ := hb'.unique hb hindex
              refine Or.inr ?_
              rw [Reader.Holds, hkept, hindex, hstores.value_eq, hname, htype]
            · exact Or.inl (hkept.trans (hstores.held_of_ne hindex))
          · exact Or.inr hholds
        · exact Or.inl rfl

/-- **A pass that is not refused has read every input it does not skip.** -/
theorem sampleBounds_read {bounds : List Bound} {reader : Reader T} (reads : Nat)
    (hof : ∀ b ∈ bounds, b.Of reader.file)
    (hok : (sampleBounds stage time skipStatic bounds reader reads).2.2 = none) {b : Bound}
    (hb : b ∈ bounds) (hread : (skipStatic && b.isStatic) = false) :
    (sampleBounds stage time skipStatic bounds reader reads).1.Holds stage time b := by
  induction bounds generalizing reader reads with
  | nil => cases hb
  | cons b' bounds ih =>
      have hrest : ∀ b ∈ bounds, b.Of reader.file := fun b hb => hof b (List.mem_cons_of_mem _ hb)
      have hof' := hof b' List.mem_cons_self
      unfold sampleBounds at hok ⊢
      split at hok
      · rename_i hskip
        rw [if_pos hskip]
        rcases List.mem_cons.mp hb with rfl | hb
        · rw [hskip] at hread
          cases hread
        · exact ih _ hrest hok hb
      · rename_i hskip
        rw [if_neg hskip]
        split at hok
        · rename_i after hset
          have hstores := sampleInputAt_ok hof' hset
          have hrest' : ∀ b ∈ bounds, b.Of after.file := hstores.file_eq ▸ hrest
          rcases List.mem_cons.mp hb with rfl | hb
          · -- later reads of the slot find the value of the same name and type
            rcases sampleBounds_held stage time skipStatic (reads + 1) hrest' (hstores.file_eq ▸ hof') with hkept | hholds
            · rw [Reader.Holds, hkept, hstores.value_eq]
            · exact hholds
          · exact ih _ hrest' hok hb
        · cases hok

end

end RigExec.Playback
