/-
# `RigExec.Inputs.Spelled` — the tokens that slots hold keep their text

Interning appends texts, so an id that a text was appended for keeps it, and so does every id below
it.  The tokens that a slot holds are such ids: the file's own, the ones a call has interned, and
the ones that a call was given and has looked up.

    Spelled       an id whose text no interning changes
    Declared      what the reader has checked of the tokens of a file
    Known         every interned id, and every token in a slot, is spelled
-/
import RigExec.Inputs.Calls
import RigExec.Inputs.Memos

namespace RigExec.Inputs

open Lib (Bytes leBytes readLE)

variable {file : InputsFile} {tokens tokens' : TokenTable} {s id : Nat} {st : InputState}
  {f : SlotState → SlotState}

/-! ## Ids -/

/-- An id whose text no interning changes. -/
def Spelled (file : InputsFile) (tokens : TokenTable) (id : Nat) : Prop :=
  id < file.nodeText.length ∨ id < file.paths + tokens.extraTokens.length

theorem Spelled.mono (h : Spelled file tokens id) {id' : Nat} (hle : id' ≤ id) :
    Spelled file tokens id' :=
  h.imp (Nat.lt_of_le_of_lt hle) (Nat.lt_of_le_of_lt hle)

theorem Spelled.grows (h : Spelled file tokens id)
    (hgrows : tokens.extraTokens <+: tokens'.extraTokens) : Spelled file tokens' id :=
  h.imp_right fun hlt => Nat.lt_of_lt_of_le hlt (Nat.add_le_add_left hgrows.length_le _)

/-- **A spelled id keeps its text.** -/
theorem textOrEmpty_grows (h : Spelled file tokens id)
    (hgrows : tokens.extraTokens <+: tokens'.extraTokens) :
    textOrEmpty file tokens id = textOrEmpty file tokens' id := by
  unfold textOrEmpty getText
  cases hnode : file.nodeText[id]? with
  | some text => rfl
  | none =>
      dsimp only
      split
      · rfl
      · rename_i hpaths
        have hlt := h.resolve_left (Nat.not_lt.mpr (List.getElem?_eq_none_iff.mp hnode))
        have hextra : id - file.paths < tokens.extraTokens.length := by omega
        rw [List.prefix_iff_getElem?.mp hgrows _ hextra, List.getElem?_eq_getElem hextra]

theorem tokenId_le (n : Nat) : (tokenValue n).tokenId ≤ n := by
  rw [WireValue.tokenId, tokenValue, BitVec.toNat_setWidth, BitVec.toNat_ofNat]
  exact (Nat.mod_le _ _).trans (Nat.mod_le _ _)

theorem elementId_le (n : Nat) : elementId (leBytes n 4) ≤ n := by
  rw [elementId, Lib.readLE_leBytes]
  exact Nat.mod_le _ _

/-! ## Interning -/

/-- The ids that interned texts have are spelled. -/
def Interned (file : InputsFile) (tokens : TokenTable) : Prop :=
  ∀ text id, tokens.tokenIds text = some id → Spelled file tokens id

theorem interned_intern (h : Interned file tokens) (text : String) :
    Interned file (tokens.intern file.paths text).2 ∧
      Spelled file (tokens.intern file.paths text).2 (tokens.intern file.paths text).1 := by
  unfold TokenTable.intern
  split
  · rename_i id hid
    exact ⟨h, h text id hid⟩
  · have hgrows : tokens.extraTokens <+: tokens.extraTokens ++ [text] := List.prefix_append _ _
    have hnew : Spelled file
        { extraTokens := tokens.extraTokens ++ [text]
          tokenIds := Function.update tokens.tokenIds text
            (some (file.paths + tokens.extraTokens.length)) }
        (file.paths + tokens.extraTokens.length) := by
      refine .inr ?_
      rw [List.length_append]
      exact Nat.lt_succ_self _
    refine ⟨fun other id hid => ?_, hnew⟩
    by_cases hother : other = text
    · rw [hother] at hid
      have hsame := (Function.update_self text _ tokens.tokenIds).symm.trans hid
      rw [← Option.some.inj hsame]
      exact hnew
    · exact (h other id ((Function.update_of_ne hother _ _).symm.trans hid)).grows hgrows

theorem interned_internAll (texts : List String) (h : Interned file tokens) :
    Interned file (tokens.internAll file.paths texts).2 ∧
      ∀ id ∈ (tokens.internAll file.paths texts).1,
        Spelled file (tokens.internAll file.paths texts).2 id := by
  induction texts generalizing tokens with
  | nil => exact ⟨h, fun id hid => absurd hid List.not_mem_nil⟩
  | cons text texts ih =>
      obtain ⟨hfirst, hid⟩ := interned_intern h text
      obtain ⟨hrest, hids⟩ := ih hfirst
      refine ⟨hrest, fun id hmem => ?_⟩
      rcases List.mem_cons.mp hmem with rfl | hmem
      · exact hid.grows (internAll_grows file.paths texts _)
      · exact hids id hmem

theorem interned_emplace (h : Interned file tokens) (text : String)
    (hid : Spelled file tokens id) : Interned file (tokens.emplace text id) := by
  unfold TokenTable.emplace
  split
  · exact h
  · intro other id' hid'
    by_cases hother : other = text
    · rw [hother] at hid'
      have hnew := (Function.update_self text (some id) tokens.tokenIds).symm.trans hid'
      rw [← Option.some.inj hnew]
      exact hid
    · exact h other id' ((Function.update_of_ne hother _ _).symm.trans hid')

theorem extraTokens_emplace (text : String) (id : Nat) :
    (tokens.emplace text id).extraTokens = tokens.extraTokens := by
  unfold TokenTable.emplace
  split <;> rfl

/-! ## The file's tokens -/

variable (file) in
/-- `tokenArrayPool`: the ids of the texts of each token array. -/
def tokenPool (tokens : TokenTable) : List (List String) → List (List Nat)
  | [] => []
  | texts :: arrays =>
      let interned := tokens.internAll file.paths texts
      interned.1 :: tokenPool interned.2 arrays

/-- What the reader has checked of the tokens of a file. -/
structure InputsFile.Declared (file : InputsFile) : Prop where
  paths : 0 < file.paths
  values : ∀ s, ∀ id ∈ valueIds (file.input s).type (file.input s).value, id < file.paths
  /-- Provider-only values cannot be public. -/
  listed : ∀ s < file.listed, (file.input s).type ≠ .tokenArray
  arrays : ∀ s, (file.input s).type = .tokenArray →
    ∃ ids ∈ tokenPool file {} file.tokenArrays,
      (file.input s).defaultVector = ids.map fun id => leBytes id 4

theorem spelled_of_lt (hid : id < file.paths) (tokens : TokenTable) : Spelled file tokens id :=
  .inr (Nat.lt_of_lt_of_le hid (Nat.le_add_right _ _))

theorem interned_pool (arrays : List (List String)) (h : Interned file tokens) :
    let pooled := arrays.foldl
      (fun (tokens : TokenTable) texts => (tokens.internAll file.paths texts).2) tokens
    Interned file pooled ∧ tokens.extraTokens <+: pooled.extraTokens ∧
      ∀ ids ∈ tokenPool file tokens arrays, ∀ id ∈ ids, Spelled file pooled id := by
  induction arrays generalizing tokens with
  | nil => exact ⟨h, List.prefix_refl _, fun ids hids => absurd hids List.not_mem_nil⟩
  | cons texts arrays ih =>
      obtain ⟨hfirst, hids⟩ := interned_internAll texts h
      obtain ⟨hrest, hgrows, hpool⟩ := ih hfirst
      refine ⟨hrest, (internAll_grows file.paths texts tokens).trans hgrows, ?_⟩
      intro ids hmem id hid
      rcases List.mem_cons.mp hmem with rfl | hmem
      · exact (hids id hid).grows hgrows
      · exact hpool ids hmem id hid

theorem interned_openTokens (hdeclared : file.Declared) :
    Interned file (openTokens file) ∧
      ∀ ids ∈ tokenPool file {} file.tokenArrays, ∀ id ∈ ids, Spelled file (openTokens file) id := by
  obtain ⟨hpooled, -, hids⟩ := @interned_pool file {} file.tokenArrays
    (fun text id hid => absurd hid.symm (Option.some_ne_none id))
  obtain ⟨pooled, hpool⟩ : ∃ pooled, file.tokenArrays.foldl
      (fun (tokens : TokenTable) texts => (tokens.internAll file.paths texts).2) {} = pooled :=
    ⟨_, rfl⟩
  rw [hpool] at hpooled hids
  have hfirst := interned_emplace hpooled "" (spelled_of_lt hdeclared.paths _)
  have hopened : Interned file (openTokens file) ∧
      (openTokens file).extraTokens = pooled.extraTokens := by
    unfold openTokens
    rw [hpool]
    refine List.foldlRecOn (motive := fun tokens =>
      Interned file tokens ∧ tokens.extraTokens = pooled.extraTokens) file.tokenNodes _
      ⟨hfirst, extraTokens_emplace "" 0⟩ ?_
    rintro tokens ⟨hinterned, hextra⟩ id -
    split
    · rename_i text htext
      have hid : Spelled file tokens id := .inl (List.getElem?_eq_some_iff.mp htext).1
      exact ⟨interned_emplace hinterned text hid, (extraTokens_emplace text id).trans hextra⟩
    · exact ⟨hinterned, hextra⟩
  refine ⟨hopened.1, fun ids hmem id hid => (hids ids hmem id hid).grows ?_⟩
  rw [hopened.2]

/-! ## The tokens in slots -/

/-- The tokens that a slot holds are spelled. -/
structure SlotKnown (file : InputsFile) (tokens : TokenTable) (s : Nat) (slot : SlotState) :
    Prop where
  current : ∀ id ∈ valueIds (file.input s).type slot.current, Spelled file tokens id
  held : ∀ id ∈ elementIds (file.input s).type slot.array.held, Spelled file tokens id

/-- Every interned id, and every token that a slot holds, is spelled. -/
structure Known (file : InputsFile) (st : InputState) : Prop where
  interned : Interned file st.tokens
  slots : ∀ s, SlotKnown file st.tokens s (st.slot s)

theorem Known.of_slots {st' : InputState} (h : Known file st) (htokens : st'.tokens = st.tokens)
    (hslots : ∀ s, (st'.slot s).current = (st.slot s).current ∧
      (st'.slot s).array.held = (st.slot s).array.held) : Known file st' where
  interned := htokens ▸ h.interned
  slots s := by
    rw [htokens]
    refine ⟨?_, ?_⟩
    · rw [(hslots s).1]
      exact (h.slots s).current
    · rw [(hslots s).2]
      exact (h.slots s).held

theorem Known.update (h : Known file st) (hslot : SlotKnown file st.tokens s (f (st.slot s))) :
    Known file (st.update s f) where
  interned := h.interned
  slots t := by
    by_cases ht : t = s
    · rw [ht, slot_update_self]
      exact hslot
    · rw [slot_update_of_ne ht]
      exact h.slots t

theorem Known.grows (h : Known file st) (hinterned : Interned file tokens)
    (hgrows : st.tokens.extraTokens <+: tokens.extraTokens) : Known file { st with tokens } where
  interned := hinterned
  slots s :=
    { current := fun id hid => ((h.slots s).current id hid).grows hgrows
      held := fun id hid => ((h.slots s).held id hid).grows hgrows }

theorem Known.markWritten (h : Known file st) : Known file (markWritten file s st) := by
  refine h.of_slots (edits_markWritten file s st).tokens fun t => ?_
  by_cases ht : t = s
  · rw [ht, slot_markWritten_self]
    exact ⟨rfl, rfl⟩
  · rw [slot_markWritten_of_ne ht]
    exact ⟨rfl, rfl⟩

theorem Known.touch (h : Known file st) : Known file (touch s st) := by
  refine h.of_slots (edits_touch s st).tokens fun t => ?_
  by_cases ht : t = s
  · rw [ht, slot_touch_self]
    exact ⟨rfl, rfl⟩
  · rw [slot_touch_of_ne ht]
    exact ⟨rfl, rfl⟩

theorem Known.touchArray (h : Known file st) : Known file (touchArray file s st) := by
  have hmarked := h.markWritten (s := s)
  unfold Inputs.touchArray
  dsimp only
  split
  · exact hmarked
  · refine Known.touch (hmarked.update ⟨(hmarked.slots s).current, ?_⟩)
    have hheld := (hmarked.slots s).held
    dsimp only [ArraySlot.keepRan]
    split
    · intro id hid
      rw [elementIds, List.map_nil, ite_self] at hid
      exact absurd hid List.not_mem_nil
    · exact hheld

theorem tokens_touchArray : (touchArray file s st).tokens = st.tokens := by
  unfold touchArray
  dsimp only
  split
  · exact (edits_markWritten file s st).tokens
  · exact (edits_touch s _).tokens.trans (edits_markWritten file s st).tokens

theorem Known.storeSlot (h : Known file st) {value : WireValue}
    (hvalue : ∀ id ∈ valueIds (file.input s).type value, Spelled file st.tokens id) (has : Bool) :
    Known file (storeSlot file s st value has) := by
  have hmarked := h.markWritten (s := s)
  refine Known.touch (hmarked.update ⟨?_, (hmarked.slots s).held⟩)
  rw [(edits_markWritten file s st).tokens]
  exact hvalue

theorem Known.setAuthored (h : Known file st) (authored : Bool) :
    Known file (setAuthored s st authored) :=
  h.update ⟨(h.slots s).current, (h.slots s).held⟩

theorem valueIds_of_not {type : InputTag} {value : WireValue} (htype : type ≠ .token)
    (htag : value.tag ≠ .token) : valueIds type value = [] :=
  if_neg (not_or.mpr ⟨htype, htag⟩)

theorem elementIds_of_not {type : InputTag} {elements : List Bytes} (htype : type ≠ .tokenArray) :
    elementIds type elements = [] :=
  if_neg htype

theorem spelled_tokenValue {type : InputTag} (hid : Spelled file tokens id) :
    ∀ id' ∈ valueIds type (tokenValue id), Spelled file tokens id' := by
  intro id' hid'
  rw [valueIds, if_pos (.inr rfl)] at hid'
  rw [List.mem_singleton.mp hid']
  exact hid.mono (tokenId_le id)

theorem spelled_of_getText {text : String} (h : getText file tokens id = some text) :
    Spelled file tokens id := by
  unfold getText at h
  split at h
  · rename_i hnode
    exact .inl (List.getElem?_eq_some_iff.mp hnode).1
  · split at h
    · cases h
    · have hlt := (List.getElem?_eq_some_iff.mp h).1
      exact .inr (by omega)

section Wire

variable {name : String} {type : InputTag} {value : InputValue} {acceptNonFinite : Bool}
  {wire : WireValue}

theorem tag_inputWire
    (hwire : inputWire file tokens name type value acceptNonFinite = .ok wire) :
    wire.tag = type := by
  unfold inputWire at hwire
  dsimp only at hwire
  split at hwire
  · cases hwire
  · cases type <;> dsimp only at hwire <;> (repeat' split at hwire) <;> cases hwire <;> rfl

/-- The value that a set stores is spelled: the text of a token is looked up. -/
theorem spelled_inputWire
    (hwire : inputWire file tokens name type value acceptNonFinite = .ok wire) :
    ∀ id ∈ valueIds type wire, Spelled file tokens id := by
  by_cases htype : type = .token
  · subst htype
    unfold inputWire at hwire
    dsimp only at hwire
    split at hwire
    · cases hwire
    · split at hwire
      · cases hwire
      · rename_i text htext
        cases hwire
        exact spelled_tokenValue (spelled_of_getText htext)
  · rw [valueIds_of_not htype (by rw [tag_inputWire hwire]; exact htype)]
    exact fun id hid => absurd hid List.not_mem_nil

end Wire

/-! ## The calls keep them spelled -/

/-- What a caller owes: a sampled token array names tokens that have a text.  Only
`RrStageTokenArraySet`, which interns the texts itself, samples token arrays. -/
def Call.Spells (file : InputsFile) (tokens : TokenTable) : Call → Prop
  | .stageArraySet _ value => ∀ id ∈ elementIds value.tag value.elements, Spelled file tokens id
  | _ => True

section Calls

variable (hdeclared : file.Declared) (h : Known file st)

include h

theorem known_setArraySlot {value : RuntimeArray} (authored : Bool)
    (hvalue : value.tag = (file.input s).type →
      ∀ id ∈ elementIds value.tag value.elements, Spelled file st.tokens id) :
    Known file (setArraySlot file s value authored st).2 := by
  unfold setArraySlot
  split
  · exact h
  · rename_i haccepted
    have htag : value.tag = (file.input s).type := by
      by_contra htag
      unfold arrayRefusal at haccepted
      dsimp only at haccepted
      split_ifs at haccepted
    have hmarked := h.markWritten (s := s)
    unfold storeArray
    dsimp only
    split
    · exact hmarked.update ⟨(hmarked.slots s).current, (hmarked.slots s).held⟩
    · have htouched := hmarked.touchArray (s := s)
      have hsame : (touchArray file s (markWritten file s st)).tokens = st.tokens := by
        rw [tokens_touchArray, (edits_markWritten file s st).tokens]
      refine htouched.update ⟨(htouched.slots s).current, ?_⟩
      rw [hsame]
      dsimp only [ArraySlot.take]
      split
      · intro id hid
        rw [elementIds, List.map_nil, ite_self] at hid
        exact absurd hid List.not_mem_nil
      · exact htag ▸ hvalue htag

theorem known_inputsSet (index : Nat) (value : InputValue) (acceptNonFinite : Bool) :
    Known file (inputsSet file index value acceptNonFinite st).2 := by
  unfold inputsSet
  dsimp only
  split
  · exact h
  · split
    · exact h
    · split
      · exact h
      · rename_i wire hwire
        exact (h.setAuthored _).storeSlot (spelled_inputWire hwire) true

theorem known_clearArray (has : Bool) : Known file (clearArray file s has st) := by
  have htouched := h.touchArray (s := s)
  refine htouched.update ⟨(htouched.slots s).current, fun id hid => ?_⟩
  rw [elementIds, List.map_nil, ite_self] at hid
  exact absurd hid List.not_mem_nil

theorem known_unauthoredArray :
    Known file (st.update s fun slot => { slot with array := { slot.array with authored := false } }) :=
  h.update ⟨(h.slots s).current, (h.slots s).held⟩

include hdeclared in
theorem known_inputsReset (index : Nat) : Known file (inputsReset file index st) := by
  have hmarked := h.markWritten (s := index)
  unfold inputsReset
  dsimp only
  generalize markWritten file index st = marked at hmarked ⊢
  have hunauthored : Known file
      (if index < file.inputs.length then setAuthored index marked false else marked) := by
    split
    · exact hmarked.setAuthored false
    · exact hmarked
  generalize (if index < file.inputs.length then setAuthored index marked false
    else marked) = unauthored at hunauthored ⊢
  split
  · exact hunauthored
  · split
    · refine known_unauthoredArray ?_
      split
      · exact known_clearArray hunauthored _
      · exact hunauthored
    · refine Known.storeSlot ?_ ?_ _
      · split
        · exact hunauthored.update
            ⟨(hunauthored.slots index).current, (hunauthored.slots index).held⟩
        · exact hunauthored
      · exact fun id hid => spelled_of_lt (hdeclared.values index id hid) _

include hdeclared in
theorem known_storeDefault (has : Bool) :
    Known file (storeSlot file s st (file.input s).value has) :=
  h.storeSlot (fun id hid => spelled_of_lt (hdeclared.values s id hid) _) has

theorem known_stageArraySet {value : RuntimeArray}
    (hvalue : ∀ id ∈ elementIds value.tag value.elements, Spelled file st.tokens id) :
    Known file (stageArraySet file s value st).2 := by
  unfold stageArraySet
  split
  · exact h
  · exact known_setArraySlot h false fun _ => hvalue

theorem known_stageTokenArraySet (texts : List String) :
    Known file (stageTokenArraySet file s texts st).2 := by
  unfold stageTokenArraySet
  split
  · exact h
  · obtain ⟨hinterned, hids⟩ := interned_internAll texts h.interned
    refine known_stageArraySet (h.grows hinterned (internAll_grows file.paths texts st.tokens)) ?_
    intro id hid
    have hmem : id ∈ List.map elementId (List.map (fun id => leBytes id 4)
        (st.tokens.internAll file.paths texts).1) := hid
    obtain ⟨element, helement, rfl⟩ := List.mem_map.mp hmem
    obtain ⟨id, hinternal, rfl⟩ := List.mem_map.mp helement
    exact (hids id hinternal).mono (elementId_le id)

include hdeclared in
theorem known_stageTokenSet (text : String) (hasValue : Bool) :
    Known file (stageTokenSet file s text hasValue st).2 := by
  unfold stageTokenSet
  dsimp only
  split
  · exact h
  · cases hasValue with
    | true =>
        obtain ⟨hinterned, hid⟩ := interned_intern h.interned text
        exact ((h.grows hinterned (intern_grows file.paths st.tokens text)).setAuthored false).storeSlot
          (spelled_tokenValue hid) true
    | false =>
        exact ((h.grows h.interned (List.prefix_refl _)).setAuthored false).storeSlot
          (spelled_tokenValue (spelled_of_lt hdeclared.paths _)) false

theorem known_stageScalarSet (value : InputValue) :
    Known file (stageScalarSet file s value st).2 := by
  unfold stageScalarSet
  dsimp only
  split
  · exact h
  · split
    · exact h
    · rename_i htype
      push Not at htype
      refine (h.setAuthored false).storeSlot ?_ true
      rw [valueIds_of_not htype.2.1 ?_]
      · exact fun id hid => absurd hid List.not_mem_nil
      · unfold stageWire
        split <;> exact htype.2.1

include hdeclared in
/-- **Step lemma.** -/
theorem known_run (call : Call) (hcall : call.Spells file st.tokens) :
    Known file (call.run file st).2 := by
  cases call with
  | set index value acceptNonFinite => exact known_inputsSet h index value acceptNonFinite
  | setArray index value authored =>
      show Known file (inputsSetArray file index value authored st).2
      unfold inputsSetArray
      split
      · exact h
      · rename_i hindex
        refine known_setArraySlot h authored fun htag => ?_
        rw [elementIds_of_not (htag ▸ hdeclared.listed index (Nat.lt_of_not_le hindex))]
        exact fun id hid => absurd hid List.not_mem_nil
  | setToken index text =>
      show Known file (inputsSetToken file index text st).2
      obtain ⟨hinterned, hid⟩ := interned_intern h.interned text
      have hknown := h.grows hinterned (intern_grows file.paths st.tokens text)
      unfold inputsSetToken
      dsimp only
      split
      · exact h
      · split
        · exact h
        · exact (hknown.setAuthored true).storeSlot (spelled_tokenValue hid) true
  | reset index => exact known_inputsReset hdeclared h index
  | clear index =>
      show Known file (inputsClear file index st).2
      unfold inputsClear
      dsimp only
      split
      · exact h
      · split
        · exact h
        · exact (known_storeDefault hdeclared h false).setAuthored false
  | stageScalarSet s value => exact known_stageScalarSet h value
  | stageScalarClear s =>
      show Known file (stageScalarClear file s st).2
      unfold stageScalarClear
      dsimp only
      split
      · exact h
      · exact known_storeDefault hdeclared (h.setAuthored false) false
  | stageArraySet s value => exact known_stageArraySet h hcall
  | stageTokenArraySet s texts => exact known_stageTokenArraySet h texts
  | stageArrayClear s =>
      show Known file (stageArrayClear file s st).2
      have hmarked := h.markWritten (s := s)
      unfold stageArrayClear
      dsimp only
      split
      · exact h
      · split
        · exact known_unauthoredArray (known_clearArray hmarked false)
        · exact hmarked
  | stageTokenSet s text hasValue => exact known_stageTokenSet hdeclared h text hasValue
  | stageInputBlockedSet s blocked =>
      show Known file (stageInputBlockedSet file s blocked st).2
      have hmarked := h.markWritten (s := s)
      unfold stageInputBlockedSet
      split
      · exact h
      · show Known file ((markWritten file s st).update s fun slot => { slot with blocked })
        exact hmarked.update ⟨(hmarked.slots s).current, (hmarked.slots s).held⟩

end Calls

theorem known_openState (hdeclared : file.Declared) : Known file (openState file) where
  interned := (interned_openTokens hdeclared).1
  slots s :=
    { current := fun id hid => spelled_of_lt (hdeclared.values s id hid) _
      held := fun id hid => by
        rw [elementIds] at hid
        split at hid <;> exact absurd hid List.not_mem_nil }

/-- **The tokens that a memo may spell of a slot keep their text.** -/
theorem Known.tokenIds (h : Known file st) (hdeclared : file.Declared)
    (hopened : (openTokens file).extraTokens <+: st.tokens.extraTokens) (s : Nat) :
    ∀ id ∈ tokenIds file s (slotView file s (st.slot s)), Spelled file st.tokens id := by
  have hdefault : ∀ id ∈ elementIds (file.input s).type (file.input s).defaultVector,
      Spelled file st.tokens id := by
    intro id hid
    rw [elementIds] at hid
    split at hid
    · rename_i htype
      obtain ⟨ids, hids, hvector⟩ := hdeclared.arrays s htype
      rw [hvector, List.map_map] at hid
      obtain ⟨id, hmem, rfl⟩ := List.mem_map.mp hid
      exact (((interned_openTokens hdeclared).2 ids hids id hmem).grows hopened).mono
        (elementId_le id)
    · exact absurd hid List.not_mem_nil
  intro id hid
  rcases List.mem_append.mp hid with hid | hid
  · rcases List.mem_append.mp hid with hid | hid
    · rcases List.mem_append.mp hid with hid | hid
      · exact (h.slots s).current id hid
      · exact spelled_of_lt (hdeclared.values s id hid) _
    · dsimp only [slotView, arrayView] at hid
      split at hid
      · split at hid
        · exact (h.slots s).held id hid
        · exact hdefault id hid
      · rw [elementIds, List.map_nil, ite_self] at hid
        exact absurd hid List.not_mem_nil
  · exact hdefault id hid

end RigExec.Inputs
