/-
# `RigExec.Standalone.Restored` — evaluation leaves the database as it was

A transient evaluation lays its states over the database and takes them off again.  What it takes
off is exact where every attribute has rows for the exported identities and for no other, and a
compiled system's database has such rows: compiling validates, and no edit adds or drops a row
without asking for another compile.

    Sound              the invariant: a compiled database has its rows
    restore_overlay    what was laid over is taken off
    sound_run          the invariant along the calls of a host
-/
import RigExec.Standalone.System
import RigExec.Lib.Pointwise

namespace RigExec.Standalone

open Lib

variable {Path Value TypeName Time ρ : Type} [LinearOrder Path]
  {host : Host Path Value TypeName Time} {rt : Runtime Path Value TypeName Time ρ}
  {s : System Path Value TypeName Time ρ}

namespace System

/-! ## What is laid over is taken off -/

theorem contains_blockedPaths {identity : String} {db : Database Path Value TypeName} {path : Path}
    {attr : Attribute Path Value TypeName} (h : db.attributes.find? path = some attr) :
    count (blockedPaths identity db) path = count attr.blockedIdentities identity := by
  rw [count, blockedPaths, OrderedMap.find?_mapValues, OrderedMap.find?_filter, h,
    Option.filter_some]
  cases count attr.blockedIdentities identity <;> rfl

theorem restore_mark {marks : OrderedSet String} {identity : String} (blocked : Bool) :
    (if count marks identity then
      (if blocked then marks.insert identity () else marks.erase identity).insert identity ()
    else (if blocked then marks.insert identity () else marks.erase identity).erase identity) =
      marks := by
  refine OrderedMap.ext_find? fun key => ?_
  cases hcount : count marks identity with
  | true =>
      obtain ⟨⟨⟩, hfind⟩ := Option.isSome_iff_exists.mp hcount
      rw [if_pos rfl, OrderedMap.find?_insert]
      split
      · rename_i heq
        rw [heq, hfind]
      · rename_i hne
        split
        · rw [OrderedMap.find?_insert, if_neg hne]
        · rw [OrderedMap.find?_erase, if_neg hne]
  | false =>
      rw [if_neg Bool.false_ne_true, OrderedMap.find?_erase]
      split
      · rename_i heq
        rw [heq, count_eq_false.mp hcount]
      · rename_i hne
        split
        · rw [OrderedMap.find?_insert, if_neg hne]
        · rw [OrderedMap.find?_erase, if_neg hne]

theorem restore_row {rows : OrderedMap String Value} {identity : String} {retained : Bool}
    (h : count rows identity = retained) (value none' : Value) :
    (if retained then
      (rows.insert identity value).insert identity ((rows.find? identity).getD none')
    else (rows.insert identity value).erase identity) = rows := by
  cases retained with
  | true =>
      obtain ⟨held, hheld⟩ := Option.isSome_iff_exists.mp h
      rw [if_pos rfl, OrderedMap.insert_insert, hheld]
      exact OrderedMap.insert_self hheld
  | false =>
      rw [if_neg Bool.false_ne_true]
      exact OrderedMap.erase_insert value (count_eq_false.mp h)

/-- **The overlay of a database that has its rows is taken off.** -/
theorem restore_overlay {db : Database Path Value TypeName} (h : db.Rows) (identity : String)
    (states : OrderedMap Path (ResolvedState Value)) :
    restore host identity (count db.identities identity) (previousRows host identity db)
      (blockedPaths identity db) (overlay host identity states db) = db := by
  have hattributes : (restore host identity (count db.identities identity)
      (previousRows host identity db) (blockedPaths identity db)
      (overlay host identity states db)).attributes = db.attributes := by
    refine OrderedMap.ext_find? fun path => ?_
    rw [restore, overlay, OrderedMap.find?_mapValues, OrderedMap.find?_mapValues]
    cases hfind : db.attributes.find? path with
    | none => rfl
    | some attr =>
        rw [Option.map_some, Option.map_some, contains_blockedPaths hfind, previousRows,
          OrderedMap.find?_mapValues, hfind]
        refine congrArg some ?_
        simp only [assign, Option.map_some, Option.getD_some,
          restore_row (h path attr hfind identity), restore_mark]
  have hidentities : (restore host identity (count db.identities identity)
      (previousRows host identity db) (blockedPaths identity db)
      (overlay host identity states db)).identities = db.identities := by
    rw [restore, overlay]
    cases hcount : count db.identities identity with
    | true =>
        obtain ⟨⟨⟩, hfind⟩ := Option.isSome_iff_exists.mp hcount
        exact OrderedMap.insert_self hfind
    | false => exact OrderedMap.erase_insert () (count_eq_false.mp hcount)
  cases db
  simp only [restore, overlay] at hattributes hidentities ⊢
  rw [hattributes, hidentities]

/-! ## What the calls keep -/

/-- A compiled system's database has its rows. -/
def Sound (s : System Path Value TypeName Time ρ) : Prop :=
  s.compiled = true → s.database.Rows

/-- `Prepare` keeps the database, and the system is compiled if it does not fail. -/
structure Prepares (host : Host Path Value TypeName Time) (s : System Path Value TypeName Time ρ)
    (out : System Path Value TypeName Time ρ × Option String) : Prop where
  database : out.1.database = s.database
  sound : s.Sound → out.1.Sound
  compiled : out.2 = none → out.1.compiled = true

theorem compile_prepares : Prepares host s (s.compile host rt) := by
  unfold compile
  split
  · refine ⟨rfl, fun h => h, fun h => ?_⟩
    cases h
  · rename_i hvalid
    dsimp only
    have hsound : ∀ s' : System Path Value TypeName Time ρ, s'.database = s.database →
        s'.Sound := by
      intro s' hs' _
      rw [hs']
      exact rows_of_validate hvalid
    split
    · exact ⟨rfl, fun _ => hsound _ rfl, fun h => by cases h⟩
    · split
      · exact ⟨rfl, fun _ => hsound _ rfl, fun h => by cases h⟩
      · split
        · exact ⟨rfl, fun _ => hsound _ rfl, fun h => by cases h⟩
        · exact ⟨rfl, fun _ => hsound _ rfl, fun _ => rfl⟩

theorem prepare_prepares : Prepares host s (s.prepare host rt) := by
  unfold prepare
  split
  · exact ⟨rfl, fun h => h, fun h => by cases h⟩
  · split
    · rename_i hcompiled
      exact ⟨rfl, fun h => h, fun _ => hcompiled⟩
    · exact compile_prepares

/-- A call that keeps the database and the invariant. -/
structure Leaves (s s' : System Path Value TypeName Time ρ) : Prop where
  database : s'.database = s.database
  sound : s.Sound → s'.Sound

theorem evaluate_leaves (t : Time) : Leaves s (s.evaluate host rt t).1 := by
  obtain ⟨hdatabase, hsound, -⟩ := @prepare_prepares _ _ _ _ _ _ host rt s
  unfold evaluate
  dsimp only
  split
  · exact ⟨rfl, fun h => h⟩
  · split
    · rename_i hprepare
      rw [hprepare] at hdatabase hsound
      exact ⟨hdatabase, hsound⟩
    · rename_i hprepare
      rw [hprepare] at hdatabase hsound
      dsimp only at hdatabase hsound
      -- the runtime is refreshed and run; the database is only read
      split
      · exact ⟨hdatabase, hsound⟩
      · split
        · exact ⟨hdatabase, hsound⟩
        · split
          · exact ⟨hdatabase, hsound⟩
          · exact ⟨hdatabase, hsound⟩

theorem changed_leaves (path : Path) : Leaves s (s.changed rt path) := by
  unfold changed
  split
  · split
    · exact ⟨rfl, fun h => h⟩
    · exact ⟨rfl, fun h => h⟩
  · exact ⟨rfl, fun h => h⟩

theorem changed_compiled (path : Path) : (s.changed rt path).compiled = s.compiled := by
  unfold changed
  split
  · split <;> rfl
  · rfl

/-! ## `EvaluateResolved` -/

theorem evaluateResolved_leaves (h : s.Sound) (t : Time)
    (states : OrderedMap Path (ResolvedState Value)) :
    Leaves s (s.evaluateResolved host rt t states).1 := by
  obtain ⟨hdatabase, hsound, hcompiled⟩ := @prepare_prepares _ _ _ _ _ _ host rt s
  unfold evaluateResolved
  dsimp only
  split
  · exact ⟨rfl, fun h => h⟩
  split
  · exact ⟨rfl, fun h => h⟩
  split
  · rename_i hprepare
    rw [hprepare] at hdatabase hsound
    exact ⟨hdatabase, hsound⟩
  rename_i s' hprepare
  rw [hprepare] at hdatabase hsound hcompiled
  dsimp only at hdatabase hsound hcompiled
  split
  · exact ⟨hdatabase, hsound⟩
  split
  · exact ⟨hdatabase, hsound⟩
  -- the states are laid over the database of `s'`, which is compiled
  have hrows : s'.database.Rows := hsound h (hcompiled rfl)
  have hfold : (s'.database.attributes.keys.foldl (changed rt) s').database = s'.database :=
    foldl_frame (fun st path => (changed_leaves path).database) _ s'
  refine ⟨?_, fun _ _ => ?_⟩
  · dsimp only
    rw [(evaluate_leaves t).database, hfold, restore_overlay hrows]
    exact hdatabase
  · dsimp only
    rw [(evaluate_leaves t).database, hfold, restore_overlay hrows]
    exact hrows

theorem evaluateValues_leaves (h : s.Sound) (t : Time) (states : OrderedMap Path Value) :
    Leaves s (s.evaluateValues host rt t states).1 :=
  evaluateResolved_leaves h t _

/-- No row is missed: there is no exception. -/
theorem evaluateResolved_answers (h : s.Sound) (t : Time)
    (states : OrderedMap Path (ResolvedState Value)) :
    (s.evaluateResolved host rt t states).2.isSome = true := by
  obtain ⟨-, hsound, hcompiled⟩ := @prepare_prepares _ _ _ _ _ _ host rt s
  unfold evaluateResolved
  dsimp only
  split
  · rfl
  split
  · rfl
  split
  · rfl
  rename_i s' hprepare
  rw [hprepare] at hsound hcompiled
  dsimp only at hsound hcompiled
  split
  · rfl
  split
  · rename_i hmissing
    rw [Bool.and_eq_true, List.any_eq_true] at hmissing
    obtain ⟨hretained, ⟨path, attr⟩, hin, hmissed⟩ := hmissing
    rw [hsound h (hcompiled rfl) path attr (OrderedMap.mem_rows_iff.mp hin), hretained] at hmissed
    cases hmissed
  · rfl

/-! ## Edits -/

omit [LinearOrder Path] in
theorem count_setRow {attr : Attribute Path Value TypeName} {identity : String}
    (h : count attr.resolved identity = true) (value : Value) (key : String) :
    count (setRow identity value attr).resolved key = count attr.resolved key := by
  rw [count, setRow, OrderedMap.find?_insert]
  split
  · rename_i heq
    rw [heq, h]
    rfl
  · rfl

omit [LinearOrder Path] in
theorem count_setState {attr : Attribute Path Value TypeName} {identity : String}
    (h : count attr.resolved identity = true) (value : Value) (key : String) :
    count (setState host identity value attr).resolved key = count attr.resolved key := by
  unfold setState
  split
  · exact count_setRow h value key
  · exact count_setRow h value key

theorem setAttribute_sound (h : s.Sound) {path : Path} {attr attr' : Attribute Path Value TypeName}
    (hfind : s.database.attributes.find? path = some attr)
    (hsame : s.compiled = true → ∀ identity,
      count attr'.resolved identity = count attr.resolved identity) :
    (s.setAttribute path attr').Sound := by
  intro hcompiled path' held hheld identity
  have hrows := h hcompiled
  dsimp only [setAttribute] at hheld ⊢
  rw [OrderedMap.find?_insert] at hheld
  split at hheld
  · cases hheld
    rw [hsame hcompiled, hrows path attr hfind]
  · exact hrows path' held hheld identity

theorem uncompiled_sound : s.uncompiled.Sound := by
  intro hcompiled
  cases hcompiled

theorem edited_sound {structural : Bool} (h : s.Sound) : (s.edited structural).Sound := by
  unfold edited
  split
  · exact uncompiled_sound
  · exact h

theorem setValue_sound (h : s.Sound) (path : Path) (t : Time) (value : Value) :
    (s.setValue host rt path t value).1.Sound := by
  unfold setValue
  dsimp only
  split
  · exact h
  rename_i attr hfind
  split
  · exact h
  rename_i hidentity
  split
  · exact h
  have hrow : s.compiled = true → count attr.resolved (host.codes.timeKey t) = true := by
    intro hcompiled
    rw [h hcompiled path attr hfind]
    exact Bool.of_not_eq_false hidentity
  generalize (attr.resolved.find? (host.codes.timeKey t)).getD host.noValue = held
  have hsame : s.compiled = true → ∀ key,
      count (setRow (host.codes.timeKey t) held attr).resolved key = count attr.resolved key :=
    fun hcompiled key => count_setRow (hrow hcompiled) held key
  generalize setRow (host.codes.timeKey t) held attr = read at hsame
  have hread : (s.setAttribute path read).Sound := setAttribute_sound h hfind hsame
  split
  · exact hread
  have hleaves := @changed_leaves _ _ _ _ _ _ rt (s.setAttribute path read) path
  have hcompiled := @changed_compiled _ _ _ _ _ _ rt (s.setAttribute path read) path
  have hheld : ((s.setAttribute path read).changed rt path).database.attributes.find? path =
      some read := by
    rw [hleaves.database, setAttribute, OrderedMap.find?_insert, if_pos rfl]
  refine edited_sound (setAttribute_sound (hleaves.sound hread) hheld fun h' key => ?_)
  rw [hcompiled] at h'
  exact count_setState ((hsame h' _).trans (hrow h')) value key

theorem setConnections_sound (h : s.Sound) (path : Path) (sources : List Path) :
    (s.setConnections host path sources).1.Sound := by
  unfold setConnections
  split
  · exact h
  · split_ifs
    · exact h
    · exact h
    · exact h
    · exact h
    · exact uncompiled_sound

theorem setTargets_sound (h : s.Sound) (path : Path) (targets : List Path) :
    (s.setTargets host path targets).1.Sound := by
  unfold setTargets
  split
  · exact h
  · split_ifs
    · exact h
    · exact h
    · intro hcompiled
      cases hcompiled

theorem setPrimActive_sound (h : s.Sound) (path : Path) (active : Bool) :
    (s.setPrimActive host path active).1.Sound := by
  unfold setPrimActive
  split
  · exact h
  · split_ifs
    · exact h
    · exact h
    · intro hcompiled
      cases hcompiled

theorem setValue_fails (path : Path) (t : Time) (value : Value) :
    (s.setValue host rt path t value).2 = .done ∨ (s.setValue host rt path t value).1 = s := by
  unfold setValue
  dsimp only
  split
  · exact .inr rfl
  · split_ifs
    · exact .inr rfl
    · exact .inr rfl
    · exact .inl rfl
    · exact .inl rfl
    · exact .inl rfl

theorem setConnections_fails (path : Path) (sources : List Path) :
    (s.setConnections host path sources).2 = .done ∨
      (s.setConnections host path sources).1 = s := by
  unfold setConnections
  split
  · exact .inr rfl
  · split_ifs
    · exact .inr rfl
    · exact .inr rfl
    · exact .inr rfl
    · exact .inl rfl
    · exact .inl rfl

theorem setTargets_fails (path : Path) (targets : List Path) :
    (s.setTargets host path targets).2 = .done ∨ (s.setTargets host path targets).1 = s := by
  unfold setTargets
  split
  · exact .inr rfl
  · split_ifs
    · exact .inr rfl
    · exact .inl rfl
    · exact .inl rfl

/-! ## Runs -/

theorem sound_after (h : s.Sound) (call : Call Path Value Time) : (s.after host rt call).Sound := by
  cases call with
  | addTap address =>
      intro hcompiled
      cases hcompiled
  | prepare => exact prepare_prepares.sound h
  | evaluate t => exact (evaluate_leaves t).sound h
  | evaluateResolved t states => exact (evaluateResolved_leaves h t states).sound h
  | evaluateValues t states => exact (evaluateValues_leaves h t states).sound h
  | setValue path t value => exact setValue_sound h path t value
  | setConnections path sources => exact setConnections_sound h path sources
  | setTargets path targets => exact setTargets_sound h path targets
  | setPrimActive path active => exact setPrimActive_sound h path active

variable (host rt) in
/-- **After any calls a compiled system's database has its rows.** -/
theorem sound_run (db : Database Path Value TypeName) (runtime : ρ)
    (calls : List (Call Path Value Time)) : (run host rt db runtime calls).Sound := by
  refine List.foldlRecOn calls _ ?_ fun s h call _ => sound_after h call
  intro hcompiled
  cases hcompiled

end System

/-- **Standalone evaluation leaves the database as it was.**  Over any database and after any calls,
a transient evaluation, whatever it answers, leaves the records, the identities, the rows and the
blocks that were there, and misses no row; and an edit that fails leaves the database and whether it
is compiled. -/
theorem evaluateResolved_restores (host : Host Path Value TypeName Time)
    (rt : Runtime Path Value TypeName Time ρ) (db : Database Path Value TypeName) (runtime : ρ)
    (calls : List (Call Path Value Time)) :
    let s := System.run host rt db runtime calls
    (∀ t states, (s.evaluateResolved host rt t states).1.database = s.database ∧
      (s.evaluateResolved host rt t states).2.isSome = true) ∧
    (∀ t states, (s.evaluateValues host rt t states).1.database = s.database) ∧
    (∀ path t value, (s.setValue host rt path t value).2 = .done ∨
      (s.setValue host rt path t value).1 = s) ∧
    (∀ path sources, (s.setConnections host path sources).2 = .done ∨
      (s.setConnections host path sources).1 = s) ∧
    ∀ path targets, (s.setTargets host path targets).2 = .done ∨
      (s.setTargets host path targets).1 = s := by
  intro s
  have hsound := System.sound_run host rt db runtime calls
  exact ⟨fun t states => ⟨(System.evaluateResolved_leaves hsound t states).database,
      System.evaluateResolved_answers hsound t states⟩,
    fun t states => (System.evaluateValues_leaves hsound t states).database,
    System.setValue_fails, System.setConnections_fails, System.setTargets_fails⟩

end RigExec.Standalone
