/-
# `RigExec.Lib.Entries` — sparse entries over a default

A list of entries names some places of an array and gives each a value; the places it does not
name have the default.

    Reads           the value an index reads
    writeEntries    the entries written into an array, one after another
    Related         two lists of values related place by place

With no index named twice an index reads one value, in whatever order the entries stand.
-/
import Mathlib.Data.List.Forall2
import Mathlib.Data.List.Nodup

namespace Lib

variable {α β ε : Type}

/-! ## Reading -/

/-- `index` reads `value`: an entry names it so, or none names it and `value` is the default. -/
def Reads (entries : List (Int × α)) (default : α) (index : Int) (value : α) : Prop :=
  (index, value) ∈ entries ∨ (index ∉ entries.map (·.1) ∧ value = default)

section

variable {entries entries' : List (Int × α)} {default value value' : α} {index : Int}

theorem mem_keys_of_mem (h : (index, value) ∈ entries) : index ∈ entries.map (·.1) :=
  List.mem_map.mpr ⟨_, h, rfl⟩

theorem value_unique (hnodup : (entries.map (·.1)).Nodup) (h : (index, value) ∈ entries)
    (h' : (index, value') ∈ entries) : value = value' :=
  congrArg Prod.snd (List.inj_on_of_nodup_map hnodup h h' rfl)

theorem Reads.unique (hnodup : (entries.map (·.1)).Nodup) (h : Reads entries default index value)
    (h' : Reads entries default index value') : value = value' := by
  rcases h with hmem | ⟨hnot, rfl⟩
  · rcases h' with hmem' | ⟨hnot', -⟩
    · exact value_unique hnodup hmem hmem'
    · exact absurd (mem_keys_of_mem hmem) hnot'
  · rcases h' with hmem' | ⟨-, rfl⟩
    · exact absurd (mem_keys_of_mem hmem') hnot
    · rfl

theorem Reads.perm (hperm : entries.Perm entries') (h : Reads entries default index value) :
    Reads entries' default index value := by
  rcases h with hmem | ⟨hnot, heq⟩
  · exact Or.inl (hperm.mem_iff.mp hmem)
  · exact Or.inr ⟨fun hmem => hnot ((hperm.map _).mem_iff.mpr hmem), heq⟩

end

/-! ## Writing -/

/-- The entries written into an array, one after another. -/
def writeEntries (out : List α) (entries : List (Int × α)) : List α :=
  entries.foldl (fun out entry => out.set entry.1.toNat entry.2) out

theorem length_writeEntries (out : List α) (entries : List (Int × α)) :
    (writeEntries out entries).length = out.length := by
  induction entries generalizing out with
  | nil => rfl
  | cons entry entries ih =>
      show (writeEntries (out.set entry.1.toNat entry.2) entries).length = out.length
      rw [ih, List.length_set]

theorem writeEntries_of_notMem {out : List α} {entries : List (Int × α)} {i : Nat}
    (hrange : ∀ entry ∈ entries, 0 ≤ entry.1) (hnot : (i : Int) ∉ entries.map (·.1)) :
    (writeEntries out entries)[i]? = out[i]? := by
  induction entries generalizing out with
  | nil => rfl
  | cons entry entries ih =>
      show (writeEntries (out.set entry.1.toNat entry.2) entries)[i]? = out[i]?
      rw [ih (fun e he => hrange e (List.mem_cons_of_mem _ he))
        fun hmem => hnot (List.mem_cons_of_mem _ hmem)]
      have hentry := hrange entry List.mem_cons_self
      refine List.getElem?_set_ne fun heq => hnot (List.mem_cons.mpr (Or.inl ?_))
      show (i : Int) = entry.1
      omega

theorem writeEntries_of_mem {out : List α} {entries : List (Int × α)} {i : Nat} {value : α}
    (hrange : ∀ entry ∈ entries, 0 ≤ entry.1) (hnodup : (entries.map (·.1)).Nodup)
    (hi : i < out.length) (hmem : ((i : Int), value) ∈ entries) :
    (writeEntries out entries)[i]? = some value := by
  induction entries generalizing out with
  | nil => exact absurd hmem List.not_mem_nil
  | cons entry entries ih =>
      have hrest : ∀ e ∈ entries, 0 ≤ e.1 := fun e he => hrange e (List.mem_cons_of_mem _ he)
      rw [List.map_cons, List.nodup_cons] at hnodup
      rcases List.mem_cons.mp hmem with rfl | hlater
      · show (writeEntries (out.set (i : Int).toNat value) entries)[i]? = some value
        rw [writeEntries_of_notMem hrest hnodup.1]
        exact List.getElem?_set_self hi
      · show (writeEntries (out.set entry.1.toNat entry.2) entries)[i]? = some value
        refine ih hrest hnodup.2 ?_ hlater
        rw [List.length_set]
        exact hi

theorem reads_writeEntries {entries : List (Int × α)} {default value : α} {count i : Nat}
    (hrange : ∀ entry ∈ entries, 0 ≤ entry.1) (hnodup : (entries.map (·.1)).Nodup)
    (hvalue : (writeEntries (List.replicate count default) entries)[i]? = some value) :
    Reads entries default i value := by
  have hi : i < (List.replicate count default).length := by
    rw [← length_writeEntries _ entries]
    exact (List.getElem?_eq_some_iff.mp hvalue).1
  by_cases hmem : (i : Int) ∈ entries.map (·.1)
  · obtain ⟨⟨_, named⟩, hentry, rfl⟩ := List.mem_map.mp hmem
    rw [writeEntries_of_mem hrange hnodup hi hentry] at hvalue
    exact Or.inl (Option.some.inj hvalue ▸ hentry)
  · rw [writeEntries_of_notMem hrange hmem, List.getElem?_eq_getElem hi, List.getElem_replicate]
      at hvalue
    exact Or.inr ⟨hmem, (Option.some.inj hvalue).symm⟩

/-! ## Related values -/

section

variable {R : α → β → Prop} {xs : List α} {ys : List β}

theorem exists_forall₂ (h : ∀ x ∈ xs, ∃ y, R x y) : ∃ ys, List.Forall₂ R xs ys := by
  induction xs with
  | nil => exact ⟨[], .nil⟩
  | cons x xs ih =>
      obtain ⟨y, hy⟩ := h x List.mem_cons_self
      obtain ⟨ys, hys⟩ := ih fun x hx => h x (List.mem_cons_of_mem _ hx)
      exact ⟨y :: ys, .cons hy hys⟩

theorem forall₂_getElem? (h : List.Forall₂ R xs ys) {i : Nat} {x : α} (hx : xs[i]? = some x) :
    ∃ y, ys[i]? = some y ∧ R x y := by
  induction h generalizing i with
  | nil => exact absurd hx (Option.some_ne_none _).symm
  | @cons a b as bs hab _ ih =>
      cases i with
      | zero =>
          cases hx
          exact ⟨b, rfl, hab⟩
      | succ i => exact ih hx

theorem forall₂_mem (h : List.Forall₂ R xs ys) {x : α} (hx : x ∈ xs) : ∃ y ∈ ys, R x y := by
  obtain ⟨i, hi⟩ := List.mem_iff_getElem?.mp hx
  obtain ⟨y, hy, hxy⟩ := forall₂_getElem? h hi
  exact ⟨y, List.mem_iff_getElem?.mpr ⟨i, hy⟩, hxy⟩

theorem forall₂_zip_mem {indices : List Int} (h : List.Forall₂ R xs ys) {index : Int} {x : α}
    (hmem : (index, x) ∈ indices.zip xs) : ∃ y, (index, y) ∈ indices.zip ys ∧ R x y := by
  induction h generalizing indices with
  | nil => exact absurd hmem (by rw [List.zip_nil_right]; exact List.not_mem_nil)
  | @cons a b as bs hab _ ih =>
      cases indices with
      | nil => exact absurd hmem List.not_mem_nil
      | cons head indices =>
          rcases List.mem_cons.mp hmem with heq | hlater
          · cases heq
            exact ⟨b, List.mem_cons_self, hab⟩
          · obtain ⟨y, hy, hxy⟩ := ih hlater
            exact ⟨y, List.mem_cons_of_mem _ hy, hxy⟩

/-- A traversal of `Except` succeeds where each element does. -/
theorem mapM_eq_ok_iff {f : α → Except ε β} :
    xs.mapM f = .ok ys ↔ List.Forall₂ (fun x y => f x = .ok y) xs ys := by
  induction xs generalizing ys with
  | nil =>
      rw [List.forall₂_nil_left_iff]
      exact ⟨fun h => (Except.ok.inj h).symm, fun h => h ▸ rfl⟩
  | cons x xs ih =>
      rw [List.mapM_cons, List.forall₂_cons_left_iff]
      cases hx : f x with
      | error e =>
          constructor
          · intro h
            change (Except.error e : Except ε (List β)) = _ at h
            cases h
          · rintro ⟨y, ys, hy, -, -⟩
            cases hy
      | ok y =>
          cases hxs : xs.mapM f with
          | error e =>
              constructor
              · intro h
                change (Except.error e : Except ε (List β)) = _ at h
                cases h
              · rintro ⟨y', ys, -, htail, -⟩
                cases hxs.symm.trans (ih.mpr htail)
          | ok rest =>
              constructor
              · intro h
                refine ⟨y, rest, rfl, ih.mp hxs, ?_⟩
                exact (Except.ok.inj h).symm
              · rintro ⟨y', ys', hy, htail, rfl⟩
                have hsame : rest = ys' := Except.ok.inj (hxs.symm.trans (ih.mpr htail))
                cases hy
                rw [← hsame]
                rfl

end

end Lib
