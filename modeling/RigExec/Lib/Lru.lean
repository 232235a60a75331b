/-
# `RigExec.Lib.Lru` — least recently used order, as a list

A bounded store keeps its entries in the order of their last use.  Here that
order is the store: a list of keyed values, the least recently used first.

    put key v       the key's entry leaves, and the value comes in last
    touch key       the key's entry, if there is one, comes last
    trim cap        the shortest prefix whose removal leaves no more than `cap`

A store that stamps its entries with a clock instead is compared with this one
by sorting them (`FrameCache.Recency`).
-/
import Mathlib.Data.List.Basic
import Mathlib.Data.List.Nodup

namespace Lib.Lru

variable {K V : Type} [DecidableEq K] (w : V → Nat)

/-- The order without a key. -/
def without (key : K) (order : List (K × V)) : List (K × V) := order.filter fun kv => kv.1 ≠ key

/-- A value comes in under a key. -/
def put (key : K) (v : V) (order : List (K × V)) : List (K × V) := without key order ++ [(key, v)]

/-- The value of a key. -/
def get (key : K) (order : List (K × V)) : Option V :=
  (order.find? fun kv => kv.1 = key).map Prod.snd

/-- A key's entry becomes the most recently used. -/
def touch (key : K) (order : List (K × V)) : List (K × V) :=
  match get key order with
  | none => order
  | some v => put key v order

/-- What an order weighs. -/
def weight (order : List (K × V)) : Nat := order.foldr (fun kv total => w kv.2 + total) 0

/-- What leaves, and what stays, when no more than `cap` may stay. -/
def trim (cap : Nat) : List (K × V) → List (K × V) × List (K × V)
  | [] => ([], [])
  | kv :: rest =>
      if weight w (kv :: rest) ≤ cap then ([], kv :: rest)
      else (kv :: (trim cap rest).1, (trim cap rest).2)

variable {w} {cap : Nat} {order : List (K × V)} {key : K} {v : V}

omit [DecidableEq K] in
theorem weight_cons (kv : K × V) : weight w (kv :: order) = w kv.2 + weight w order := rfl

omit [DecidableEq K] in
theorem weight_perm {order' : List (K × V)} (h : order.Perm order') :
    weight w order = weight w order' := by
  induction h with
  | nil => rfl
  | cons kv _ ih => rw [weight_cons, weight_cons, ih]
  | swap a b l =>
      rw [weight_cons, weight_cons, weight_cons, weight_cons]
      omega
  | trans _ _ ih₁ ih₂ => exact ih₁.trans ih₂

/-! ## Trimming -/

omit [DecidableEq K] in
theorem trim_append : (trim w cap order).1 ++ (trim w cap order).2 = order := by
  induction order with
  | nil => rfl
  | cons kv rest ih =>
      unfold trim
      split
      · rfl
      · rw [List.cons_append, ih]

omit [DecidableEq K] in
theorem weight_trim : weight w (trim w cap order).2 ≤ cap := by
  induction order with
  | nil => exact Nat.zero_le cap
  | cons kv rest ih =>
      unfold trim
      split
      · assumption
      · exact ih

omit [DecidableEq K] in
theorem trim_shortest {n : Nat} (hn : n < (trim w cap order).1.length) :
    cap < weight w (order.drop n) := by
  induction order generalizing n with
  | nil => cases hn
  | cons kv rest ih =>
      unfold trim at hn
      split at hn
      · cases hn
      · next hover =>
          cases n with
          | zero => exact Nat.lt_of_not_le hover
          | succ n => exact ih (Nat.lt_of_succ_lt_succ hn)

omit [DecidableEq K] in
theorem trim_last (hv : w v ≤ cap) (order : List (K × V)) (key : K) :
    ∃ kept, (trim w cap (order ++ [(key, v)])).2 = kept ++ [(key, v)] := by
  induction order with
  | nil =>
      have hfits : weight w [(key, v)] ≤ cap := hv
      refine ⟨[], ?_⟩
      show (trim w cap [(key, v)]).2 = _
      unfold trim
      rw [if_pos hfits, List.nil_append]
  | cons kv rest ih =>
      rw [List.cons_append]
      unfold trim
      split
      · exact ⟨kv :: rest, rfl⟩
      · exact ih

/-! ## Keys -/

theorem mem_without {kv : K × V} : kv ∈ without key order ↔ kv ∈ order ∧ kv.1 ≠ key := by
  unfold without
  rw [List.mem_filter, decide_eq_true_iff]

theorem without_sublist : (without key order).Sublist order := List.filter_sublist

theorem nodup_put (h : (order.map Prod.fst).Nodup) : ((put key v order).map Prod.fst).Nodup := by
  unfold put
  rw [List.map_append, List.nodup_append']
  refine ⟨h.sublist (without_sublist.map _), List.nodup_singleton key, ?_⟩
  intro k hk hkey
  obtain ⟨kv, hkv, rfl⟩ := List.mem_map.mp hk
  exact (mem_without.mp hkv).2 (List.mem_singleton.mp hkey)

theorem get_eq_some_iff (h : (order.map Prod.fst).Nodup) :
    get key order = some v ↔ (key, v) ∈ order := by
  induction order with
  | nil => simp [get]
  | cons kv rest ih =>
      obtain ⟨hkv, hrest⟩ := List.nodup_cons.mp h
      unfold get at ih ⊢
      rcases eq_or_ne kv.1 key with rfl | hne
      · rw [List.find?_cons_of_pos (by simp)]
        constructor
        · rintro ⟨⟩
          exact List.mem_cons_self
        · intro hmem
          rcases List.mem_cons.mp hmem with heq | hmem
          · exact congrArg (some ∘ Prod.snd) heq.symm
          · exact absurd (List.mem_map_of_mem (f := Prod.fst) hmem) hkv
      · rw [List.find?_cons_of_neg (by simpa using hne), ih hrest, List.mem_cons]
        constructor
        · exact Or.inr
        · rintro (heq | hmem)
          · exact absurd (congrArg Prod.fst heq).symm hne
          · exact hmem

theorem get_eq_none_iff : get key order = none ↔ key ∉ order.map Prod.fst := by
  unfold get
  rw [Option.map_eq_none_iff, List.find?_eq_none]
  constructor
  · intro h hmem
    obtain ⟨kv, hkv, rfl⟩ := List.mem_map.mp hmem
    exact h kv hkv (decide_eq_true rfl)
  · intro h kv hkv hkey
    exact h (of_decide_eq_true hkey ▸ List.mem_map_of_mem hkv)

theorem filter_key (h : (order.map Prod.fst).Nodup) :
    order.filter (fun kv => kv.1 = key) = (get key order).toList.map fun v => (key, v) := by
  induction order with
  | nil => rfl
  | cons kv rest ih =>
      obtain ⟨hkv, hrest⟩ := List.nodup_cons.mp h
      rcases eq_or_ne kv.1 key with rfl | hne
      · have hnone : get kv.1 rest = none := get_eq_none_iff.mpr hkv
        have hget : get kv.1 (kv :: rest) = some kv.2 := by
          unfold get
          rw [List.find?_cons_of_pos (by simp)]
          rfl
        rw [List.filter_cons_of_pos (by simp), ih hrest, hnone, hget]
        rfl
      · have hget : get key (kv :: rest) = get key rest := by
          unfold get
          rw [List.find?_cons_of_neg (by simpa using hne)]
        rw [List.filter_cons_of_neg (by simpa using hne), ih hrest, hget]

theorem get_perm {order' : List (K × V)} (hp : order.Perm order')
    (h : (order.map Prod.fst).Nodup) : get key order = get key order' := by
  refine Option.ext fun v => ?_
  rw [get_eq_some_iff h, get_eq_some_iff ((hp.map _).nodup_iff.mp h)]
  exact hp.mem_iff

/-! ## Entries seen through a map -/

section

variable {V' : Type} {w' : V' → Nat} (f : V → V')

/-- The same order of other values. -/
def mapValues (order : List (K × V)) : List (K × V') := order.map fun kv => (kv.1, f kv.2)

theorem without_mapValues :
    without key (mapValues f order) = mapValues f (without key order) := List.filter_map

theorem put_mapValues : put key (f v) (mapValues f order) = mapValues f (put key v order) := by
  unfold put
  rw [without_mapValues]
  unfold mapValues
  rw [List.map_append]
  rfl

theorem get_mapValues : get key (mapValues f order) = (get key order).map f := by
  unfold get mapValues
  rw [List.find?_map, Option.map_map, Option.map_map]
  rfl

omit [DecidableEq K] in
theorem weight_mapValues (hw : ∀ v, w' (f v) = w v) (order : List (K × V)) :
    weight w' (mapValues f order) = weight w order := by
  induction order with
  | nil => rfl
  | cons kv rest ih =>
      show w' (f kv.2) + weight w' (mapValues f rest) = w kv.2 + weight w rest
      rw [hw, ih]

omit [DecidableEq K] in
theorem trim_mapValues (hw : ∀ v, w' (f v) = w v) :
    trim w' cap (mapValues f order) =
      (mapValues f (trim w cap order).1, mapValues f (trim w cap order).2) := by
  induction order with
  | nil => rfl
  | cons kv rest ih =>
      have hweight : weight w' ((kv.1, f kv.2) :: mapValues f rest) = weight w (kv :: rest) :=
        weight_mapValues f hw (kv :: rest)
      show trim w' cap ((kv.1, f kv.2) :: mapValues f rest) = _
      unfold trim
      rw [hweight]
      split
      · rfl
      · rw [ih]
        rfl

end

end Lib.Lru
