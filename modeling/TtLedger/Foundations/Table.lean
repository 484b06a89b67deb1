import Mathlib.Data.List.Nodup
import Mathlib.Data.List.Perm.Lattice

/-!
# Tables with surrogate ids and a natural key

A `Table key` is a list of rows in insertion order, each under an auto-increment id, where `key`
gives a row's natural key (`none`: the row has none and never conflicts). The invariants are
fields: ids are distinct and below the next one, and no two rows share a natural key. `upsert`
overwrites the row with the same key in place or appends a new one; `modify` rewrites every row
without changing keys. Look-ups by id and by key are characterised by membership
(`get_eq_some`, `getByKey_eq_some`) and computed through each operation.
-/

namespace TtLedger

/-- Rows under auto-increment ids, with at most one row for each natural key. -/
structure Table {T κ : Type} (key : T → Option κ) where
  rows : List (ℕ × T)
  nextId : ℕ
  ids_lt : ∀ p ∈ rows, p.1 < nextId
  ids_nodup : (rows.map Prod.fst).Nodup
  keys_nodup : (rows.filterMap fun p => key p.2).Nodup

namespace Table

variable {T κ : Type} {key : T → Option κ}

@[ext] theorem ext {t t' : Table key} (hr : t.rows = t'.rows) (hn : t.nextId = t'.nextId) :
    t = t' := by
  cases t; cases t'; simp_all

/-- The empty table; ids start at 1. -/
def empty (key : T → Option κ) : Table key := ⟨[], 1, by simp, by simp, by simp⟩

/-- The rows without their ids, in insertion order. -/
def values (t : Table key) : List T := t.rows.map Prod.snd

/-- The row under an id. -/
def get (t : Table key) (i : ℕ) : Option T := (t.rows.find? fun p => p.1 == i).map Prod.snd

section Lookup

variable [DecidableEq κ]

/-- The row with a natural key. -/
def getByKey (t : Table key) (k : κ) : Option T :=
  (t.rows.find? fun p => key p.2 == some k).map Prod.snd

/-- The id of the row with a natural key. -/
def idOf (t : Table key) (k : κ) : Option ℕ :=
  (t.rows.find? fun p => key p.2 == some k).map Prod.fst

end Lookup

/-! ## Look-ups as membership -/

theorem eq_of_mem_of_id {t : Table key} {p q : ℕ × T} (hp : p ∈ t.rows) (hq : q ∈ t.rows)
    (h : p.1 = q.1) : p = q :=
  List.inj_on_of_nodup_map t.ids_nodup hp hq h

theorem eq_of_mem_of_key {t : Table key} {p q : ℕ × T} {k : κ} (hp : p ∈ t.rows)
    (hq : q ∈ t.rows) (hpk : key p.2 = some k) (hqk : key q.2 = some k) : p = q := by
  obtain ⟨rows, nextId, ids_lt, ids_nodup, keys_nodup⟩ := t
  simp only at hp hq
  induction rows with
  | nil => simp at hp
  | cons a l ih =>
    have hl : (l.filterMap fun p => key p.2).Nodup := by
      rw [List.filterMap_cons] at keys_nodup
      split at keys_nodup
      · exact keys_nodup
      · exact (List.nodup_cons.mp keys_nodup).2
    -- a second row with the head's key would repeat that key in the list of keys
    have key_notin : ∀ r ∈ l, key a.2 = some k → key r.2 ≠ some k := by
      intro r hr ha hrk
      rw [List.filterMap_cons, ha] at keys_nodup
      exact (List.nodup_cons.mp keys_nodup).1 (List.mem_filterMap.mpr ⟨r, hr, hrk⟩)
    rcases List.mem_cons.mp hp with rfl | hp' <;> rcases List.mem_cons.mp hq with rfl | hq'
    · rfl
    · exact absurd hqk (key_notin q hq' hpk)
    · exact absurd hpk (key_notin p hp' hqk)
    · exact ih (fun p hp => ids_lt p (by simp [hp])) (List.nodup_cons.mp ids_nodup).2 hl hp' hq'

theorem get_eq_some {t : Table key} {i : ℕ} {r : T} : t.get i = some r ↔ (i, r) ∈ t.rows := by
  simp only [get, Option.map_eq_some_iff]
  constructor
  · rintro ⟨p, hp, rfl⟩
    have hi : p.1 = i := by simpa using List.find?_some hp
    exact hi ▸ List.mem_of_find?_eq_some hp
  · intro h
    cases hf : t.rows.find? fun p => p.1 == i with
    | none => simpa using List.find?_eq_none.mp hf _ h
    | some p =>
      have hi : p.1 = i := by simpa using List.find?_some hf
      have := eq_of_mem_of_id (List.mem_of_find?_eq_some hf) h hi
      exact ⟨p, rfl, by rw [this]⟩

section Lookup

variable [DecidableEq κ]

theorem find?_key_eq_some {t : Table key} {k : κ} {p : ℕ × T} :
    (t.rows.find? fun p => key p.2 == some k) = some p ↔ p ∈ t.rows ∧ key p.2 = some k := by
  constructor
  · exact fun h => ⟨List.mem_of_find?_eq_some h, by simpa using List.find?_some h⟩
  · rintro ⟨hp, hk⟩
    cases hf : t.rows.find? fun p => key p.2 == some k with
    | none => simpa [hk] using List.find?_eq_none.mp hf _ hp
    | some q =>
      have hq : key q.2 = some k := by simpa using List.find?_some hf
      rw [eq_of_mem_of_key (List.mem_of_find?_eq_some hf) hp hq hk]

theorem getByKey_eq_some {t : Table key} {k : κ} {r : T} :
    t.getByKey k = some r ↔ (∃ i, (i, r) ∈ t.rows) ∧ key r = some k := by
  simp only [getByKey, Option.map_eq_some_iff, find?_key_eq_some]
  constructor
  · rintro ⟨p, ⟨hp, hk⟩, rfl⟩
    exact ⟨⟨p.1, hp⟩, hk⟩
  · rintro ⟨⟨i, hi⟩, hk⟩
    exact ⟨(i, r), ⟨hi, hk⟩, rfl⟩

theorem idOf_eq_some {t : Table key} {k : κ} {i : ℕ} :
    t.idOf k = some i ↔ ∃ r, (i, r) ∈ t.rows ∧ key r = some k := by
  simp only [idOf, Option.map_eq_some_iff, find?_key_eq_some]
  constructor
  · rintro ⟨p, ⟨hp, hk⟩, rfl⟩
    exact ⟨p.2, hp, hk⟩
  · rintro ⟨r, hr, hk⟩
    exact ⟨(i, r), ⟨hr, hk⟩, rfl⟩

theorem getByKey_eq_none {t : Table key} {k : κ} :
    t.getByKey k = none ↔ ∀ p ∈ t.rows, key p.2 ≠ some k := by
  simp [getByKey, List.find?_eq_none]

theorem idOf_eq_none {t : Table key} {k : κ} :
    t.idOf k = none ↔ ∀ p ∈ t.rows, key p.2 ≠ some k := by
  simp [idOf, List.find?_eq_none]

end Lookup

/-! ## Rewriting rows in place -/

/-- Rewrite every row, keeping its key. -/
def modify (t : Table key) (f : T → T) (hf : ∀ r, key (f r) = key r) : Table key where
  rows := t.rows.map fun p => (p.1, f p.2)
  nextId := t.nextId
  ids_lt := by
    simp only [List.mem_map]
    rintro _ ⟨p, hp, rfl⟩
    exact t.ids_lt p hp
  ids_nodup := by simpa [List.map_map, Function.comp_def] using t.ids_nodup
  keys_nodup := by simpa [List.filterMap_map, Function.comp_def, hf] using t.keys_nodup

section Modify

variable (t : Table key) (f : T → T) (hf : ∀ r, key (f r) = key r)

@[simp] theorem nextId_modify : (t.modify f hf).nextId = t.nextId := rfl

@[simp] theorem values_modify : (t.modify f hf).values = t.values.map f := by
  simp [values, modify, List.map_map]

theorem mem_rows_modify {p : ℕ × T} :
    p ∈ (t.modify f hf).rows ↔ ∃ r, (p.1, r) ∈ t.rows ∧ f r = p.2 := by
  obtain ⟨i, r⟩ := p
  simp [modify, and_comm]

@[simp] theorem get_modify (i : ℕ) : (t.modify f hf).get i = (t.get i).map f := by
  simp only [get, modify, List.find?_map, Option.map_map, Function.comp_def]

@[simp] theorem getByKey_modify [DecidableEq κ] (k : κ) :
    (t.modify f hf).getByKey k = (t.getByKey k).map f := by
  simp only [getByKey, modify, List.find?_map, Option.map_map, Function.comp_def, hf]

@[simp] theorem idOf_modify [DecidableEq κ] (k : κ) : (t.modify f hf).idOf k = t.idOf k := by
  simp only [idOf, modify, List.find?_map, Option.map_map, Function.comp_def, hf]

theorem modify_id (h : ∀ r ∈ t.values, f r = r) : t.modify f hf = t := by
  refine Table.ext ?_ rfl
  have : ∀ p ∈ t.rows, (p.1, f p.2) = p := fun p hp => by
    rw [h p.2 (List.mem_map.mpr ⟨p, hp, rfl⟩)]
  simpa [modify] using List.map_congr_left (g := id) this

/-- Only what is done to the rows of the table matters. -/
theorem modify_congr {g : T → T} {hg : ∀ r, key (g r) = key r} (h : ∀ r ∈ t.values, f r = g r) :
    t.modify f hf = t.modify g hg := by
  refine Table.ext (List.map_congr_left fun p hp => ?_) rfl
  rw [h p.2 (List.mem_map.mpr ⟨p, hp, rfl⟩)]

theorem modify_modify (g : T → T) (hg : ∀ r, key (g r) = key r) :
    (t.modify f hf).modify g hg = t.modify (fun r => g (f r)) fun r => (hg _).trans (hf r) :=
  Table.ext (by simp [modify, Function.comp_def]) rfl

/-- Two rewritings of the table agree when they agree on its rows. -/
theorem modify_inj {g : T → T} {hg : ∀ r, key (g r) = key r} :
    t.modify f hf = t.modify g hg ↔ ∀ r ∈ t.values, f r = g r := by
  refine ⟨fun h r hr => ?_, fun h => t.modify_congr f hf h⟩
  obtain ⟨p, hp, rfl⟩ := List.mem_map.mp hr
  have hrows : t.rows.map (fun p => (p.1, f p.2)) = t.rows.map fun p => (p.1, g p.2) :=
    congrArg Table.rows h
  exact congrArg Prod.snd (List.map_inj_left.mp hrows p hp)

end Modify

/-! ## Inserting and overwriting -/

/-- Append a row under the next id. -/
def push (t : Table key) (row : T) (h : ∀ k, key row = some k → ∀ p ∈ t.rows, key p.2 ≠ some k) :
    Table key where
  rows := t.rows ++ [(t.nextId, row)]
  nextId := t.nextId + 1
  ids_lt := by
    simp only [List.mem_append, List.mem_singleton]
    rintro p (hp | rfl)
    · exact Nat.lt_succ_of_lt (t.ids_lt p hp)
    · exact Nat.lt_succ_self _
  ids_nodup := by
    rw [List.map_append, List.nodup_append]
    refine ⟨t.ids_nodup, by simp, ?_⟩
    simp only [List.mem_map, List.map_cons, List.map_nil, List.mem_singleton]
    rintro _ ⟨p, hp, rfl⟩ _ rfl
    exact Nat.ne_of_lt (t.ids_lt p hp)
  keys_nodup := by
    rw [List.filterMap_append, List.nodup_append]
    refine ⟨t.keys_nodup, ?_, ?_⟩
    · cases hk : key row <;> simp [hk]
    · simp only [List.mem_filterMap, List.mem_singleton, forall_exists_index, and_imp]
      rintro a p hp hpa b q rfl hqb rfl
      exact h a hqb p hp hpa

/-- Overwrite the row that has the key of `row`. -/
def overwrite [DecidableEq κ] (t : Table key) (row : T) : Table key :=
  t.modify (fun r => if key r = key row then row else r) (fun r => by split <;> simp_all)

/-- Upsert on the natural key: the id of the row and the table that holds it. -/
def upsert [DecidableEq κ] (t : Table key) (row : T) : ℕ × Table key :=
  match hi : (key row).bind t.idOf with
  | some i => (i, t.overwrite row)
  | none => (t.nextId, t.push row (by
      intro k hk
      rw [hk] at hi
      exact idOf_eq_none.mp hi))

section Upsert

variable [DecidableEq κ] (t : Table key) (row : T)

theorem upsert_of_new (h : (key row).bind t.idOf = none) :
    (t.upsert row).1 = t.nextId ∧ (t.upsert row).2.rows = t.rows ++ [(t.nextId, row)] ∧
      (t.upsert row).2.nextId = t.nextId + 1 := by
  unfold upsert
  split
  · simp_all
  · exact ⟨rfl, rfl, rfl⟩

theorem upsert_of_old {i : ℕ} (h : (key row).bind t.idOf = some i) :
    t.upsert row = (i, t.overwrite row) := by
  unfold upsert
  split
  · simp_all
  · simp_all

/-- A row that has the key of a stored one replaces it. -/
theorem upsert_eq_overwrite {k : κ} {r : T} (hk : key row = some k) (h : t.getByKey k = some r) :
    (t.upsert row).2 = t.overwrite row := by
  obtain ⟨i, hi⟩ : ∃ i, t.idOf k = some i := by
    have hp := h
    simp only [getByKey, Option.map_eq_some_iff] at hp
    obtain ⟨p, hp, -⟩ := hp
    exact ⟨p.1, by simp [idOf, hp]⟩
  rw [t.upsert_of_old row (i := i) (by rw [hk]; exact hi)]

/-- The row just written is found under the id the upsert returns. -/
@[simp] theorem get_upsert_self : (t.upsert row).2.get (t.upsert row).1 = some row := by
  rw [get_eq_some]
  cases h : (key row).bind t.idOf with
  | none =>
    obtain ⟨h₁, h₂, -⟩ := t.upsert_of_new row h
    simp [h₁, h₂]
  | some i =>
    rw [t.upsert_of_old row h]
    obtain ⟨k, hk, hi⟩ := Option.bind_eq_some_iff.mp h
    obtain ⟨r, hr, hrk⟩ := idOf_eq_some.mp hi
    exact (mem_rows_modify _ _ _).mpr ⟨r, hr, by simp [hrk, hk]⟩

/-- Look-up by key after an upsert of a keyed row. -/
theorem getByKey_upsert {k : κ} (hk : key row = some k) (k' : κ) :
    (t.upsert row).2.getByKey k' = if k' = k then some row else t.getByKey k' := by
  cases h : (key row).bind t.idOf with
  | none =>
    obtain ⟨-, h₂, -⟩ := t.upsert_of_new row h
    rw [hk] at h
    have hnone := idOf_eq_none.mp h
    simp only [getByKey, h₂, List.find?_append]
    split
    · rename_i he
      subst he
      rw [List.find?_eq_none.mpr (fun p hp => by simpa using hnone p hp)]
      simp [hk]
    · rename_i he
      have hne : ¬ (key row == some k') = true := by simp [hk, Ne.symm he]
      simp only [List.find?_cons, List.find?_nil, hne]
      cases List.find? (fun p => key p.2 == some k') t.rows <;> rfl
  | some i =>
    rw [t.upsert_of_old row h, overwrite, getByKey_modify]
    obtain ⟨k₀, hk₀, hi⟩ := Option.bind_eq_some_iff.mp h
    rw [hk] at hk₀
    cases hk₀
    obtain ⟨r, hr, hrk⟩ := idOf_eq_some.mp hi
    split
    · rename_i he
      subst he
      rw [getByKey_eq_some.mpr ⟨⟨i, hr⟩, hrk⟩]
      simp [hrk, hk]
    · rename_i he
      cases hg : t.getByKey k' with
      | none => rfl
      | some q =>
        have := (getByKey_eq_some.mp hg).2
        simp [this, hk, he]

end Upsert

/-! ## Upserts by surrogate id -/

section ById

variable {t : Table key} {i : ℕ} {r row : T}

theorem mem_values {r : T} : r ∈ t.values ↔ ∃ i, t.get i = some r := by
  simp only [values, List.mem_map, get_eq_some]
  exact ⟨fun ⟨p, hp, hr⟩ => ⟨p.1, hr ▸ hp⟩, fun ⟨i, hi⟩ => ⟨(i, r), hi, rfl⟩⟩

/-- Ids past the last one given out are unused. -/
theorem get_eq_none_of_le {j : ℕ} (h : t.nextId ≤ j) : t.get j = none := by
  cases hg : t.get j with
  | none => rfl
  | some r => exact absurd (t.ids_lt _ (get_eq_some.mp hg)) (Nat.not_lt.mpr h)

variable [DecidableEq κ]

/-- Upserting what a row has become writes the same row. -/
theorem upsert_of_get (h : t.get i = some r) (hk : key row = key r) (hs : (key r).isSome) :
    t.upsert row = (i, t.overwrite row) := by
  obtain ⟨k, hk'⟩ := Option.isSome_iff_exists.mp hs
  refine t.upsert_of_old row ?_
  rw [hk, hk', Option.bind_some]
  exact idOf_eq_some.mpr ⟨r, get_eq_some.mp h, hk'⟩

theorem get_overwrite (h : t.get i = some r) (hk : key row = key r) (hs : (key r).isSome)
    (j : ℕ) : (t.overwrite row).get j = if j = i then some row else t.get j := by
  obtain ⟨k, hk'⟩ := Option.isSome_iff_exists.mp hs
  rw [overwrite, get_modify]
  split
  · rename_i hj
    subst hj
    simp [h, hk]
  · rename_i hj
    cases hg : t.get j with
    | none => rfl
    | some q =>
      -- another row has another key
      have hne : key q ≠ key row := by
        rw [hk, hk']
        intro hq
        exact hj (congrArg Prod.fst
          (eq_of_mem_of_key (get_eq_some.mp hg) (get_eq_some.mp h) hq hk'))
      simp [hne]

/-- An upsert of a row with a new key appends it under the next id. -/
theorem get_upsert_of_new (h : (key row).bind t.idOf = none) (j : ℕ) :
    (t.upsert row).2.get j = if j = t.nextId then some row else t.get j := by
  obtain ⟨-, hrows, -⟩ := t.upsert_of_new row h
  have hnone : t.get t.nextId = none := get_eq_none_of_le (Nat.le_refl _)
  simp only [get, hrows, List.find?_append]
  by_cases hj : j = t.nextId
  · subst hj
    have : (t.rows.find? fun p => p.1 == t.nextId) = none := by simpa [get] using hnone
    simp [this]
  · have hne : (t.nextId == j) = false := by simpa using Ne.symm hj
    simp [hj, hne]

/-- An upsert changes the row under the id it returns only. -/
theorem get_upsert (t : Table key) (row : T) (j : ℕ) :
    (t.upsert row).2.get j = if j = (t.upsert row).1 then some row else t.get j := by
  cases h : (key row).bind t.idOf with
  | none => rw [get_upsert_of_new h, (t.upsert_of_new row h).1]
  | some i =>
    obtain ⟨k, hk, hi⟩ := Option.bind_eq_some_iff.mp h
    obtain ⟨r, hr, hrk⟩ := idOf_eq_some.mp hi
    rw [t.upsert_of_old row h, get_overwrite (get_eq_some.mpr hr) (hk.trans hrk.symm)]
    rw [hrk]
    rfl

/-- What an upsert overwrites is the row of its key. -/
theorem getByKey_of_get_upsert {t : Table key} {row r : T} (h : t.get (t.upsert row).1 = some r) :
    ∃ k, key row = some k ∧ t.getByKey k = some r := by
  cases hi : (key row).bind t.idOf with
  | none =>
    rw [(t.upsert_of_new row hi).1, get_eq_none_of_le (Nat.le_refl _)] at h
    cases h
  | some i =>
    obtain ⟨k, hk, hki⟩ := Option.bind_eq_some_iff.mp hi
    obtain ⟨r', hr', hrk⟩ := idOf_eq_some.mp hki
    rw [t.upsert_of_old row hi, get_eq_some.mpr hr'] at h
    obtain rfl := Option.some.inj h
    exact ⟨k, hk, getByKey_eq_some.mpr ⟨⟨i, hr'⟩, hrk⟩⟩

/-- An upsert leaves the ids of the keys stored before. -/
theorem idOf_upsert_of_some {k : κ} {i : ℕ} (h : t.idOf k = some i) :
    (t.upsert row).2.idOf k = some i := by
  cases hi : (key row).bind t.idOf with
  | none =>
    obtain ⟨-, hrows, -⟩ := t.upsert_of_new row hi
    obtain ⟨r, hr, hk⟩ := idOf_eq_some.mp h
    exact idOf_eq_some.mpr ⟨r, hrows ▸ List.mem_append_left _ hr, hk⟩
  | some j => rw [t.upsert_of_old row hi, overwrite, idOf_modify, h]

/-- The row under the id of a key is the row of that key. -/
theorem get_of_idOf {k : κ} {i : ℕ} (h : t.idOf k = some i) : t.get i = t.getByKey k := by
  obtain ⟨r, hr, hk⟩ := idOf_eq_some.mp h
  rw [get_eq_some.mpr hr, getByKey_eq_some.mpr ⟨⟨i, hr⟩, hk⟩]

theorem isSome_idOf {k : κ} : (t.idOf k).isSome = (t.getByKey k).isSome := by
  rw [idOf, getByKey, Option.isSome_map, Option.isSome_map]

theorem values_upsert_of_new (h : (key row).bind t.idOf = none) :
    (t.upsert row).2.values = t.values ++ [row] := by
  obtain ⟨-, hrows, -⟩ := t.upsert_of_new row h
  simp [values, hrows]

theorem mem_values_of_getByKey {k : κ} (h : t.getByKey k = some r) : r ∈ t.values := by
  obtain ⟨⟨i, hi⟩, -⟩ := getByKey_eq_some.mp h
  exact List.mem_map.mpr ⟨_, hi, rfl⟩

theorem getByKey_of_mem_values {k : κ} (h : r ∈ t.values) (hk : key r = some k) :
    t.getByKey k = some r := by
  obtain ⟨p, hp, rfl⟩ := List.mem_map.mp h
  exact getByKey_eq_some.mpr ⟨⟨p.1, hp⟩, hk⟩

end ById

/-! ## Upserts of many rows -/

section UpsertAll

variable [DecidableEq κ]

/-- Upsert rows one after the other. -/
def upsertAll (t : Table key) (rows : List T) : Table key :=
  rows.foldl (fun t row => (t.upsert row).2) t

@[simp] theorem upsertAll_nil (t : Table key) : t.upsertAll [] = t := rfl

@[simp] theorem upsertAll_cons (t : Table key) (row : T) (rows : List T) :
    t.upsertAll (row :: rows) = (t.upsert row).2.upsertAll rows := rfl

theorem upsertAll_append (t : Table key) (rows rows' : List T) :
    t.upsertAll (rows ++ rows') = (t.upsertAll rows).upsertAll rows' := List.foldl_append

/-- Under a key is the last of the rows that have it, else what was there. -/
theorem getByKey_upsertAll (t : Table key) {rows : List T}
    (hrows : ∀ row ∈ rows, (key row).isSome) (k : κ) :
    (t.upsertAll rows).getByKey k =
      ((rows.filter fun row => key row = some k).getLast?).or (t.getByKey k) := by
  induction rows generalizing t with
  | nil => simp
  | cons row rows ih =>
    obtain ⟨k', hk'⟩ := Option.isSome_iff_exists.mp (hrows row (by simp))
    rw [upsertAll_cons, ih _ fun r hr => hrows r (by simp [hr]), getByKey_upsert _ _ hk']
    by_cases h : k = k'
    · subst h
      simp only [if_pos, List.filter_cons, hk', decide_true, List.getLast?_cons]
      cases (rows.filter fun row => key row = some k).getLast? <;> rfl
    · have hne : ¬key row = some k := by
        rw [hk']
        exact fun he => h (Option.some.inj he).symm
      rw [if_neg h, List.filter_cons, decide_eq_false hne]
      rfl

omit [DecidableEq κ] in
/-- The rows with a key occur once. -/
theorem nodup_map_key (t : Table key) {l : List T} (hl : l.Sublist t.values)
    (hkey : ∀ r ∈ l, (key r).isSome) : (l.map key).Nodup := by
  have hsome : (l.filterMap key).map some = l.map key := by
    clear hl
    induction l with
    | nil => rfl
    | cons r l ih =>
      obtain ⟨k, hk⟩ := Option.isSome_iff_exists.mp (hkey r (by simp))
      rw [List.filterMap_cons, hk, List.map_cons, List.map_cons, hk,
        ih fun r hr => hkey r (by simp [hr])]
  have hnodup : (t.values.filterMap key).Nodup := by
    rw [values, List.filterMap_map]
    exact t.keys_nodup
  rw [← hsome]
  exact (hnodup.sublist (hl.filterMap key)).map fun _ _ h => Option.some.inj h

/-- Upserts outside a part of the keys leave the rows of that part. -/
theorem filter_values_upsertAll {t : Table key} {rows : List T} {p : T → Bool}
    (hp : ∀ r r', key r = key r' → p r = p r') (hrows : ∀ r ∈ rows, p r = false) :
    (t.upsertAll rows).values.filter p = t.values.filter p := by
  induction rows generalizing t with
  | nil => rfl
  | cons row rows ih =>
    have hrow := hrows row (by simp)
    rw [upsertAll_cons, ih fun r hr => hrows r (by simp [hr])]
    cases h : (key row).bind t.idOf with
    | none => simp [values_upsert_of_new h, hrow]
    | some i =>
      rw [t.upsert_of_old row h, overwrite, values_modify]
      induction t.values with
      | nil => rfl
      | cons r l ihl =>
        rw [List.map_cons, List.filter_cons, List.filter_cons, ihl]
        by_cases hr : key r = key row
        · rw [if_pos hr, hrow, hp r row hr, hrow]
          rfl
        · rw [if_neg hr]

/-- The ids and keys of a table with its rows by key are the table. -/
theorem eq_of_getByKey {t t' : Table key} (hkey : ∀ r, (key r).isSome)
    (hids : t.rows.map (fun p => (p.1, key p.2)) = t'.rows.map fun p => (p.1, key p.2))
    (hnext : t.nextId = t'.nextId) (hget : ∀ k, t.getByKey k = t'.getByKey k) : t = t' := by
  have hrows : ∀ t : Table key, t.rows.map (fun p => (p.1, some p.2)) =
      (t.rows.map fun p => (p.1, key p.2)).map fun q => (q.1, q.2.bind t.getByKey) := by
    intro t
    rw [List.map_map]
    refine List.map_congr_left fun p hp => ?_
    obtain ⟨k, hk⟩ := Option.isSome_iff_exists.mp (hkey p.2)
    have hp := getByKey_eq_some.mpr (⟨⟨p.1, hp⟩, hk⟩ : (∃ i, (i, p.2) ∈ t.rows) ∧ _)
    simp only [Function.comp_apply, hk, Option.bind_some, hp]
  have hsame : t.rows.map (fun p => (p.1, some p.2)) = t'.rows.map fun p => (p.1, some p.2) := by
    rw [hrows, hrows, hids]
    simp only [funext hget]
  refine Table.ext (List.map_injective_iff.mpr (fun p q hpq => ?_) hsame) hnext
  obtain ⟨h₁, h₂⟩ := Prod.mk.inj hpq
  exact Prod.ext h₁ (Option.some.inj h₂)

/-- Upserts of keys that are stored change no id and no key. -/
theorem ids_upsertAll {t : Table key} {rows : List T}
    (h : ∀ r ∈ rows, ((key r).bind t.idOf).isSome = true) :
    (t.upsertAll rows).rows.map (fun p => (p.1, key p.2)) =
        t.rows.map (fun p => (p.1, key p.2)) ∧
      (t.upsertAll rows).nextId = t.nextId := by
  induction rows generalizing t with
  | nil => exact ⟨rfl, rfl⟩
  | cons row rows ih =>
    obtain ⟨i, hi⟩ := Option.isSome_iff_exists.mp (h row (by simp))
    rw [upsertAll_cons, t.upsert_of_old row hi]
    have hkeys : (t.overwrite row).rows.map (fun p => (p.1, key p.2)) =
        t.rows.map fun p => (p.1, key p.2) := by
      rw [overwrite, modify, List.map_map]
      refine List.map_congr_left fun p _ => ?_
      by_cases hp : key p.2 = key row <;> simp [hp]
    obtain ⟨hids, hnext⟩ := ih (t := t.overwrite row) fun r hr => by
      have hid : (t.overwrite row).idOf = t.idOf := funext fun k => idOf_modify _ _ _ _
      rw [hid]
      exact h r (by simp [hr])
    exact ⟨hids.trans hkeys, hnext⟩

/-- Upserts change nothing exactly when the last row of every key is the one stored. -/
theorem upsertAll_eq_self_iff {t : Table key} {rows : List T} (hkey : ∀ r, (key r).isSome) :
    t.upsertAll rows = t ↔ ∀ r,
      (rows.filter fun row => key row = key r).getLast? = some r → r ∈ t.values := by
  constructor
  · intro h r hr
    obtain ⟨k, hk⟩ := Option.isSome_iff_exists.mp (hkey r)
    have hget := t.getByKey_upsertAll (fun r (_ : r ∈ rows) => hkey r) k
    rw [hk] at hr
    rw [h, hr, Option.some_or] at hget
    exact mem_values_of_getByKey hget
  · intro h
    have hget : ∀ k, (t.upsertAll rows).getByKey k = t.getByKey k := by
      intro k
      rw [t.getByKey_upsertAll (fun r _ => hkey r)]
      cases hlast : (rows.filter fun row => key row = some k).getLast? with
      | none => rfl
      | some r =>
        have hk := of_decide_eq_true (List.mem_filter.mp (List.mem_of_getLast? hlast)).2
        rw [← hk] at hlast
        rw [getByKey_of_mem_values (h r hlast) hk]
        rfl
    have hstored : ∀ r ∈ rows, ((key r).bind t.idOf).isSome = true := by
      intro r hr
      obtain ⟨k, hk⟩ := Option.isSome_iff_exists.mp (hkey r)
      have hmem : r ∈ rows.filter fun row => key row = some k := by simpa [hk] using hr
      obtain ⟨q, hq⟩ := Option.isSome_iff_exists.mp
        (List.getLast?_isSome.mpr (List.ne_nil_of_mem hmem))
      have hqk := of_decide_eq_true (List.mem_filter.mp (List.mem_of_getLast? hq)).2
      rw [← hqk] at hq
      rw [hk, Option.bind_some, isSome_idOf, getByKey_of_mem_values (h q hq) hqk]
      rfl
    obtain ⟨hids, hnext⟩ := ids_upsertAll hstored
    exact eq_of_getByKey hkey hids hnext hget

section Part

variable {t : Table key} {rows : List T} {p : T → Bool} (hkey : ∀ r, (key r).isSome)
  (hrows : ∀ r ∈ rows, p r = true)

include hkey hrows

/-- A row of the part `p` after upserts is a last one of its key, or one stored before under a
key without upserts. -/
theorem mem_values_upsertAll {r : T} :
    r ∈ (t.upsertAll rows).values ∧ p r = true ↔
      (rows.filter fun row => key row = key r).getLast? = some r ∨
        key r ∉ rows.map key ∧ r ∈ t.values ∧ p r = true := by
  obtain ⟨k, hk⟩ := Option.isSome_iff_exists.mp (hkey r)
  have hget := t.getByKey_upsertAll (fun r (_ : r ∈ rows) => hkey r) k
  rw [hk]
  constructor
  · rintro ⟨hr, hpr⟩
    rw [getByKey_of_mem_values hr hk] at hget
    rcases Option.or_eq_some_iff.mp hget.symm with h | ⟨h, h'⟩
    · exact Or.inl h
    · refine Or.inr ⟨fun hmem => ?_, mem_values_of_getByKey h', hpr⟩
      obtain ⟨r', hr', hk'⟩ := List.mem_map.mp hmem
      rw [List.getLast?_eq_none_iff, List.filter_eq_nil_iff] at h
      exact h r' hr' (by simpa using hk')
  · rintro (h | ⟨hnot, hr, hpr⟩)
    · rw [h, Option.some_or] at hget
      exact ⟨mem_values_of_getByKey hget,
        hrows r (List.mem_of_mem_filter (List.mem_of_getLast? h))⟩
    · have hnil : (rows.filter fun row => key row = some k) = [] := by
        refine List.filter_eq_nil_iff.mpr fun r' hr' h => hnot ?_
        exact List.mem_map.mpr ⟨r', hr', of_decide_eq_true h⟩
      rw [hnil, List.getLast?_nil, Option.none_or, getByKey_of_mem_values hr hk] at hget
      exact ⟨mem_values_of_getByKey hget, hpr⟩

/-- After upserts the part `p` of a table is exactly the upserted rows when these have distinct
keys, and the part held no other key before. -/
theorem perm_upsertAll_iff :
    ((t.upsertAll rows).values.filter p).Perm rows ↔
      (rows.map key).Nodup ∧ ∀ r ∈ t.values, p r = true → key r ∈ rows.map key := by
  have hsub : ((t.upsertAll rows).values.filter p).Sublist (t.upsertAll rows).values :=
    List.filter_sublist
  have hnodup := (t.upsertAll rows).nodup_map_key hsub fun r _ => hkey r
  constructor
  · intro hperm
    have hkeys : (rows.map key).Nodup := (hperm.map key).nodup_iff.mp hnodup
    refine ⟨hkeys, fun r hr hpr => ?_⟩
    by_contra hnot
    have hmem := (mem_values_upsertAll hkey hrows (r := r)).mpr (Or.inr ⟨hnot, hr, hpr⟩)
    exact hnot (List.mem_map.mpr ⟨r, hperm.mem_iff.mp (List.mem_filter.mpr hmem), rfl⟩)
  · rintro ⟨hkeys, hknown⟩
    refine (List.perm_ext_iff_of_nodup hnodup.of_map hkeys.of_map).mpr fun r => ?_
    rw [List.mem_filter, mem_values_upsertAll hkey hrows]
    -- the last row of a key is its only row
    have hlast : r ∈ rows → (rows.filter fun row => key row = key r).getLast? = some r := by
      intro hr
      have hmem : r ∈ rows.filter fun row => key row = key r := by simpa using hr
      obtain ⟨q, hq⟩ := Option.isSome_iff_exists.mp
        (List.getLast?_isSome.mpr (List.ne_nil_of_mem hmem))
      obtain ⟨hq', hqk⟩ := List.mem_filter.mp (List.mem_of_getLast? hq)
      rw [hq, List.inj_on_of_nodup_map hkeys hq' hr (of_decide_eq_true hqk)]
    constructor
    · rintro (h | ⟨hnot, hr, hpr⟩)
      · exact List.mem_of_mem_filter (List.mem_of_getLast? h)
      · exact absurd (hknown r hr hpr) hnot
    · exact fun hr => Or.inl (hlast hr)

end Part

/-- After upserts under distinct keys, the rows of a part are the upserted ones in it exactly when
the part held no other key before. -/
theorem perm_filter_upsertAll_iff {t : Table key} {rows : List T} {p : T → Bool}
    (hkey : ∀ r, (key r).isSome) (hkeys : (rows.map key).Nodup) :
    ((t.upsertAll rows).values.filter p).Perm (rows.filter p) ↔
      ∀ r ∈ t.values, p r = true → key r ∈ rows.map key := by
  have hmem : ∀ r, r ∈ (t.upsertAll rows).values ↔
      r ∈ rows ∨ key r ∉ rows.map key ∧ r ∈ t.values := by
    intro r
    have hlast : r ∈ (t.upsertAll rows).values ∧ true = true ↔ _ :=
      mem_values_upsertAll (p := fun _ => true) hkey (fun _ _ => rfl)
    simp only [and_true] at hlast
    rw [hlast]
    refine or_congr ⟨fun h => List.mem_of_mem_filter (List.mem_of_getLast? h), fun hr => ?_⟩ .rfl
    -- the last row of a key is its only row
    have hr' : r ∈ rows.filter fun row => key row = key r := by simpa using hr
    obtain ⟨q, hq⟩ := Option.isSome_iff_exists.mp
      (List.getLast?_isSome.mpr (List.ne_nil_of_mem hr'))
    obtain ⟨hq', hqk⟩ := List.mem_filter.mp (List.mem_of_getLast? hq)
    rw [hq, List.inj_on_of_nodup_map hkeys hq' hr (of_decide_eq_true hqk)]
  have hnodup := (t.upsertAll rows).nodup_map_key
    (List.filter_sublist (p := p) (l := (t.upsertAll rows).values)) fun r _ => hkey r
  rw [List.perm_ext_iff_of_nodup hnodup.of_map (hkeys.of_map.filter p)]
  simp only [List.mem_filter, hmem]
  constructor
  · intro h r hr hpr
    by_contra hnot
    exact hnot (List.mem_map_of_mem ((h r).mp ⟨.inr ⟨hnot, hr⟩, hpr⟩).1)
  · intro h r
    refine ⟨?_, fun hr => ⟨.inl hr.1, hr.2⟩⟩
    rintro ⟨hr | ⟨hnot, hr⟩, hpr⟩
    · exact ⟨hr, hpr⟩
    · exact absurd (h r hr hpr) hnot
end UpsertAll

/-! ## Rows across operations -/

section Keeps

variable {R : T → T → Prop} {t t' t'' : Table key}

/-- Every row is still stored under its id, as one it is related to. -/
def Keeps (R : T → T → Prop) (t t' : Table key) : Prop :=
  ∀ i r, t.get i = some r → ∃ r', t'.get i = some r' ∧ R r r'

namespace Keeps

theorem refl (hR : ∀ r, R r r) (t : Table key) : t.Keeps R t := fun _ r h => ⟨r, h, hR r⟩

theorem trans (hR : ∀ {r r' r''}, R r r' → R r' r'' → R r r'') (h : t.Keeps R t')
    (h' : t'.Keeps R t'') : t.Keeps R t'' := by
  intro i r hr
  obtain ⟨r', hr', hR'⟩ := h i r hr
  obtain ⟨r'', hr'', hR''⟩ := h' i r' hr'
  exact ⟨r'', hr'', hR hR' hR''⟩

theorem modify (f : T → T) (hf : ∀ r, key (f r) = key r) (hR : ∀ r, R r (f r)) :
    t.Keeps R (t.modify f hf) :=
  fun i r h => ⟨f r, by rw [get_modify, h, Option.map_some], hR r⟩

/-- An upsert overwrites the row of its key only. -/
theorem upsert [DecidableEq κ] {row : T} (hR : ∀ r, R r r)
    (h : ∀ k r, key row = some k → t.getByKey k = some r → R r row) :
    t.Keeps R (t.upsert row).2 := by
  intro i r hr
  rw [get_upsert]
  split
  · rename_i hi
    obtain ⟨k, hk, hkr⟩ := getByKey_of_get_upsert (hi ▸ hr)
    exact ⟨row, rfl, h k r hk hkr⟩
  · exact ⟨r, hr, hR r⟩

end Keeps

end Keeps

/-! ## Upserts under surrogate ids -/

section Surrogate

variable [DecidableEq κ] {t : Table key} {rows : List T} {i : ℕ} {k : κ} {r : T}

theorem idOf_upsertAll_of_some (h : t.idOf k = some i) : (t.upsertAll rows).idOf k = some i := by
  induction rows generalizing t with
  | nil => exact h
  | cons row rows ih => exact ih (idOf_upsert_of_some h)

/-- A stored key keeps its id, under which the row of that key is found. -/
theorem get_upsertAll_of_key (h : t.get i = some r) (hk : key r = some k) :
    (t.upsertAll rows).get i = (t.upsertAll rows).getByKey k :=
  get_of_idOf (idOf_upsertAll_of_some (idOf_eq_some.mpr ⟨r, get_eq_some.mp h, hk⟩))

/-- A row without a key is not written over by rows that have one. -/
theorem get_upsertAll_of_none (hrows : ∀ row ∈ rows, (key row).isSome) (h : t.get i = some r)
    (hk : key r = none) : (t.upsertAll rows).get i = some r := by
  induction rows generalizing t with
  | nil => exact h
  | cons row rows ih =>
    refine ih (fun row' hrow' => hrows row' (.tail _ hrow')) ?_
    obtain ⟨k, hrow⟩ := Option.isSome_iff_exists.mp (hrows row (.head _))
    rw [get_upsert, if_neg, h]
    rintro rfl
    cases hi : (key row).bind t.idOf with
    | none =>
      rw [(t.upsert_of_new row hi).1, get_eq_none_of_le (Nat.le_refl _)] at h
      cases h
    | some i =>
      rw [t.upsert_of_old row hi] at h
      rw [hrow, Option.bind_some] at hi
      obtain ⟨r', hr', hk'⟩ := idOf_eq_some.mp hi
      rw [get_eq_some.mpr hr'] at h
      rw [Option.some.inj h, hk] at hk'
      cases hk'

/-- Every row upserted has an id. -/
theorem isSome_idOf_upsertAll (hrows : ∀ row ∈ rows, (key row).isSome) {row : T}
    (hrow : row ∈ rows) : ((key row).bind (t.upsertAll rows).idOf).isSome = true := by
  obtain ⟨k, hk⟩ := Option.isSome_iff_exists.mp (hrows row hrow)
  have hmem : row ∈ rows.filter fun row => key row = some k := by simpa [hk] using hrow
  obtain ⟨last, hlast⟩ := Option.isSome_iff_exists.mp
    (List.getLast?_isSome.mpr (List.ne_nil_of_mem hmem))
  rw [hk, Option.bind_some, isSome_idOf, getByKey_upsertAll t hrows, hlast, Option.some_or]
  rfl

omit [DecidableEq κ] in
theorem eq_of_get {t t' : Table key} (hids : t.rows.map Prod.fst = t'.rows.map Prod.fst)
    (hnext : t.nextId = t'.nextId) (hget : ∀ i, t.get i = t'.get i) : t = t' := by
  have hrows : ∀ t : Table key, t.rows.map (fun p => (p.1, some p.2)) =
      (t.rows.map Prod.fst).map fun i => (i, t.get i) := by
    intro t
    rw [List.map_map]
    exact List.map_congr_left fun p hp => by
      rw [Function.comp_apply, get_eq_some.mpr (show (p.1, p.2) ∈ t.rows from hp)]
  have hsame : t.rows.map (fun p => (p.1, some p.2)) = t'.rows.map fun p => (p.1, some p.2) := by
    rw [hrows, hrows, hids, funext hget]
  refine Table.ext (List.map_injective_iff.mpr (fun p q hpq => ?_) hsame) hnext
  obtain ⟨h₁, h₂⟩ := Prod.mk.inj hpq
  exact Prod.ext h₁ (Option.some.inj h₂)

/-- Upserting the same rows again changes nothing. -/
theorem upsertAll_upsertAll (t : Table key) (hrows : ∀ row ∈ rows, (key row).isSome) :
    (t.upsertAll rows).upsertAll rows = t.upsertAll rows := by
  obtain ⟨hids, hnext⟩ := ids_upsertAll (t := t.upsertAll rows) fun row hrow =>
    isSome_idOf_upsertAll hrows hrow
  refine eq_of_get (by simpa [Function.comp_def] using congrArg (List.map Prod.fst) hids) hnext
    fun i => ?_
  cases hget : (t.upsertAll rows).get i with
  | none =>
    cases hget' : ((t.upsertAll rows).upsertAll rows).get i with
    | none => rfl
    | some r =>
      -- the second pass gives out no id
      have hmem : (i, key r) ∈ (t.upsertAll rows).rows.map fun p => (p.1, key p.2) := by
        rw [← hids]
        exact List.mem_map.mpr ⟨(i, r), get_eq_some.mp hget', rfl⟩
      obtain ⟨p, hp, hpi⟩ := List.mem_map.mp hmem
      have hp' := get_eq_some.mpr (show (p.1, p.2) ∈ _ from hp)
      rw [(Prod.mk.inj hpi).1, hget] at hp'
      cases hp'
  | some r =>
    cases hk : key r with
    | none => rw [get_upsertAll_of_none hrows hget hk]
    | some k =>
      have hold := get_of_idOf (idOf_eq_some.mpr ⟨r, get_eq_some.mp hget, hk⟩)
      rw [get_upsertAll_of_key hget hk, ← hget, hold, getByKey_upsertAll _ hrows,
        getByKey_upsertAll t hrows]
      cases (rows.filter fun row => key row = some k).getLast? <;> rfl

/-- Upsert rows one after the other: their ids, and the table. -/
def upsertEach (t : Table key) (rows : List T) : List ℕ × Table key :=
  rows.foldl (fun r row => let u := r.2.upsert row; (r.1 ++ [u.1], u.2)) ([], t)

/-- The ids are those that the rows' keys have in the end. -/
theorem upsertEach_eq (t : Table key) (hrows : ∀ row ∈ rows, (key row).isSome) :
    t.upsertEach rows =
      (rows.map fun row => ((key row).bind (t.upsertAll rows).idOf).getD 0, t.upsertAll rows) := by
  have hall : ∀ (rows : List T) (ids : List ℕ) (t : Table key),
      (∀ row ∈ rows, (key row).isSome) →
      rows.foldl (fun r row => let u := r.2.upsert row; (r.1 ++ [u.1], u.2)) (ids, t) =
        (ids ++ rows.map fun row => ((key row).bind (t.upsertAll rows).idOf).getD 0,
          t.upsertAll rows) := by
    intro rows
    induction rows with
    | nil => simp
    | cons row rows ih =>
      intro ids t hrows
      have hone : ((key row).bind ((t.upsert row).2.upsertAll rows).idOf).getD 0 =
          (t.upsert row).1 := by
        obtain ⟨k, hk⟩ := Option.isSome_iff_exists.mp (hrows row (.head _))
        have hid : (t.upsert row).2.idOf k = some (t.upsert row).1 :=
          idOf_eq_some.mpr ⟨row, get_eq_some.mp (get_upsert_self t row), hk⟩
        rw [hk, Option.bind_some, idOf_upsertAll_of_some hid, Option.getD_some]
      rw [List.foldl_cons]
      simp only []
      rw [ih _ _ fun row' hrow' => hrows row' (.tail _ hrow'), List.map_cons, upsertAll_cons, hone,
        List.append_assoc, List.singleton_append]
  rw [upsertEach, hall rows [] t hrows, List.nil_append]

end Surrogate

end Table

end TtLedger
