import Mathlib.Data.List.Nodup
import Mathlib.Data.List.Perm.Lattice
import Mathlib.Data.List.Dedup

/-!
# Insertion-ordered dictionaries

A `Dict κ ν` is a list of entries with distinct keys, in the order in which the keys were first
set. `set` overwrites in place or appends. `groupBy f l` is the dictionary of the rows of `l`
under the keys `f` gives them, keys in first-seen order and rows in list order; rows without a
key are left out; `accumulate key f init l` folds the rows of each key into one value
(`get?_accumulate`).
-/

namespace TtLedger

/-- Entries with distinct keys, in the order the keys were first set. -/
structure Dict (κ ν : Type) where
  entries : List (κ × ν)
  keys_nodup : (entries.map Prod.fst).Nodup

namespace Dict

variable {κ ν : Type}

/-- The dictionary without entries. -/
def empty : Dict κ ν := ⟨[], by simp⟩

/-- The keys, in the order they were first set. -/
def keys (d : Dict κ ν) : List κ := d.entries.map Prod.fst

/-- The values, in the order their keys were first set. -/
def values (d : Dict κ ν) : List ν := d.entries.map Prod.snd

variable [DecidableEq κ]

/-- The value under a key. -/
def get? (d : Dict κ ν) (k : κ) : Option ν := (d.entries.find? fun e => e.1 == k).map Prod.snd

theorem get?_eq_some {d : Dict κ ν} {k : κ} {v : ν} : d.get? k = some v ↔ (k, v) ∈ d.entries := by
  simp only [get?, Option.map_eq_some_iff]
  constructor
  · rintro ⟨e, he, rfl⟩
    have hk : e.1 = k := by simpa using List.find?_some he
    exact hk ▸ List.mem_of_find?_eq_some he
  · intro h
    cases hf : d.entries.find? fun e => e.1 == k with
    | none => simpa using List.find?_eq_none.mp hf _ h
    | some e =>
      have hk : e.1 = k := by simpa using List.find?_some hf
      have := List.inj_on_of_nodup_map d.keys_nodup (List.mem_of_find?_eq_some hf) h hk
      exact ⟨e, rfl, by rw [this]⟩

theorem get?_eq_none {d : Dict κ ν} {k : κ} : d.get? k = none ↔ k ∉ d.keys := by
  simp only [get?, keys, Option.map_eq_none_iff, List.find?_eq_none, List.mem_map, beq_iff_eq]
  exact ⟨fun h ⟨e, he, hk⟩ => h e he hk, fun h e he hk => h ⟨e, he, hk⟩⟩

@[simp] theorem get?_empty (k : κ) : (empty : Dict κ ν).get? k = none := rfl

theorem entries_eq_nil_iff {d : Dict κ ν} : d.entries = [] ↔ ∀ k, d.get? k = none := by
  constructor
  · intro h k
    simp [get?, h]
  · intro h
    refine List.eq_nil_iff_forall_not_mem.mpr fun e he => ?_
    simpa [get?_eq_some.mpr he] using h e.1

/-- Set the value under a key: in place when the key is there, else as the last entry. -/
def set (d : Dict κ ν) (k : κ) (v : ν) : Dict κ ν :=
  if hk : k ∈ d.keys then
    ⟨d.entries.map fun e => if e.1 = k then (k, v) else e, by
      have : (d.entries.map fun e => if e.1 = k then (k, v) else e).map Prod.fst =
          d.entries.map Prod.fst := by
        rw [List.map_map]
        refine List.map_congr_left fun e _ => ?_
        by_cases he : e.1 = k <;> simp [he]
      rw [this]
      exact d.keys_nodup⟩
  else
    ⟨d.entries ++ [(k, v)], by
      rw [List.map_append, List.nodup_append]
      refine ⟨d.keys_nodup, by simp, ?_⟩
      rintro a ha b hb rfl
      simp only [List.map_cons, List.map_nil, List.mem_singleton] at hb
      exact hk (hb ▸ ha)⟩

theorem mem_entries_set {d : Dict κ ν} {k : κ} {v : ν} {e : κ × ν} :
    e ∈ (d.set k v).entries ↔ e = (k, v) ∨ e ∈ d.entries ∧ e.1 ≠ k := by
  by_cases hk : k ∈ d.keys
  · simp only [set, hk, dif_pos, List.mem_map]
    constructor
    · rintro ⟨a, ha, rfl⟩
      by_cases hak : a.1 = k
      · exact Or.inl (by simp [hak])
      · exact Or.inr (by simp [hak, ha])
    · rintro (rfl | ⟨he, hne⟩)
      · obtain ⟨a, ha, hak⟩ := List.mem_map.mp hk
        exact ⟨a, ha, by simp [hak]⟩
      · exact ⟨e, he, by simp [hne]⟩
  · simp only [set, hk, dif_neg, not_false_eq_true, List.mem_append, List.mem_singleton]
    constructor
    · rintro (he | rfl)
      · refine Or.inr ⟨he, ?_⟩
        rintro rfl
        exact hk (List.mem_map.mpr ⟨e, he, rfl⟩)
      · exact Or.inl rfl
    · rintro (rfl | ⟨he, -⟩)
      · exact Or.inr rfl
      · exact Or.inl he

@[simp] theorem get?_set (d : Dict κ ν) (k : κ) (v : ν) (k' : κ) :
    (d.set k v).get? k' = if k' = k then some v else d.get? k' := by
  split
  · rename_i h
    subst h
    exact get?_eq_some.mpr (mem_entries_set.mpr (Or.inl rfl))
  · rename_i h
    refine Option.ext fun w => ?_
    rw [get?_eq_some, get?_eq_some, mem_entries_set]
    simp [h]

/-- Setting a value adds its key at most. -/
theorem keys_set (d : Dict κ ν) (k : κ) (v : ν) :
    (d.set k v).keys = if k ∈ d.keys then d.keys else d.keys ++ [k] := by
  by_cases h : k ∈ d.keys
  · have hkey : ∀ e ∈ d.entries, (if e.1 = k then (k, v) else e).1 = e.1 := by
      intro e _
      split
      · rename_i he
        exact he.symm
      · rfl
    rw [if_pos h, set, dif_pos h, keys, List.map_map]
    exact List.map_congr_left hkey
  · rw [if_neg h, set, dif_neg h, keys, List.map_append]
    rfl

/-- Set the value of each entry in turn. -/
def setAll (d : Dict κ ν) (entries : List (κ × ν)) : Dict κ ν :=
  entries.foldl (fun d e => d.set e.1 e.2) d

/-- The last entry of a list under a key. -/
def lastUnder (entries : List (κ × ν)) (k : κ) : Option ν :=
  (entries.reverse.find? fun e => e.1 = k).map Prod.snd

theorem lastUnder_append (l l' : List (κ × ν)) (k : κ) :
    lastUnder (l ++ l') k = (lastUnder l' k).or (lastUnder l k) := by
  rw [lastUnder, List.reverse_append, List.find?_append, lastUnder, lastUnder]
  cases l'.reverse.find? fun e => e.1 = k <;> rfl

/-- The last setting of a key counts. -/
theorem get?_setAll (d : Dict κ ν) (entries : List (κ × ν)) (k : κ) :
    (d.setAll entries).get? k = (lastUnder entries k).or (d.get? k) := by
  induction entries generalizing d with
  | nil => rfl
  | cons e entries ih =>
    have hone : lastUnder [e] k = if k = e.1 then some e.2 else none := by
      by_cases h : e.1 = k <;> simp [lastUnder, h, eq_comm]
    rw [show d.setAll (e :: entries) = (d.set e.1 e.2).setAll entries from rfl, ih, get?_set,
      show e :: entries = [e] ++ entries from rfl, lastUnder_append, hone]
    split_ifs <;> cases lastUnder entries k <;> rfl

/-- A dictionary holds one entry under a key. -/
theorem lastUnder_entries (d : Dict κ ν) (k : κ) : lastUnder d.entries k = d.get? k := by
  refine Option.ext fun v => ?_
  rw [get?_eq_some, lastUnder, Option.map_eq_some_iff]
  constructor
  · rintro ⟨e, he, rfl⟩
    have hk : e.1 = k := by simpa using List.find?_some he
    exact hk ▸ List.mem_reverse.mp (List.mem_of_find?_eq_some he)
  · intro h
    cases hf : d.entries.reverse.find? fun e => e.1 = k with
    | none => simpa using List.find?_eq_none.mp hf _ (List.mem_reverse.mpr h)
    | some e =>
      have hk : e.1 = k := by simpa using List.find?_some hf
      have hmem := List.mem_reverse.mp (List.mem_of_find?_eq_some hf)
      exact ⟨e, rfl, by rw [List.inj_on_of_nodup_map d.keys_nodup hmem h hk]⟩

/-- `dict.update`. -/
def update (d d' : Dict κ ν) : Dict κ ν := d.setAll d'.entries

theorem get?_update (d d' : Dict κ ν) (k : κ) :
    (d.update d').get? k = (d'.get? k).or (d.get? k) := by
  rw [update, get?_setAll, lastUnder_entries]

end Dict

/-! ## Grouping by a key -/

section GroupBy

variable {α κ : Type} [DecidableEq κ]

theorem nodup_eraseDups (l : List κ) : l.eraseDups.Nodup := by
  cases l with
  | nil => simp
  | cons a l =>
    rw [List.eraseDups_cons, List.nodup_cons]
    exact ⟨by simp [List.mem_eraseDups], nodup_eraseDups _⟩
termination_by l.length
decreasing_by
  have := List.length_filter_le (fun b => !b == a) l
  simp only [List.length_cons]
  omega

/-- The rows of a list under their keys: keys in first-seen order, rows in list order, rows
without a key left out. -/
def groupBy (f : α → Option κ) (l : List α) : Dict κ (List α) where
  entries := (l.filterMap f).eraseDups.map fun k => (k, l.filter fun a => f a == some k)
  keys_nodup := by
    rw [List.map_map]
    simpa [Function.comp_def] using nodup_eraseDups (l.filterMap f)

variable {f : α → Option κ} {l : List α}

theorem mem_groupBy {k : κ} {vs : List α} :
    (k, vs) ∈ (groupBy f l).entries ↔
      (∃ a ∈ l, f a = some k) ∧ vs = l.filter fun a => f a == some k := by
  simp only [groupBy, List.mem_map, List.mem_eraseDups, List.mem_filterMap, Prod.mk.injEq]
  constructor
  · rintro ⟨k', hk, rfl, rfl⟩
    exact ⟨hk, rfl⟩
  · rintro ⟨hk, rfl⟩
    exact ⟨k, hk, rfl, rfl⟩

theorem mem_groupBy_iff {k : κ} {vs : List α} :
    (k, vs) ∈ (groupBy f l).entries ↔
      (∃ a ∈ l, f a = some k) ∧ vs = l.filter fun a => f a = some k := by
  have hfilter : (l.filter fun a => f a == some k) = l.filter fun a => f a = some k :=
    List.filter_congr fun a _ => by by_cases h : f a = some k <;> simp [h]
  rw [mem_groupBy, hfilter]

@[simp] theorem groupBy_nil : (groupBy f []).entries = [] := rfl

/-- Rows of one key are one group. -/
theorem groupBy_entries_of_forall {k : κ} (hl : l ≠ []) (h : ∀ a ∈ l, f a = some k) :
    (groupBy f l).entries = [(k, l)] := by
  have hkeys : l.filterMap f = l.map fun _ => k := by
    rw [← List.filterMap_eq_map]
    exact List.filterMap_congr h
  have hone : (l.map fun _ => k).eraseDups = [k] := by
    obtain ⟨a, l, rfl⟩ := List.exists_cons_of_ne_nil hl
    simp [List.eraseDups_cons]
  have hall : (l.filter fun a => f a == some k) = l :=
    List.filter_eq_self.mpr fun a ha => by simp [h a ha]
  simp only [groupBy, hkeys, hone, List.map_singleton, hall]

theorem keys_groupBy : (groupBy f l).keys = (l.filterMap f).eraseDups := by
  simp [Dict.keys, groupBy, Function.comp_def]

/-- The rows under a key are the rows that have it. -/
theorem getD_get?_groupBy (k : κ) :
    ((groupBy f l).get? k).getD [] = l.filter fun a => f a = some k := by
  cases h : (groupBy f l).get? k with
  | some vs => rw [Option.getD_some, (mem_groupBy_iff.mp (Dict.get?_eq_some.mp h)).2]
  | none =>
    rw [Dict.get?_eq_none, keys_groupBy, List.mem_eraseDups, List.mem_filterMap] at h
    rw [Option.getD_none, eq_comm, List.filter_eq_nil_iff]
    intro a ha hk
    exact h ⟨a, ha, of_decide_eq_true hk⟩

/-- What is computed of each key and its rows does not depend on the order of the keys. -/
theorem groupBy_entries_map_perm {β : Type*} {F : κ × List α → β} {l' : List α} (hp : l.Perm l')
    (hF : ∀ k, (∃ a ∈ l, f a = some k) →
      F (k, l.filter fun a => f a = some k) = F (k, l'.filter fun a => f a = some k)) :
    ((groupBy f l).entries.map F).Perm ((groupBy f l').entries.map F) := by
  have hkeys : (l.filterMap f).eraseDups.Perm (l'.filterMap f).eraseDups :=
    (List.perm_ext_iff_of_nodup (nodup_eraseDups _) (nodup_eraseDups _)).mpr fun k => by
      rw [List.mem_eraseDups, List.mem_eraseDups, (hp.filterMap f).mem_iff]
  have hentries : ∀ l : List α, (groupBy f l).entries.map F =
      (l.filterMap f).eraseDups.map fun k => F (k, l.filter fun a => f a = some k) := by
    intro l
    simp only [groupBy, List.map_map, Function.comp_def]
    refine List.map_congr_left fun k _ => ?_
    congr 2
    exact List.filter_congr fun a _ => by by_cases h : f a = some k <;> simp [h]
  have hsame : ((l.filterMap f).eraseDups.map fun k => F (k, l.filter fun a => f a = some k)) =
      (l.filterMap f).eraseDups.map fun k => F (k, l'.filter fun a => f a = some k) := by
    refine List.map_congr_left fun k hk => ?_
    rw [List.mem_eraseDups, List.mem_filterMap] at hk
    exact hF k hk
  rw [hentries, hentries, hsame]
  exact hkeys.map _

theorem groupBy_entries_eq_nil_iff : (groupBy f l).entries = [] ↔ ∀ a ∈ l, f a = none := by
  rw [List.eq_nil_iff_forall_not_mem]
  constructor
  · intro h a ha
    cases hf : f a with
    | none => rfl
    | some k => exact absurd (mem_groupBy.mpr ⟨⟨a, ha, hf⟩, rfl⟩) (h _)
  · rintro h ⟨k, vs⟩ he
    obtain ⟨⟨a, ha, hf⟩, -⟩ := mem_groupBy.mp he
    simp [h a ha] at hf

/-- The rows of the groups together are the rows that have a key. -/
theorem flatMap_groupBy_perm :
    ((groupBy f l).entries.flatMap Prod.snd).Perm (l.filter fun a => (f a).isSome) := by
  have key : ∀ (ks : List κ), ks.Nodup →
      (ks.flatMap fun k => l.filter fun a => f a == some k).Perm
        (l.filter fun a => (f a).any (· ∈ ks)) := by
    intro ks hks
    induction ks with
    | nil => simp
    | cons k ks ih =>
      obtain ⟨hk, hks⟩ := List.nodup_cons.mp hks
      rw [List.flatMap_cons]
      refine ((ih hks).append_left _).trans ?_
      -- split the rows keyed in `k :: ks` into those keyed `k` and the others
      have hsplit := List.filter_append_perm (fun a => f a == some k)
        (l.filter fun a => (f a).any (· ∈ k :: ks))
      refine List.Perm.trans (List.Perm.of_eq ?_) hsplit
      rw [List.filter_filter, List.filter_filter]
      congr 1
      · refine List.filter_congr fun a _ => ?_
        cases hf : f a with
        | none => simp
        | some k' => by_cases h : k' = k <;> simp [h]
      · refine List.filter_congr fun a _ => ?_
        cases hf : f a with
        | none => simp
        | some k' =>
          by_cases h : k' = k
          · subst h
            simp [hk]
          · simp [h]
  have hflat : (groupBy f l).entries.flatMap Prod.snd =
      (l.filterMap f).eraseDups.flatMap fun k => l.filter fun a => f a == some k := by
    simp [groupBy, List.flatMap_map]
  rw [hflat]
  refine (key _ (nodup_eraseDups _)).trans (List.Perm.of_eq ?_)
  refine List.filter_congr fun a ha => ?_
  cases hf : f a with
  | none => simp
  | some k =>
    have : ∃ a ∈ l, f a = some k := ⟨a, ha, hf⟩
    simpa [List.mem_eraseDups, List.mem_filterMap] using this

end GroupBy

/-! ## Accumulating under keys -/

section Accumulate

variable {α κ ν : Type} [DecidableEq κ] (key : α → Option κ) (f : ν → α → ν) (init : ν)

/-- Add a row to the value under its key; a row without a key is left out. -/
def Dict.addTo (d : Dict κ ν) (a : α) : Dict κ ν :=
  match key a with
  | none => d
  | some k => d.set k (f ((d.get? k).getD init) a)

/-- The rows of a list accumulated under their keys, keys in first-seen order. -/
def Dict.accumulate (l : List α) : Dict κ ν := l.foldl (Dict.addTo key f init) Dict.empty

variable {key f init}

theorem Dict.get?_addTo (d : Dict κ ν) (a : α) (k : κ) :
    (Dict.addTo key f init d a).get? k =
      if key a = some k then some (f ((d.get? k).getD init) a) else d.get? k := by
  unfold Dict.addTo
  cases h : key a with
  | none => simp
  | some k' =>
    rw [Dict.get?_set]
    by_cases hk : k = k'
    · subst hk
      simp
    · rw [if_neg hk, if_neg fun h => hk (Option.some.inj h).symm]

theorem Dict.get?_foldl_addTo (l : List α) (d : Dict κ ν) (k : κ) :
    (l.foldl (Dict.addTo key f init) d).get? k =
      if (l.filter fun a => key a = some k) = [] then d.get? k
      else some ((l.filter fun a => key a = some k).foldl f ((d.get? k).getD init)) := by
  induction l generalizing d with
  | nil => simp
  | cons a l ih =>
    rw [List.foldl_cons, ih, Dict.get?_addTo]
    by_cases ha : key a = some k
    · simp only [ha, if_true, List.filter_cons, decide_true, Option.getD_some, List.foldl_cons,
        reduceCtorEq, if_false]
      split
      · rename_i h
        rw [h, List.foldl_nil]
      · rfl
    · simp [ha]

/-- The value under a key is the fold over the key's rows, when there are any. -/
theorem Dict.get?_accumulate (l : List α) (k : κ) :
    (Dict.accumulate key f init l).get? k =
      if (l.filter fun a => key a = some k) = [] then none
      else some ((l.filter fun a => key a = some k).foldl f init) := by
  rw [Dict.accumulate, Dict.get?_foldl_addTo]
  simp

end Accumulate

end TtLedger
