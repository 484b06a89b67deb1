import TtLedger.Foundations.Dict
import TtLedger.Foundations.Ranking
import TtLedger.Foundations.Table
import Mathlib.Data.List.Forall2

/-!
# Statements that write

The data-modifying statements of SQL on a stored table, which is a list of rows under their primary
keys: `INSERT`, `INSERT … ON CONFLICT … DO UPDATE`, `UPDATE … WHERE` and `UPDATE … FROM`. A new row
gets the key one above the largest. A batch of rows may be cut into several statements
(`insertChunks`), which changes nothing (`insertChunks_eq`).

`Represents store t rel` says that the relation holds the rows of a `Table`, each as `store`
encodes it, and is about to give out the same key. An upsert on the natural key is then an
`ON CONFLICT` insert (`Represents.insertRow`, and for a batch `Represents.insertRows`), and a
rewriting of rows an update (`Represents.update`, `Represents.updateFrom`).
-/

namespace TtLedger

/-- A stored table: rows under their primary keys. -/
abbrev Rows (T : Type) := List (ℕ × T)

namespace Rows

variable {T κ β : Type}

/-- The primary key of a new row: one above the largest. -/
def nextKey (rel : Rows T) : ℕ := ((rel.map Prod.fst).max?).getD 0 + 1

/-- `INSERT … RETURNING id` of one row. -/
def insert (rel : Rows T) (row : T) : ℕ × Rows T := (rel.nextKey, rel ++ [(rel.nextKey, row)])

/-- `UPDATE … SET … WHERE …`, with the number of rows it matched. -/
def update (rel : Rows T) (where_ : ℕ × T → Bool) (set_ : T → T) : ℕ × Rows T :=
  (rel.countP where_, rel.map fun p => if where_ p then (p.1, set_ p.2) else p)

/-- `UPDATE … SET … FROM` a subquery, each row with its partner in the subquery, if any. -/
def updateFrom (rel : Rows T) (partner : ℕ × T → Option β) (set_ : β → T → T) : ℕ × Rows T :=
  (rel.countP fun p => (partner p).isSome,
    rel.map fun p => (p.1, ((partner p).map fun b => set_ b p.2).getD p.2))

/-- An update that matches no row. -/
theorem update_of_forall {rel : Rows T} {where_ : ℕ × T → Bool} (h : ∀ p ∈ rel, where_ p = false)
    (set_ : T → T) : rel.update where_ set_ = (0, rel) := by
  have hcount : rel.countP where_ = 0 := List.countP_eq_zero.mpr fun p hp => by simp [h p hp]
  have hrows : (rel.map fun p => if where_ p then (p.1, set_ p.2) else p) = rel :=
    (List.map_congr_left fun p hp => by simp [h p hp]).trans (List.map_id _)
  rw [update, hcount, hrows]

section Insert

variable [DecidableEq κ] (key : T → Option κ) (doUpdate : T → T → T)

/-- The row that a new one conflicts with; a null key conflicts with nothing. -/
def conflict (rel : Rows T) (excluded : T) : Option (ℕ × T) :=
  (key excluded).bind fun k => rel.find? fun p => key p.2 == some k

/-- One row of `INSERT … ON CONFLICT (key) DO UPDATE SET … RETURNING id`; `doUpdate` makes the
stored row from the present one and the `excluded` one. -/
def insertRow (rel : Rows T) (excluded : T) : ℕ × Rows T :=
  match conflict key rel excluded with
  | some p => (p.1, (rel.update (fun q => q.1 = p.1) fun row => doUpdate row excluded).2)
  | none => rel.insert excluded

/-- The rows of one statement, in the order of its `VALUES` list. -/
def insertRows (rel : Rows T) (values : List T) : List ℕ × Rows T :=
  values.foldl (fun r row => let u := insertRow key doUpdate r.2 row; (r.1 ++ [u.1], u.2)) ([], rel)

/-- A batch as statements of at most `size` rows each. -/
def insertChunks (size : ℕ) (rel : Rows T) (values : List T) : List ℕ × Rows T :=
  (List.range ((values.length + size - 1) / size)).foldl (fun r n =>
    let u := insertRows key doUpdate r.2 (page values (n * size) size)
    (r.1 ++ u.1, u.2)) ([], rel)

variable {key doUpdate}

theorem insertRows_append (rel : Rows T) (values values' : List T) :
    insertRows key doUpdate rel (values ++ values') =
      let u := insertRows key doUpdate rel values
      let v := insertRows key doUpdate u.2 values'
      (u.1 ++ v.1, v.2) := by
  -- the ids given out before come first, and nothing else depends on them
  have hfrom : ∀ (l : List T) (ids : List ℕ) (rel : Rows T),
      l.foldl (fun r row => let u := insertRow key doUpdate r.2 row; (r.1 ++ [u.1], u.2))
        (ids, rel) =
          (ids ++ (insertRows key doUpdate rel l).1, (insertRows key doUpdate rel l).2) := by
    intro l
    induction l with
    | nil => simp [insertRows]
    | cons row l ih =>
      intro ids rel
      rw [insertRows, List.foldl_cons, List.foldl_cons]
      simp only []
      rw [ih, ih ([] ++ [(insertRow key doUpdate rel row).1])]
      simp
  rw [insertRows, List.foldl_append]
  exact hfrom values' (insertRows key doUpdate rel values).1 (insertRows key doUpdate rel values).2

/-- **Cutting a batch into statements** changes neither the rows nor the ids returned. -/
theorem insertChunks_eq {size : ℕ} (hsize : 0 < size) (rel : Rows T) (values : List T) :
    insertChunks key doUpdate size rel values = insertRows key doUpdate rel values := by
  have hstep : ∀ n, (List.range n).foldl (fun r n =>
      let u := insertRows key doUpdate r.2 (page values (n * size) size)
      (r.1 ++ u.1, u.2)) ([], rel) = insertRows key doUpdate rel (values.take (n * size)) := by
    intro n
    induction n with
    | zero => simp [insertRows]
    | succ n ih =>
      rw [List.range_succ, List.foldl_append, ih, List.foldl_cons, List.foldl_nil, Nat.succ_mul,
        List.take_add, insertRows_append]
      rfl
  rw [insertChunks, hstep, List.take_of_length_le]
  have hdiv := Nat.div_add_mod (values.length + size - 1) size
  have hmod := Nat.mod_lt (values.length + size - 1) hsize
  rw [Nat.mul_comm] at hdiv
  omega

end Insert

/-! ## Look-ups in a subquery -/

/-- A subquery that keeps one column of the rows with distinct keys is looked up row by row. -/
theorem find?_subquery [DecidableEq κ] {α : Type} {column : α → κ} {value : α → Option β}
    {l : List α} (hl : (l.map column).Nodup) (k : κ) :
    ((l.filterMap fun a => (value a).map fun b => (column a, b)).find? fun e => e.1 = k).map
        Prod.snd = (l.find? fun a => column a = k).bind value := by
  induction l with
  | nil => rfl
  | cons a l ih =>
    obtain ⟨ha, hl⟩ := List.nodup_cons.mp hl
    by_cases hk : column a = k
    · -- no later row has the key
      have hnone : (l.find? fun b => column b = k) = none := by
        refine List.find?_eq_none.mpr fun b hb => ?_
        simp only [decide_eq_true_eq]
        exact fun hbk => ha (List.mem_map.mpr ⟨b, hb, hbk.trans hk.symm⟩)
      cases hv : value a with
      | none =>
        rw [List.filterMap_cons_none (by rw [hv]; rfl), ih hl, hnone]
        simp [hk, hv]
      | some b =>
        rw [List.filterMap_cons_some (by rw [hv]; rfl)]
        simp [hk, hv]
    · have htail : (a :: l).find? (fun a => column a = k) = l.find? fun a => column a = k := by
        simp [hk]
      rw [htail, ← ih hl]
      cases hv : value a with
      | none => rw [List.filterMap_cons_none (by rw [hv]; rfl)]
      | some b =>
        rw [List.filterMap_cons_some (by rw [hv]; rfl)]
        simp [hk]

/-- At most one row is under a primary key. -/
theorem filter_primaryKey {rel : Rows T} (h : (rel.map Prod.fst).Nodup) (i : ℕ) :
    (rel.filter fun p => p.1 == i) = (rel.find? fun p => p.1 == i).toList := by
  induction rel with
  | nil => rfl
  | cons p rel ih =>
    obtain ⟨hp, hrel⟩ := List.nodup_cons.mp h
    by_cases hi : p.1 = i
    · have hnone : rel.filter (fun q => q.1 == i) = [] := by
        refine List.filter_eq_nil_iff.mpr fun q hq => ?_
        rw [beq_iff_eq, ← hi]
        exact fun hqp => hp (List.mem_map.mpr ⟨q, hq, hqp⟩)
      simp [hi, hnone]
    · simpa [hi] using ih hrel

/-- A column of some of the rows is part of the column. -/
theorem sublist_filterMap {α : Type} {f g : α → Option κ} (h : ∀ a k, f a = some k → g a = some k)
    (l : List α) : (l.filterMap f).Sublist (l.filterMap g) := by
  induction l with
  | nil => exact List.Sublist.refl _
  | cons a l ih =>
    cases hf : f a with
    | none =>
      rw [List.filterMap_cons_none hf]
      exact ih.trans ((List.sublist_cons_self a l).filterMap g)
    | some k =>
      rw [List.filterMap_cons_some hf, List.filterMap_cons_some (h a k hf)]
      exact ih.cons_cons k

/-- Of entries with distinct keys, the last under a key is the only one. -/
theorem lastUnder_eq_some [DecidableEq κ] {entries : List (κ × β)}
    (h : (entries.map Prod.fst).Nodup) {k : κ} {b : β} :
    Dict.lastUnder entries k = some b ↔ (k, b) ∈ entries := by
  rw [← Dict.get?_eq_some (d := ⟨entries, h⟩), ← Dict.lastUnder_entries]

/-- Updates by a column they do not change, one after the other: the last one that names a row
counts. -/
theorem foldl_update [DecidableEq κ] (column : ℕ × T → κ) (set_ : β → T → T)
    (hcolumn : ∀ p b, column (p.1, set_ b p.2) = column p)
    (hset : ∀ b b' r, set_ b' (set_ b r) = set_ b' r) (updates : List (κ × β)) (rel : Rows T) :
    updates.foldl (fun rel u => (rel.update (fun p => column p = u.1) (set_ u.2)).2) rel =
      rel.map fun p =>
        (p.1, ((Dict.lastUnder updates (column p)).map fun b => set_ b p.2).getD p.2) := by
  induction updates generalizing rel with
  | nil => simp [Dict.lastUnder]
  | cons u updates ih =>
    rw [List.foldl_cons, ih, Rows.update, List.map_map]
    refine List.map_congr_left fun p _ => ?_
    have hlast : Dict.lastUnder (u :: updates) (column p) =
        (Dict.lastUnder updates (column p)).or (if column p = u.1 then some u.2 else none) := by
      rw [← List.singleton_append, Dict.lastUnder_append]
      by_cases hu : column p = u.1
      · simp [Dict.lastUnder, hu]
      · simp [Dict.lastUnder, hu, Ne.symm hu]
    rw [Function.comp_apply, hlast]
    by_cases hu : column p = u.1
    · simp only [hu, decide_true, if_true, hcolumn]
      cases Dict.lastUnder updates u.1 <;> simp [hset]
    · simp only [hu, decide_false, Bool.false_eq_true, if_false]
      cases Dict.lastUnder updates (column p) <;> simp

/-! ## Keys -/

theorem nextKey_congr {rel rel' : Rows T} (h : rel.map Prod.fst = rel'.map Prod.fst) :
    rel.nextKey = rel'.nextKey := by rw [nextKey, h, nextKey]

theorem nextKey_append (rel : Rows T) (row : T) :
    (rel ++ [(rel.nextKey, row)]).nextKey = rel.nextKey + 1 := by
  have hmax : ((rel.map Prod.fst) ++ [rel.nextKey]).max? = some rel.nextKey := by
    rw [List.max?_eq_some_iff]
    refine ⟨by simp, fun n hn => ?_⟩
    rcases List.mem_append.mp hn with hn | hn
    · obtain ⟨m, hm⟩ : ∃ m, (rel.map Prod.fst).max? = some m := by
        cases hmax : (rel.map Prod.fst).max? with
        | none => simp [List.max?_eq_none_iff.mp hmax] at hn
        | some m => exact ⟨m, rfl⟩
      have := (List.max?_eq_some_iff.mp hm).2 n hn
      rw [nextKey, hm, Option.getD_some]
      omega
    · exact (List.mem_singleton.mp hn).le
  rw [nextKey, List.map_append, List.map_singleton, hmax]
  rfl

end Rows

/-! ## A relation that holds a table -/

open Rows

/-- The relation holds the rows of the table as `store` encodes them, and gives out the same next
key. -/
structure Represents {T κ : Type} {key : T → Option κ} (store : T → T) (t : Table key)
    (rel : Rows T) : Prop where
  rows : rel = t.rows.map fun p => (p.1, store p.2)
  nextKey : rel.nextKey = t.nextId

namespace Represents

variable {T κ β : Type} {key : T → Option κ} {store : T → T} {t : Table key} {rel : Rows T}

theorem empty : Represents store (Table.empty key) [] := ⟨rfl, rfl⟩

/-- A rewriting of the table's rows is one of the relation's. -/
theorem map (h : Represents store t rel) {f : T → T} (hf : ∀ r, key (f r) = key r)
    {g : ℕ × T → ℕ × T} (hg : ∀ p ∈ t.rows, g (p.1, store p.2) = (p.1, store (f p.2))) :
    Represents store (t.modify f hf) (rel.map g) := by
  have hrows : rel.map g = (t.modify f hf).rows.map fun p => (p.1, store p.2) := by
    rw [h.rows, Table.modify, List.map_map, List.map_map]
    exact List.map_congr_left hg
  refine ⟨hrows, ?_⟩
  rw [← show rel.nextKey = (t.modify f hf).nextId from h.nextKey]
  refine nextKey_congr ?_
  rw [hrows, h.rows, Table.modify]
  simp [Function.comp_def]

/-- An update whose rows the table rewrites. -/
theorem update (h : Represents store t rel) {f : T → T} (hf : ∀ r, key (f r) = key r)
    (where_ : ℕ × T → Bool) (set_ : T → T) (hit : T → Bool)
    (hhit : ∀ p ∈ t.rows, where_ (p.1, store p.2) = hit p.2)
    (hset : ∀ r, store (f r) = if hit r then set_ (store r) else store r) :
    (rel.update where_ set_).1 = t.values.countP hit ∧
      Represents store (t.modify f hf) (rel.update where_ set_).2 := by
  refine ⟨?_, h.map hf fun p hp => ?_⟩
  · rw [Rows.update, h.rows, Table.values, List.countP_map, List.countP_map]
    exact List.countP_congr fun p hp => by rw [Function.comp_apply, hhit p hp, Function.comp_apply]
  · rw [hhit p hp, hset]
    split <;> rfl

/-- An update from a subquery whose rows the table rewrites. -/
theorem updateFrom (h : Represents store t rel) {f : T → T} (hf : ∀ r, key (f r) = key r)
    {partner : ℕ × T → Option β} {set_ : β → T → T} {found : T → Option β}
    (hfound : ∀ p ∈ t.rows, partner (p.1, store p.2) = found p.2)
    (hset : ∀ r, store (f r) = ((found r).map fun b => set_ b (store r)).getD (store r)) :
    (rel.updateFrom partner set_).1 = t.values.countP (fun r => (found r).isSome) ∧
      Represents store (t.modify f hf) (rel.updateFrom partner set_).2 := by
  refine ⟨?_, h.map hf fun p hp => ?_⟩
  · rw [Rows.updateFrom, h.rows, Table.values, List.countP_map, List.countP_map]
    exact List.countP_congr fun p hp => by
      rw [Function.comp_apply, hfound p hp, Function.comp_apply]
  · rw [hfound p hp, hset]

section Upsert

variable [DecidableEq κ]

theorem conflict_eq (h : Represents store t rel) (hkey : ∀ r, key (store r) = key r) (row : T) :
    conflict key rel (store row) =
      (key row).bind fun k => (t.rows.find? fun p => key p.2 == some k).map fun p =>
        (p.1, store p.2) := by
  rw [conflict, hkey, h.rows]
  simp only [List.find?_map, Function.comp_def, hkey]

/-- The row that an upsert stores over the one with its key. -/
def merged (merge : T → T → T) (t : Table key) (row : T) : T :=
  (((key row).bind t.getByKey).map fun present => merge present row).getD row

theorem key_merged {merge : T → T → T} (hmerge : ∀ present row, key (merge present row) = key row)
    (row : T) : key (merged merge t row) = key row := by
  unfold merged
  cases (key row).bind t.getByKey with
  | none => rfl
  | some present => exact hmerge present row

/-- **An upsert is an insert with `ON CONFLICT DO UPDATE`**, when the update stores what merging the
present row with the new one gives. -/
theorem insertRow (h : Represents store t rel) (hkey : ∀ r, key (store r) = key r)
    {merge doUpdate : T → T → T} (hmerge : ∀ present row, key (merge present row) = key row)
    (hupdate : ∀ present row,
      doUpdate (store present) (store row) = store (merge present row)) (row : T) :
    (Rows.insertRow key doUpdate rel (store row)).1 = (t.upsert (merged merge t row)).1 ∧
      Represents store (t.upsert (merged merge t row)).2
        (Rows.insertRow key doUpdate rel (store row)).2 := by
  have hmerged := key_merged (t := t) hmerge row
  rw [Rows.insertRow, h.conflict_eq hkey]
  cases hid : (key row).bind t.idOf with
  | none =>
    -- a new row
    have hconflict : ((key row).bind fun k => (t.rows.find? fun p => key p.2 == some k).map
        fun p => (p.1, store p.2)) = none := by
      cases hk : key row with
      | none => rfl
      | some k =>
        rw [hk, Option.bind_some, Table.idOf, Option.map_eq_none_iff] at hid
        rw [Option.bind_some, hid]
        rfl
    have hrow : merged merge t row = row := by
      unfold merged
      cases hk : key row with
      | none => rfl
      | some k =>
        rw [hk, Option.bind_some, Table.idOf, Option.map_eq_none_iff] at hid
        rw [Option.bind_some, Table.getByKey, hid]
        rfl
    rw [hconflict, hrow]
    obtain ⟨h₁, h₂, h₃⟩ := t.upsert_of_new row hid
    refine ⟨h.nextKey.trans h₁.symm, ?_, ?_⟩
    · show rel ++ [(rel.nextKey, store row)] = _
      rw [h₂, List.map_append, ← h.rows, h.nextKey]
      rfl
    · rw [h₃, ← h.nextKey]
      exact nextKey_append rel (store row)
  | some i =>
    -- the row under the id `i` takes the new values
    obtain ⟨k, hk, hidk⟩ := Option.bind_eq_some_iff.mp hid
    obtain ⟨p, hp, rfl⟩ := Option.map_eq_some_iff.mp hidk
    have hold : (key (merged merge t row)).bind t.idOf = some p.1 := by rw [hmerged, hid]
    have hmem := (Table.find?_key_eq_some (t := t)).mp hp
    have hpresent : merged merge t row = merge p.2 row := by
      unfold merged
      rw [hk, Option.bind_some, Table.getByKey, hp]
      rfl
    rw [hk, Option.bind_some, hp, t.upsert_of_old _ hold]
    show p.1 = p.1 ∧ Represents store (t.overwrite (merged merge t row))
      (rel.map fun q => if decide (q.1 = p.1) then (q.1, doUpdate q.2 (store row)) else q)
    refine ⟨rfl, h.map (f := fun r => if key r = key (merged merge t row) then merged merge t row
      else r) (fun r => by split <;> simp_all) fun q hq => ?_⟩
    have hiff : q.1 = p.1 ↔ key q.2 = key (merged merge t row) := by
      rw [hmerged, hk]
      constructor
      · intro he
        rw [Table.eq_of_mem_of_id hq hmem.1 he]
        exact hmem.2
      · intro he
        rw [Table.eq_of_mem_of_key hq hmem.1 he hmem.2]
    by_cases he : q.1 = p.1
    · obtain rfl := Table.eq_of_mem_of_id hq hmem.1 he
      simp only [decide_true, if_pos, if_pos (hiff.mp rfl)]
      rw [hpresent, hupdate]
    · simp only [decide_eq_true_eq, if_neg he, if_neg fun h' => he (hiff.mpr h')]

/-- One row of a batch of upserts, after the ids given out before it. -/
def upsertNext (merge : T → T → T) (r : List ℕ × Table key) (row : T) : List ℕ × Table key :=
  let u := r.2.upsert (merged merge r.2 row)
  (r.1 ++ [u.1], u.2)

/-- A batch of upserts, one after the other, each merged with the row that has its key by then. -/
def upsertMerged (merge : T → T → T) (t : Table key) (rows : List T) : List ℕ × Table key :=
  rows.foldl (upsertNext merge) ([], t)

/-- A key that neither the table nor the batch has. -/
theorem key_ne_upsertMerged {merge : T → T → T}
    (hmerge : ∀ present row, key (merge present row) = key row) {k : κ} {rows : List T}
    (ht : ∀ r ∈ t.values, key r ≠ some k) (hrows : ∀ row ∈ rows, key row ≠ some k) :
    ∀ r ∈ (upsertMerged merge t rows).2.values, key r ≠ some k := by
  have hall : ∀ (rows : List T) (x : List ℕ × Table key), (∀ r ∈ x.2.values, key r ≠ some k) →
      (∀ row ∈ rows, key row ≠ some k) →
      ∀ r ∈ (rows.foldl (upsertNext merge) x).2.values, key r ≠ some k := by
    intro rows
    induction rows with
    | nil => exact fun x hx _ => hx
    | cons row rows ih =>
      intro x hx hrows
      refine ih _ (fun r hr => ?_) fun row' hrow' => hrows row' (.tail _ hrow')
      obtain ⟨i, hi⟩ := Table.mem_values.mp hr
      rw [upsertNext, Table.get_upsert] at hi
      split at hi
      · obtain rfl := Option.some.inj hi
        rw [key_merged hmerge]
        exact hrows row (.head _)
      · exact hx r (Table.mem_values.mpr ⟨i, hi⟩)
  exact hall rows ([], t) ht hrows

/-- An upsert keeps every row under its id, with its key. -/
theorem keeps_get_upsert (t : Table key) (row : T) {i : ℕ} {r : T} (hr : t.get i = some r) :
    ∃ r', (t.upsert row).2.get i = some r' ∧ key r' = key r := by
  rw [Table.get_upsert]
  split
  · rename_i hi
    rw [hi] at hr
    obtain ⟨k, hk, hget⟩ := Table.getByKey_of_get_upsert hr
    exact ⟨row, rfl, hk.trans (Table.getByKey_eq_some.mp hget).2.symm⟩
  · exact ⟨r, hr, rfl⟩

/-- **The ids of a batch** come one for each row, in the order of the rows, and each is the id of a
row with that row's key; the rows that were there keep their ids and keys. -/
theorem ids_upsertMerged (t : Table key) (rows : List T) {merge : T → T → T}
    (hmerge : ∀ present row, key (merge present row) = key row) :
    List.Forall₂ (fun row i => ∃ r, (upsertMerged merge t rows).2.get i = some r ∧ key r = key row)
        rows (upsertMerged merge t rows).1 ∧
      ∀ i r, t.get i = some r →
        ∃ r', (upsertMerged merge t rows).2.get i = some r' ∧ key r' = key r := by
  -- what a step has given out is kept by the steps after it
  have hall : ∀ (rows done : List T) (x : List ℕ × Table key),
      List.Forall₂ (fun row i => ∃ r, x.2.get i = some r ∧ key r = key row) done x.1 →
      (∀ i r, t.get i = some r → ∃ r', x.2.get i = some r' ∧ key r' = key r) →
      List.Forall₂ (fun row i =>
          ∃ r, (rows.foldl (upsertNext merge) x).2.get i = some r ∧ key r = key row)
        (done ++ rows) (rows.foldl (upsertNext merge) x).1 ∧
      ∀ i r, t.get i = some r →
        ∃ r', (rows.foldl (upsertNext merge) x).2.get i = some r' ∧ key r' = key r := by
    intro rows
    induction rows with
    | nil =>
      intro done x hdone hkept
      rw [List.append_nil]
      exact ⟨hdone, hkept⟩
    | cons row rows ih =>
      intro done x hdone hkept
      have hstep : ∀ {i : ℕ} {κ' : Option κ}, (∃ r, x.2.get i = some r ∧ key r = κ') →
          ∃ r, (upsertNext merge x row).2.get i = some r ∧ key r = κ' := by
        rintro i _ ⟨r, hr, rfl⟩
        exact keeps_get_upsert x.2 _ hr
      have hnew : ∃ r, (upsertNext merge x row).2.get (x.2.upsert (merged merge x.2 row)).1 =
          some r ∧ key r = key row :=
        ⟨_, Table.get_upsert_self _ _, key_merged hmerge row⟩
      rw [List.append_cons]
      refine ih (done ++ [row]) _ ?_ fun i r hr => hstep (hkept i r hr)
      exact List.rel_append (hdone.imp fun _ _ => hstep) (.cons hnew .nil)
  exact hall rows [] ([], t) .nil fun i r hr => ⟨r, hr, rfl⟩

/-- **A batch of upserts is one statement**, row after row, with the same ids in the same order. -/
theorem insertRows (h : Represents store t rel) (hkey : ∀ r, key (store r) = key r)
    {merge doUpdate : T → T → T} (hmerge : ∀ present row, key (merge present row) = key row)
    (hupdate : ∀ present row,
      doUpdate (store present) (store row) = store (merge present row)) (rows : List T) :
    (Rows.insertRows key doUpdate rel (rows.map store)).1 = (upsertMerged merge t rows).1 ∧
      Represents store (upsertMerged merge t rows).2
        (Rows.insertRows key doUpdate rel (rows.map store)).2 := by
  have hall : ∀ (rows : List T) (ids : List ℕ) (t : Table key) (rel : Rows T),
      Represents store t rel →
      ∀ x, (rows.map store).foldl (fun r row =>
          let u := Rows.insertRow key doUpdate r.2 row; (r.1 ++ [u.1], u.2)) (ids, rel) = x →
        x.1 = (rows.foldl (upsertNext merge) (ids, t)).1 ∧
          Represents store (rows.foldl (upsertNext merge) (ids, t)).2 x.2 := by
    intro rows
    induction rows with
    | nil =>
      rintro ids t rel h x rfl
      exact ⟨rfl, h⟩
    | cons row rows ih =>
      intro ids t rel h x hx
      obtain ⟨hid, hrep⟩ := h.insertRow hkey hmerge hupdate row
      rw [List.map_cons, List.foldl_cons] at hx
      simp only [hid] at hx
      exact ih _ _ _ hrep x hx
  exact hall rows [] t rel h _ rfl

end Upsert

end Represents

end TtLedger
