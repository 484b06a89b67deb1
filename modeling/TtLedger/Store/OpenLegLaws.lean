import TtLedger.Store.OpenLegs
import Mathlib.Data.List.ReduceOption

/-!
# What the reads of open legs count

Each read as a function of the rows of one leg, `legRows s pk sid`. The shared fold reports
`exactNet`, truncated, for the rows of each account (`mem_foldOpenGroupLegs`); the in-memory
aggregate `wholeNet`, where every quantity is truncated first (`netOpenIn_netOpenByGroup`); the SQL
aggregate `netOpen`, where the two sums are truncated (its own `netOpenIn_netOpenByGroup`). None of
them depends on the order of the rows.
-/

namespace TtLedger

/-! ## Counts of a list of rows -/

/-- What a row adds to the count of its leg, exactly. -/
def legDelta (t : TxnRow) : ℚ :=
  let qty := t.quantity.getD 0
  if opensLeg t.action then qty else if closesLeg t.action then -qty else 0

/-- The row is a settlement that its action does not account for. -/
def TxnRow.removesLeg (t : TxnRow) : Bool := isPositionRemoval t.action t.transactionSubType

/-- The largest settlement. -/
def largestRemoval (rows : List TxnRow) : ℚ :=
  ((rows.filter TxnRow.removesLeg).map fun t => t.quantity.getD 0).foldl max 0

/-- The open count of a leg, before truncation. -/
def exactNet (rows : List TxnRow) : ℚ := (rows.map legDelta).sum - largestRemoval rows

/-- The open count of a leg from the whole parts of its quantities. -/
def wholeNet (rows : List TxnRow) : ℤ :=
  (rows.map tradedDelta).sum -
    ((rows.filter TxnRow.removesLeg).map fun t => truncate (t.quantity.getD 0)).foldl max 0

/-- The rows of a leg. -/
def legRowsOf (txns : List TxnRow) (pk : ℕ) (sid : String) : List TxnRow :=
  txns.filter fun t => t.tradeGroupId = some pk ∧ t.securityId = some sid

abbrev InMemoryStore.legRows (s : InMemoryStore) (pk : ℕ) (sid : String) : List TxnRow :=
  legRowsOf s.transactions.values pk sid

theorem exactNet_perm {rows rows' : List TxnRow} (h : rows.Perm rows') :
    exactNet rows = exactNet rows' := by
  have hmax : largestRemoval rows = largestRemoval rows' :=
    ((h.filter TxnRow.removesLeg).map _).foldl_eq 0
  rw [exactNet, exactNet, (h.map legDelta).sum_eq, hmax]

/-! ## The fold -/

theorem addToLeg_net (slot : LegSlot) (t : TxnRow) :
    (addToLeg slot t.legRecord).net = slot.net + legDelta t := by
  unfold addToLeg legDelta TxnRow.legRecord
  simp only []
  split
  · rfl
  · split
    · exact sub_eq_add_neg _ _
    · split <;> simp

theorem addToLeg_removal (slot : LegSlot) (t : TxnRow) :
    (addToLeg slot t.legRecord).removal =
      if t.removesLeg then max slot.removal (t.quantity.getD 0) else slot.removal := by
  unfold addToLeg TxnRow.removesLeg isPositionRemoval actionNetsAsTrade TxnRow.legRecord
  simp only []
  by_cases ho : opensLeg t.action = true
  · simp [ho]
  · by_cases hc : closesLeg t.action = true
    · simp [ho, hc]
    · simp only [ho, hc, Bool.or_self, Bool.false_eq_true, if_false]
      split <;> rfl

theorem foldl_addToLeg (rows : List TxnRow) (slot : LegSlot) :
    ((rows.map TxnRow.legRecord).foldl addToLeg slot).net = slot.net + (rows.map legDelta).sum ∧
      ((rows.map TxnRow.legRecord).foldl addToLeg slot).removal =
        ((rows.filter TxnRow.removesLeg).map fun t => t.quantity.getD 0).foldl max
          slot.removal := by
  induction rows generalizing slot with
  | nil => simp
  | cons t rows ih =>
    obtain ⟨hnet, hremoval⟩ := ih (addToLeg slot t.legRecord)
    simp only [List.map_cons, List.foldl_cons, List.sum_cons]
    refine ⟨?_, ?_⟩
    · rw [hnet, addToLeg_net, add_assoc]
    · rw [hremoval, addToLeg_removal]
      by_cases h : t.removesLeg = true <;> simp [h]

/-- The key of a transaction in the fold. -/
theorem legKey_eq_some {t : TxnRow} {account sid : String} {pk : ℕ} :
    legKey t.legRecord = some (account, sid, pk) ↔
      t.account = account ∧ t.securityId = some sid ∧ t.tradeGroupId = some pk := by
  unfold legKey TxnRow.legRecord
  cases t.securityId <;> cases t.tradeGroupId <;> simp

theorem legRowsOf_account {txns : List TxnRow} {pk : ℕ} {sid account : String} :
    (legRowsOf txns pk sid).filter (fun t => t.account = account) =
      txns.filter fun t => legKey t.legRecord = some (account, sid, pk) := by
  rw [legRowsOf, List.filter_filter]
  refine List.filter_congr fun t _ => ?_
  rw [← Bool.decide_and, decide_eq_decide, legKey_eq_some]
  tauto

/-- The slot of an account has its rows of the leg, and truncates to their net. -/
theorem truncate_slot {txns : List TxnRow} {pk : ℕ} {sid account : String} {slot : LegSlot}
    (hslot : (Dict.accumulate legKey addToLeg {} (txns.map TxnRow.legRecord)).get?
      (account, sid, pk) = some slot) :
    (legRowsOf txns pk sid).filter (fun t => t.account = account) ≠ [] ∧
      truncate (slot.net - slot.removal) =
        truncate (exactNet ((legRowsOf txns pk sid).filter fun t => t.account = account)) := by
  rw [Dict.get?_accumulate, List.filter_map] at hslot
  split at hslot
  · cases hslot
  · rename_i hne
    obtain ⟨hnet, hremoval⟩ := foldl_addToLeg
      ((legRowsOf txns pk sid).filter fun t => t.account = account) {}
    rw [legRowsOf_account] at hnet hremoval ⊢
    rw [← Option.some.inj hslot]
    refine ⟨fun h => hne (by simpa [Function.comp_def] using h), ?_⟩
    rw [exactNet, largestRemoval]
    simp only [Function.comp_def] at hnet hremoval ⊢
    rw [hnet, hremoval, zero_add]

/-- **The legs of the fold**: one for each account with rows in the leg, with the exact net of
these rows, truncated. -/
theorem mem_foldOpenGroupLegs {txns : List TxnRow} {pk : ℕ} {sid : String} {n : ℤ} :
    (∃ leg ∈ foldOpenGroupLegs (txns.map TxnRow.legRecord),
      leg.tradeGroupId = pk ∧ leg.securityId = sid ∧ leg.netOpen = n) ↔
      ∃ account ∈ (legRowsOf txns pk sid).map TxnRow.account,
        truncate (exactNet ((legRowsOf txns pk sid).filter fun t => t.account = account)) = n := by
  constructor
  · rintro ⟨leg, hleg, rfl, rfl, rfl⟩
    obtain ⟨⟨⟨account, sid, pk⟩, slot⟩, he, rfl⟩ := List.mem_map.mp hleg
    obtain ⟨hne, hnet⟩ := truncate_slot (Dict.get?_eq_some.mpr he)
    obtain ⟨t, ht⟩ := List.exists_mem_of_ne_nil _ hne
    obtain ⟨ht, hacc⟩ := List.mem_filter.mp ht
    exact ⟨account, List.mem_map.mpr ⟨t, ht, of_decide_eq_true hacc⟩, hnet.symm⟩
  · rintro ⟨account, hacc, rfl⟩
    obtain ⟨t, ht, rfl⟩ := List.mem_map.mp hacc
    have hmem : t ∈ (txns.filter fun t' => legKey t'.legRecord = some (t.account, sid, pk)) := by
      rw [← legRowsOf_account]
      exact List.mem_filter.mpr ⟨ht, by simp⟩
    cases hslot : (Dict.accumulate legKey addToLeg {}
        (txns.map TxnRow.legRecord)).get? (t.account, sid, pk) with
    | none =>
      rw [Dict.get?_accumulate, List.filter_map] at hslot
      split at hslot
      · rename_i hnil
        rw [List.map_eq_nil_iff] at hnil
        simp only [Function.comp_def] at hnil
        rw [hnil] at hmem
        cases hmem
      · cases hslot
    | some slot =>
      exact ⟨legRow ((t.account, sid, pk), slot),
        List.mem_map.mpr ⟨_, Dict.get?_eq_some.mp hslot, rfl⟩, rfl, rfl, (truncate_slot hslot).2⟩

/-! ## The in-memory aggregate -/

/-- What an aggregate reports for a leg. -/
def netOpenIn (nets : Dict ℕ (Dict String ℤ)) (pk : ℕ) (sid : String) : Option ℤ :=
  (nets.get? pk).bind (·.get? sid)

theorem Dict.get?_mapWithKey {κ ν μ : Type} [DecidableEq κ] (d : Dict κ ν) (f : κ → ν → μ)
    (k : κ) : (d.mapWithKey f).get? k = (d.get? k).map (f k) := by
  refine Option.ext fun v => ?_
  rw [Dict.get?_eq_some, Option.map_eq_some_iff]
  unfold Dict.mapWithKey
  rw [List.mem_map]
  constructor
  · rintro ⟨e, he, heq⟩
    obtain ⟨rfl, rfl⟩ := Prod.mk.inj heq
    exact ⟨e.2, Dict.get?_eq_some.mpr he, rfl⟩
  · rintro ⟨w, hw, rfl⟩
    exact ⟨(k, w), Dict.get?_eq_some.mp hw, rfl⟩

theorem netOpenIn_mapWithKey (nets : Dict ℕ (Dict String ℤ)) (f : ℕ → String → ℤ → ℤ) (pk : ℕ)
    (sid : String) :
    netOpenIn (nets.mapWithKey fun pk legs => legs.mapWithKey (f pk)) pk sid =
      (netOpenIn nets pk sid).map (f pk sid) := by
  rw [netOpenIn, Dict.get?_mapWithKey, netOpenIn]
  cases nets.get? pk with
  | none => rfl
  | some legs => exact Dict.get?_mapWithKey legs (f pk) sid

theorem foldl_add_map {α : Type} (f : α → ℤ) (l : List α) (n : ℤ) :
    l.foldl (fun n a => n + f a) n = n + (l.map f).sum := by
  induction l generalizing n with
  | nil => simp
  | cons a l ih => rw [List.foldl_cons, ih, List.map_cons, List.sum_cons, add_assoc]

theorem wantedGroup_eq_some {ids : List ℕ} {t : TxnRow} {pk : ℕ} :
    wantedGroup ids t = some pk ↔ t.securityId.isSome ∧ t.tradeGroupId = some pk ∧ pk ∈ ids := by
  unfold wantedGroup
  cases hsid : t.securityId with
  | none => simp
  | some sid =>
    simp only [Option.isSome_some, if_true, true_and, Option.filter_eq_some_iff,
      List.contains_iff_mem]

/-- The rows of a wanted group in one security are the rows of the leg. -/
theorem filter_wantedGroup {ids : List ℕ} {pk : ℕ} (hpk : pk ∈ ids) (txns : List TxnRow)
    (sid : String) :
    ((txns.filter fun t => wantedGroup ids t = some pk).filter fun t => t.securityId = some sid) =
      legRowsOf txns pk sid := by
  rw [legRowsOf, List.filter_filter]
  refine List.filter_congr fun t _ => ?_
  rw [← Bool.decide_and, decide_eq_decide, wantedGroup_eq_some]
  constructor
  · exact fun h => ⟨h.2.2.1, h.1⟩
  · exact fun h => ⟨h.2, by rw [h.2]; rfl, h.1, hpk⟩

/-- A dictionary of dictionaries, accumulated under a group and a security. -/
theorem netOpenIn_accumulate (key : TxnRow → Option ℕ) (f : ℤ → TxnRow → ℤ) (txns : List TxnRow)
    (pk : ℕ) (sid : String) :
    netOpenIn (Dict.accumulate key (Dict.addTo TxnRow.securityId f 0) .empty txns) pk sid =
      if ((txns.filter fun t => key t = some pk).filter fun t => t.securityId = some sid) = []
      then none
      else some (((txns.filter fun t => key t = some pk).filter fun t =>
        t.securityId = some sid).foldl f 0) := by
  rw [netOpenIn, Dict.get?_accumulate]
  split
  · rename_i h
    rw [h]
    simp
  · exact Dict.get?_accumulate _ sid

/-- **The in-memory aggregate** reports a leg of a wanted group with rows: the net of the whole
parts. -/
theorem netOpenIn_netOpenByGroup (s : InMemoryStore) (ids : List ℕ) (pk : ℕ) (sid : String) :
    netOpenIn (s.netOpenByGroup ids) pk sid =
      if pk ∈ ids ∧ s.legRows pk sid ≠ [] then some (wholeNet (s.legRows pk sid)) else none := by
  have htraded := netOpenIn_accumulate (wantedGroup ids) (fun n t => n + tradedDelta t)
    s.transactions.values pk sid
  have hremoved := netOpenIn_accumulate (removedGroup ids)
    (fun n t => max n (truncate (t.quantity.getD 0))) s.transactions.values pk sid
  have hshape := netOpenIn_mapWithKey (Dict.accumulate (wantedGroup ids) addTraded .empty
    s.transactions.values) (fun pk sid n => n - (((Dict.accumulate (removedGroup ids) addRemoved
      .empty s.transactions.values).get? pk).bind (·.get? sid)).getD 0) pk sid
  refine hshape.trans ?_
  change (netOpenIn (Dict.accumulate (wantedGroup ids) (Dict.addTo TxnRow.securityId
    (fun n t => n + tradedDelta t) 0) .empty s.transactions.values) pk sid).map (fun n =>
      n - (netOpenIn (Dict.accumulate (removedGroup ids) (Dict.addTo TxnRow.securityId
        (fun n t => max n (truncate (t.quantity.getD 0))) 0) .empty
          s.transactions.values) pk sid).getD 0) = _
  rw [htraded]
  by_cases hpk : pk ∈ ids
  · rw [filter_wantedGroup hpk]
    by_cases hne : s.legRows pk sid = []
    · rw [if_pos hne, if_neg fun h => h.2 hne]
      rfl
    · rw [if_neg hne, if_pos ⟨hpk, hne⟩, Option.map_some, foldl_add_map, zero_add, wholeNet]
      -- the removals of the leg, none of which counts as zero
      have hrows : ((s.transactions.values.filter fun t => removedGroup ids t = some pk).filter
          fun t => t.securityId = some sid) = (s.legRows pk sid).filter TxnRow.removesLeg := by
        rw [InMemoryStore.legRows, ← filter_wantedGroup hpk, List.filter_filter,
          List.filter_filter, List.filter_filter]
        refine List.filter_congr fun t _ => ?_
        unfold removedGroup TxnRow.removesLeg
        by_cases hrem : isPositionRemoval t.action t.transactionSubType = true <;>
          simp [hrem, Bool.and_comm]
      have hmax : (netOpenIn (Dict.accumulate (removedGroup ids) (Dict.addTo TxnRow.securityId
          (fun n t => max n (truncate (t.quantity.getD 0))) 0) .empty
            s.transactions.values) pk sid).getD 0 =
          (((s.legRows pk sid).filter TxnRow.removesLeg).map fun t =>
            truncate (t.quantity.getD 0)).foldl max 0 := by
        rw [hremoved, hrows, List.foldl_map]
        split
        · rename_i hnil
          rw [hnil]
          rfl
        · rfl
      rw [hmax]
  · have hnil : (s.transactions.values.filter fun t => wantedGroup ids t = some pk) = [] := by
      rw [List.filter_eq_nil_iff]
      intro t _ h
      exact hpk (wantedGroup_eq_some.mp (of_decide_eq_true h)).2.2
    rw [hnil, List.filter_nil, if_pos rfl, if_neg fun h => hpk h.1]
    rfl

/-! ## The SQL aggregate -/

namespace SqlLedgerStore

variable (dialect : Dialect)

theorem groupedBy_eq_some {ids : List ℕ} {t : TxnRow} {pk : ℕ} {sid : String} :
    groupedBy ids t = some (pk, sid) ↔
      (t.tradeGroupId = some pk ∧ t.securityId = some sid) ∧ pk ∈ ids := by
  unfold groupedBy
  cases t.tradeGroupId with
  | none => simp
  | some pk' =>
    cases t.securityId with
    | none => simp
    | some sid' =>
      simp only [Option.some.injEq, List.contains_iff_mem]
      split
      · rename_i h
        simp only [Option.some.injEq, Prod.mk.injEq]
        exact ⟨fun heq => ⟨heq, heq.1 ▸ h⟩, fun heq => heq.1⟩
      · rename_i h
        simp only [reduceCtorEq, false_iff, not_and]
        rintro ⟨rfl, -⟩
        exact h

/-- Entries with distinct keys, set one after the other. -/
theorem netOpenIn_foldl_set {α : Type} (count : α → ℤ) (pk : ℕ) (sid : String) :
    ∀ (entries : List ((ℕ × String) × α)) (nets : Dict ℕ (Dict String ℤ)),
      (entries.map Prod.fst).Nodup →
      netOpenIn (entries.foldl (fun nets e => nets.set e.1.1
        (((nets.get? e.1.1).getD .empty).set e.1.2 (count e.2))) nets) pk sid =
      (((entries.find? fun e => e.1 = (pk, sid)).map fun e => count e.2) <|>
        netOpenIn nets pk sid)
  | [], nets, _ => rfl
  | e :: entries, nets, hnodup => by
    obtain ⟨hne, hnodup⟩ := List.nodup_cons.mp hnodup
    have hset : netOpenIn (nets.set e.1.1
        (((nets.get? e.1.1).getD .empty).set e.1.2 (count e.2))) pk sid =
        if e.1 = (pk, sid) then some (count e.2) else netOpenIn nets pk sid := by
      rw [netOpenIn, Dict.get?_set, netOpenIn]
      by_cases hpk : pk = e.1.1
      · rw [if_pos hpk, Option.bind_some, Dict.get?_set]
        by_cases hsid : sid = e.1.2
        · rw [if_pos hsid, if_pos (by rw [hpk, hsid])]
        · rw [if_neg hsid, if_neg fun h => hsid (by rw [h]), hpk]
          cases nets.get? e.1.1 <;> rfl
      · rw [if_neg hpk, if_neg fun h => hpk (by rw [h])]
    rw [List.foldl_cons, netOpenIn_foldl_set count pk sid entries _ hnodup, List.find?_cons, hset]
    by_cases he : e.1 = (pk, sid)
    · -- no later entry has the key
      have hnone : entries.find? (fun e => e.1 = (pk, sid)) = none := by
        rw [List.find?_eq_none]
        intro e' he' heq
        exact hne (List.mem_map.mpr ⟨e', he', (of_decide_eq_true heq).trans he.symm⟩)
      rw [hnone]
      simp [he]
    · simp [he]

/-- **The SQL aggregate** reports a leg of a wanted group with rows. -/
theorem netOpenIn_netOpenByGroup (txns : List TxnRow) (ids : List ℕ) (pk : ℕ) (sid : String) :
    netOpenIn (netOpenByGroup dialect txns ids) pk sid =
      if pk ∈ ids ∧ legRowsOf txns pk sid ≠ [] then
        some (netOpen dialect (legRowsOf txns pk sid)) else none := by
  rw [netOpenByGroup, netOpenIn_foldl_set (netOpen dialect) pk sid _ _
    (groupBy (groupedBy ids) txns).keys_nodup]
  cases hfind : (groupBy (groupedBy ids) txns).entries.find? fun e => e.1 = (pk, sid) with
  | some e =>
    have hkey : e.1 = (pk, sid) := by simpa using List.find?_some hfind
    obtain ⟨⟨t, ht, htk⟩, hrows⟩ := mem_groupBy_iff.mp (show (e.1, e.2) ∈ _ from
      List.mem_of_find?_eq_some hfind)
    rw [hkey] at htk hrows
    obtain ⟨hleg, hpk⟩ := groupedBy_eq_some.mp htk
    have heq : e.2 = legRowsOf txns pk sid := by
      rw [hrows, legRowsOf]
      refine List.filter_congr fun t' _ => ?_
      rw [decide_eq_decide, groupedBy_eq_some]
      exact ⟨fun h => h.1, fun h => ⟨h, hpk⟩⟩
    have hne : legRowsOf txns pk sid ≠ [] :=
      List.ne_nil_of_mem (List.mem_filter.mpr ⟨ht, by simpa using hleg⟩)
    rw [if_pos ⟨hpk, hne⟩, Option.map_some, heq]
    rfl
  | none =>
    rw [if_neg]
    · rfl
    · rintro ⟨hpk, hne⟩
      obtain ⟨t, ht⟩ := List.exists_mem_of_ne_nil _ hne
      obtain ⟨ht, hleg⟩ := List.mem_filter.mp ht
      have hkey : groupedBy ids t = some (pk, sid) :=
        groupedBy_eq_some.mpr ⟨by simpa using hleg, hpk⟩
      have hmem := mem_groupBy.mpr ⟨⟨t, ht, hkey⟩, rfl⟩
      simpa using List.find?_eq_none.mp hfind _ hmem

/-- The count does not depend on the order of the rows. -/
theorem netOpen_perm {rows rows' : List TxnRow} (h : rows.Perm rows') :
    netOpen dialect rows = netOpen dialect rows' := by
  have hsum : ∀ {l l' : List (Option ℚ)}, l.Perm l' → sqlSum l = sqlSum l' := by
    intro l l' hl
    have hl' : l.reduceOption.Perm l'.reduceOption := hl.filterMap id
    unfold sqlSum
    cases hv : l.reduceOption with
    | nil =>
      rw [hv] at hl'
      rw [List.nil_perm.mp hl']
    | cons a as =>
      cases hv' : l'.reduceOption with
      | nil =>
        rw [hv, hv'] at hl'
        exact absurd hl'.symm (by simp)
      | cons b bs =>
        rw [hv, hv'] at hl'
        exact congrArg some hl'.sum_eq
  have hmax : ∀ {l l' : List (Option ℚ)}, l.Perm l' → sqlMax l = sqlMax l' := by
    intro l l' hl
    have hl' : l.reduceOption.Perm l'.reduceOption := hl.filterMap id
    refine Option.ext fun m => ?_
    rw [sqlMax, sqlMax, List.max?_eq_some_iff, List.max?_eq_some_iff]
    simp only [hl'.mem_iff]
  rw [netOpen, netOpen, hsum (h.map _), hmax (h.map _)]

end SqlLedgerStore

/-! ## The open legs of the two stores -/

theorem legRowsOf_perm {txns txns' : List TxnRow} (h : txns.Perm txns') (pk : ℕ) (sid : String) :
    (legRowsOf txns pk sid).Perm (legRowsOf txns' pk sid) := h.filter _

/-- The rows a read selects, when it selects by account among those of some groups. -/
theorem legRowsOf_filter (txns : List TxnRow) (p : TxnRow → Bool) (account : Option String)
    {pk : ℕ} {sid : String}
    (hp : ∀ t, t.tradeGroupId = some pk → t.securityId = some sid →
      p t = account.all (t.account = ·)) :
    legRowsOf (txns.filter p) pk sid =
      (legRowsOf txns pk sid).filter fun t => account.all (t.account = ·) := by
  rw [legRowsOf, legRowsOf, List.filter_filter, List.filter_filter]
  refine List.filter_congr fun t _ => ?_
  by_cases h : t.tradeGroupId = some pk ∧ t.securityId = some sid
  · simp [h, hp t h.1 h.2]
  · simp [h]

end TtLedger
