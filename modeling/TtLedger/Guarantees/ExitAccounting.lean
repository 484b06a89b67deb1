import TtLedger.Ingest.Frames
import TtLedger.Ingest.RouteLaws
import Mathlib.Tactic.Ring

/-!
# Exits account for their cash

`applyExit` records the closing rows that are new to a group in lifecycle events: one event for
the trades, one for each kind of settlement, and an empty one for a roll. Each new row is counted
in exactly one of them, so the premium changes add up to the cash of the new rows
(`exitEvents_accounted`). Rows the group holds already are counted in none: applying the same rows
again leaves the store as it is, with the group as it is held and with the group as it is loaded
again (`applyExit_accounts`).
-/

namespace TtLedger

open Prog

/-- Whether an event is the one for a row: the settlement event of its sub-type, or the trade
event. -/
def TxnRow.countedIn (r : TxnRow) (e : EventRow) : Bool :=
  if r.isNontradeClose then rdEventBySubtype r.transactionSubType = some e.eventType
  else e.eventType = .fullExit || e.eventType = .partialExit

/-- The events account for the rows: each row in one event, each event the cash of its rows. -/
structure Accounted (events : List EventRow) (rows : List TxnRow) : Prop where
  each : ∀ e ∈ events, e.premiumChange = ((rows.filter (·.countedIn e)).map TxnRow.signedNet).sum
  once : ∀ r ∈ rows, events.countP r.countedIn = 1
  total : (events.map EventRow.premiumChange).sum = (rows.map TxnRow.signedNet).sum

/-- Summing by events is summing by rows, each as often as it is counted. -/
theorem sum_counted (events : List EventRow) (rows : List TxnRow) :
    (events.map fun e => ((rows.filter (·.countedIn e)).map TxnRow.signedNet).sum).sum =
      (rows.map fun r => (events.countP r.countedIn : ℚ) * r.signedNet).sum := by
  have hone : ∀ p : TxnRow → Bool, ((rows.filter p).map TxnRow.signedNet).sum =
      (rows.map fun r => if p r then r.signedNet else 0).sum := by
    intro p
    induction rows with
    | nil => rfl
    | cons r rows ih => cases h : p r <;> simp [h, ih]
  induction events with
  | nil => simp
  | cons e events ih =>
    rw [List.map_cons, List.sum_cons, ih, hone, ← List.sum_map_add]
    refine congrArg List.sum (List.map_congr_left fun r _ => ?_)
    rw [List.countP_cons]
    split
    · rw [Nat.cast_add, Nat.cast_one, add_mul, one_mul, add_comm]
    · rw [Nat.add_zero, zero_add]

theorem Accounted.of_each {events : List EventRow} {rows : List TxnRow}
    (each : ∀ e ∈ events,
      e.premiumChange = ((rows.filter (·.countedIn e)).map TxnRow.signedNet).sum)
    (once : ∀ r ∈ rows, events.countP r.countedIn = 1) : Accounted events rows where
  each
  once
  total := by
    rw [List.map_congr_left each, sum_counted]
    refine congrArg List.sum (List.map_congr_left fun r hr => ?_)
    rw [once r hr, Nat.cast_one, one_mul]

/-! ## The events of an exit -/

section Events

variable {pk : ℕ} {rows : List TxnRow}

/-- No settlement is a trade exit or a roll. -/
theorem rdEventBySubtype_ne {subType : Option String} {t : TradeGroupEventType}
    (h : rdEventBySubtype subType = some t) : t ≠ .fullExit ∧ t ≠ .partialExit ∧ t ≠ .roll := by
  unfold rdEventBySubtype at h
  split at h <;> simp only [Option.some.injEq, reduceCtorEq] at h <;> subst h <;> decide

theorem countedIn_of_nontradeClose {r : TxnRow} (h : r.isNontradeClose) (e : EventRow) :
    r.countedIn e ↔ rdEventBySubtype r.transactionSubType = some e.eventType := by
  simp [TxnRow.countedIn, h]

theorem countedIn_of_trade {r : TxnRow} (h : r.isNontradeClose = false) (e : EventRow) :
    r.countedIn e ↔ e.eventType = .fullExit ∨ e.eventType = .partialExit := by
  simp [TxnRow.countedIn, h]

/-- The trade event counts the trade rows. -/
theorem filter_countedIn_exitEvent (hexits : ∀ r ∈ rows, r.exits) (closed : Bool) :
    rows.filter (·.countedIn (exitEvent pk rows closed)) = tradeRows rows := by
  refine List.filter_congr fun r hr => Bool.eq_iff_iff.mpr ?_
  have htype : (exitEvent pk rows closed).eventType = .fullExit ∨
      (exitEvent pk rows closed).eventType = .partialExit := by
    cases closed
    · exact Or.inr rfl
    · exact Or.inl rfl
  cases h : r.isNontradeClose with
  | true =>
    rw [countedIn_of_nontradeClose h]
    simp only [Bool.not_true, Bool.false_and, Bool.false_eq_true, iff_false]
    intro hrd
    rcases htype with ht | ht
    · exact (rdEventBySubtype_ne hrd).1 ht
    · exact (rdEventBySubtype_ne hrd).2.1 ht
  | false =>
    rw [countedIn_of_trade h]
    have := hexits r hr
    simp only [TxnRow.exits, TxnRow.isClosing, h, Bool.or_false] at this
    simpa [htype] using this

/-- A settlement event counts the settlement rows of its kind. -/
theorem filter_countedIn_settlementEvent (deliveryPk : Option ℕ)
    {e : TradeGroupEventType × List TxnRow} (he : e ∈ rdRowsByEvent rows) :
    rows.filter (·.countedIn (settlementEvent pk rows deliveryPk e)) = e.2 := by
  obtain ⟨⟨r₀, -, hr₀⟩, hrows⟩ := mem_groupBy_iff.mp he
  have hkind : rdEventBySubtype r₀.transactionSubType = some e.1 := by
    split at hr₀
    · exact hr₀
    · cases hr₀
  rw [hrows]
  refine List.filter_congr fun r _ => Bool.eq_iff_iff.mpr ?_
  cases h : r.isNontradeClose with
  | true =>
    rw [countedIn_of_nontradeClose h, if_pos rfl, decide_eq_true_eq]
    exact Iff.rfl
  | false =>
    have hne := rdEventBySubtype_ne hkind
    rw [countedIn_of_trade h]
    simp [settlementEvent, hne.1, hne.2.1]

/-- A roll event counts no row. -/
theorem filter_countedIn_roll {e : EventRow} (he : e.eventType = .roll) :
    rows.filter (·.countedIn e) = [] := by
  refine List.filter_eq_nil_iff.mpr fun r _ => ?_
  cases h : r.isNontradeClose with
  | true =>
    rw [countedIn_of_nontradeClose h]
    exact fun hrd => (rdEventBySubtype_ne hrd).2.2 he
  | false =>
    rw [countedIn_of_trade h, he]
    decide

/-- The events of an exit: the trade event, the settlement events, the roll event. -/
theorem exitEvents_cases {closed : Bool} {rolledToPk deliveryPk : Option ℕ} {ev : EventRow}
    (h : ev ∈ exitEvents pk rows closed rolledToPk deliveryPk) :
    ev = exitEvent pk rows closed ∨
      (∃ e ∈ rdRowsByEvent rows, ev = settlementEvent pk rows deliveryPk e) ∨
      (ev.eventType = .roll ∧ ev.premiumChange = 0) := by
  unfold exitEvents at h
  rcases List.mem_append.mp h with h | h
  · rcases List.mem_append.mp h with h | h
    · split at h
      · cases h
      · exact Or.inl (List.mem_singleton.mp h)
    · obtain ⟨e, he, rfl⟩ := List.mem_map.mp h
      exact Or.inr (Or.inl ⟨e, he, rfl⟩)
  · split at h
    · obtain rfl := List.mem_singleton.mp h
      exact Or.inr (Or.inr ⟨rfl, rfl⟩)
    · cases h

/-- The settlement events count a settlement row once, in the event of its kind. -/
theorem countP_settlementEvents (deliveryPk : Option ℕ) {r : TxnRow} (hr : r ∈ rows)
    (h : r.isNontradeClose) :
    ((rdRowsByEvent rows).map (settlementEvent pk rows deliveryPk)).countP r.countedIn = 1 := by
  obtain ⟨kind, hkind⟩ : ∃ kind, rdEventBySubtype r.transactionSubType = some kind :=
    Option.isSome_iff_exists.mp (Bool.and_eq_true_iff.mp h).2
  have hmem : kind ∈ (rdRowsByEvent rows).map Prod.fst := by
    have hkey : (if r.isNontradeClose then rdEventBySubtype r.transactionSubType else none) =
        some kind := (if_pos h).trans hkind
    refine List.mem_map.mpr ⟨(kind, _), mem_groupBy.mpr ⟨⟨r, hr, hkey⟩, rfl⟩, rfl⟩
  have hcount : (rdRowsByEvent rows).countP (fun e => decide (e.1 = kind)) = 1 := by
    have := List.count_eq_one_of_mem (groupBy _ rows).keys_nodup hmem
    rw [List.count, List.countP_map] at this
    refine (List.countP_congr fun e _ => ?_).trans this
    simp
  rw [List.countP_map]
  refine (List.countP_congr fun e _ => ?_).trans hcount
  rw [Function.comp_apply, countedIn_of_nontradeClose h, hkind, decide_eq_true_eq]
  exact ⟨fun he => (Option.some.inj he).symm, fun he => congrArg some he.symm⟩

/-- Each new row is counted in one event: a settlement in the event of its kind, a trade in the
trade event. -/
theorem countP_exitEvents (hexits : ∀ r ∈ rows, r.exits) (closed : Bool)
    (rolledToPk deliveryPk : Option ℕ) {r : TxnRow} (hr : r ∈ rows) :
    (exitEvents pk rows closed rolledToPk deliveryPk).countP r.countedIn = 1 := by
  have htrade : r.countedIn (exitEvent pk rows closed) ↔ r ∈ tradeRows rows := by
    rw [← filter_countedIn_exitEvent hexits closed, List.mem_filter]
    exact ⟨fun hc => ⟨hr, hc⟩, And.right⟩
  have hroll : ∀ ev : EventRow, ev.eventType = .roll → ¬ r.countedIn ev := fun ev hev hc =>
    List.not_mem_nil (filter_countedIn_roll hev ▸ List.mem_filter.mpr ⟨hr, hc⟩)
  have hmain : List.countP r.countedIn
        (if (tradeRows rows).isEmpty then [] else [exitEvent pk rows closed]) +
      List.countP r.countedIn ((rdRowsByEvent rows).map (settlementEvent pk rows deliveryPk)) =
      1 := by
    cases h : r.isNontradeClose with
    | true =>
      have hnot : r ∉ tradeRows rows := by simp [tradeRows, h]
      rw [countP_settlementEvents deliveryPk hr h]
      split
      · rfl
      · rw [List.countP_singleton, if_neg (mt htrade.mp hnot)]
    | false =>
      have hmem : r ∈ tradeRows rows := by
        have := hexits r hr
        simp only [TxnRow.exits, TxnRow.isClosing, h, Bool.or_false] at this
        exact List.mem_filter.mpr ⟨hr, by simpa [h] using this⟩
      have hne : ¬ (tradeRows rows).isEmpty = true := by
        rw [List.isEmpty_iff]
        exact fun hnil => List.not_mem_nil (hnil ▸ hmem)
      have hsettle : List.countP r.countedIn
          ((rdRowsByEvent rows).map (settlementEvent pk rows deliveryPk)) = 0 := by
        refine List.countP_eq_zero.mpr fun ev hev hc => ?_
        obtain ⟨e, he, rfl⟩ := List.mem_map.mp hev
        have hr' : r ∈ rows.filter (·.countedIn (settlementEvent pk rows deliveryPk e)) :=
          List.mem_filter.mpr ⟨hr, hc⟩
        rw [filter_countedIn_settlementEvent deliveryPk he, (mem_groupBy_iff.mp he).2] at hr'
        simp [h] at hr'
      rw [hsettle, if_neg hne, List.countP_singleton, if_pos (htrade.mpr hmem)]
  unfold exitEvents
  rw [List.countP_append, List.countP_append, hmain]
  cases rolledToPk with
  | none => rfl
  | some rolledTo => exact congrArg (1 + ·) (List.countP_singleton.trans (if_neg (hroll _ rfl)))

/-- **The events of an exit account for its rows.** -/
theorem exitEvents_accounted (hexits : ∀ r ∈ rows, r.exits) (closed : Bool)
    (rolledToPk deliveryPk : Option ℕ) :
    Accounted (exitEvents pk rows closed rolledToPk deliveryPk) rows := by
  refine Accounted.of_each (fun ev hev => ?_)
    fun r hr => countP_exitEvents hexits closed rolledToPk deliveryPk hr
  rcases exitEvents_cases hev with rfl | ⟨e, he, rfl⟩ | ⟨htype, hpremium⟩
  · rw [filter_countedIn_exitEvent hexits]
    rfl
  · rw [filter_countedIn_settlementEvent deliveryPk he]
    rfl
  · rw [filter_countedIn_roll htype, hpremium]
    rfl

end Events

/-! ## The events a run adds -/

/-- An event as the store records it: without a time it takes the clock's. -/
def EventRow.recorded (clock : Datetime) (ev : EventRow) : EventRow :=
  { ev with eventAt := some (ev.eventAt.getD clock) }

theorem Accounted.recorded {events : List EventRow} {rows : List TxnRow}
    (h : Accounted events rows) (clock : Datetime) :
    Accounted (events.map (EventRow.recorded clock)) rows := by
  refine Accounted.of_each (fun ev hev => ?_) fun r hr => ?_
  · obtain ⟨ev', hev', rfl⟩ := List.mem_map.mp hev
    exact h.each ev' hev'
  · rw [List.countP_map]
    exact h.once r hr

namespace InMemoryStore

/-- The events a state has beyond those of an earlier one. -/
def newEvents (s s' : InMemoryStore) : List EventRow :=
  s'.events.values.drop s.events.values.length

theorem values_addEvents (s : InMemoryStore) (events : List EventRow) :
    (s.addEvents events).events.values =
      s.events.values ++ events.map (EventRow.recorded s.clock) := by
  induction events generalizing s with
  | nil => simp [addEvents]
  | cons ev events ih =>
    have hone : (s.addTradeGroupEvent ev).events.values =
        s.events.values ++ [ev.recorded s.clock] := Table.values_upsert_of_new rfl
    rw [addEvents_cons, ih, hone, List.map_cons, List.append_assoc]
    rfl

/-- Attaching rows that are members already changes nothing. -/
theorem attached_eq_self {s : InMemoryStore} {ids : List String} {pk : ℕ}
    (h : ∀ txn ∈ s.transactions.values, txn.ttTransactionId ∈ ids → txn.tradeGroupId = some pk) :
    s.attached ids pk = s := by
  have hmodify := Table.modify_id s.transactions
    (fun txn => if txn.ttTransactionId ∈ ids then { txn with tradeGroupId := some pk } else txn)
    (fun txn => by split <;> rfl) (fun txn htxn => by
      split
      · rename_i hid
        rw [← h txn htxn hid]
      · rfl)
  show { s with transactions := _ } = s
  rw [hmodify]

/-- The rows of an exit are members after it. -/
theorem tradeGroupId_exitState {s : InMemoryStore} {group : OpenGroup} {rows : List TxnRow}
    {rolledToPk deliveryPk : Option ℕ} {txn : TxnRow}
    (htxn : txn ∈ (exitState s group rows rolledToPk deliveryPk).transactions.values)
    (hid : txn.ttTransactionId ∈ rows.map TxnRow.ttTransactionId) :
    txn.tradeGroupId = some group.pk := by
  rw [transactions_exitState, attached, attachTransactionsToTradeGroup,
    Table.values_modify] at htxn
  obtain ⟨txn₀, -, rfl⟩ := List.mem_map.mp htxn
  split at hid
  · rename_i h
    rw [if_pos h]
  · rename_i h
    exact absurd hid h

/-- A row of an exit is a member of the group as it is loaded after it. -/
theorem mem_getGroupTransactions_exitState {s : InMemoryStore} {group : OpenGroup}
    {rows : List TxnRow} {rolledToPk deliveryPk : Option ℕ} {r : TxnRow} (hr : r ∈ rows)
    (hstored : (s.transactions.getByKey r.ttTransactionId).isSome) :
    r.ttTransactionId ∈ ((exitState s group rows rolledToPk deliveryPk).getGroupTransactions
      group.pk).map TxnRow.ttTransactionId := by
  have hstill : ((exitState s group rows rolledToPk deliveryPk).transactions.getByKey
      r.ttTransactionId).isSome := by
    rw [transactions_exitState, attached, attachTransactionsToTradeGroup, Table.getByKey_modify,
      Option.isSome_map]
    exact hstored
  obtain ⟨txn, htxn⟩ := Option.isSome_iff_exists.mp hstill
  have hvalue := Table.mem_values_of_getByKey htxn
  have hid : txn.ttTransactionId = r.ttTransactionId :=
    Option.some.inj (Table.getByKey_eq_some.mp htxn).2
  have hmember : txn.tradeGroupId = some group.pk :=
    tradeGroupId_exitState hvalue (hid ▸ List.mem_map_of_mem hr)
  refine List.mem_map.mpr ⟨txn, (mem_sortOn _).mpr ?_, hid⟩
  exact List.mem_filter.mpr ⟨hvalue, decide_eq_true hmember⟩

/-- A group that has taken rows holds all of them. -/
theorem newRows_extendUnique (group : OpenGroup) (rows : List TxnRow) :
    (group.extendUnique rows).newRows rows = [] := by
  refine List.filter_eq_nil_iff.mpr fun r hr hnew => of_decide_eq_true hnew ?_
  rw [OpenGroup.extendUnique, List.map_append, List.mem_append]
  by_cases hheld : r.ttTransactionId ∈ group.rows.map TxnRow.ttTransactionId
  · exact Or.inl hheld
  · exact Or.inr (List.mem_map_of_mem (List.mem_filter.mpr ⟨hr, decide_eq_true hheld⟩))

/-- Applying rows the group holds to a store where they are its members changes nothing. -/
theorem exec_applyExit_of_held {s : InMemoryStore} {group : OpenGroup} {rows : List TxnRow}
    (hheld : group.newRows rows = [])
    (hmember : ∀ txn ∈ s.transactions.values,
      txn.ttTransactionId ∈ rows.map TxnRow.ttTransactionId → txn.tradeGroupId = some group.pk)
    (rolledToPk deliveryPk : Option ℕ) :
    ∃ again, exec (applyExit group rows rolledToPk deliveryPk) s = (.ok again, s) := by
  have hstate : exitState s group rows rolledToPk deliveryPk = s := by
    unfold exitState
    simp only [hheld, List.isEmpty_nil, if_true]
    exact attached_eq_self hmember
  exact ⟨exitResult s group rows rolledToPk, by rw [exec_applyExit, hstate]⟩

/-- What an exit leaves behind: its events account for the new rows, and the same rows applied
again change nothing, to the group as it is held or as it is loaded again. -/
structure ExitAccounts (s : InMemoryStore) (group : OpenGroup) (rows : List TxnRow)
    (applied : AppliedExit) (s' : InMemoryStore) : Prop where
  added : s'.events.values = s.events.values ++ newEvents s s'
  accounted : Accounted (newEvents s s') (group.newRows rows)
  held : ∀ rolledToPk deliveryPk, ∃ again,
    exec (applyExit applied.group rows rolledToPk deliveryPk) s' = (.ok again, s')
  reloaded : ∀ rolledToPk deliveryPk, ∃ again,
    exec (applyExit ⟨group.pk, s'.getGroupTransactions group.pk⟩ rows rolledToPk deliveryPk) s' =
      (.ok again, s')

/-- The events an exit adds. -/
theorem values_exitState (s : InMemoryStore) (group : OpenGroup) (rows : List TxnRow)
    (rolledToPk deliveryPk : Option ℕ) :
    (exitState s group rows rolledToPk deliveryPk).events.values =
      s.events.values ++ (if (group.newRows rows).isEmpty then [] else
        (exitEvents group.pk (group.newRows rows) (fullyClosed (group.extendUnique rows).rows)
          rolledToPk deliveryPk).map (EventRow.recorded s.clock)) := by
  unfold exitState
  simp only []
  split
  · rw [List.append_nil]
    rfl
  · split
    · rw [events_stamped, values_addEvents]
      rfl
    · rw [values_addEvents]
      rfl

/-- **Exits**: an exit made of closing rows of the ledger accounts for the cash of the new ones,
each in one event, and is applied once. -/
theorem applyExit_accounts (s : InMemoryStore) (group : OpenGroup) (rows : List TxnRow)
    (rolledToPk deliveryPk : Option ℕ) (hexits : ∀ r ∈ rows, r.exits)
    (hstored : ∀ r ∈ rows, (s.transactions.getByKey r.ttTransactionId).isSome) :
    ∃ applied s', exec (applyExit group rows rolledToPk deliveryPk) s = (.ok applied, s') ∧
      ExitAccounts s group rows applied s' := by
  refine ⟨_, _, exec_applyExit s group rows rolledToPk deliveryPk, ?_, ?_, ?_, ?_⟩
  · rw [newEvents, values_exitState, List.drop_left]
  · rw [newEvents, values_exitState, List.drop_left]
    have hnew : ∀ r ∈ group.newRows rows, r.exits := fun r hr =>
      hexits r (List.mem_of_mem_filter hr)
    split
    · rename_i hempty
      rw [List.isEmpty_iff.mp hempty]
      exact ⟨by simp, by simp, rfl⟩
    · exact (exitEvents_accounted hnew _ rolledToPk deliveryPk).recorded s.clock
  · intro rolledToPk' deliveryPk'
    have hpk : (exitResult s group rows rolledToPk).group.pk = group.pk := by
      unfold exitResult
      split <;> rfl
    refine exec_applyExit_of_held ?_ (fun txn htxn hid => ?_) _ _
    · unfold exitResult
      split
      · rename_i hempty
        exact List.isEmpty_iff.mp hempty
      · exact newRows_extendUnique group rows
    · rw [hpk]
      exact tradeGroupId_exitState htxn hid
  · intro rolledToPk' deliveryPk'
    refine exec_applyExit_of_held ?_ (fun txn htxn hid => ?_) _ _
    · refine List.filter_eq_nil_iff.mpr fun r hr => ?_
      simpa using mem_getGroupTransactions_exitState hr (hstored r hr)
    · have hmember := tradeGroupId_exitState htxn hid
      exact hmember

/-! ## A close and a settlement -/

/-- A long option, half of it sold and the other half expired with an action stamped on it. -/
def halfSold : List TxnRow := [
  { TxnRow.fill "main" "T-2" "1002" "Sell to Close" "option:X" 1 (20 * second) with
    netValue := some 150, netValueEffect := some "Credit" },
  { TxnRow.fill "main" "T-3" "1003" "Sell to Close" "option:X" 1 (30 * second) with
    transactionType := some "Receive Deliver", transactionSubType := some "Expiration" }]

/-- The group that bought it. -/
def boughtTwo : OpenGroup :=
  ⟨1, [.fill "main" "T-1" "1001" "Buy to Open" "option:X" 2 (10 * second)]⟩

theorem applyExit_accounts_halfSold :
    ∃ applied s', exec (applyExit boughtTwo halfSold none none)
        (seeded [] [] (boughtTwo.rows ++ halfSold)) = (.ok applied, s') ∧
      ExitAccounts (seeded [] [] (boughtTwo.rows ++ halfSold)) boughtTwo halfSold applied s' :=
  applyExit_accounts _ boughtTwo halfSold none none (by decide) (by decide +kernel)

end InMemoryStore

end TtLedger
