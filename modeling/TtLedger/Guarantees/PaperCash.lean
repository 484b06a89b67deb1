import TtLedger.Guarantees.LapseExposure
import Mathlib.Tactic.Abel
import Mathlib.Tactic.NormNum

/-!
# The cash of a paper account

The balance of a paper account is the sum of the `value` of its transactions. A settlement row
books its cash as `netValue` and has no `value`; so a pass changes the balance by nothing but the
values it writes over (`transactionValueTotal_reconcile`), and it books the cash of the lots it
settles exactly when the settlements it adds cancel out (`booksCash_iff`).
-/

namespace TtLedger

variable (s : InMemoryStore) (account : String) (args : ReconcileArgs)

/-- The settlement rows a pass writes. -/
def settlementsWritten : List TxnRow :=
  match lapseSettlements s account args with
  | .ok rows => if args.dryRun then [] else rows
  | .error _ => []

/-- The settlement rows a pass adds to the ledger. -/
def settlementsAdded : List TxnRow :=
  (settlementsWritten s account args).filter fun r => (s.txn r.ttTransactionId).isNone

/-- The cash of rows, long legs receiving and short legs paying. -/
def cashOf (rows : List TxnRow) : ℚ := (rows.map TxnRow.signedNet).sum

/-- The account's value under identifiers a pass writes over. -/
def valueWrittenOver : ℚ :=
  ((s.transactions.values.filter fun t => t.ttTransactionId ∈
      (settlementsWritten s account args).map TxnRow.ttTransactionId ∧ t.account = account).map
    fun t => t.value.getD 0).sum

/-- The pass changes the account's balance by the cash of the settlements it adds. -/
def BooksCash : Prop :=
  (exec (reconcile (some account) args) s).2.transactionValueTotal account =
    s.transactionValueTotal account + cashOf (settlementsAdded s account args)

/-! ## The balance -/

/-- What a row contributes to the balance of an account. -/
def balanceOf (r : TxnRow) : ℚ := if r.account = account then r.value.getD 0 else 0

theorem balanceOf_book (r : TxnRow) : balanceOf account r.book = balanceOf account r := rfl

theorem transactionValueTotal_eq :
    s.transactionValueTotal account = (s.transactions.values.map (balanceOf account)).sum := by
  unfold InMemoryStore.transactionValueTotal
  induction s.transactions.values with
  | nil => rfl
  | cons r rows ih =>
    rw [List.map_cons, List.sum_cons, ← ih]
    by_cases h : r.account = account
    · cases hv : r.value <;> simp [h, hv, balanceOf]
    · simp [h, balanceOf]

/-- The balance is a matter of the books. -/
theorem transactionValueTotal_of_books {s s' : InMemoryStore}
    (h : (s'.transactions.values.map TxnRow.book).Perm (s.transactions.values.map TxnRow.book)) :
    s'.transactionValueTotal account = s.transactionValueTotal account := by
  have hbook : ∀ l : List TxnRow,
      l.map (balanceOf account) = (l.map TxnRow.book).map (balanceOf account) := by
    intro l
    rw [List.map_map]
    exact List.map_congr_left fun r _ => (balanceOf_book account r).symm
  rw [transactionValueTotal_eq, transactionValueTotal_eq, hbook s'.transactions.values,
    hbook s.transactions.values]
  exact (h.map (balanceOf account)).sum_eq

theorem sum_value_eq (p : TxnRow → Bool) (l : List TxnRow) :
    ((l.filter fun t => p t ∧ t.account = account).map fun t => t.value.getD 0).sum =
      ((l.filter p).map (balanceOf account)).sum := by
  induction l with
  | nil => rfl
  | cons r l ih =>
    cases hp : p r with
    | false => simpa [hp] using ih
    | true =>
      by_cases hacc : r.account = account
      · simpa [hp, hacc, balanceOf] using ih
      · simpa [hp, hacc, balanceOf] using ih

theorem Attaches.books {ids : List String} {s s' : InMemoryStore} (h : Attaches ids s s') :
    s'.transactions.values.map TxnRow.book = s.transactions.values.map TxnRow.book := by
  obtain ⟨-, f, -, -, ht⟩ := h
  rw [ht, Table.values_modify, List.map_map]
  rfl

/-! ## The pass -/

/-- Up to links and groups, a pass writes its settlement rows and no other. -/
theorem books_reconcile :
    (exec (reconcile (some account) args) s).2.transactions.values.map TxnRow.book =
      ((linked s account).upsertTransactions
        (settlementsWritten s account args)).transactions.values.map TxnRow.book := by
  have hdue := lapseSettlements_linked s account account args
  unfold settlementsWritten
  cases hrows : lapseSettlements s account args with
  | error e =>
    rw [hrows] at hdue
    rw [exec_reconcile_error s hdue]
    rfl
  | ok rows =>
    rw [hrows] at hdue
    obtain ⟨events, s₂, rfl, -, hrun⟩ := exec_reconcileAccount s hdue
    rw [exec_reconcile_ok s rfl rfl hrun]
    simp only []
    cases hdry : args.dryRun with
    | true =>
      simp only [healed, if_true, InMemoryStore.transactions_addEvents]
      rw [routeLoop_dryRun _ hdry, lapsedState, hdry]
      simp [lapsed, InMemoryStore.upsertTransactions]
    | false =>
      simp only [Bool.false_eq_true, if_false]
      rw [transactions_healed, InMemoryStore.transactions_addEvents,
        (attaches_routeLoop _ account args hdry).books, lapsedState, hdry,
        transactions_lapsed _ hdue]

theorem value_of_settlement {r : TxnRow} (hr : r ∈ settlementsWritten s account args) :
    r.value = none := by
  unfold settlementsWritten at hr
  cases hrows : lapseSettlements s account args with
  | error e =>
    rw [hrows] at hr
    cases hr
  | ok rows =>
    rw [hrows] at hr
    simp only [] at hr
    split at hr
    · cases hr
    · obtain ⟨g, sid, -, -, sec, expiry, points, -, rfl⟩ := (mem_lapseSettlements s hrows).mp hr
      rfl

theorem nodup_settlementsWritten :
    ((settlementsWritten s account args).map TxnRow.ttTransactionId).Nodup := by
  unfold settlementsWritten
  cases hrows : lapseSettlements s account args with
  | error e => exact List.nodup_nil
  | ok rows =>
    simp only []
    split
    · exact List.nodup_nil
    · exact nodup_lapseSettlements s hrows

/-- **The balance after a pass** is what it was, less the values written over. -/
theorem transactionValueTotal_reconcile :
    (exec (reconcile (some account) args) s).2.transactionValueTotal account =
      s.transactionValueTotal account - valueWrittenOver s account args := by
  set written := settlementsWritten s account args with hwritten
  have hafter : (exec (reconcile (some account) args) s).2.transactionValueTotal account =
      (s.upsertTransactions written).transactionValueTotal account := by
    refine transactionValueTotal_of_books account ?_
    rw [books_reconcile]
    refine (values_upsertTransactions_perm _ (nodup_settlementsWritten s account args)).trans
      (List.Perm.trans ?_ (values_upsertTransactions_perm s
        (nodup_settlementsWritten s account args)).symm)
    refine List.Perm.append_right _ (List.Perm.of_eq ?_)
    rw [values_linked, List.filter_map, List.map_map]
    simp only [Function.comp_def, linkRow_id, linkRow_book]
  -- a settlement row carries no value
  have hnone : (written.map (balanceOf account)).sum = 0 := by
    apply List.sum_eq_zero
    intro x hx
    obtain ⟨r, hr, rfl⟩ := List.mem_map.mp hx
    simp [balanceOf, value_of_settlement s account args hr]
  have hupsert : (s.upsertTransactions written).transactionValueTotal account =
      ((s.transactions.values.filter fun r =>
        r.ttTransactionId ∉ written.map TxnRow.ttTransactionId).map (balanceOf account)).sum := by
    have hperm := ((values_upsertTransactions_perm s
      (nodup_settlementsWritten s account args)).map (balanceOf account)).sum_eq
    rw [List.map_append, List.sum_append, List.map_map, List.map_map, List.map_map] at hperm
    rw [transactionValueTotal_eq]
    simp only [Function.comp_def, balanceOf_book] at hperm
    rw [hperm, ← hwritten, hnone, add_zero]
  have hover : valueWrittenOver s account args =
      ((s.transactions.values.filter fun r =>
        r.ttTransactionId ∈ written.map TxnRow.ttTransactionId).map (balanceOf account)).sum := by
    rw [← sum_value_eq]
    simp only [valueWrittenOver, ← hwritten, decide_eq_true_eq]
  have hsplit := sum_filter_add_sum_filter_not (balanceOf account)
    (fun r => decide (r.ttTransactionId ∈ written.map TxnRow.ttTransactionId))
    s.transactions.values
  simp only [← decide_not] at hsplit
  rw [hafter, hupsert, hover, transactionValueTotal_eq, ← hsplit]
  abel

/-- **A pass books the cash of the lots it settles exactly when** the settlements it adds cancel
out, but for the values it writes over: the rows carry their cash where the balance does not
look. -/
theorem booksCash_iff :
    BooksCash s account args ↔
      cashOf (settlementsAdded s account args) = -valueWrittenOver s account args := by
  rw [BooksCash, transactionValueTotal_reconcile, sub_eq_add_neg, add_right_inj, eq_comm]

/-! ## A long put -/

/-- A group holds one put, expired in the money. -/
def longPut : InMemoryStore := siblings [.fill "A" "t1" "o1" "Buy to Open" "X" 1 0]

/-- The put settles for 3000 and the balance stays 0. -/
theorem not_booksCash :
    settlementsAdded longPut "A" settleAt550 = settlementsWritten longPut "A" settleAt550 ∧
      cashOf (settlementsAdded longPut "A" settleAt550) = 3000 ∧
      (exec (reconcile (some "A") settleAt550) longPut).2.transactionValueTotal "A" = 0 ∧
      ¬BooksCash longPut "A" settleAt550 := by
  have hcash : cashOf (settlementsAdded longPut "A" settleAt550) = 3000 := by decide +kernel
  have hover : valueWrittenOver longPut "A" settleAt550 = 0 := by decide +kernel
  refine ⟨by decide +kernel, hcash, by decide +kernel, ?_⟩
  rw [BooksCash, transactionValueTotal_reconcile, hcash, hover]
  intro h
  have h0 : longPut.transactionValueTotal "A" = 0 := by decide +kernel
  rw [h0] at h
  norm_num at h

end TtLedger
