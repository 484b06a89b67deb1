import TtLedger.Guarantees.PaperCash
import TtLedger.Ingest.Footprint
import TtLedger.Ingest.Growth

/-!
# The cash record is the broker's

A transaction is cash truth: what it says of money, quantity and time is the broker's word, as the
money columns hold it, and only its links are the ledger's. Whatever tasks share a ledger, however
their calls interleave and fail, a transaction keeps the columns it was stored with until an import
names it again, then it has those of a record of that import; the only rows the ledger adds of its
own are settlement rows, under ids no broker gives out (`cashTruth_of_reaches`). A settlement row
has no `value`, so without imports the balance of a paper account stands still
(`valueTotal_of_reaches`).
-/

namespace TtLedger

open LedgerStore Prog

/-! ## What a call does to the books -/

/-- The transactions differ in their links. -/
def SameBooks (s s' : InMemoryStore) : Prop :=
  ∃ f hf, s'.transactions = s.transactions.modify f hf ∧ ∀ r : TxnRow, (f r).book = r.book

section Calls

variable {s s' : InMemoryStore}

theorem SameBooks.of_eq (h : s'.transactions = s.transactions) : SameBooks s s' :=
  ⟨id, fun _ => rfl, h.trans (Table.modify_id _ _ _ fun _ _ => rfl).symm, fun _ => rfl⟩

theorem sameBooks_modify {f : TxnRow → TxnRow} {hf : ∀ r, TxnRow.key (f r) = TxnRow.key r}
    (hbook : ∀ r : TxnRow, (f r).book = r.book) :
    SameBooks s { s with transactions := s.transactions.modify f hf } :=
  ⟨f, hf, rfl, hbook⟩

theorem SameBooks.txn (h : SameBooks s s') (id : String) :
    (s'.txn id).map TxnRow.book = (s.txn id).map TxnRow.book := by
  obtain ⟨f, hf, heq, hbook⟩ := h
  simp only [InMemoryStore.txn, heq, Table.getByKey_modify, Option.map_map]
  congr 1
  funext r
  exact hbook r

theorem SameBooks.values (h : SameBooks s s') :
    s'.transactions.values.map TxnRow.book = s.transactions.values.map TxnRow.book := by
  obtain ⟨f, hf, heq, hbook⟩ := h
  rw [heq, Table.values_modify, List.map_map]
  exact List.map_congr_left fun r _ => hbook r

variable (s)

theorem sameBooks_step {op : LedgerOp} (hop : ∀ rows, op ≠ .upsertTransactions rows) :
    SameBooks s (s.step op).2 := by
  cases op with
  | upsertTransactions rows => exact absurd rfl (hop rows)
  | upsertOrders rows => exact .of_eq (InMemoryStore.transactions_upsertOrders (s := s) rows)
  | linkTransactionsToOrders account => exact sameBooks_modify fun r => by split <;> rfl
  | attachTransactionsToTradeGroup ids pk => exact sameBooks_modify fun r => by split <;> rfl
  | moveTransactionsToGroup ids pk => exact sameBooks_modify fun r => by split <;> rfl
  | linkTransactionsToPositions links =>
    refine sameBooks_modify fun r => ?_
    unfold InMemoryStore.relink
    split <;> rfl
  | _ => exact .of_eq rfl

/-- **One call**, on either store, sets links of transactions or upserts some. -/
theorem books_handler (kind : StoreKind) (op : LedgerOp) :
    SameBooks s (kind.handler op s).2 ∨
      (kind.handler op s).2.transactions =
        (s.upsertTransactions (op.upserted.map (TxnRow.heldIn kind.money))).transactions := by
  by_cases hop : ∃ rows, op = .upsertTransactions rows
  · obtain ⟨rows, rfl⟩ := hop
    refine Or.inr ?_
    cases kind with
    | memory =>
      rw [StoreKind.money, TxnRow.map_heldIn_exact]
      rfl
    | sql money scan => rfl
  · have hstep : SameBooks s (s.step op).2 := sameBooks_step s fun rows he => hop ⟨rows, he⟩
    refine Or.inl ?_
    cases kind with
    | memory => exact hstep
    | sql money scan =>
      cases op with
      | upsertTransactions rows => exact absurd ⟨rows, rfl⟩ hop
      | upsertOrders rows =>
        exact .of_eq (InMemoryStore.transactions_upsertOrders (s := s) _)
      | upsertClosedPosition row =>
        refine .of_eq ?_
        show (SqlLedgerStore.upsertClosedPosition s (row.heldIn money)).2.transactions = _
        unfold SqlLedgerStore.upsertClosedPosition
        split <;> rfl
      | linkClosedPositionsToGroups account => exact .of_eq rfl
      | accountActivity f => exact .of_eq rfl
      | upsertSecurity _ | upsertPositions _ | upsertTradeGroup _ => exact .of_eq rfl
      | addTradeGroupEvent ev => exact .of_eq rfl
      | _ => exact hstep

end Calls

/-! ## What tasks do to the books -/

/-- Each transaction has the book it had, or that of a row that satisfies `P`. -/
def BooksFrom (P : TxnRow → Prop) (s s' : InMemoryStore) : Prop :=
  ∀ id, (s'.txn id).map TxnRow.book = (s.txn id).map TxnRow.book ∨
    ∃ row, P row ∧ row.ttTransactionId = id ∧ (s'.txn id).map TxnRow.book = some row.book

namespace BooksFrom

variable {P : TxnRow → Prop} {s s' s'' : InMemoryStore}

theorem refl (s : InMemoryStore) : BooksFrom P s s := fun _ => Or.inl rfl

theorem of_sameBooks (h : SameBooks s s') : BooksFrom P s s' := fun id => Or.inl (h.txn id)

theorem trans (h : BooksFrom P s s') (h' : BooksFrom P s' s'') : BooksFrom P s s'' := by
  intro id
  rcases h' id with hsame | hrow
  · rw [hsame]
    exact h id
  · exact Or.inr hrow

theorem upsertTransactions {rows : List TxnRow} (hrows : ∀ row ∈ rows, P row) :
    BooksFrom P s (s.upsertTransactions rows) := by
  induction rows generalizing s with
  | nil => exact refl s
  | cons row rows ih =>
    have hhead : BooksFrom P s (s.upsertTransaction row) := by
      intro id
      rw [txn_upsertTransaction]
      split
      · rename_i hid
        exact Or.inr ⟨row, hrows row List.mem_cons_self, hid.symm, by simp⟩
      · exact Or.inl rfl
    exact hhead.trans (ih fun r hr => hrows r (List.mem_cons_of_mem _ hr))

theorem handler (kind : StoreKind) {op : LedgerOp}
    (hop : ∀ row ∈ op.upserted, P (row.heldIn kind.money)) :
    BooksFrom P s (kind.handler op s).2 := by
  rcases books_handler s kind op with hsame | hrows
  · exact .of_sameBooks hsame
  · intro id
    rw [InMemoryStore.txn, hrows]
    exact upsertTransactions (List.forall_mem_map.mpr hop) id

end BooksFrom

/-! ## Ids of settlement rows -/

/-- The id is one the ledger gives to settlement rows. -/
def IsLapseId (id : String) : Prop := "lapse-".toList <+: id.toList

instance decidableIsLapseId (id : String) : Decidable (IsLapseId id) :=
  inferInstanceAs (Decidable (_ <+: _))

theorem IsSettlement.isLapseId {row : TxnRow} (h : IsSettlement row) :
    IsLapseId row.ttTransactionId := by
  obtain ⟨account, securityId, sec, expiry, points, pk, groupNet, rfl⟩ := h
  simp only [IsLapseId, lapseRow, lapseId, String.toList_append, List.append_assoc]
  exact List.prefix_append _ _

/-- The rows an import task writes for its records. -/
def Task.Imports : Task → TxnRow → Prop
  | importTransactions resolver _ account txns sourceSystem _, row =>
    RowOf resolver account sourceSystem txns row
  | _, _ => False

theorem Task.Supplies.imports_or {task : Task} {row : TxnRow} (h : task.Supplies row) :
    task.Imports row ∨ IsSettlement row := by
  cases task with
  | importTransactions resolver price account txns sourceSystem after => exact h.imp id And.right
  | linkOrder k target by_ => exact Or.inr h
  | reconcile account args => exact Or.inr h
  | _ => exact h.elim

/-! ## Runs -/

section Runs

variable {ι : Type} [DecidableEq ι] (kind : StoreKind) (tasks : ι → Task) {s s' : InMemoryStore}
  {ps' : ι → LedgerProg (Option TradeGroupRow)}

theorem booksFrom_of_reaches
    (h : Pool.Reaches kind.meaning (fun i => (tasks i).program) s ps' s') :
    BooksFrom (fun held => ∃ row, held = row.heldIn kind.money ∧ ∃ i, (tasks i).Supplies row)
      s s' := by
  refine h.rel (P := fun op => ∀ row ∈ op.upserted, ∃ i, (tasks i).Supplies row)
    (fun s id => Or.inl rfl) (fun _ _ _ => .trans) (fun op s r s' hop hstep => ?_)
    fun i => (writes_program (tasks i)).mono fun op hop row hrow => ⟨i, hop row hrow⟩
  obtain ⟨clock, hrun | ⟨-, rfl⟩⟩ := hstep
  · have hbooks : BooksFrom
        (fun held => ∃ row, held = row.heldIn kind.money ∧ ∃ i, (tasks i).Supplies row)
        { s with clock } (kind.handler op { s with clock }).2 :=
      .handler kind fun row hrow => ⟨row, rfl, hop row hrow⟩
    rw [hrun] at hbooks
    exact hbooks
  · exact fun id => Or.inl rfl

/-- **Cash truth**: whatever tasks run and however they interleave, a transaction keeps the columns
it has until an import names it, then it has those of that import's record, as the money columns
hold them; what else appears are settlement rows under ids of their own. -/
theorem cashTruth_of_reaches
    (h : Pool.Reaches kind.meaning (fun i => (tasks i).program) s ps' s') (id : String) :
    (s'.txn id).map TxnRow.book = (s.txn id).map TxnRow.book ∨
      ∃ row, row.ttTransactionId = id ∧
        (s'.txn id).map TxnRow.book = some (row.heldIn kind.money).book ∧
          ((∃ i, (tasks i).Imports row) ∨ IsSettlement row ∧ IsLapseId id) := by
  refine (booksFrom_of_reaches kind tasks h id).imp (fun hsame => hsame) fun hrow => ?_
  obtain ⟨_, ⟨row, rfl, i, hi⟩, rfl, hbook⟩ := hrow
  refine ⟨row, rfl, hbook, ?_⟩
  exact hi.imports_or.imp (fun himports => ⟨i, himports⟩) fun hsettles =>
    ⟨hsettles, hsettles.isLapseId⟩

end Runs

/-! ## The balance of a paper account -/

/-- No row under an id of a settlement has a value. -/
def LapsesValueless (s : InMemoryStore) : Prop :=
  ∀ r ∈ s.transactions.values, IsLapseId r.ttTransactionId → r.value = none

/-- The settlements stay without a value, and the balances stay. -/
def KeepsBalances (s s' : InMemoryStore) : Prop :=
  LapsesValueless s → LapsesValueless s' ∧
    ∀ account, s'.transactionValueTotal account = s.transactionValueTotal account

namespace KeepsBalances

variable {s s' s'' : InMemoryStore}

theorem refl (s : InMemoryStore) : KeepsBalances s s := fun hs => ⟨hs, fun _ => rfl⟩

theorem trans (h : KeepsBalances s s') (h' : KeepsBalances s' s'') : KeepsBalances s s'' := by
  intro hs
  obtain ⟨hs', htotal⟩ := h hs
  obtain ⟨hs'', htotal'⟩ := h' hs'
  exact ⟨hs'', fun account => (htotal' account).trans (htotal account)⟩

theorem of_sameBooks (h : SameBooks s s') : KeepsBalances s s' := by
  refine fun hs => ⟨?_, fun account => transactionValueTotal_of_books account (.of_eq h.values)⟩
  obtain ⟨f, hf, heq, hbook⟩ := h
  intro r' hr' hid
  rw [heq, Table.values_modify] at hr'
  obtain ⟨r, hr, rfl⟩ := List.mem_map.mp hr'
  have hvalue : (f r).book.value = r.book.value := by rw [hbook r]
  have hsame : (f r).book.ttTransactionId = r.book.ttTransactionId := by rw [hbook r]
  exact hvalue.trans (hs r hr (hsame ▸ hid))

theorem upsertValueless {row : TxnRow} (hvalue : row.value = none)
    (hlapse : IsLapseId row.ttTransactionId) : KeepsBalances s (s.upsertTransaction row) := by
  refine fun hs => ⟨fun r hr hid => ?_, fun account => ?_⟩
  · rcases Table.eq_or_mem_of_mem_values_upsert hr with rfl | hr
    · have hsame : (written s row).book.value = row.book.value := by rw [written_book]
      exact hsame.trans hvalue
    · exact hs r hr hid
  · -- the row written over had no value, and the new one has none
    have hnodup : ([row].map TxnRow.ttTransactionId).Nodup := List.nodup_singleton _
    have hperm := values_upsertTransactions_perm s hnodup
    have hover : ∀ l : List TxnRow, (∀ r ∈ l, r ∈ s.transactions.values) →
        (l.map (balanceOf account)).sum =
          ((l.filter fun r => r.ttTransactionId ∉ [row].map TxnRow.ttTransactionId).map
            (balanceOf account)).sum := by
      intro l hl
      induction l with
      | nil => rfl
      | cons r l ih =>
        have hrest := ih fun r hr => hl r (List.mem_cons_of_mem _ hr)
        by_cases hid : r.ttTransactionId = row.ttTransactionId
        · have hnone := hs r (hl r List.mem_cons_self) (hid ▸ hlapse)
          simp [hid, balanceOf, hnone, hrest]
        · simp [hid, hrest]
    have hsum := (hperm.map (balanceOf account)).sum_eq
    rw [List.map_append, List.sum_append, List.map_map, List.map_map, List.map_map] at hsum
    simp only [Function.comp_def, balanceOf_book] at hsum
    rw [transactionValueTotal_eq, transactionValueTotal_eq,
      hover s.transactions.values fun r hr => hr]
    have hzero : ([row].map fun r => balanceOf account r).sum = 0 := by simp [balanceOf, hvalue]
    rw [hzero, add_zero] at hsum
    exact hsum

theorem upsertSettlements (money : MoneyColumn) {rows : List TxnRow}
    (hrows : ∀ row ∈ rows, IsSettlement row) :
    KeepsBalances s (s.upsertTransactions (rows.map (TxnRow.heldIn money))) := by
  induction rows generalizing s with
  | nil => exact refl s
  | cons row rows ih =>
    have hrow := hrows row List.mem_cons_self
    have hvalue : (row.heldIn money).value = none := by
      obtain ⟨account, securityId, sec, expiry, points, pk, groupNet, rfl⟩ := hrow
      rfl
    exact (upsertValueless hvalue hrow.isLapseId).trans
      (ih fun r hr => hrows r (List.mem_cons_of_mem _ hr))

theorem congr (h : s'.transactions = s''.transactions) (hs : KeepsBalances s s'') :
    KeepsBalances s s' :=
  hs.trans (of_sameBooks (.of_eq h))

theorem handler (kind : StoreKind) {op : LedgerOp} (hop : ∀ row ∈ op.upserted, IsSettlement row) :
    KeepsBalances s (kind.handler op s).2 := by
  rcases books_handler s kind op with hsame | hrows
  · exact of_sameBooks hsame
  · exact congr hrows (upsertSettlements kind.money hop)

end KeepsBalances

/-- **Without imports the balance stands still**: passes, links, edits, rebuilds and repairs, in any
interleaving and whichever of their calls fail, leave the value of every account as it was. -/
theorem valueTotal_of_reaches {ι : Type} [DecidableEq ι] (kind : StoreKind) (tasks : ι → Task)
    {s s' : InMemoryStore} {ps' : ι → LedgerProg (Option TradeGroupRow)}
    (hs : LapsesValueless s) (hnone : ∀ i row, ¬(tasks i).Imports row)
    (h : Pool.Reaches kind.meaning (fun i => (tasks i).program) s ps' s') (account : String) :
    s'.transactionValueTotal account = s.transactionValueTotal account := by
  refine (h.rel (P := fun op => ∀ row ∈ op.upserted, IsSettlement row) KeepsBalances.refl
    (fun _ _ _ => .trans) (fun op s r s' hop hstep => ?_) (fun i => ?_) hs).2 account
  · obtain ⟨clock, hrun | ⟨-, rfl⟩⟩ := hstep
    · have hkeeps := KeepsBalances.handler (s := { s with clock }) kind hop
      rw [hrun] at hkeeps
      exact hkeeps
    · exact KeepsBalances.of_sameBooks (.of_eq rfl)
  · refine (writes_program (tasks i)).mono fun op hop row hrow => ?_
    exact (hop row hrow).imports_or.resolve_left (hnone i row)

/-! ### A pass during an import -/

/-- The broker's record of the put's purchase comes again with its cash, while a pass settles it. -/
def reviseDuringPass : Bool → Task
  | true => .importTransactions (fun symbol _ => .ok
        { securityId := symbol, productType := some "OPT", expiry := some 0, strike := some 580,
          optionType := some "P", multiplier := some 100 }) none "A"
      [{ id := "t1", accountNumber := "5WX", symbol := some "X", action := some "Buy to Open",
         quantity := some 1, price := some 2, value := some 200, executedAt := some 0 }]
      "tastytrade" false
  | false => .reconcile (some "A") settleAt550

/-- The two take turns. -/
def revisedDuringPass : (Bool → LedgerProg (Option TradeGroupRow)) × InMemoryStore :=
  Pool.play memory (List.replicate 20 [true, false]).flatten (fun i => (reviseDuringPass i).program)
    longPut

theorem cashTruth_revisedDuringPass :
    ((revisedDuringPass.2.txn "t1").map TxnRow.book = (longPut.txn "t1").map TxnRow.book ∨
      ∃ row, row.ttTransactionId = "t1" ∧
        (revisedDuringPass.2.txn "t1").map TxnRow.book = some (row.heldIn .exact).book ∧
        ((∃ i, (reviseDuringPass i).Imports row) ∨ IsSettlement row ∧ IsLapseId "t1")) ∧
      (revisedDuringPass.2.txn "t1").bind TxnRow.value = some 200 ∧
      (revisedDuringPass.2.transactions.values.map TxnRow.netValue) =
        [none, some 0, some 3000] := by
  refine ⟨cashTruth_of_reaches .memory reviseDuringPass
    (StoreKind.memory.reaches_play _ _ longPut) "t1", by decide +kernel, by decide +kernel⟩

/-- The account is rebuilt while a pass settles the put. -/
def rebuildDuringSettlement : Bool → Task
  | true => .rebuild (some "A")
  | false => .reconcile (some "A") settleAt550

/-- The two take turns. -/
def rebuiltDuringSettlement : (Bool → LedgerProg (Option TradeGroupRow)) × InMemoryStore :=
  Pool.play memory (List.replicate 20 [true, false]).flatten
    (fun i => (rebuildDuringSettlement i).program) revisedDuringPass.2

theorem valueTotal_rebuiltDuringSettlement :
    rebuiltDuringSettlement.2.transactionValueTotal "A" =
        revisedDuringPass.2.transactionValueTotal "A" ∧
      revisedDuringPass.2.transactionValueTotal "A" = 200 := by
  refine ⟨valueTotal_of_reaches .memory rebuildDuringSettlement ?_ ?_
    (StoreKind.memory.reaches_play _ _ revisedDuringPass.2) "A", by decide +kernel⟩
  · unfold LapsesValueless
    decide +kernel
  · intro i row h
    cases i <;> exact h

end TtLedger
