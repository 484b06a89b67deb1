import TtLedger.Ingest.Pull
import TtLedger.Guarantees.CashTruth

/-!
# What a sync does

Whatever fails, the broker's lists go on changing by `R` and the day never goes back
(`later_of_pull`). A pull of the transaction history that returns has every transaction that was
listed when it began (`triple_getTransactionHistory`), and the import that follows stores the book
of each (`guarded_upsertTransactions`); the rest of the sync writes settlement rows only
(`PullState.Keeps`). `PullState.serve` is a sync in which no call fails.
-/

namespace TtLedger

open LedgerStore Prog TastyTradeClient

/-! ## Lists read item by item -/

/-- The values of a loop that may raise are those of its elements. -/
theorem mem_of_mapM {α β ε : Type} {f : α → Except ε β} {l : List α} {l' : List β}
    (h : l.mapM f = .ok l') :
    (∀ a ∈ l, ∃ b ∈ l', f a = .ok b) ∧ ∀ b ∈ l', ∃ a ∈ l, f a = .ok b := by
  induction l generalizing l' with
  | nil =>
    obtain rfl := Except.ok.inj h
    simp
  | cons a l ih =>
    rw [List.mapM_cons] at h
    cases ha : f a with
    | error e =>
      rw [ha] at h
      cases h
    | ok b =>
      cases hl : l.mapM f with
      | error e =>
        rw [ha, hl] at h
        cases h
      | ok bs =>
        rw [ha, hl] at h
        obtain rfl := Except.ok.inj h
        obtain ⟨hto, hfrom⟩ := ih hl
        refine ⟨?_, ?_⟩
        · simp only [List.forall_mem_cons]
          refine ⟨⟨b, by simp, ha⟩, fun x hx => ?_⟩
          obtain ⟨y, hy, hxy⟩ := hto x hx
          exact ⟨y, by simp [hy], hxy⟩
        · simp only [List.forall_mem_cons]
          refine ⟨⟨a, by simp, ha⟩, fun y hy => ?_⟩
          obtain ⟨x, hx, hxy⟩ := hfrom y hy
          exact ⟨x, by simp [hx], hxy⟩

/-- What a computation returns after another that may raise. -/
theorem forall_ok_bind {α β ε : Type} {x : Except ε α} {f : α → Except ε β} {P : β → Prop}
    (hf : ∀ a b, f a = .ok b → P b) (b : β) (h : (x >>= f) = .ok b) : P b := by
  cases x with
  | error e => cases h
  | ok a => exact hf a b h

/-! ## The pull of the transactions -/

section Fetch

variable {R : List Json → List Json → Prop} [hrefl : Std.Refl R] [IsTrans _ R]
  (c : ClientCodec) (cfg : ClientConfig)

theorem isGiven_between (start stop : Date) : ∀ e ∈ between c start stop, isGiven e = true := by
  intro e he
  rcases List.mem_cons.mp he with rfl | he
  · rfl
  · rw [List.mem_singleton.mp he]
    rfl

/-- The records of a pull are those of items listed, and of every item listed when it began. -/
structure Pulled (R : List Json → List Json → Prop) (c : ClientCodec) (l₀ : List Json)
    (txns : List BrokerTransaction) : Prop where
  complete : ∀ item ∈ l₀, ∃ t ∈ txns, BrokerJson.transactionFromJson c item = .ok t
  listed : ∀ t ∈ txns, ∃ l item, R l₀ l ∧ item ∈ l ∧ BrokerJson.transactionFromJson c item = .ok t

theorem triple_getTransactionHistory (hR : ∀ l l', R l l' → Recedes l l') (fuel : ℕ)
    (accountNumber : String) (start stop : Date) (s : Session) :
    Triple ((broker R).within fun _ => True) (fun _ _ => True) (Session.Through R fun _ => True)
      (getTransactionHistory c cfg fuel accountNumber start stop) s fun r _ =>
        ∀ txns, r = some txns →
          Pulled R c (s.items (transactionsPath accountNumber) (between c start stop)) txns := by
  unfold getTransactionHistory
  refine (triple_getAllPages c cfg hR (isGiven_between c start stop)
    (by decide : 0 < defaultPerPage) fuel trivial).bind fun r s₁ _ hread => ?_
  cases r with
  | none => exact Triple.pure (.refl s₁) fun txns hnone => by cases hnone
  | some items =>
    obtain ⟨hcomplete, hlisted⟩ := hread.1 items rfl
    refine Triple.bind (Φ := fun txns _ => items.mapM (BrokerJson.transactionFromJson c) = .ok txns)
      (Triple.ofExcept (.refl s₁) fun txns htxns => htxns) fun txns s₂ _ htxns => ?_
    refine Triple.pure (.refl s₂) fun txns' heq => ?_
    obtain rfl := Option.some.inj heq
    obtain ⟨hto, hfrom⟩ := mem_of_mapM htxns
    refine ⟨fun item hitem => hto item (hcomplete hitem), fun t ht => ?_⟩
    obtain ⟨item, hitem, hrecord⟩ := hfrom t ht
    obtain ⟨s₃, -, hlater, hmem⟩ := hlisted item hitem
    exact ⟨_, item, hlater, hmem, hrecord⟩

end Fetch

/-! ## The import of the transactions -/

section Import

variable (resolver : SecurityResolver) (account sourceSystem : String)

/-- The rows are those of the records. -/
structure RowsOf (txns : List BrokerTransaction) (rows : List TxnRow) : Prop where
  complete : ∀ t ∈ txns, ∃ row ∈ rows, resolvedRow resolver account sourceSystem t = .ok row
  sound : ∀ row ∈ rows, RowOf resolver account sourceSystem txns row

variable {resolver account sourceSystem} {s : InMemoryStore}

theorem ensures_addRows (txns : List BrokerTransaction) (w : List String × List TxnRow) :
    Ensures (fun _ => True)
      (txns.foldlM (TransactionRepository.addRow resolver account sourceSystem) w) fun w' =>
        ∃ rows, w'.2 = w.2 ++ rows ∧ RowsOf resolver account sourceSystem txns rows := by
  induction txns generalizing w with
  | nil => exact Ensures.pure ⟨[], by simp, by simp, by simp⟩
  | cons t txns ih =>
    rw [List.foldlM_cons]
    have hone : Ensures (fun _ => True)
        (TransactionRepository.addRow resolver account sourceSystem w t) fun w' =>
          ∃ row, resolvedRow resolver account sourceSystem t = .ok row ∧ w'.2 = w.2 ++ [row] :=
      Guarded.weaken (fun _ _ _ => trivial)
        (ensures_addRow (P := fun _ => True) resolver account sourceSystem w t)
    refine hone.bind fun w₁ hw₁ => ?_
    obtain ⟨row, hrow, heq⟩ := hw₁
    refine (ih w₁).mono fun w₂ _ _ hw₂ => ?_
    obtain ⟨rows, hrows, hof⟩ := hw₂
    refine ⟨row :: rows, by rw [hrows, heq, List.append_assoc, List.singleton_append], ?_, ?_⟩
    · simp only [List.forall_mem_cons]
      refine ⟨⟨row, by simp, hrow⟩, fun t' ht' => ?_⟩
      obtain ⟨row', hrow', hresolved⟩ := hof.complete t' ht'
      exact ⟨row', by simp [hrow'], hresolved⟩
    · simp only [List.forall_mem_cons]
      refine ⟨⟨t, by simp, hrow⟩, fun row' hrow' => ?_⟩
      obtain ⟨t', ht', hresolved⟩ := hof.sound row' hrow'
      exact ⟨t', by simp [ht'], hresolved⟩

/-- An import that returns has upserted the rows of its records last, as the money columns hold
them. -/
theorem guarded_upsertTransactions (kind : StoreKind) (txns : List BrokerTransaction) :
    (TransactionRepository.upsert resolver txns account sourceSystem).Guarded kind.meaning
      (fun _ _ => True) s fun x s' => ∀ n, x = .ok n →
        ∃ rows, ∃ mid : InMemoryStore, RowsOf resolver account sourceSystem txns rows ∧
          s'.transactions =
            (mid.upsertTransactions (rows.map (TxnRow.heldIn kind.money))).transactions := by
  unfold TransactionRepository.upsert
  split
  · rename_i hempty
    rw [List.isEmpty_iff.mp hempty]
    exact fun n _ => ⟨[], s, ⟨by simp, by simp⟩, rfl⟩
  · refine Guarded.bind (ensures_addRows txns ([], [])).guarded (fun w s₁ hw => ?_)
      fun e s₁ _ n hn => by cases hn
    obtain ⟨rows, hrows, hof⟩ := hw w rfl
    refine Guarded.bind (Q := fun x s' => x = .ok () → ∃ mid : InMemoryStore,
      s'.transactions =
        (mid.upsertTransactions (w.2.map (TxnRow.heldIn kind.money))).transactions)
      (Guarded.invoke trivial fun r s₂ hr hok => ?_) (fun _ s₂ hmid n _ => ?_)
      fun e s₂ _ n hn => by cases hn
    · obtain ⟨clock, hrun | ⟨⟨e, he⟩, -⟩⟩ := hr
      · refine ⟨{ s₁ with clock }, ?_⟩
        have hs : (kind.handler (.upsertTransactions w.2) { s₁ with clock }).2 = s₂ :=
          congrArg Prod.snd hrun
        rw [← hs]
        cases kind with
        | memory =>
          rw [StoreKind.money, TxnRow.map_heldIn_exact]
          rfl
        | sql money scan => rfl
      · rw [he] at hok
        cases hok
    · obtain ⟨mid, hmid⟩ := hmid rfl
      rw [hrows, List.nil_append] at hmid
      exact ⟨rows, mid, hof, hmid⟩

/-- Rows that agree on an identifier are stored under it. -/
theorem book_upsertTransactions {rows : List TxnRow} {row : TxnRow} (hrow : row ∈ rows)
    (honce : ∀ row' ∈ rows, row'.ttTransactionId = row.ttTransactionId → row' = row) :
    ((s.upsertTransactions rows).txn row.ttTransactionId).map TxnRow.book = some row.book := by
  induction rows generalizing s with
  | nil => cases hrow
  | cons row' rows ih =>
    show (((s.upsertTransaction row').upsertTransactions rows).txn _).map _ = _
    by_cases hmem : row ∈ rows
    · exact ih hmem fun r hr => honce r (List.mem_cons_of_mem _ hr)
    · obtain rfl : row = row' := (List.mem_cons.mp hrow).resolve_right hmem
      have hnot : row.ttTransactionId ∉ rows.map TxnRow.ttTransactionId := by
        intro hid
        obtain ⟨r, hr, heq⟩ := List.mem_map.mp hid
        exact hmem (honce r (List.mem_cons_of_mem _ hr) heq ▸ hr)
      rw [txn_upsertTransactions_of_notMem _ hnot, txn_upsertTransaction, if_pos rfl]
      simp

end Import

/-! ## The ledger's part of a sync -/

section Sync

variable {R : List Json → List Json → Prop} {kind : StoreKind} {c : ClientCodec}
  {cfg : ClientConfig}

/-- A program on the ledger leaves the rest alone. -/
theorem guarded_onLedger {α : Type} {p : LedgerProg α} {s : PullState}
    {Q : Except String α → InMemoryStore → Prop}
    (hp : p.Guarded kind.meaning (fun _ _ => True) s.ledger Q) :
    (onLedger p).Guarded (pull R kind c cfg) (fun _ _ => True) s fun x s' =>
      Q x s'.ledger ∧ s' = { s with ledger := s'.ledger } := by
  induction p generalizing s with
  | ret a => exact ⟨hp, rfl⟩
  | raise e => exact ⟨hp, rfl⟩
  | call op k ih =>
    refine Guarded.bind (Q := fun x s' => ∃ r, x = .ok r ∧ ∃ ledger,
      kind.meaning op s.ledger r ledger ∧ s' = { s with ledger }) ?_ (fun r s' hr => ?_)
      fun e s' he => ?_
    · refine ⟨trivial, fun r s' hr => ?_⟩
      cases r with
      | ok a => exact ⟨.ok a, rfl, hr⟩
      | error e => exact ⟨.error e, rfl, hr⟩
    · obtain ⟨r', heq, ledger, hop, rfl⟩ := hr
      obtain rfl := Except.ok.inj heq
      exact Guarded.mono (fun x s'' hQ => ⟨hQ.1, hQ.2⟩) (ih r (hp.2 r ledger hop))
    · obtain ⟨r', heq, -⟩ := he
      cases heq

variable [hrefl : Std.Refl R]

/-- A settlement row, as a money column holds it. -/
def HeldSettlement (money : MoneyColumn) (held : TxnRow) : Prop :=
  ∃ row, held = row.heldIn money ∧ IsSettlement row

/-- The broker's lists change by `R`, and the day does not go back. -/
structure PullState.Later (R : List Json → List Json → Prop) (s s' : PullState) : Prop where
  lists : Session.Later R s.session s'.session
  today : s.today ≤ s'.today

theorem PullState.Later.refl (s : PullState) : PullState.Later R s s :=
  ⟨fun _ _ => hrefl.refl _, le_rfl⟩

/-- Only settlement rows are written, and everything else keeps its book. -/
structure PullState.Keeps (R : List Json → List Json → Prop) (money : MoneyColumn)
    (s s' : PullState) : Prop extends PullState.Later R s s' where
  books : BooksFrom (HeldSettlement money) s.ledger s'.ledger

theorem PullState.Keeps.refl {money : MoneyColumn} (s : PullState) :
    PullState.Keeps R money s s :=
  ⟨.refl s, .refl s.ledger⟩

variable [htrans : IsTrans _ R]

instance PullState.isTransLater : IsTrans PullState (PullState.Later R) where
  trans _ _ _ h h' :=
    ⟨fun path q => htrans.trans _ _ _ (h.lists path q) (h'.lists path q), h.today.trans h'.today⟩

theorem Fetches.later {α : Type} {p : ℕ → ClientProg (Option α)} {s s' : PullState}
    {r : Except String α} (h : Fetches R p s r s') : PullState.Later R s s' := by
  obtain ⟨fuel, x, session, hrun, rfl, -⟩ := h
  exact ⟨(Guarded.of_runs (triple_client (p fuel) s.session) hrun.within_true).1.lists, le_rfl⟩

/-- One call. -/
theorem later_of_pull {op : PullOp} {s s' : PullState} {r : Except String op.Reply}
    (h : pull R kind c cfg op s r s') : PullState.Later R s s' := by
  cases op with
  | getOrderHistory n a b => exact Fetches.later h
  | getTransactionHistory n a b => exact Fetches.later h
  | getPositions n => exact Fetches.later h
  | getBalances n => exact Fetches.later h
  | today =>
    obtain ⟨today, hle, -, rfl⟩ := h
    exact ⟨fun _ _ => hrefl.refl _, hle⟩
  | now =>
    rw [h.2]
    exact .refl s
  | upsertBalanceSnapshot row =>
    rcases h with ⟨-, rfl⟩ | ⟨-, rfl⟩
    · exact ⟨fun _ _ => hrefl.refl _, le_rfl⟩
    · exact .refl _
  | ledger op =>
    obtain ⟨ledger, -, rfl⟩ := h
    exact ⟨fun _ _ => hrefl.refl _, le_rfl⟩

instance PullState.isTransKeeps {money : MoneyColumn} :
    IsTrans PullState (PullState.Keeps R money) where
  trans s s' s'' h h' :=
    ⟨IsTrans.trans s s' s'' h.toLater h'.toLater, h.books.trans h'.books⟩

/-- The ledger's calls write settlement rows only. -/
def PullOp.Settles : PullOp → Prop
  | ledger op => ∀ row ∈ op.upserted, IsSettlement row
  | _ => True

theorem calls_onLedger {α : Type} {p : LedgerProg α} (hp : Writes IsSettlement p) :
    (onLedger p).Calls PullOp.Settles := by
  induction p with
  | ret a => trivial
  | raise e => trivial
  | call op k ih =>
    refine Calls.bind ⟨hp.1, fun r => ?_⟩ fun r => ih r (hp.2 r)
    cases r <;> trivial

theorem keeps_of_pull {op : PullOp} (hop : op.Settles) {s s' : PullState}
    {r : Except String op.Reply} (h : pull R kind c cfg op s r s') :
    PullState.Keeps R kind.money s s' := by
  refine ⟨later_of_pull h, ?_⟩
  cases op with
  | ledger op =>
    obtain ⟨ledger, ⟨clock, hrun | ⟨-, rfl⟩⟩, rfl⟩ := h
    · have hbooks := BooksFrom.handler (P := HeldSettlement kind.money)
        (s := { s.ledger with clock }) kind fun row hrow => ⟨row, rfl, hop row hrow⟩
      rw [hrun] at hbooks
      exact hbooks
    · exact .refl _
  | getOrderHistory n a b | getTransactionHistory n a b =>
    obtain ⟨fuel, x, session, -, rfl, -⟩ := h
    exact .refl _
  | getPositions n | getBalances n =>
    obtain ⟨fuel, x, session, -, rfl, -⟩ := h
    exact .refl _
  | today =>
    obtain ⟨today, -, -, rfl⟩ := h
    exact .refl _
  | now =>
    rw [h.2]
    exact .refl _
  | upsertBalanceSnapshot row =>
    rcases h with ⟨-, rfl⟩ | ⟨-, rfl⟩
    · exact .refl _
    · exact .refl _

/-- Whatever is synced, the broker's lists change by `R` and the day does not go back. -/
theorem triple_pull {α : Type} (p : PullProg α) (s : PullState) :
    Triple (pull R kind c cfg) (fun _ _ => True) (PullState.Later R) p s fun _ _ => True :=
  Triple.of_calls (P := fun _ => True) .refl (fun _ _ _ _ _ => later_of_pull) (.any p)

theorem triple_settles {α : Type} {p : PullProg α} (hp : p.Calls PullOp.Settles) (s : PullState) :
    Triple (pull R kind c cfg) (fun _ _ => True) (PullState.Keeps R kind.money) p s
      fun _ _ => True :=
  Guarded.weaken (fun _ _ _ => trivial)
    (Triple.of_calls .refl (fun _ _ _ _ hop h => keeps_of_pull hop h) hp)

end Sync

/-! ## A sync in which no call fails -/

namespace PullState

/-- What the client reads from a broker that serves it. -/
def fetch (turn : List Json → List Json) (refuses : String → Bool) {α : Type}
    (p : ClientProg (Option α)) (s : PullState) : Except String α × PullState :=
  match run (Session.serve turn refuses) p s.session with
  | (.ok (some a), session) => (.ok a, { s with session })
  | (_, session) => (.error "unavailable", { s with session })

/-- The calls of a sync, when none fails and the day does not change. -/
def serve (turn : List Json → List Json) (refuses : String → Bool) (kind : StoreKind)
    (c : ClientCodec) (cfg : ClientConfig) (fuel : ℕ) :
    Handler PullOp PullOp.Reply String PullState
  | .getOrderHistory accountNumber start stop, s =>
    s.fetch turn refuses (getOrderHistory c cfg fuel accountNumber start stop)
  | .getTransactionHistory accountNumber start stop, s =>
    s.fetch turn refuses (getTransactionHistory c cfg fuel accountNumber start stop)
  | .getPositions accountNumber, s =>
    s.fetch turn refuses (some <$> getPositions c cfg accountNumber)
  | .getBalances accountNumber, s => s.fetch turn refuses (some <$> getBalances c cfg accountNumber)
  | .today, s => (.ok s.today, s)
  | .now, s => (.ok s.ledger.clock, s)
  | .upsertBalanceSnapshot row, s => (.ok (), { s with snapshots := (s.snapshots.upsert row).2 })
  | .ledger op, s =>
    ((kind.handler op s.ledger).1, { s with ledger := (kind.handler op s.ledger).2 })

variable {R : List Json → List Json → Prop} {turn : List Json → List Json}
  {refuses : String → Bool}

theorem fetches_fetch (hturn : ∀ l, R l (turn l)) {α : Type} (p : ℕ → ClientProg (Option α))
    (fuel : ℕ) (s : PullState) :
    Fetches R p s (s.fetch turn refuses (p fuel)).1 (s.fetch turn refuses (p fuel)).2 := by
  have hrun : Runs (broker R) (p fuel) s.session
      (run (Session.serve turn refuses) (p fuel) s.session).1 _ :=
    Session.runs_serve hturn (p fuel) s.session
  unfold fetch
  rcases hx : run (Session.serve turn refuses) (p fuel) s.session with ⟨x, session⟩
  rw [hx] at hrun
  rcases x with e | _ | a
  · exact ⟨fuel, _, session, hrun, rfl, fun b hb => by cases hb⟩
  · exact ⟨fuel, _, session, hrun, rfl, fun b hb => by cases hb⟩
  · exact ⟨fuel, _, session, hrun, rfl, fun b hb => by rw [Except.ok.inj hb]⟩

theorem pull_serve (hturn : ∀ l, R l (turn l)) (kind : StoreKind) (c : ClientCodec)
    (cfg : ClientConfig) (fuel : ℕ) (op : PullOp) (s : PullState) :
    pull R kind c cfg op s (serve turn refuses kind c cfg fuel op s).1
      (serve turn refuses kind c cfg fuel op s).2 := by
  cases op with
  | getOrderHistory n a b =>
    exact fetches_fetch hturn (fun fuel => getOrderHistory c cfg fuel n a b) fuel s
  | getTransactionHistory n a b =>
    exact fetches_fetch hturn (fun fuel => getTransactionHistory c cfg fuel n a b) fuel s
  | getPositions n => exact fetches_fetch hturn (fun _ => some <$> getPositions c cfg n) fuel s
  | getBalances n => exact fetches_fetch hturn (fun _ => some <$> getBalances c cfg n) fuel s
  | today => exact ⟨s.today, le_rfl, rfl, rfl⟩
  | now => exact ⟨⟨_, rfl⟩, rfl⟩
  | upsertBalanceSnapshot row => exact Or.inl ⟨rfl, rfl⟩
  | ledger op => exact ⟨_, ⟨s.ledger.clock, Or.inl rfl⟩, rfl⟩

theorem runs_serve (hturn : ∀ l, R l (turn l)) (kind : StoreKind) (c : ClientCodec)
    (cfg : ClientConfig) (fuel : ℕ) {α : Type} (p : PullProg α) (s : PullState) :
    Runs (pull R kind c cfg) p s (run (serve turn refuses kind c cfg fuel) p s).1
      (run (serve turn refuses kind c cfg fuel) p s).2 :=
  (runs_run (serve turn refuses kind c cfg fuel) p s).mono fun op s r s' h => by
    obtain ⟨rfl, rfl⟩ := Prod.mk.inj (h : serve turn refuses kind c cfg fuel op s = (r, s'))
    exact pull_serve hturn kind c cfg fuel op s

end PullState

end TtLedger
