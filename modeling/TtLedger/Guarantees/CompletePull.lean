import TtLedger.Ingest.PullLaws

/-!
# A pull reads every page

`getAllPages` reads the pages of a list that the broker changes while it is read. As long as no item
of the list moves toward its front (it may grow anywhere) a pull that returns has every item that
was listed when it began, and none that was not listed during the pull (`getAllPages_complete`);
when the list grows at its end only, it has exactly the list at its last request
(`getAllPages_exact`).

A sync reads every feed through such pulls, imports what they return and reconciles. When its result
names no error, every transaction that the broker listed when it began is in the ledger, with the
broker's columns as the store's money columns hold them (`complete_of_clean`), whatever the feeds
before and after it did.
-/

namespace TtLedger

open Prog TastyTradeClient

section Pulls

variable {R : List Json → List Json → Prop} [hrefl : Std.Refl R] [htrans : IsTrans _ R]
  (c : ClientCodec) (cfg : ClientConfig) {path : String} {q : Json.Object} {limit fuel : ℕ}
  {s s' : Session}

/-- **A pull is complete**: whatever the broker refuses, however often the token is renewed and
whatever is inserted meanwhile, it has every item listed when it began, and only items that were
listed in a session of the pull; it runs out of fuel only when the list goes on after that many
pages. -/
theorem getAllPages_complete (hR : ∀ l l', R l l' → Recedes l l')
    (hq : ∀ e ∈ q, isGiven e = true) (hlimit : 0 < limit) {r : Option (List Json)}
    {sessions : List Session}
    (hrun : RunsVia (broker R) (getAllPages c cfg fuel path q limit) s sessions (.ok r) s') :
    (∀ items, r = some items → s.items path q ⊆ items ∧
      ∀ a ∈ items, ∃ s₁ ∈ sessions,
        R (s.items path q) (s₁.items path q) ∧ a ∈ s₁.items path q) ∧
    (r = none → fuel = 0 ∨ fuel * limit < (s'.items path q).length) :=
  (Guarded.of_runs (triple_getAllPages c cfg hR hq hlimit fuel hrun.start_mem)
    (hrun.within fun _ h => h)).2 r rfl

/-- **A pull of a growing list** that returns is the list as it is at its last request. -/
theorem getAllPages_exact (hR : ∀ l l', R l l' → l <+: l')
    (hq : ∀ e ∈ q, isGiven e = true) (hlimit : 0 < limit) {items : List Json}
    (hrun : Runs (broker R) (getAllPages c cfg fuel path q limit) s (.ok (some items)) s') :
    items = s'.items path q := by
  obtain ⟨hread, -⟩ := (Guarded.of_runs (triple_pagesFrom c cfg hq hlimit
    (I := fun items s k => items = (s.items path q).take (k * limit))
    (fun items s₁ s₂ k h hk hs => by
      rw [h, take_append_page (hR _ _ (hs.lists path q)) hk.le]) fuel 0 [] s
    (by simp) (Or.inl rfl)) hrun.within_true).2 _ rfl
  obtain ⟨k, rfl, hend⟩ := hread items rfl
  exact List.take_of_length_le hend

end Pulls

/-! ## Items listed while a client reads -/

namespace TwoPages

/-- A client whose token the broker no longer takes, and a broker that lists three items. -/
def session : Session where
  accessToken := .str "old"
  tokenExpiresAt := some 10
  items := fun _ _ => [.int 1, .int 2, .int 3]

def refuses (authorization : String) : Bool := authorization = "Bearer old"

/-- One more item at each request, ahead of the others, until there are seven. -/
def ahead (l : List Json) : List Json :=
  if l.length < 7 then .int (l.length + 1) :: l else l

/-- One more item at each request, behind the others, until there are seven. -/
def behind (l : List Json) : List Json :=
  if l.length < 7 then l ++ [.int (l.length + 1)] else l

theorem recedes_ahead (l : List Json) : Recedes l (ahead l) := by
  unfold ahead
  split
  · exact .of_sublist (List.sublist_cons_self _ _)
  · exact .refl l

theorem prefix_behind (l : List Json) : l <+: behind l := by
  unfold behind
  split
  · exact List.prefix_append _ _
  · exact List.prefix_rfl

/-- A pull of the items, two on a page. -/
def program : ClientProg (Option (List Json)) :=
  getAllPages (.plain "") ⟨"", "", ""⟩ 4 "/accounts/5WT00001/orders" [] 2

def read (turn : List Json → List Json) : Except ClientError (Option (List Json)) × Session :=
  run (Session.serve turn refuses) program session

/-- The items read when they are listed ahead of the others: one of them twice. -/
def readAhead : List Json := [.int 6, .int 5, .int 5, .int 4, .int 1, .int 2, .int 3]

/-- All items are read. -/
theorem reads_all : ∃ sessions,
    RunsVia (broker Recedes) program session sessions (.ok (some readAhead)) (read ahead).2 ∧
    session.items "/accounts/5WT00001/orders" [] ⊆ readAhead ∧
    ∀ a ∈ readAhead, ∃ s₁ ∈ sessions,
      Recedes (session.items "/accounts/5WT00001/orders" [])
        (s₁.items "/accounts/5WT00001/orders" []) ∧
      a ∈ s₁.items "/accounts/5WT00001/orders" [] := by
  have hrun : Runs (broker Recedes) program session (read ahead).1 (read ahead).2 :=
    Session.runs_serve recedes_ahead program session
  rw [show (read ahead).1 = .ok (some readAhead) from rfl] at hrun
  obtain ⟨sessions, hvia⟩ := hrun.via
  exact ⟨sessions, hvia,
    (getAllPages_complete _ _ (fun _ _ h => h) (by simp) (by decide) hvia).1 _ rfl⟩

/-- They are the broker's list. -/
theorem reads_exactly : ∃ items, (read behind).1 = .ok (some items) ∧
    items = (read behind).2.items "/accounts/5WT00001/orders" [] := by
  have hrun : Runs (broker (· <+: ·)) program session (read behind).1 (read behind).2 :=
    Session.runs_serve prefix_behind program session
  rw [show (read behind).1 =
    .ok (some [.int 1, .int 2, .int 3, .int 4, .int 5, .int 6, .int 7]) from rfl] at hrun
  exact ⟨_, rfl, getAllPages_exact _ _ (fun _ _ h => h) (by simp) (by decide) hrun⟩

end TwoPages

/-! ## Clean syncs -/

/-- The ids of a list tell its items apart, and none is one of the ledger's own. -/
structure ListedIds (c : ClientCodec) (l : List Json) : Prop where
  once : ∀ x ∈ l, ∀ y ∈ l, ∀ id, BrokerJson.requiredId c x "id" = .ok id →
    BrokerJson.requiredId c y "id" = .ok id → x = y
  foreign : ∀ x ∈ l, ∀ id, BrokerJson.requiredId c x "id" = .ok id → ¬IsLapseId id

/-- A list to which transactions are added, wherever they are, and in which none is revised. -/
def Publishes (c : ClientCodec) (l l' : List Json) : Prop :=
  Recedes l l' ∧ (ListedIds c l → ListedIds c l')

instance reflPublishes (c : ClientCodec) : Std.Refl (Publishes c) where
  refl l := ⟨.refl l, id⟩

instance isTransPublishes (c : ClientCodec) : IsTrans _ (Publishes c) where
  trans _ _ _ h h' := ⟨h.1.trans h'.1, fun hids => h'.2 (h.2 hids)⟩

/-- The transaction of an item is stored as the money columns hold it. -/
def StoredAs (money : MoneyColumn) (c : ClientCodec) (args : SyncArgs) (item : Json)
    (s : InMemoryStore) : Prop :=
  ∃ t row, BrokerJson.transactionFromJson c item = .ok t ∧
    resolvedRow args.resolver args.account "tastytrade" t = .ok row ∧
    (s.txn t.id).map TxnRow.book = some (row.heldIn money).book ∧ ¬IsLapseId t.id

section Sync

variable {kind : StoreKind} {c : ClientCodec} {cfg : ClientConfig} (args : SyncArgs)

theorem requiredId_of_transactionFromJson {item : Json} (t : BrokerTransaction)
    (h : BrokerJson.transactionFromJson c item = .ok t) :
    BrokerJson.requiredId c item "id" = .ok t.id := by
  unfold BrokerJson.transactionFromJson at h
  cases hentries : BrokerJson.entriesOf item with
  | error e =>
    rw [hentries] at h
    cases h
  | ok entries =>
    cases hid : BrokerJson.requiredId c item "id" with
    | error e =>
      rw [hentries, hid] at h
      cases h
    | ok id =>
      rw [hentries, hid] at h
      change (BrokerJson.requiredId c item "account-number" >>= _) = _ at h
      refine congrArg Except.ok ?_
      revert t
      iterate 21 refine forall_ok_bind fun _ => ?_
      exact fun t h => Except.ok.inj h ▸ rfl

/-- The import of a pull stores the transaction of every item that was listed. -/
theorem storedAs_of_pulled {l₀ : List Json} (hids : ListedIds c l₀)
    {txns : List BrokerTransaction} (hpulled : Pulled (Publishes c) c l₀ txns)
    {rows : List TxnRow} (hrows : RowsOf args.resolver args.account "tastytrade" txns rows)
    {mid s : InMemoryStore} {money : MoneyColumn}
    (hs : s.transactions = (mid.upsertTransactions (rows.map (TxnRow.heldIn money))).transactions) :
    ∀ item ∈ l₀, StoredAs money c args item s := by
  intro item hitem
  obtain ⟨t, ht, hrecord⟩ := hpulled.complete item hitem
  obtain ⟨row, hrow, hresolved⟩ := hrows.complete t ht
  have hid := requiredId_of_transactionFromJson _ hrecord
  refine ⟨t, row, hrecord, hresolved, ?_, hids.foreign item hitem _ hid⟩
  rw [InMemoryStore.txn, hs, ← ttTransactionId_resolvedRow hresolved]
  have hheld : row.heldIn money ∈ rows.map (TxnRow.heldIn money) := List.mem_map_of_mem hrow
  refine book_upsertTransactions hheld
    (List.forall_mem_map.mpr fun row' hrow' heq => congrArg (TxnRow.heldIn money) ?_)
  obtain ⟨t', ht', hresolved'⟩ := hrows.sound row' hrow'
  obtain ⟨l, item', hl, hitem', hrecord'⟩ := hpulled.listed t' ht'
  change row'.ttTransactionId = row.ttTransactionId at heq
  rw [ttTransactionId_resolvedRow hresolved, ttTransactionId_resolvedRow hresolved'] at heq
  have hid' := requiredId_of_transactionFromJson _ hrecord'
  rw [heq] at hid'
  -- both items are on one list, whose ids tell its items apart
  obtain rfl := (hl.2 hids).once item (hl.1.subset hitem) item' hitem' _ hid hid'
  obtain rfl := Except.ok.inj (hrecord.symm.trans hrecord')
  exact Except.ok.inj (hresolved'.symm.trans hresolved)

theorem StoredAs.keeps {money : MoneyColumn} {item : Json} {s s' : InMemoryStore}
    (h : StoredAs money c args item s) (hbooks : BooksFrom (HeldSettlement money) s s') :
    StoredAs money c args item s' := by
  obtain ⟨t, row, hrecord, hresolved, hbook, hforeign⟩ := h
  refine ⟨t, row, hrecord, hresolved, ?_, hforeign⟩
  rcases hbooks t.id with hsame | ⟨_, ⟨settlement, rfl, hsettles⟩, hid, -⟩
  · rw [hsame, hbook]
  · change settlement.ttTransactionId = t.id at hid
    exact absurd (hid ▸ hsettles.isLapseId) hforeign

/-- Every transaction the broker listed at the start is stored. -/
def UpToDate (money : MoneyColumn) (c : ClientCodec) (args : SyncArgs) (s₀ s : PullState) :
    Prop :=
  ∃ number today, args.accounts.toAccountNumber (.str args.account) = .ok number ∧
    s₀.today ≤ today ∧ today ≤ s.today ∧
    ∀ item ∈ s₀.session.items (transactionsPath number) (between c (args.since.getD epoch) today),
      StoredAs money c args item s.ledger

theorem triple_syncTransactions {s : PullState}
    (hids : ∀ number query, ListedIds c (s.session.items (transactionsPath number) query)) :
    Triple (pull (Publishes c) kind c cfg) (fun _ _ => True) (PullState.Later (Publishes c))
      (syncTransactions args) s fun _ s' => UpToDate kind.money c args s s' := by
  unfold syncTransactions
  refine Triple.bind (Φ := fun number s' => s' = s ∧
      args.accounts.toAccountNumber (.str args.account) = .ok number)
    (Triple.ofExcept (.refl s) fun number hnumber => ⟨rfl, ?_⟩) fun number s₁ _ hnumber => ?_
  · unfold accountNumberOf at hnumber
    split at hnumber
    · rename_i hok
      rw [hok, Except.ok.inj hnumber]
    · cases hnumber
  obtain ⟨rfl, hnumber⟩ := hnumber
  refine Triple.bind (Φ := fun today s' => s₁.today ≤ today ∧ s' = { s₁ with today })
    (Guarded.invoke trivial fun r s' hr => ⟨later_of_pull hr, fun today htoday => ?_⟩)
    fun today s₂ _ htoday => ?_
  · obtain ⟨day, hle, rfl, rfl⟩ := hr
    obtain rfl := Except.ok.inj htoday
    exact ⟨hle, rfl⟩
  obtain ⟨htoday, rfl⟩ := htoday
  refine Triple.bind (Φ := fun txns s' => s'.today = today ∧ Pulled (Publishes c) c
      (s₁.session.items (transactionsPath number) (between c (args.since.getD epoch) today)) txns)
    (Guarded.invoke trivial fun r s' hr => ⟨later_of_pull hr, fun txns htxns => ?_⟩)
    fun txns s₃ _ hpulled => ?_
  · obtain ⟨fuel, x, session, hrun, rfl, hok⟩ := hr
    have hread := triple_getTransactionHistory c cfg (fun l l' (h : Publishes c l l') => h.1) fuel
      number (args.since.getD epoch) today s₁.session
    exact ⟨rfl, (Guarded.of_runs hread hrun.within_true).2 _ (hok txns htxns) txns rfl⟩
  obtain ⟨rfl, hpulled⟩ := hpulled
  refine Guarded.mono (fun x s₄ hQ => ?_)
    (guarded_onLedger (guarded_upsertTransactions kind txns))
  obtain ⟨hrows, hframe⟩ := hQ
  rw [hframe]
  refine ⟨⟨fun path q => Std.Refl.refl _, le_rfl⟩, fun n hn => ?_⟩
  obtain ⟨rows, mid, hrowsOf, hmid⟩ := hrows n hn
  exact ⟨number, s₃.today, hnumber, htoday, le_rfl,
    storedAs_of_pulled args (hids number _) hpulled hrowsOf hmid⟩

/-- A step whose failure is recorded. -/
theorem triple_recordFailure {m : Meaning PullOp PullOp.Reply String PullState}
    {C : PullState → PullOp → Prop} {Rel : PullState → PullState → Prop} {name : String}
    {result : SyncAllResult} {step : PullProg SyncAllResult} {s : PullState}
    {Φ : SyncAllResult → PullState → Prop} (hstep : Triple m C Rel step s Φ) :
    Triple m C Rel (recordFailure name result step) s fun r s' => r.errors = [] → Φ r s' := by
  refine Guarded.tryCatch hstep (fun r s' h => ⟨h.1, fun r' hr' _ => h.2 r' hr'⟩) fun e s' h => ?_
  refine ⟨h.1, fun r' hr' hclean => ?_⟩
  obtain rfl := Except.ok.inj hr'
  simp at hclean

/-- A step that writes settlement rows only, and keeps the errors. -/
theorem triple_step {α : Type} {name : String} {result : SyncAllResult} {p : PullProg α}
    {f : α → SyncAllResult} (hp : p.Calls PullOp.Settles)
    (hf : ∀ a, result.errors <+: (f a).errors) (s : PullState) :
    Triple (pull (Publishes c) kind c cfg) (fun _ _ => True)
      (PullState.Keeps (Publishes c) kind.money)
      (recordFailure name result (p >>= fun a => pure (f a))) s fun r _ =>
        r.errors = [] → result.errors = [] := by
  have hkept : Triple (pull (Publishes c) kind c cfg) (fun _ _ => True)
      (PullState.Keeps (Publishes c) kind.money) (p >>= fun a => pure (f a)) s fun r _ =>
        result.errors <+: r.errors :=
    (triple_settles hp s).bind fun a s' _ _ => Triple.pure (.refl s') (hf a)
  refine (triple_recordFailure hkept).mono fun r s' _ h hclean => ?_
  have hprefix := h hclean
  rwa [hclean, List.prefix_nil] at hprefix

theorem calls_syncPositions : (syncPositions args).Calls PullOp.Settles := by
  refine (Calls.ofExcept _).bind fun number => ?_
  refine (Calls.invoke.mpr trivial).bind fun positions => ?_
  exact calls_onLedger (writes_upsertPositions args.resolver positions args.account)

theorem calls_syncBalances : (syncBalances args).Calls PullOp.Settles := by
  unfold syncBalances
  refine (Calls.ofExcept _).bind fun number => ?_
  refine Calls.bind (Calls.invoke.mpr trivial) fun balance => ?_
  have hrecord : ∀ capturedAt, (Prog.invoke (PullOp.upsertBalanceSnapshot
      (balanceSnapshot balance args.account "rest_sync" capturedAt)) >>= fun _ =>
        (pure 1 : PullProg ℕ)).Calls PullOp.Settles := fun _ =>
    Calls.bind (Calls.invoke.mpr trivial) fun _ => Calls.pure _
  simp only []
  split
  · exact hrecord _
  · exact Calls.bind (Calls.invoke.mpr trivial) fun t => hrecord t

/-- What a sync does after the transactions. -/
theorem triple_rest (result : SyncAllResult) (s : PullState) :
    Triple (pull (Publishes c) kind c cfg) (fun _ _ => True)
      (PullState.Keeps (Publishes c) kind.money)
      (do
        let result ← positionsStep args result
        let result ← balancesStep args result
        reconcileStep args result) s fun r _ => r.errors = [] → result.errors = [] := by
  refine Triple.bind (triple_step (f := fun positions => { result with positions })
    (calls_syncPositions args) (fun _ => List.prefix_rfl) s) fun r₁ s₁ _ h₁ => ?_
  refine Triple.bind (triple_step (f := fun balances => { r₁ with balances })
    (calls_syncBalances args) (fun _ => List.prefix_rfl) s₁) fun r₂ s₂ _ h₂ => ?_
  refine Triple.mono (triple_step (f := fun pass : SyncResult => { r₂ with
      tradeGroups := r₂.tradeGroups + pass.tradeGroups
      errors := r₂.errors ++ pass.errors })
    (calls_onLedger (writes_reconcile _ _)) (fun _ => List.prefix_append _ _) s₂) ?_
  exact fun r₃ s₃ _ h₃ hclean => h₁ (h₂ (h₃ hclean))

theorem UpToDate.of_later {money : MoneyColumn} {s₀ s₁ s₂ s₃ : PullState}
    (h : UpToDate money c args s₁ s₂) (hlater : PullState.Later (Publishes c) s₀ s₁)
    (hkeeps : PullState.Keeps (Publishes c) money s₂ s₃) : UpToDate money c args s₀ s₃ := by
  obtain ⟨number, today, hnumber, hfrom, hto, hstored⟩ := h
  refine ⟨number, today, hnumber, hlater.today.trans hfrom, hto.trans hkeeps.today, ?_⟩
  intro item hitem
  exact (hstored item ((hlater.lists _ _).1.subset hitem)).keeps args hkeeps.books

/-- **A clean sync is complete**: when a sync reports no error, every transaction that the broker
listed when it began, for the days up to some day of the sync, is in the ledger with the broker's
columns as the money columns of its store hold them, however the pages shifted, requests were
refused and tokens renewed while it was read, whatever else was published meanwhile and whatever
the reconcile pass did afterwards. -/
theorem complete_of_clean {s s' : PullState} {result : SyncAllResult}
    (hids : ∀ number query, ListedIds c (s.session.items (transactionsPath number) query))
    (hrun : Runs (pull (Publishes c) kind c cfg) (syncAll args) s (.ok result) s')
    (hclean : result.errors = []) : UpToDate kind.money c args s s' := by
  have hsync : Triple (pull (Publishes c) kind c cfg) (fun _ _ => True)
      (PullState.Later (Publishes c)) (syncAll args) s fun r s' =>
        r.errors = [] → UpToDate kind.money c args s s' := by
    refine (triple_pull (ordersStep args {}) s).bind fun r₁ s₁ h₁ _ => ?_
    have hsynced : Triple (pull (Publishes c) kind c cfg) (fun _ _ => True)
        (PullState.Later (Publishes c)) (transactionsStep args r₁) s₁ fun r s₂ =>
          r.errors = [] → UpToDate kind.money c args s₁ s₂ :=
      triple_recordFailure ((triple_syncTransactions args fun number query =>
        (h₁.lists _ _).2 (hids number query)).bind fun n s₂ _ h₂ => Triple.pure (.refl s₂) h₂)
    refine hsynced.bind fun r₂ s₂ _ h₂ => ?_
    refine Guarded.mono (fun x s₃ h₃ => ⟨h₃.1.toLater, fun r hr hclean => ?_⟩)
      (triple_rest args r₂ s₂)
    exact (h₂ (h₃.2 r hr hclean)).of_later args h₁ h₃.1
  exact (Guarded.of_runs hsync hrun).2 result rfl hclean

end Sync

/-! ## A deposit listed while another is read -/

namespace TwoDeposits

/-- A codec that reads one number. -/
def codec : ClientCodec :=
  { ClientCodec.plain "" with
    decimal := fun text =>
      if text = "0.00012345" then some (.finite (12345 / 100000000)) else none }

/-- A deposit, as the broker lists it. -/
def deposit (id : String) : Json := .obj [("id", .str id), ("account-number", .str "5WT00001"),
  ("transaction-type", .str "Money Movement"), ("value", .str "0.00012345")]

def args : SyncArgs where
  account := "main"
  accounts := ⟨Dict.empty.set "main" "5WT00001"⟩
  resolver := noSymbols

/-- An empty ledger, a token that has been revoked, and a broker that lists a deposit. -/
def start : PullState where
  ledger := .empty 0
  snapshots := .empty _
  session := {
    accessToken := .str "old"
    tokenExpiresAt := some 10
    items := fun path _ => if path = transactionsPath "5WT00001" then [deposit "7"] else [] }
  today := 0

/-- Another deposit is listed ahead of the first. -/
def publish : List Json → List Json
  | [item] =>
    if (BrokerJson.requiredId codec item "id").toOption = some "7" then [deposit "8", item]
    else [item]
  | l => l

theorem publishes_publish (l : List Json) : Publishes codec l (publish l) := by
  unfold publish
  split
  · rename_i item
    split
    · rename_i hid
      have hitem : BrokerJson.requiredId codec item "id" = .ok "7" := by
        cases h : BrokerJson.requiredId codec item "id" with
        | error e =>
          rw [h] at hid
          cases hid
        | ok id =>
          rw [h] at hid
          exact congrArg Except.ok (Option.some.inj hid)
      have hnew : BrokerJson.requiredId codec (deposit "8") "id" = .ok "8" := rfl
      refine ⟨.of_sublist (List.sublist_cons_self _ _), fun hids => ⟨?_, ?_⟩⟩
      · simp [hitem, hnew]
      · simp only [List.forall_mem_cons, hitem, hnew]
        exact ⟨fun id h => Except.ok.inj h ▸ by decide, fun id h => Except.ok.inj h ▸ by decide,
          by simp⟩
    · exact Std.Refl.refl _
  · exact Std.Refl.refl _

theorem listedIds_start (number : String) (query : Json.Object) :
    ListedIds codec (start.session.items (transactionsPath number) query) := by
  show ListedIds _
    (if transactionsPath number = transactionsPath "5WT00001" then [deposit "7"] else [])
  split
  · refine ⟨fun x hx y hy _ _ _ => ?_, fun x hx id hid => ?_⟩
    · rw [List.mem_singleton.mp hx, List.mem_singleton.mp hy]
    · rw [List.mem_singleton.mp hx] at hid
      obtain rfl : "7" = id := Except.ok.inj hid
      decide
  · refine ⟨fun x hx => ?_, fun x hx => ?_⟩
    · cases hx
    · cases hx

/-- A sync to a SQLite ledger. -/
def synced : Except String SyncAllResult × PullState :=
  run (PullState.serve publish TwoPages.refuses (.sql .sqlite id) codec ⟨"", "", ""⟩ 2)
    (syncAll args) start

/-- The deposit is stored, to the micro-unit. -/
theorem is_synced : ∃ result, synced.1 = .ok result ∧
    UpToDate .sqlite codec args start synced.2 := by
  have hclean : (synced.1.toOption.map fun r => r.errors) = some [] := by decide +kernel
  obtain ⟨result, hresult, herrors⟩ := Option.map_eq_some_iff.mp hclean
  have hok : synced.1 = .ok result := by
    cases hs : synced.1 with
    | error e =>
      rw [hs] at hresult
      cases hresult
    | ok r =>
      rw [hs] at hresult
      rw [Option.some.inj hresult]
  have hrun : Runs (pull (Publishes codec) (.sql .sqlite id) codec ⟨"", "", ""⟩) (syncAll args)
      start synced.1 synced.2 :=
    PullState.runs_serve publishes_publish (.sql .sqlite id) codec ⟨"", "", ""⟩ 2 (syncAll args)
      start
  rw [hok] at hrun
  exact ⟨result, hok, complete_of_clean args listedIds_start hrun herrors⟩

end TwoDeposits

end TtLedger
