import TtLedger.Ingest.Coverage
import TtLedger.Ingest.LapseLaws

/-!
# Two passes over one account

Two passes over one account may cross at every store call. Whatever the interleaving, a transaction
that was to be routed ends in exactly one group, and in one that is stored, as soon as one of the
passes ends without an error (`oneGroup_of_interleaved`).

The argument is by rely and guarantee. Each call that a pass issues, given what it has seen
(`Known`), advances the store (`Advances`): groups stay, orders keep their identifiers and accounts,
and a transaction gets its order or a stored group and changes no further. So a transaction that
waits to be routed waits until the pass has read it (`Waits`), and the pass attaches what it has
read (`guarded_reconcile`).

The passes promise no more than this. Both may open a group for the same rows, and one of the groups
then stays without members; an exit does not refresh the columns derived from a group's members
(`not_overlapSafe`).
-/

namespace TtLedger

open LedgerStore Prog

/-! ## What a call of a pass does to the store -/

/-- The transaction has a stored group. -/
def Placed (s : InMemoryStore) (id : String) : Prop :=
  ∃ r pk, s.txn id = some r ∧ r.tradeGroupId = some pk ∧ (s.getTradeGroupById pk).isSome = true

/-- Groups stay, orders are the same, and a transaction is given a stored group or no more than
its order. -/
structure Advances (s s' : InMemoryStore) : Prop where
  keeps : ∀ pk, (s.getTradeGroupById pk).isSome = true → (s'.getTradeGroupById pk).isSome = true
  orders : SameOrders s s'
  txns : ∀ id r, s.txn id = some r → Placed s' id ∨
    ∃ orderId, s'.txn id = some { r with orderId } ∧
      (r.orderId.isSome = true → orderId.isSome = true)

/-- What has been seen is so: the groups are stored, the orders are there under their accounts. -/
structure Known (s : InMemoryStore) (g : Progress) : Prop where
  groups : ∀ pk ∈ g.groups, (s.getTradeGroupById pk).isSome = true
  orders : ∀ order ∈ g.orders, ∃ k order', order.ttOrderId = some k ∧ s.getOrder k = some order' ∧
    order'.account = order.account

namespace Advances

variable {s s' : InMemoryStore}

/-- A step that leaves groups, orders and transactions alone. -/
theorem of_eq (hg : s'.tradeGroups = s.tradeGroups) (ho : s'.orders = s.orders)
    (ht : s'.transactions = s.transactions) : Advances s s' := by
  refine ⟨fun pk hpk => ?_, .of_eq ho, fun id r hr => Or.inr ⟨r.orderId, ?_, fun h => h⟩⟩
  · rw [InMemoryStore.getTradeGroupById_congr hg]
    exact hpk
  · rw [InMemoryStore.txn, ht]
    exact hr

/-- A step that changes the orders only. -/
theorem of_orders (ho : SameOrders s s') (hg : s'.tradeGroups = s.tradeGroups)
    (ht : s'.transactions = s.transactions) : Advances s s' := by
  refine ⟨fun pk hpk => ?_, ho, fun id r hr => Or.inr ⟨r.orderId, ?_, fun h => h⟩⟩
  · rw [InMemoryStore.getTradeGroupById_congr hg]
    exact hpk
  · rw [InMemoryStore.txn, ht]
    exact hr

theorem placed (h : Advances s s') {id : String} (hp : Placed s id) : Placed s' id := by
  obtain ⟨r, pk, hr, hpk, hstored⟩ := hp
  rcases h.txns id r hr with hp | ⟨orderId, hr', -⟩
  · exact hp
  · exact ⟨_, pk, hr', hpk, h.keeps pk hstored⟩

theorem known (h : Advances s s') {g : Progress} (hk : Known s g) : Known s' g := by
  refine ⟨fun pk hpk => h.keeps pk (hk.groups pk hpk), fun order horder => ?_⟩
  obtain ⟨k, order', hkey, hget, hacc⟩ := hk.orders order horder
  have hsame := (h.orders k).2
  rw [InMemoryStore.getOrder] at hget
  rw [hget, Option.map_some] at hsame
  obtain ⟨order'', hget', hacc'⟩ := Option.map_eq_some_iff.mp hsame
  exact ⟨k, order'', hkey, hget', hacc'.trans hacc⟩

theorem trans {s'' : InMemoryStore} (h : Advances s s') (h' : Advances s' s'') :
    Advances s s'' := by
  refine ⟨fun pk hpk => h'.keeps pk (h.keeps pk hpk), h.orders.trans h'.orders, fun id r hr => ?_⟩
  rcases h.txns id r hr with hp | ⟨orderId, hr', hmono⟩
  · exact Or.inl (h'.placed hp)
  · rcases h'.txns id _ hr' with hp | ⟨orderId', hr'', hmono'⟩
    · exact Or.inl hp
    · exact Or.inr ⟨orderId', hr'', fun hsome => hmono' (hmono hsome)⟩

end Advances

/-! ## The calls one by one -/

section Calls

variable (s : InMemoryStore)

/-- A settlement row is written into a group that is stored. -/
theorem advances_upsertTransaction (r : TxnRow) {pk : ℕ} (hpk : r.tradeGroupId = some pk)
    (hstored : (s.getTradeGroupById pk).isSome = true) : Advances s (s.upsertTransaction r) := by
  refine ⟨fun _ h => h, .of_eq rfl, fun id t ht => ?_⟩
  by_cases hid : id = r.ttTransactionId
  · refine Or.inl ⟨written s r, pk, ?_, ?_, hstored⟩
    · rw [txn_upsertTransaction, if_pos hid]
    · rw [written_group s (by rw [hpk]; rfl), hpk]
  · refine Or.inr ⟨t.orderId, ?_, fun h => h⟩
    rw [txn_upsertTransaction, if_neg hid, ht]

theorem advances_upsertTransactions (rows : List TxnRow)
    (h : ∀ r ∈ rows, ∃ pk, r.tradeGroupId = some pk ∧ (s.getTradeGroupById pk).isSome = true) :
    Advances s (s.upsertTransactions rows) := by
  induction rows generalizing s with
  | nil => exact .of_eq rfl rfl rfl
  | cons r rows ih =>
    obtain ⟨pk, hpk, hstored⟩ := h r (by simp)
    have hone := advances_upsertTransaction s r hpk hstored
    refine hone.trans (ih (s.upsertTransaction r) fun r' hr' => ?_)
    obtain ⟨pk', hpk', hstored'⟩ := h r' (.tail _ hr')
    exact ⟨pk', hpk', hone.keeps pk' hstored'⟩

theorem txn_linkTransactions (account id : String) :
    (s.linkTransactionsToOrders account).2.txn id = (s.txn id).map (linkRow s account) :=
  Table.getByKey_modify _ _ _ _

theorem advances_linkTransactions (account : String) :
    Advances s (s.linkTransactionsToOrders account).2 := by
  refine ⟨fun _ h => h, .of_eq rfl, fun id r hr => Or.inr ?_⟩
  rw [txn_linkTransactions, hr, Option.map_some, linkRow]
  split
  · rename_i hlinks
    refine ⟨s.orderOf account r, rfl, fun _ => ?_⟩
    simp only [InMemoryStore.linksTransaction, Bool.and_eq_true] at hlinks
    exact hlinks.2
  · exact ⟨r.orderId, rfl, fun h => h⟩

theorem advances_linkOrders (account : String) :
    Advances s (s.linkOrdersToGroups account).2 := by
  refine .of_orders (fun k => ⟨Table.idOf_modify _ _ _ _, ?_⟩) rfl rfl
  rw [InMemoryStore.linkOrdersToGroups, Table.getByKey_modify, Option.map_map]
  rfl

/-- Writing a group keeps the groups stored and the one written is. -/
theorem isSome_getTradeGroupById_upsert (tg : TradeGroupRow) {pk : ℕ}
    (h : (s.getTradeGroupById pk).isSome = true) :
    ((s.upsertTradeGroup tg).2.getTradeGroupById pk).isSome = true := by
  show ((s.tradeGroups.upsert tg).2.get pk).isSome = true
  rw [Table.get_upsert]
  split
  · rfl
  · exact h

theorem advances_upsertTradeGroup (tg : TradeGroupRow) :
    Advances s (s.upsertTradeGroup tg).2 :=
  ⟨fun _ h => isSome_getTradeGroupById_upsert s tg h, .of_eq rfl,
    fun _ r hr => Or.inr ⟨r.orderId, hr, fun h => h⟩⟩

/-- Attaching places the transactions attached. -/
theorem placed_attached {ids : List String} {pk : ℕ} {id : String} {r : TxnRow}
    (hpk : (s.getTradeGroupById pk).isSome = true) (hid : id ∈ ids) (hr : s.txn id = some r) :
    Placed (s.attached ids pk) id := by
  refine ⟨InMemoryStore.attachRow ids pk r, pk, ?_, ?_, hpk⟩
  · rw [InMemoryStore.txn_attached, hr, Option.map_some]
  · rw [InMemoryStore.attachRow_group, s.txn_key hr, if_pos hid]

theorem advances_attached (ids : List String) {pk : ℕ}
    (hpk : (s.getTradeGroupById pk).isSome = true) : Advances s (s.attached ids pk) := by
  refine ⟨fun _ h => h, .of_eq rfl, fun id r hr => ?_⟩
  by_cases hid : id ∈ ids
  · exact Or.inl (placed_attached s hpk hid hr)
  · have hsame : InMemoryStore.attachRow ids pk r = r := if_neg (by rwa [s.txn_key hr])
    refine Or.inr ⟨r.orderId, ?_, fun h => h⟩
    rw [InMemoryStore.txn_attached, hr, Option.map_some, hsame]

/-- **A call that a pass may issue advances the store.** -/
theorem advances_step {account : String} {g : Progress} {op : LedgerOp}
    (hallows : g.Allows account op) (hk : Known s g) : Advances s (s.step op).2 := by
  cases op with
  | upsertOrders rows =>
    obtain ⟨orders, hframe⟩ := s.upsertOrders_frame rows
    refine .of_orders (sameOrders_upsertOrders rows s fun row hrow => ?_) ?_ ?_
    · obtain ⟨order, horder, hkey, hacc⟩ := hallows row hrow
      obtain ⟨k, order', hkey', hget, hacc'⟩ := hk.orders order horder
      exact ⟨k, order', hget, hkey.trans hkey', hacc.trans hacc'.symm⟩
    · show (s.upsertOrders rows).2.tradeGroups = s.tradeGroups
      rw [hframe]
    · show (s.upsertOrders rows).2.transactions = s.transactions
      rw [hframe]
  | upsertTransactions rows =>
    refine advances_upsertTransactions s rows fun r hr => ?_
    obtain ⟨pk, hpk, hgroup⟩ := hallows r hr
    exact ⟨pk, hgroup, hk.groups pk hpk⟩
  | linkTransactionsToOrders account' => exact advances_linkTransactions s account'
  | linkOrdersToGroups account' => exact advances_linkOrders s account'
  | upsertTradeGroup tg => exact advances_upsertTradeGroup s tg
  | attachTransactionsToTradeGroup ids pk => exact advances_attached s ids (hk.groups pk hallows)
  | moveTransactionsToGroup ids pk => exact hallows.elim
  | linkTransactionsToPositions links => exact hallows.elim
  | _ => exact .of_eq rfl rfl rfl

/-- What a reply adds to what has been seen is so. -/
theorem known_after {account : String} {g : Progress} {op : LedgerOp} (since : Option Date)
    (hallows : g.Allows account op) (hk : Known s g) :
    Known (s.step op).2 (g.after since op (.ok (s.step op).1)) := by
  have hk' := (advances_step s hallows hk).known hk
  have hinsert : ∀ pk, ((s.step op).2.getTradeGroupById pk).isSome = true →
      Known (s.step op).2 { g with groups := insert pk g.groups } := by
    intro pk hpk
    refine ⟨fun pk' hpk' => ?_, hk'.orders⟩
    rcases hpk' with rfl | hpk'
    · exact hpk
    · exact hk'.groups pk' hpk'
  cases op with
  | accountActivity f =>
    show Known s (if f.start = since then _ else g)
    split
    · exact ⟨hk.groups, hk.orders⟩
    · exact hk
  | linkTransactionsToOrders account' => exact ⟨hk'.groups, hk'.orders⟩
  | attachTransactionsToTradeGroup ids pk => exact ⟨hk'.groups, hk'.orders⟩
  | upsertTradeGroup tg =>
    refine hinsert _ ?_
    show ((s.tradeGroups.upsert tg).2.get (s.tradeGroups.upsert tg).1).isSome = true
    rw [Table.get_upsert_self]
    rfl
  | getTradeGroupById pk =>
    simp only [InMemoryStore.step]
    cases htg : s.getTradeGroupById pk with
    | none => exact hk
    | some tg => exact hinsert pk (by rw [InMemoryStore.step, htg]; rfl)
  | getTradeGroupId groupId =>
    simp only [InMemoryStore.step]
    cases hid : s.getTradeGroupId groupId with
    | none => exact hk
    | some pk =>
      refine hinsert pk ?_
      show (s.tradeGroups.get pk).isSome = true
      rw [Table.get_of_idOf hid, ← Table.isSome_idOf]
      exact (congrArg Option.isSome hid)
  | getOrder k =>
    simp only [InMemoryStore.step]
    cases hget : s.getOrder k with
    | none => exact hk
    | some order =>
      refine ⟨hk.groups, fun order' horder' => ?_⟩
      rcases horder' with rfl | horder'
      · exact ⟨k, order', (Table.getByKey_eq_some.mp hget).2, hget, rfl⟩
      · exact hk.orders order' horder'
  | _ => exact hk'

end Calls

/-! ## Waiting to be routed -/

section Waiting

variable (s₀ : InMemoryStore) (account : String)

/-- The row `r`, linked to its order, is as it was; it is pending, and has its order unless it has
not been linked. -/
def Waits (s : InMemoryStore) (g : Progress) (r : TxnRow) : Prop :=
  ∃ orderId, s.txn r.ttTransactionId = some { r with orderId } ∧ r.ttTransactionId ∈ g.pending ∧
    (orderId.isSome = true ∨ r.orderId = none ∨
      (s₀.orderOf account r).isSome = true ∧ g.linked = false)

/-- What holds of a party all along: what it has seen is so, and each of the transactions it is to
route is placed or waits. -/
structure Tracks (args : ReconcileArgs) (s : InMemoryStore) (g : Progress) : Prop where
  known : Known s g
  covers : ∀ a ∈ candidatesOf (linked s₀ account) account args,
    Placed s a.ttTransactionId ∨ Waits s₀ account s g a.toTxnRow

variable {s₀ account} {args : ReconcileArgs} {s s' : InMemoryStore} {g g' : Progress}

/-- A candidate after linking is a linked transaction of the account. -/
theorem candidate_eq {a : ActivityRow} (h : a ∈ candidatesOf (linked s₀ account) account args) :
    ∃ r, s₀.txn a.ttTransactionId = some r ∧ a.toTxnRow = linkRow s₀ account r ∧
      a.account = account ∧ inRange a.executedAt args.since none = true ∧ isCandidate a = true := by
  obtain ⟨hmem, hcandidate⟩ := List.mem_filter.mp h
  obtain ⟨row, hrow, rfl⟩ := List.mem_map.mp hmem
  obtain ⟨hrow, hfilter⟩ := List.mem_filter.mp hrow
  rw [values_linked] at hrow
  obtain ⟨r, hr, rfl⟩ := List.mem_map.mp hrow
  have hfilter' : r.account = account ∧ inRange r.executedAt args.since none = true := by
    simpa using hfilter
  refine ⟨r, ?_, rfl, ?_, ?_, hcandidate⟩
  · show s₀.txn (linkRow s₀ account r).ttTransactionId = some r
    rw [linkRow_id]
    exact s₀.mem_values_iff_txn.mp hr
  · show (linkRow s₀ account r).account = account
    rw [linkRow_account]
    exact hfilter'.1
  · show inRange (linkRow s₀ account r).executedAt args.since none = true
    rw [linkRow_executedAt]
    exact hfilter'.2

/-- At the start every candidate waits. -/
theorem tracks_start : Tracks s₀ account args s₀ {} := by
  refine ⟨⟨fun pk hpk => hpk.elim, fun order horder => horder.elim⟩, fun a ha => Or.inr ?_⟩
  obtain ⟨r, hr, hlink, -⟩ := candidate_eq ha
  have hself : s₀.txn r.ttTransactionId = some r := by rwa [s₀.txn_key hr]
  rw [hlink, linkRow]
  split
  · rename_i hlinks
    simp only [InMemoryStore.linksTransaction, Bool.and_eq_true] at hlinks
    exact ⟨r.orderId, hself, trivial, Or.inr (Or.inr ⟨hlinks.2, rfl⟩)⟩
  · refine ⟨r.orderId, hself, trivial, ?_⟩
    cases r.orderId with
    | none => exact Or.inr (Or.inl rfl)
    | some k => exact Or.inl rfl

/-- A row that waits goes on waiting, or is placed, while it is pending and not linked further. -/
theorem Waits.advance {r : TxnRow} (h : Waits s₀ account s g r) (hadv : Advances s s')
    (hpending : r.ttTransactionId ∈ g'.pending) (hlinked : g'.linked = g.linked) :
    Placed s' r.ttTransactionId ∨ Waits s₀ account s' g' r := by
  obtain ⟨orderId, hr, -, horder⟩ := h
  rcases hadv.txns _ _ hr with hp | ⟨orderId', hr', hmono⟩
  · exact Or.inl hp
  · refine Or.inr ⟨orderId', hr', hpending, ?_⟩
    rw [hlinked]
    exact horder.imp hmono id

/-- The other party's call. -/
theorem Tracks.other (h : Tracks s₀ account args s g) (hadv : Advances s s') :
    Tracks s₀ account args s' g := by
  refine ⟨hadv.known h.known, fun a ha => ?_⟩
  rcases h.covers a ha with hp | hw
  · exact Or.inl (hadv.placed hp)
  · exact hw.advance hadv hw.choose_spec.2.1 rfl

/-- The party links the transactions of the account: one that waits has its order then. -/
theorem Waits.link {r : TxnRow} (h : Waits s₀ account s g r) (hsame : SameOrders s₀ s)
    (hacc : r.account = account) :
    Waits s₀ account (s.linkTransactionsToOrders account).2 { g with linked := true } r := by
  obtain ⟨orderId, hr, hpending, horder⟩ := h
  obtain ⟨orderId', hrow, hmono⟩ : ∃ orderId',
      linkRow s account { r with orderId } = { r with orderId := orderId' } ∧
        (orderId.isSome = true ∨ (s₀.orderOf account r).isSome = true →
          orderId'.isSome = true) := by
    have horderOf : s.orderOf account { r with orderId } = s₀.orderOf account r :=
      hsame.orderOf_eq account r
    unfold linkRow
    split
    · rename_i hlinks
      simp only [InMemoryStore.linksTransaction, Bool.and_eq_true] at hlinks
      exact ⟨_, rfl, fun _ => hlinks.2⟩
    · rename_i hlinks
      refine ⟨orderId, rfl, fun hsome => ?_⟩
      rcases hsome with hsome | hsome
      · exact hsome
      · -- an order there is and the row has none would be linked
        cases orderId with
        | some k => rfl
        | none =>
          refine absurd ?_ hlinks
          rw [InMemoryStore.linksTransaction, horderOf, hsome]
          simp [hacc]
  refine ⟨orderId', ?_, hpending, ?_⟩
  · rw [txn_linkTransactions, hr, Option.map_some, hrow]
  · rcases horder with hsome | hnone | ⟨hsome, -⟩
    · exact Or.inl (hmono (Or.inl hsome))
    · exact Or.inr (Or.inl hnone)
    · exact Or.inl (hmono (Or.inr hsome))

/-- The party reads the activity: a row that waits is among the candidates it reads. -/
theorem Waits.read {a : ActivityRow} (h : Waits s₀ account s g a.toTxnRow)
    (ha : a ∈ candidatesOf (linked s₀ account) account args) (hlinked : g.linked = true) :
    Waits s₀ account s
      { g with
        pending := Progress.candidates
          (s.accountActivity { account := some account, start := args.since }) }
      a.toTxnRow := by
  obtain ⟨orderId, hr, hpending, horder⟩ := h
  refine ⟨orderId, hr, ?_, horder⟩
  obtain ⟨-, -, -, hacc, hrange, hcandidate⟩ := candidate_eq ha
  refine ⟨s.activityRow { a.toTxnRow with orderId }, List.mem_map_of_mem (List.mem_filter.mpr
    ⟨s.mem_values_iff_txn.mpr hr, ?_⟩), ?_, rfl⟩
  · simp [hacc, hrange]
  · -- it is without a group, and has its order when that is what makes it a candidate
    have horder' : orderId.isSome = true ∨ a.orderId = none := by
      rcases horder with hsome | hnone | ⟨-, hfalse⟩
      · exact Or.inl hsome
      · exact Or.inr hnone
      · rw [hlinked] at hfalse
        cases hfalse
    simp only [isCandidate, Bool.and_eq_true, Bool.or_eq_true] at hcandidate ⊢
    refine ⟨hcandidate.1, ?_⟩
    rcases hcandidate.2 with (hsome | hclose) | hdelivery
    · rcases horder' with horder' | hnone
      · exact Or.inl (Or.inl horder')
      · rw [hnone] at hsome
        cases hsome
    · exact Or.inl (Or.inr hclose)
    · exact Or.inr hdelivery

/-- The party's own call. -/
theorem Tracks.own (h : Tracks s₀ account args s g) (hsame : SameOrders s₀ s) {op : LedgerOp}
    (hallows : g.Allows account op) :
    Tracks s₀ account args (s.step op).2 (g.after args.since op (.ok (s.step op).1)) := by
  have hadv := advances_step s hallows h.known
  refine ⟨known_after s args.since hallows h.known, fun a ha => ?_⟩
  rcases h.covers a ha with hp | hw
  · exact Or.inl (hadv.placed hp)
  · have hpending := hw.choose_spec.2.1
    obtain ⟨-, -, -, hacc, -⟩ := candidate_eq ha
    cases op with
    | linkTransactionsToOrders account' =>
      cases hallows
      exact Or.inr (hw.link hsame hacc)
    | accountActivity f =>
      obtain ⟨hlinked, start, rfl⟩ := hallows
      show Placed s _ ∨ Waits s₀ account s (if start = args.since then _ else g) _
      split
      · rename_i hstart
        subst hstart
        exact Or.inr (hw.read ha hlinked)
      · exact Or.inr hw
    | attachTransactionsToTradeGroup ids pk =>
      by_cases hid : a.ttTransactionId ∈ ids
      · exact Or.inl (placed_attached s (h.known.groups pk hallows) hid hw.choose_spec.1)
      · exact hw.advance hadv ⟨hpending, hid⟩ rfl
    | getTradeGroupById pk =>
      simp only [InMemoryStore.step]
      cases s.getTradeGroupById pk <;> exact Or.inr hw
    | getTradeGroupId groupId =>
      simp only [InMemoryStore.step]
      cases s.getTradeGroupId groupId <;> exact Or.inr hw
    | getOrder k =>
      simp only [InMemoryStore.step]
      cases s.getOrder k <;> exact Or.inr hw
    | _ => exact hw.advance hadv hpending rfl

end Waiting

/-! ## At quiescence -/

/-- The transaction is a member of exactly one group, and that group is stored. -/
def OneGroup (s : InMemoryStore) (id : String) : Prop :=
  ∃ pk, (s.getTradeGroupById pk).isSome = true ∧
    ∀ pk', id ∈ (s.members pk').map TxnRow.ttTransactionId ↔ pk' = pk

theorem Placed.oneGroup {s : InMemoryStore} {id : String} (h : Placed s id) : OneGroup s id := by
  obtain ⟨r, pk, hr, hpk, hstored⟩ := h
  refine ⟨pk, hstored, fun pk' => ⟨fun hmem => ?_, fun heq => ?_⟩⟩
  · obtain ⟨r', hr', rfl⟩ := List.mem_map.mp hmem
    obtain ⟨hr', hpk'⟩ := s.mem_members.mp hr'
    rw [hr] at hr'
    obtain rfl := Option.some.inj hr'
    exact Option.some.inj (hpk'.symm.trans hpk)
  · subst heq
    refine List.mem_map.mpr ⟨r, s.mem_members.mpr ⟨?_, hpk⟩, s.txn_key hr⟩
    rwa [s.txn_key hr]

/-- The pass ended, and without an error. -/
def EndsWell (x : Except String SyncResult) : Prop := ∃ r, x = .ok r ∧ r.errors = []

/-- What holds all along of two passes: the store has advanced from its start, and each party is
followed. -/
def Beside (s₀ : InMemoryStore) (account : String) (args args' : ReconcileArgs)
    (g d : Progress) (s : InMemoryStore) : Prop :=
  Advances s₀ s ∧ Tracks s₀ account args s g ∧ Tracks s₀ account args' s d

theorem Beside.symm {s₀ s : InMemoryStore} {account : String} {args args' : ReconcileArgs}
    {g d : Progress} (h : Beside s₀ account args args' g d s) :
    Beside s₀ account args' args d g s := ⟨h.1, h.2.2, h.2.1⟩

/-- One call, which may fail, of either party. -/
theorem Beside.step {s₀ s s' : InMemoryStore} {account : String} {args args' : ReconcileArgs}
    {g d : Progress} {op : LedgerOp} {r : Except String op.Reply}
    (h : Beside s₀ account args args' g d s) (hallows : g.Allows account op)
    (hop : memory.faulty op s r s') :
    Beside s₀ account args args' (g.after args.since op r) d s' := by
  rcases hop with hop | ⟨⟨e, rfl⟩, rfl⟩
  · obtain ⟨rfl, rfl⟩ := Prod.mk.inj hop
    have hadv := advances_step s hallows h.2.1.known
    exact ⟨h.1.trans hadv, h.2.1.own h.1.orders hallows, h.2.2.other hadv⟩
  · rw [Progress.after_error]
    exact h

/-- **Two passes over one account, in any interleaving and whatever fails**: what a pass that ends
without an error was to route ends in exactly one group, and so does what was in a group. -/
theorem oneGroup_of_interleaved {s s' : InMemoryStore} {account : String}
    {args args' : ReconcileArgs} {tr : List (Party × LedgerOp)} {x y : Except String SyncResult}
    (hdry : args.dryRun = false) (hdry' : args'.dryRun = false)
    (hrun : Interleaved memory.faulty (reconcile (some account) args)
      (reconcile (some account) args') s tr x y s') :
    (EndsWell x → ∀ a ∈ candidatesOf (linked s account) account args,
        OneGroup s' a.ttTransactionId) ∧
      (EndsWell y → ∀ a ∈ candidatesOf (linked s account) account args',
        OneGroup s' a.ttTransactionId) ∧
      ∀ id, Placed s id → OneGroup s' id := by
  have hstart : Beside s account args args' {} {} s :=
    ⟨.of_eq rfl rfl rfl, tracks_start, tracks_start⟩
  obtain ⟨g, d, hg, hd, hadv, hfirst, hsecond⟩ := hrun.guarded
    (J := Beside s account args args') (fun g d s op r s' h hallows hop => h.step hallows hop)
    (fun g d s op r s' h hallows hop => (h.symm.step hallows hop).symm)
    (guarded_reconcile hdry) (guarded_reconcile hdry') hstart
  -- nothing is pending for a pass that ended well
  have hdone : ∀ {args : ReconcileArgs} {g : Progress}, Tracks s account args s' g →
      g.pending = ∅ → ∀ a ∈ candidatesOf (linked s account) account args,
      OneGroup s' a.ttTransactionId := by
    intro args g h hempty a ha
    rcases h.covers a ha with hp | ⟨_, -, hpending, -⟩
    · exact hp.oneGroup
    · rw [hempty] at hpending
      exact hpending.elim
  refine ⟨?_, ?_, fun id hp => (hadv.placed hp).oneGroup⟩
  · rintro ⟨r, hr, hnone⟩
    exact hdone hfirst (hg r hr hnone)
  · rintro ⟨r, hr, hnone⟩
    exact hdone hsecond (hd r hr hnone)

/-! ## What is not promised -/

/-- No group but those there before is without members. -/
def noEmptyGroup (s s' : InMemoryStore) : Bool :=
  s'.tradeGroups.rows.all fun p =>
    (s.getTradeGroupById p.1).isSome || !(s'.members p.1).isEmpty

/-- The columns an open group takes from its members are those of its members. -/
def headersMatch (s : InMemoryStore) : Bool :=
  s.tradeGroups.rows.all fun p =>
    let fields := fieldsOf s.getSecurity (s.getGroupTransactions p.1)
    p.2.status ≠ .open ||
      (p.2.totalPremium = some fields.totalPremium && p.2.totalFees = some fields.totalFees &&
        p.2.quantity = fields.quantity)

/-- A ledger with one trade to be routed. -/
def oneTrade : InMemoryStore :=
  .seeded [{ securityId := "X", productType := "E" }] [.placed "A" "o1"]
    [.fill "A" "t1" "o1" "Buy to Open" "X" 1 0]

/-- A ledger with an open group of two contracts, one of which is sold. -/
def partlySold : InMemoryStore :=
  let s := InMemoryStore.seeded [{ securityId := "X", productType := "E" }]
    [.placed "A" "o1", .placed "A" "o2"]
    [{ TxnRow.fill "A" "t1" "o1" "Buy to Open" "X" 2 0 with
        netValue := some 100, tradeGroupId := some 1 },
      { TxnRow.fill "A" "t2" "o2" "Sell to Close" "X" 1 day with netValue := some 60 }]
  (s.upsertTradeGroup
    { groupId := "g", account := "A", origin := .broker, totalPremium := some 100,
      totalFees := some 0, quantity := some 2 }).2

/-- A ledger with an open group of a contract that has expired, and one trade to be routed. -/
def unpriced : InMemoryStore :=
  let s := InMemoryStore.seeded
    [{ securityId := "O", productType := "OS", expiry := some 0, strike := some 10,
       optionType := some "C" }]
    [.placed "A" "o1", .placed "A" "o2"]
    [{ TxnRow.fill "A" "t1" "o1" "Buy to Open" "O" 1 0 with tradeGroupId := some 1 },
      .fill "A" "t2" "o2" "Buy to Open" "X" 1 (9 * day)]
  (s.upsertTradeGroup { groupId := "g", account := "A", origin := .broker }).2

/-- Two passes over an account, by a schedule. -/
def passRace (args : ReconcileArgs) (sched : List Party) (s : InMemoryStore) :
    List (Party × LedgerOp) × Except String SyncResult × Except String SyncResult × InMemoryStore :=
  interleave memory sched (reconcile (some "A") args) (reconcile (some "A") args) s

/-- Two passes over the account, in some interleaving, lead from one store to the other. -/
def Races (s s' : InMemoryStore) : Prop :=
  ∃ (args : ReconcileArgs) (tr : List (Party × LedgerOp)) (x y : Except String SyncResult),
    args.dryRun = false ∧ Interleaved memory.meaning (reconcile (some "A") args)
      (reconcile (some "A") args) s tr x y s'

theorem races_passRace (args : ReconcileArgs) (hdry : args.dryRun = false) (sched : List Party)
    (s : InMemoryStore) : Races s (passRace args sched s).2.2.2 :=
  ⟨args, _, _, _, hdry, interleaved_interleave memory sched _ _ s⟩

/-- The schedule of the race: the second pass runs while the first is about to open its group. -/
def crossing : List Party := List.replicate 7 .first ++ List.replicate 30 .second

/-- A settlement price that cannot be read. -/
def priceless : ReconcileArgs where
  settlementPrice := some fun _ _ => .error "no price"

/-- An exit leaves the columns of its group as they were, a group that both passes open for the
same rows stays without members in one of them, and passes that fail leave their candidates. -/
theorem not_overlapSafe :
    (¬ ∀ s s', Races s s' → headersMatch s = true → headersMatch s' = true) ∧
      (¬ ∀ s s', Races s s' → noEmptyGroup s s' = true) ∧
      ¬ ∀ s s', Races s s' → ∀ a ∈ candidatesOf (linked s "A") "A" {},
        OneGroup s' a.ttTransactionId := by
  refine ⟨fun h => ?_, fun h => ?_, fun h => ?_⟩
  · have hbefore : headersMatch partlySold = true := by decide +kernel
    have hafter : headersMatch (passRace {} [] partlySold).2.2.2 = false := by decide +kernel
    have hall := h _ _ (races_passRace {} rfl [] partlySold) hbefore
    rw [hafter] at hall
    cases hall
  · have hempty : noEmptyGroup oneTrade (passRace {} crossing oneTrade).2.2.2 = false := by
      decide +kernel
    have hall := h _ _ (races_passRace {} rfl crossing oneTrade)
    rw [hempty] at hall
    cases hall
  · have hcandidate : "t2" ∈ idsOf (candidatesOf (linked unpriced "A") "A" {}) := by
      decide +kernel
    have hnone : ((passRace priceless [] unpriced).2.2.2.txn "t2").bind TxnRow.tradeGroupId =
        none := by decide +kernel
    obtain ⟨a, ha, hid⟩ := List.mem_map.mp hcandidate
    obtain ⟨pk, -, hone⟩ := h _ _ (races_passRace priceless rfl [] unpriced) a ha
    obtain ⟨r, hr, hrid⟩ := List.mem_map.mp ((hone pk).mpr rfl)
    obtain ⟨hr, hpk⟩ := (InMemoryStore.mem_members _).mp hr
    rw [hrid.trans hid] at hr
    rw [hr, Option.bind_some, hpk] at hnone
    cases hnone

theorem endsWell_crossing : EndsWell (passRace {} crossing oneTrade).2.1 := by
  have hmap : (passRace {} crossing oneTrade).2.1.toOption.map SyncResult.errors = some [] := by
    decide +kernel
  cases hx : (passRace {} crossing oneTrade).2.1 with
  | ok r =>
    rw [hx] at hmap
    exact ⟨r, rfl, Option.some.inj hmap⟩
  | error e =>
    rw [hx] at hmap
    cases hmap

/-- The one trade, although both passes open a group for it. -/
theorem oneGroup_oneTrade : OneGroup (passRace {} crossing oneTrade).2.2.2 "t1" := by
  have hcandidate : "t1" ∈ idsOf (candidatesOf (linked oneTrade "A") "A" {}) := by decide +kernel
  obtain ⟨a, ha, hid⟩ := List.mem_map.mp hcandidate
  rw [← hid]
  exact (oneGroup_of_interleaved rfl rfl
    (interleaved_interleave memory _ _ _ oneTrade).faulty).1 endsWell_crossing a ha

end TtLedger
