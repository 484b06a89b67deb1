import TtLedger.Ingest.StreamApply

/-!
# Redelivered stream messages

The stream delivers at least once: an entry left pending is delivered again, possibly after newer
entries of the same order or position. The applies overwrite without a version check, so each
column of a row ends as what the last delivered message to set it set. `sameRows_iff` is what
follows for a redelivery: it leaves the rows of the stream exactly when for every known order and
every fill column, and for every position, the last settings agree (`LastSettingsAgree`).
`not_sameRows_staleStatus` is an order whose old status is delivered again.
-/

namespace TtLedger

open BrokerMessage

/-! ## What the messages set -/

/-- What a message sets a fill column of an order to. -/
def BrokerMessage.setting {β : Type} (ttOrderId : String) (column : FillEvent → Option β) :
    BrokerMessage → Option β
  | fill evt => if evt.ttOrderId = ttOrderId then column evt else none
  | _ => none

/-- The normalised status a fill sets. -/
def FillEvent.omsStatus (evt : FillEvent) : Option String :=
  (mapOrderStatus evt.status).map OrderStatus.value

/-- What a message says of a position, beside its attribution. -/
def BrokerMessage.snapshot (accounts : AccountMapper) (resolver : SecurityResolver)
    (key : String × String) (msg : BrokerMessage) : Option PositionRow :=
  match msg.aboutPosition accounts resolver with
  | some (key', pos) => if key' = key then some (positionRow key.1 key.2 none pos) else none
  | none => none

/-! ## Rows after a sequence of messages -/

/-- One message overwrites the columns of its order that it sets. -/
theorem onOrder_eq {order : OrderRow} {ttOrderId : String} (h : order.ttOrderId = some ttOrderId)
    (msg : BrokerMessage) :
    onOrder order msg =
      { order with
        omsStatus := overwriteBy (setting ttOrderId FillEvent.omsStatus) order.omsStatus msg
        ttStatus := overwriteBy (setting ttOrderId FillEvent.status) order.ttStatus msg
        averageFillPrice :=
          overwriteBy (setting ttOrderId FillEvent.averageFillPrice) order.averageFillPrice msg
        filledQuantity :=
          overwriteBy (setting ttOrderId FillEvent.filledQuantity) order.filledQuantity msg
        remainingQuantity :=
          overwriteBy (setting ttOrderId FillEvent.remainingQuantity) order.remainingQuantity msg
        filledAt := overwriteBy (setting ttOrderId FillEvent.filledAt) order.filledAt msg } := by
  cases msg with
  | fill evt =>
    simp only [onOrder, setting, overwriteBy]
    by_cases he : evt.ttOrderId = ttOrderId
    · rw [if_pos (he ▸ h)]
      simp [he, FillEvent.apply, FillEvent.omsStatus]
    · rw [if_neg fun hkey => he (Option.some.inj (hkey.symm.trans h))]
      simp [he]
  | _ => simp [onOrder, setting, overwriteBy]

/-- An order after a sequence of messages. -/
theorem foldl_onOrder {ttOrderId : String} (msgs : List BrokerMessage) {order : OrderRow}
    (h : order.ttOrderId = some ttOrderId) :
    msgs.foldl onOrder order =
      { order with
        omsStatus :=
          msgs.foldl (overwriteBy (setting ttOrderId FillEvent.omsStatus)) order.omsStatus
        ttStatus := msgs.foldl (overwriteBy (setting ttOrderId FillEvent.status)) order.ttStatus
        averageFillPrice := msgs.foldl
          (overwriteBy (setting ttOrderId FillEvent.averageFillPrice)) order.averageFillPrice
        filledQuantity := msgs.foldl
          (overwriteBy (setting ttOrderId FillEvent.filledQuantity)) order.filledQuantity
        remainingQuantity := msgs.foldl
          (overwriteBy (setting ttOrderId FillEvent.remainingQuantity)) order.remainingQuantity
        filledAt :=
          msgs.foldl (overwriteBy (setting ttOrderId FillEvent.filledAt)) order.filledAt } := by
  induction msgs generalizing order with
  | nil => rfl
  | cons msg msgs ih =>
    rw [List.foldl_cons, ih ((key_onOrder order msg).trans h), onOrder_eq h]
    rfl

/-- An order without a broker id is left alone. -/
theorem foldl_onOrder_unkeyed (msgs : List BrokerMessage) {order : OrderRow}
    (h : order.ttOrderId = none) : msgs.foldl onOrder order = order := by
  induction msgs with
  | nil => rfl
  | cons msg msgs ih =>
    have hmsg : onOrder order msg = order := by
      cases msg <;> simp [onOrder, h]
    rw [List.foldl_cons, hmsg, ih]

/-- A position with the snapshot it was last given, and its own attribution. -/
def PositionRow.withSnapshot (row : PositionRow) (snapshot : Option PositionRow) : PositionRow :=
  match snapshot with
  | some snapshot =>
    { snapshot with
      strategyId := row.strategyId
      openingOrderId := row.openingOrderId
      tradeGroupId := row.tradeGroupId
      positionOpenedAt := row.positionOpenedAt }
  | none => row

section Positions

variable (accounts : AccountMapper) (resolver : SecurityResolver)

/-- One snapshot after another. -/
theorem withSnapshot_withSnapshot (row : PositionRow) (a b : Option PositionRow) :
    (row.withSnapshot a).withSnapshot b = row.withSnapshot (b.or a) := by
  cases a <;> cases b <;> rfl

/-- One message replaces the position it is about by what it says. -/
theorem onPosition_eq (row : PositionRow) (msg : BrokerMessage) :
    onPosition accounts resolver row msg =
      row.withSnapshot (snapshot accounts resolver (row.account, row.securityId) msg) := by
  unfold onPosition snapshot
  cases msg.aboutPosition accounts resolver with
  | none => rfl
  | some about =>
    obtain ⟨key, pos⟩ := about
    by_cases hkey : key = (row.account, row.securityId)
    · subst hkey
      simp only [if_true]
      rfl
    · simp only [if_neg hkey, if_neg fun h : row.key = some key => hkey (Option.some.inj h).symm]
      rfl

/-- A position after a sequence of messages. -/
theorem foldl_onPosition (msgs : List BrokerMessage) (row : PositionRow) :
    msgs.foldl (onPosition accounts resolver) row =
      row.withSnapshot
        (lastSet (snapshot accounts resolver (row.account, row.securityId)) msgs) := by
  induction msgs using List.reverseRecOn with
  | nil => rfl
  | append_singleton msgs msg ih =>
    have hkey := Option.some.inj (key_foldl_onPosition accounts resolver row msgs)
    rw [List.foldl_append, List.foldl_cons, List.foldl_nil, onPosition_eq, hkey, ih,
      withSnapshot_withSnapshot, lastSet_concat]

/-- A row without its attribution. -/
def PositionRow.unattributed (row : PositionRow) : PositionRow :=
  { row with
    strategyId := none
    openingOrderId := none
    tradeGroupId := none
    positionOpenedAt := none }

/-- A snapshot can be read off the row it was written to. -/
theorem unattributed_withSnapshot {key : String × String} {msgs : List BrokerMessage}
    {snap : PositionRow} (h : lastSet (snapshot accounts resolver key) msgs = some snap)
    (row : PositionRow) : (row.withSnapshot (some snap)).unattributed = snap := by
  obtain ⟨msg, -, hmsg⟩ := exists_of_lastSet h
  unfold snapshot at hmsg
  split at hmsg
  · split at hmsg
    · rw [← Option.some.inj hmsg]
      rfl
    · cases hmsg
  · cases hmsg

/-- Two snapshots leave the same row when they say the same. -/
theorem withSnapshot_inj {key : String × String} {msgs msgs' : List BrokerMessage}
    {row : PositionRow}
    (hsome : (lastSet (snapshot accounts resolver key) msgs).isSome =
      (lastSet (snapshot accounts resolver key) msgs').isSome) :
    row.withSnapshot (lastSet (snapshot accounts resolver key) msgs) =
        row.withSnapshot (lastSet (snapshot accounts resolver key) msgs') ↔
      lastSet (snapshot accounts resolver key) msgs =
        lastSet (snapshot accounts resolver key) msgs' := by
  refine ⟨fun h => ?_, fun h => by rw [h]⟩
  cases ha : lastSet (snapshot accounts resolver key) msgs with
  | none =>
    rw [ha, Option.isSome_none, eq_comm, Option.isSome_eq_false_iff, Option.isNone_iff_eq_none]
      at hsome
    exact hsome.symm
  | some a =>
    rw [ha, Option.isSome_some, eq_comm, Option.isSome_iff_exists] at hsome
    obtain ⟨b, hb⟩ := hsome
    rw [ha, hb] at h
    rw [hb, ← unattributed_withSnapshot accounts resolver ha row, h,
      unattributed_withSnapshot accounts resolver hb row]

end Positions

/-! ## Redeliveries -/

/-- The last settings of the fill columns of an order. -/
structure OrderSettingsAgree (ttOrderId : String) (delivered stream : List BrokerMessage) :
    Prop where
  omsStatus : lastSet (setting ttOrderId FillEvent.omsStatus) delivered =
    lastSet (setting ttOrderId FillEvent.omsStatus) stream
  ttStatus : lastSet (setting ttOrderId FillEvent.status) delivered =
    lastSet (setting ttOrderId FillEvent.status) stream
  averageFillPrice : lastSet (setting ttOrderId FillEvent.averageFillPrice) delivered =
    lastSet (setting ttOrderId FillEvent.averageFillPrice) stream
  filledQuantity : lastSet (setting ttOrderId FillEvent.filledQuantity) delivered =
    lastSet (setting ttOrderId FillEvent.filledQuantity) stream
  remainingQuantity : lastSet (setting ttOrderId FillEvent.remainingQuantity) delivered =
    lastSet (setting ttOrderId FillEvent.remainingQuantity) stream
  filledAt : lastSet (setting ttOrderId FillEvent.filledAt) delivered =
    lastSet (setting ttOrderId FillEvent.filledAt) stream

/-- **A redelivery leaves an order as the stream does exactly when the last settings agree.** -/
theorem order_eq_iff {stream delivered : List BrokerMessage} (h : Redelivers stream delivered)
    {order : OrderRow} {ttOrderId : String} (hkey : order.ttOrderId = some ttOrderId) :
    delivered.foldl onOrder order = stream.foldl onOrder order ↔
      OrderSettingsAgree ttOrderId delivered stream := by
  rw [foldl_onOrder delivered hkey, foldl_onOrder stream hkey]
  constructor
  · intro heq
    refine ⟨?_, ?_, ?_, ?_, ?_, ?_⟩
    · exact (h.overwrite_eq_iff _ _).mp (congrArg OrderRow.omsStatus heq)
    · exact (h.overwrite_eq_iff _ _).mp (congrArg OrderRow.ttStatus heq)
    · exact (h.overwrite_eq_iff _ _).mp (congrArg OrderRow.averageFillPrice heq)
    · exact (h.overwrite_eq_iff _ _).mp (congrArg OrderRow.filledQuantity heq)
    · exact (h.overwrite_eq_iff _ _).mp (congrArg OrderRow.remainingQuantity heq)
    · exact (h.overwrite_eq_iff _ _).mp (congrArg OrderRow.filledAt heq)
  · rintro ⟨h₁, h₂, h₃, h₄, h₅, h₆⟩
    rw [(h.overwrite_eq_iff _ order.omsStatus).mpr h₁, (h.overwrite_eq_iff _ order.ttStatus).mpr h₂,
      (h.overwrite_eq_iff _ order.averageFillPrice).mpr h₃,
      (h.overwrite_eq_iff _ order.filledQuantity).mpr h₄,
      (h.overwrite_eq_iff _ order.remainingQuantity).mpr h₅,
      (h.overwrite_eq_iff _ order.filledAt).mpr h₆]

namespace InMemoryStore

variable (accounts : AccountMapper) (resolver : SecurityResolver)

/-- For every order and every position of the store the last settings agree. -/
structure LastSettingsAgree (s : InMemoryStore) (delivered stream : List BrokerMessage) :
    Prop where
  orders : ∀ order ∈ s.orders.values, ∀ ttOrderId, order.ttOrderId = some ttOrderId →
    OrderSettingsAgree ttOrderId delivered stream
  positions : ∀ row ∈ s.positions.values,
    lastSet (snapshot accounts resolver (row.account, row.securityId)) delivered =
      lastSet (snapshot accounts resolver (row.account, row.securityId)) stream

/-- Two stores have the same order rows and position rows, under the same ids. -/
def SameRows (s s' : InMemoryStore) : Prop := s.orders = s'.orders ∧ s.positions = s'.positions

/-- **A redelivery leaves the rows of the stream exactly when the last settings agree.** -/
theorem sameRows_iff (s : InMemoryStore) (stream redelivered : List BrokerMessage)
    (h : Redelivers stream redelivered) (hknown : s.KnowsPositions accounts resolver stream) :
    SameRows (s.delivered accounts resolver redelivered) (s.delivered accounts resolver stream) ↔
      s.LastSettingsAgree accounts resolver redelivered stream := by
  have hknown' : s.KnowsPositions accounts resolver redelivered := fun msg hmsg =>
    hknown msg ((h.mem_iff msg).mp hmsg)
  obtain ⟨ho, hp⟩ := s.rows_delivered accounts resolver redelivered hknown'
  obtain ⟨ho', hp'⟩ := s.rows_delivered accounts resolver stream hknown
  unfold SameRows
  rw [ho, hp, ho', hp', Table.modify_inj, Table.modify_inj]
  constructor
  · rintro ⟨horders, hpositions⟩
    refine ⟨fun order horder ttOrderId hkey => (order_eq_iff h hkey).mp (horders order horder),
      fun row hrow => ?_⟩
    have hrow' := hpositions row hrow
    rw [foldl_onPosition, foldl_onPosition] at hrow'
    exact (withSnapshot_inj accounts resolver (h.isSome_lastSet _)).mp hrow'
  · rintro ⟨horders, hpositions⟩
    refine ⟨fun order horder => ?_, fun row hrow => ?_⟩
    · cases hkey : order.ttOrderId with
      | none => rw [foldl_onOrder_unkeyed _ hkey, foldl_onOrder_unkeyed _ hkey]
      | some ttOrderId => exact (order_eq_iff h hkey).mpr (horders order horder ttOrderId hkey)
    · rw [foldl_onPosition, foldl_onPosition]
      exact (withSnapshot_inj accounts resolver (h.isSome_lastSet _)).mpr (hpositions row hrow)

/-! ## A status delivered again -/

section StaleStatus

/-- A status update of order 77. -/
def statusUpdate (status : String) : BrokerMessage :=
  .fill { ttOrderId := "77", status := some status }

/-- A store with order 77. -/
def withOrder77 : InMemoryStore := seeded [] [.placed "main" "77"] []

/-- The daemon's account, and a resolver that is not asked. -/
def mainAccount : AccountMapper := ⟨Dict.empty.set "main" "ACCT1"⟩

def noSymbols : SecurityResolver := fun symbol _ => .error symbol

/-- The live status is delivered again after the order was filled. -/
theorem redelivers_stale (a b : BrokerMessage) : Redelivers [a, b] [a, b, a] :=
  .again (.next (.next .nil a) b) (by simp)

/-- The order is live again after it was filled. -/
theorem not_sameRows_staleStatus :
    Redelivers [statusUpdate "Live", statusUpdate "Filled"]
        [statusUpdate "Live", statusUpdate "Filled", statusUpdate "Live"] ∧
      withOrder77.KnowsPositions mainAccount noSymbols
        [statusUpdate "Live", statusUpdate "Filled"] ∧
      ¬ SameRows
        (withOrder77.delivered mainAccount noSymbols
          [statusUpdate "Live", statusUpdate "Filled", statusUpdate "Live"])
        (withOrder77.delivered mainAccount noSymbols
          [statusUpdate "Live", statusUpdate "Filled"]) := by
  refine ⟨redelivers_stale _ _, ?_, fun h => ?_⟩
  · intro msg hmsg key pos habout
    obtain rfl | rfl := by simpa using hmsg
    all_goals cases habout
  · have hstatus := congrArg (fun t => (t.getByKey "77").bind OrderRow.ttStatus) h.1
    revert hstatus
    decide +kernel

/-- A resolver of shares. -/
def sharesOnly : SecurityResolver := fun symbol _ => .ok { securityId := "equity:" ++ symbol }

/-- A snapshot of the account's shares. -/
def shares (quantity : ℚ) : BrokerMessage :=
  .position "ACCT1" { symbol := "X", quantity, quantityDirection := "Long" }

/-- A store with order 77 and its shares, which are in a group. -/
def withShares : InMemoryStore :=
  withOrder77.upsertPositions [{
    account := "main"
    securityId := "equity:X"
    quantity := 1
    quantityDirection := "Long"
    tradeGroupId := some 3 }]

/-- The older snapshot is delivered again behind the newer one, and then the newer one again. -/
theorem sameRows_reclaimed :
    SameRows
      (withShares.delivered mainAccount sharesOnly
        [shares 2, statusUpdate "Filled", shares 3, shares 2, shares 3])
      (withShares.delivered mainAccount sharesOnly
        [shares 2, statusUpdate "Filled", shares 3]) := by
  have hredelivers : Redelivers [shares 2, statusUpdate "Filled", shares 3]
      [shares 2, statusUpdate "Filled", shares 3, shares 2, shares 3] :=
    .again (.again (.next (.next (.next .nil _) _) _) (by simp)) (by simp)
  have hknown : withShares.KnowsPositions mainAccount sharesOnly
      [shares 2, statusUpdate "Filled", shares 3] := by
    intro msg hmsg key pos habout
    obtain rfl | rfl | rfl := by simpa using hmsg
    · obtain ⟨rfl, rfl⟩ := Prod.mk.inj (Option.some.inj habout)
      decide +kernel
    · cases habout
    · obtain ⟨rfl, rfl⟩ := Prod.mk.inj (Option.some.inj habout)
      decide +kernel
  refine (sameRows_iff mainAccount sharesOnly withShares _ _ hredelivers hknown).mpr ⟨?_, ?_⟩
  · intro order horder ttOrderId hkey
    exact ⟨rfl, rfl, rfl, rfl, rfl, rfl⟩
  · intro row hrow
    obtain rfl := List.mem_singleton.mp hrow
    decide +kernel

end StaleStatus

end InMemoryStore

end TtLedger
