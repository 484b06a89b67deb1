import TtLedger.Ingest.StreamEntry
import TtLedger.Foundations.Trace
import TtLedger.Foundations.LastWriter

/-!
# Applying stream messages

What `StreamConsumer` (`ingest/push.py`) does to the ledger for each message: a fill updates a
known order, a position is upserted under the account's nickname, a balance touches neither. A
message whose apply fails is logged and skipped. The accounts and balance tables are left out.

On the in-memory store a message about a known order or position rewrites its row in place
(`exec_applyMessage_fill`, `exec_applyMessage_position`), so what a sequence of messages leaves is
each row with the messages about it applied in turn (`rows_delivered`).
-/

namespace TtLedger

open LedgerStore

/-- The nickname of an account number; of two nicknames with one number the later one. -/
def AccountMapper.toNickname (accounts : AccountMapper) (accountNumber : String) :
    Except String String :=
  match accounts.n2num.entries.reverse.find? fun e => e.2 = accountNumber with
  | some e => .ok e.1
  | none => .error accountNumber

theorem AccountMapper.get?_of_toNickname {accounts : AccountMapper} {number nickname : String}
    (h : accounts.toNickname number = .ok nickname) :
    accounts.n2num.get? nickname = some number := by
  unfold AccountMapper.toNickname at h
  split at h
  · rename_i e he
    obtain rfl := Except.ok.inj h
    have hnumber : e.2 = number := by simpa using List.find?_some he
    rw [← hnumber]
    exact Dict.get?_eq_some.mpr (List.mem_reverse.mp (List.mem_of_find?_eq_some he))
  · cases h

/-- The number of a nickname has one. -/
theorem AccountMapper.exists_toNickname {accounts : AccountMapper} {number nickname : String}
    (h : accounts.n2num.get? nickname = some number) :
    ∃ nickname', accounts.toNickname number = .ok nickname' := by
  unfold AccountMapper.toNickname
  split
  · exact ⟨_, rfl⟩
  · rename_i hnone
    have hentry := List.mem_reverse.mpr (Dict.get?_eq_some.mp h)
    simpa using List.find?_eq_none.mp hnone _ hentry

/-- A message of the broker's account stream. -/
inductive BrokerMessage
  | fill (evt : FillEvent)
  | position (accountNumber : String) (pos : BrokerPosition)
  | balance (accountNumber : String)

namespace StreamConsumer

variable (accounts : AccountMapper) (resolver : SecurityResolver)

/-- Apply one message. -/
def applyMessage : BrokerMessage → LedgerProg Unit
  | .fill evt => do
    let _ ← applyFillEvent evt
    pure ()
  | .position accountNumber pos => do
    let account ← Prog.ofExcept (accounts.toNickname accountNumber)
    let _ ← PositionRepository.upsert resolver [pos] account
    pure ()
  | .balance _ => pure ()

/-- Apply the messages in turn; a failure is logged and skipped. -/
def deliver (msgs : List BrokerMessage) : LedgerProg PUnit :=
  msgs.forM fun msg => do
    let _ ← (applyMessage accounts resolver msg).attempt
    pure ()

end StreamConsumer

/-! ## What a message does to a row -/

namespace BrokerMessage

/-- A fill updates its order. -/
def onOrder (order : OrderRow) : BrokerMessage → OrderRow
  | fill evt => if order.ttOrderId = some evt.ttOrderId then evt.apply order else order
  | _ => order

variable (accounts : AccountMapper) (resolver : SecurityResolver)

/-- The position a message is about: its key, and what it says of it. -/
def aboutPosition : BrokerMessage → Option ((String × String) × BrokerPosition)
  | position accountNumber pos =>
    match accounts.toNickname accountNumber, resolver pos.symbol pos.instrumentType with
    | .ok account, .ok resolved => some ((account, resolved.securityId), pos)
    | _, _ => none
  | _ => none

/-- A snapshot replaces its position, but for the attribution. -/
def onPosition (row : PositionRow) (msg : BrokerMessage) : PositionRow :=
  match msg.aboutPosition accounts resolver with
  | some (key, pos) =>
    if row.key = some key then positionRow key.1 key.2 (some row) pos else row
  | none => row

theorem key_onOrder (order : OrderRow) (msg : BrokerMessage) :
    (onOrder order msg).key = order.key := by
  cases msg <;> simp only [onOrder]
  split <;> rfl

theorem key_onPosition (row : PositionRow) (msg : BrokerMessage) :
    (onPosition accounts resolver row msg).key = row.key := by
  unfold onPosition
  split
  · split
    · rename_i hkey
      exact hkey.symm
    · rfl
  · rfl

theorem key_foldl_onOrder (order : OrderRow) (msgs : List BrokerMessage) :
    (msgs.foldl onOrder order).key = order.key := by
  induction msgs generalizing order with
  | nil => rfl
  | cons msg msgs ih => exact (ih _).trans (key_onOrder order msg)

theorem key_foldl_onPosition (row : PositionRow) (msgs : List BrokerMessage) :
    (msgs.foldl (onPosition accounts resolver) row).key = row.key := by
  induction msgs generalizing row with
  | nil => rfl
  | cons msg msgs ih => exact (ih _).trans (key_onPosition accounts resolver row msg)

end BrokerMessage

/-! ## Runs on the in-memory store -/

namespace InMemoryStore

open BrokerMessage

variable (accounts : AccountMapper) (resolver : SecurityResolver)

/-- The positions the messages are about are in the store. -/
def KnowsPositions (s : InMemoryStore) (msgs : List BrokerMessage) : Prop :=
  ∀ msg ∈ msgs, ∀ key pos, msg.aboutPosition accounts resolver = some (key, pos) →
    (s.positions.getByKey key).isSome

/-- An update of a stored order has the order's other columns. -/
theorem preserveOrder_apply (evt : FillEvent) (order : OrderRow) :
    preserveOrder order (evt.apply order) = evt.apply order := by
  simp [preserveOrder, FillEvent.apply]

theorem exec_discard {α : Type} (s : InMemoryStore) (p : LedgerProg α) :
    (exec (do let _ ← p; pure ()) s).2 = (exec p s).2 := by
  rw [exec_bind_eq]
  rcases exec p s with ⟨e | a, s'⟩ <;> rfl

/-- The upsert of an updated order overwrites it. -/
theorem upsertOrders_apply (s : InMemoryStore) {evt : FillEvent} {order : OrderRow}
    (h : s.getOrder evt.ttOrderId = some order) :
    (s.upsertOrders [evt.apply order]).2 =
      { s with orders := s.orders.overwrite (evt.apply order) } := by
  have hkey : (evt.apply order).ttOrderId = some evt.ttOrderId := (Table.getByKey_eq_some.mp h).2
  have hwrite : (s.orders.upsert (evt.apply order)).2 = s.orders.overwrite (evt.apply order) :=
    s.orders.upsert_eq_overwrite _ hkey h
  simp only [upsertOrders, List.foldl_cons, List.foldl_nil, upsertOrder, hkey, Option.bind_some]
  split
  · rename_i existing hex
    split at hex
    · obtain rfl := Option.some.inj (h.symm.trans hex)
      rw [preserveOrder_apply, hwrite]
    · cases hex
  · rw [hwrite]

/-- **A fill rewrites its order in place.** -/
theorem exec_applyMessage_fill (s : InMemoryStore) (evt : FillEvent) :
    (exec (StreamConsumer.applyMessage accounts resolver (.fill evt)) s).2 =
      { s with
        orders := s.orders.modify (onOrder · (.fill evt)) fun r => key_onOrder r _ } := by
  unfold StreamConsumer.applyMessage applyFillEvent
  rw [exec_bind_eq, exec_bind (exec_getOrder s _)]
  cases h : s.getOrder evt.ttOrderId with
  | none =>
    have hid : s.orders.modify (onOrder · (.fill evt)) (fun r => key_onOrder r _) = s.orders := by
      refine Table.modify_id _ _ _ fun r hr => if_neg fun hkey => ?_
      obtain ⟨p, hp, rfl⟩ := List.mem_map.mp hr
      exact Table.getByKey_eq_none.mp h p hp hkey
    rw [hid]
    rfl
  | some order =>
    change (s.upsertOrders [evt.apply order]).2 = _
    rw [upsertOrders_apply s h]
    have hkey : order.ttOrderId = some evt.ttOrderId := (Table.getByKey_eq_some.mp h).2
    have hrows : s.orders.overwrite (evt.apply order) =
        s.orders.modify (onOrder · (.fill evt)) fun r => key_onOrder r _ := by
      refine Table.modify_congr _ _ _ fun r hr => ?_
      change (if r.ttOrderId = order.ttOrderId then evt.apply order else r) =
        if r.ttOrderId = some evt.ttOrderId then evt.apply r else r
      rw [hkey]
      split
      · rename_i hr'
        have hget := Table.getByKey_of_mem_values hr hr'
        rw [Option.some.inj (h.symm.trans hget)]
      · rfl
    rw [hrows]

/-- A snapshot of a known position overwrites it. -/
theorem exec_upsert_position (s : InMemoryStore) {account : String} {pos : BrokerPosition}
    {resolved : ResolvedSecurity} {row : PositionRow}
    (hresolved : resolver pos.symbol pos.instrumentType = .ok resolved)
    (h : s.getPosition account resolved.securityId = some row) :
    (exec (PositionRepository.upsert resolver [pos] account) s).2 =
      { s.upsertSecurity (securityRow resolved (some pos.symbol)) with
        positions := s.positions.overwrite
          (positionRow account resolved.securityId (some row) pos) } := by
  have hwrite : (s.positions.upsert (positionRow account resolved.securityId (some row) pos)).2 =
      s.positions.overwrite (positionRow account resolved.securityId (some row) pos) :=
    s.positions.upsert_eq_overwrite _ rfl h
  rw [← hwrite, ← h]
  simp only [PositionRepository.upsert, PositionRepository.addRow, resolveSecurity,
    List.foldlM_cons, List.foldlM_nil, hresolved]
  rfl

/-- **A snapshot rewrites its position in place**, and leaves the orders alone. -/
theorem exec_applyMessage_position (s : InMemoryStore) {accountNumber : String}
    {pos : BrokerPosition}
    (h : s.KnowsPositions accounts resolver [.position accountNumber pos]) :
    (exec (StreamConsumer.applyMessage accounts resolver (.position accountNumber pos))
      s).2.orders =
        s.orders ∧
      (exec (StreamConsumer.applyMessage accounts resolver
        (.position accountNumber pos)) s).2.positions =
        s.positions.modify (onPosition accounts resolver · (.position accountNumber pos))
          fun r => key_onPosition accounts resolver r _ := by
  cases haccount : accounts.toNickname accountNumber with
  | error e =>
    have habout : (BrokerMessage.position accountNumber pos).aboutPosition accounts resolver =
        none := by simp only [aboutPosition, haccount]
    simp only [StreamConsumer.applyMessage, haccount]
    refine ⟨rfl, (Table.modify_id _ _ _ fun r _ => ?_).symm⟩
    simp only [onPosition, habout]
  | ok account =>
    cases hresolved : resolver pos.symbol pos.instrumentType with
    | error e =>
      have habout : (BrokerMessage.position accountNumber pos).aboutPosition accounts resolver =
          none := by simp only [aboutPosition, haccount, hresolved]
      simp only [StreamConsumer.applyMessage, PositionRepository.upsert,
        PositionRepository.addRow, resolveSecurity, List.foldlM_cons, haccount, hresolved]
      refine ⟨rfl, (Table.modify_id _ _ _ fun r _ => ?_).symm⟩
      simp only [onPosition, habout]
    | ok resolved =>
      have habout : (BrokerMessage.position accountNumber pos).aboutPosition accounts resolver =
          some ((account, resolved.securityId), pos) := by
        simp only [aboutPosition, haccount, hresolved]
      obtain ⟨row, hrow⟩ :=
        Option.isSome_iff_exists.mp (h _ (List.mem_singleton.mpr rfl) _ _ habout)
      have hrun : (exec (StreamConsumer.applyMessage accounts resolver
          (.position accountNumber pos)) s).2 =
          (exec (PositionRepository.upsert resolver [pos] account) s).2 := by
        simp only [StreamConsumer.applyMessage, haccount]
        exact exec_discard s _
      rw [hrun, exec_upsert_position resolver s hresolved hrow]
      refine ⟨rfl, ?_⟩
      change s.positions.overwrite _ = _
      refine Table.modify_congr _ _ _ fun r hr => ?_
      simp only [onPosition, habout]
      change (if r.key = some (account, resolved.securityId) then _ else r) = _
      by_cases hkey : r.key = some (account, resolved.securityId)
      · have hget := Table.getByKey_of_mem_values hr hkey
        rw [if_pos hkey, if_pos hkey, Option.some.inj (hrow.symm.trans hget)]
      · rw [if_neg hkey, if_neg hkey]

/-- What one message does to the rows. -/
theorem rows_applyMessage (s : InMemoryStore) {msg : BrokerMessage}
    (h : s.KnowsPositions accounts resolver [msg]) :
    (exec (StreamConsumer.applyMessage accounts resolver msg) s).2.orders =
        s.orders.modify (onOrder · msg) (fun r => key_onOrder r msg) ∧
      (exec (StreamConsumer.applyMessage accounts resolver msg) s).2.positions =
        s.positions.modify (onPosition accounts resolver · msg)
          (fun r => key_onPosition accounts resolver r msg) := by
  cases msg with
  | fill evt =>
    rw [exec_applyMessage_fill]
    exact ⟨rfl, (Table.modify_id _ _ _ fun _ _ => rfl).symm⟩
  | position accountNumber pos =>
    obtain ⟨ho, hp⟩ := exec_applyMessage_position accounts resolver s h
    exact ⟨ho.trans (Table.modify_id _ _ _ fun _ _ => rfl).symm, hp⟩
  | balance accountNumber =>
    exact ⟨(Table.modify_id _ _ _ fun _ _ => rfl).symm,
      (Table.modify_id _ _ _ fun _ _ => rfl).symm⟩

/-! ## Sequences of messages -/

/-- The store after the messages have been delivered in turn. -/
def delivered (s : InMemoryStore) (msgs : List BrokerMessage) : InMemoryStore :=
  (exec (StreamConsumer.deliver accounts resolver msgs) s).2

theorem delivered_cons (s : InMemoryStore) (msg : BrokerMessage) (msgs : List BrokerMessage) :
    s.delivered accounts resolver (msg :: msgs) =
      (exec (StreamConsumer.applyMessage accounts resolver msg) s).2.delivered accounts resolver
        msgs := by
  have hrun : exec (do
      let _ ← (StreamConsumer.applyMessage accounts resolver msg).attempt
      pure ⟨⟩) s =
      (.ok PUnit.unit, (exec (StreamConsumer.applyMessage accounts resolver msg) s).2) := by
    rw [exec_bind_eq, show exec _ s = _ from Prog.run_attempt memory _ s]
    rfl
  unfold delivered StreamConsumer.deliver
  rw [show (msg :: msgs).forM _ = (_ >>= fun _ => msgs.forM _) from rfl, exec_bind hrun]

/-- **Each row ends as what the messages about it make of it, in the order of delivery.** -/
theorem rows_delivered (s : InMemoryStore) (msgs : List BrokerMessage)
    (h : s.KnowsPositions accounts resolver msgs) :
    (s.delivered accounts resolver msgs).orders =
        s.orders.modify (fun r => msgs.foldl onOrder r) (fun r => key_foldl_onOrder r msgs) ∧
      (s.delivered accounts resolver msgs).positions =
        s.positions.modify (fun r => msgs.foldl (onPosition accounts resolver) r)
          (fun r => key_foldl_onPosition accounts resolver r msgs) := by
  induction msgs generalizing s with
  | nil => exact ⟨(Table.modify_id _ _ _ fun _ _ => rfl).symm,
      (Table.modify_id _ _ _ fun _ _ => rfl).symm⟩
  | cons msg msgs ih =>
    rw [delivered_cons]
    have hone : s.KnowsPositions accounts resolver [msg] := fun m hm =>
      h m (List.mem_cons.mpr (.inl (List.mem_singleton.mp hm)))
    obtain ⟨horders, hpositions⟩ := rows_applyMessage accounts resolver s hone
    have hknows : (exec (StreamConsumer.applyMessage accounts resolver msg) s).2.KnowsPositions
        accounts resolver msgs := by
      intro m hm key pos habout
      rw [hpositions, Table.getByKey_modify, Option.isSome_map]
      exact h m (List.mem_cons_of_mem _ hm) key pos habout
    obtain ⟨ho, hp⟩ := ih _ hknows
    rw [ho, hp, horders, hpositions]
    exact ⟨Table.modify_modify _ _ _ _ _, Table.modify_modify _ _ _ _ _⟩

end InMemoryStore

end TtLedger
