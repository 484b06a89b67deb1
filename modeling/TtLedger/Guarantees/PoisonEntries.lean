import TtLedger.Ingest.StreamLaws

/-!
# Poison entries

`parseEntry` guards the decoding of an entry, not the reading of its envelope. `Poison` lists what
the reading raises on: an account that has no hash, and in an envelope for one of the daemon's
accounts a `data` that is no object, an order's status that is no text, a position's multiplier
that is no number. On every other entry `parseEntry` returns (`parseEntry_returns_iff`).

An entry is settled when it is read, acknowledged or yielded by both loops, and acknowledged by
some run. A poison entry is acknowledged by no run, so it stays pending and is reclaimed for ever:
`settled_iff` says that the entries which are settled are exactly those that are not poison.
-/

namespace TtLedger

open Prog

/-! ## What the mappers raise on -/

namespace Pubsub

variable (c : Codec)

/-- `int(float(value))` reads the value. -/
def ReadsAsInt : Json → Prop
  | .bool _ => True
  | .int n => ∃ q, c.floatOfInt n = some (.finite q)
  | .float x => ∃ q, x = .finite q
  | .str s => ∃ q, c.float s = some (.finite q)
  | _ => False

/-- What a mapper raises on in the envelope of one of the daemon's accounts. -/
inductive PoisonEnvelope (msg : Json.Object) : Prop
  /-- `data` is there and is no object. -/
  | data {type : String} (htype : Json.get msg "type" = .str type)
      (hread : type ∈ ["order", "position", "balance"])
      (hdata : ∀ data, Json.getD msg "data" (.obj []) ≠ .obj data)
  /-- An order with an id whose status is neither absent nor a text. -/
  | status {data : Json.Object} (htype : Json.get msg "type" = .str "order")
      (hdata : Json.getD msg "data" (.obj []) = .obj data) (hid : orderId c data ≠ "")
      (hnull : Json.get data "status" ≠ .null) (htext : ∀ raw, Json.get data "status" ≠ .str raw)
  /-- A position with a symbol and a quantity whose multiplier is no whole number. -/
  | multiplier {data : Json.Object} (htype : Json.get msg "type" = .str "position")
      (hdata : Json.getD msg "data" (.obj []) = .obj data)
      (hsymbol : (Json.get data "symbol").truthy)
      (hquantity : (dec c (Json.get data "quantity")).isSome)
      (hmultiplier : ¬ ReadsAsInt c ((Json.get data "multiplier").orElse (.int 1)))

variable {c}

/-- A bind of fallible steps returns when both of them do. -/
theorem returns_bind {α β : Type} {x : Except PyError α} {f : α → Except PyError β} :
    (∃ b, (x >>= f) = .ok b) ↔ ∃ a, x = .ok a ∧ ∃ b, f a = .ok b := by
  cases x with
  | error e => exact ⟨fun ⟨_, h⟩ => (by cases h), fun ⟨_, h, _⟩ => (by cases h)⟩
  | ok a => exact ⟨fun h => ⟨a, rfl, h⟩, fun ⟨_, h, hf⟩ => Except.ok.inj h ▸ hf⟩

theorem data_eq_ok {msg data : Json.Object} :
    Pubsub.data msg = .ok data ↔ Json.getD msg "data" (.obj []) = .obj data := by
  unfold Pubsub.data
  cases Json.getD msg "data" (.obj []) <;> simp [Json.entries]

theorem status_returns {data : Json.Object} :
    (∃ x, status data = .ok x) ↔
      Json.get data "status" = .null ∨ ∃ raw, Json.get data "status" = .str raw := by
  unfold status
  cases Json.get data "status" <;> simp

theorem multiplier_returns {data : Json.Object} :
    (∃ n, multiplier c data = .ok n) ↔
      ReadsAsInt c ((Json.get data "multiplier").orElse (.int 1)) := by
  unfold multiplier
  rw [returns_bind]
  cases (Json.get data "multiplier").orElse (.int 1) with
  | int n =>
    cases hn : c.floatOfInt n with
    | none => simp [Codec.toFloat, ReadsAsInt, hn]
    | some x => cases x <;> simp [Codec.toFloat, ReadsAsInt, hn, Number.toInt]
  | float x => cases x <;> simp [Codec.toFloat, ReadsAsInt, Number.toInt]
  | str s =>
    cases hs : c.float s with
    | none => simp [Codec.toFloat, ReadsAsInt, hs]
    | some x => cases x <;> simp [Codec.toFloat, ReadsAsInt, hs, Number.toInt]
  | _ => simp [Codec.toFloat, ReadsAsInt, Number.toInt]

theorem fillEventFromPubsub_returns {msg : Json.Object} :
    (∃ x, fillEventFromPubsub c msg = .ok x) ↔
      ∃ data, Json.getD msg "data" (.obj []) = .obj data ∧ (orderId c data ≠ "" →
        Json.get data "status" = .null ∨ ∃ raw, Json.get data "status" = .str raw) := by
  unfold fillEventFromPubsub
  simp only [returns_bind, data_eq_ok]
  refine exists_congr fun data => and_congr_right fun _ => ?_
  split
  · rename_i hid
    exact ⟨fun _ h => absurd hid h, fun _ => ⟨none, rfl⟩⟩
  · rename_i hid
    rw [returns_bind, ← status_returns]
    exact ⟨fun ⟨x, hx, _⟩ _ => ⟨x, hx⟩, fun h => (h hid).imp fun x hx => ⟨hx, _, rfl⟩⟩

@[simp] theorem truthy_orElse_empty (value : Json) :
    (value.orElse (.str "")).truthy = value.truthy := by
  unfold Json.orElse
  split
  · rfl
  · rename_i h
    rw [Bool.not_eq_true] at h
    rw [h]
    rfl

theorem positionFromPubsub_returns {msg : Json.Object} {accountNumber : String} :
    (∃ x, positionFromPubsub c msg accountNumber = .ok x) ↔
      ∃ data, Json.getD msg "data" (.obj []) = .obj data ∧ ((Json.get data "symbol").truthy →
        (dec c (Json.get data "quantity")).isSome →
          ReadsAsInt c ((Json.get data "multiplier").orElse (.int 1))) := by
  unfold positionFromPubsub
  simp only [returns_bind, data_eq_ok, truthy_orElse_empty]
  refine exists_congr fun data => and_congr_right fun _ => ?_
  cases (Json.get data "symbol").truthy <;> cases dec c (Json.get data "quantity")
  case true.some quantity =>
    simp only [Option.isSome_some, true_implies, ← multiplier_returns, returns_bind]
    exact ⟨fun ⟨n, hn, _⟩ => ⟨n, hn⟩, fun ⟨n, hn⟩ => ⟨n, hn, _, rfl⟩⟩
  all_goals exact ⟨fun _ => by simp, fun _ => ⟨none, rfl⟩⟩

theorem balanceFromPubsub_returns {msg : Json.Object} {accountNumber : String} :
    (∃ x, balanceFromPubsub c msg accountNumber = .ok x) ↔
      ∃ data, Json.getD msg "data" (.obj []) = .obj data := by
  unfold balanceFromPubsub
  simp only [returns_bind, data_eq_ok]
  exact exists_congr fun data => and_iff_left ⟨_, rfl⟩

/-! ## One type of envelope -/

theorem not_poison_order {msg : Json.Object} (htype : Json.get msg "type" = .str "order") :
    ¬ PoisonEnvelope c msg ↔
      ∃ data, Json.getD msg "data" (.obj []) = .obj data ∧ (orderId c data ≠ "" →
        Json.get data "status" = .null ∨ ∃ raw, Json.get data "status" = .str raw) := by
  constructor
  · intro h
    by_cases hdata : ∃ data, Json.getD msg "data" (.obj []) = .obj data
    · obtain ⟨data, hdata⟩ := hdata
      refine ⟨data, hdata, fun hid => ?_⟩
      by_contra hstatus
      rw [not_or, not_exists] at hstatus
      exact h (.status htype hdata hid hstatus.1 hstatus.2)
    · exact absurd (.data htype (by simp) (not_exists.mp hdata)) h
  · rintro ⟨data, hdata, hstatus⟩ h
    cases h with
    | data _ _ hnone => exact hnone data hdata
    | status _ hdata' hid hnull htext =>
      obtain rfl := Json.obj.inj (hdata.symm.trans hdata')
      exact (hstatus hid).elim hnull fun ⟨raw, hraw⟩ => htext raw hraw
    | multiplier htype' => simp [htype] at htype'

theorem not_poison_position {msg : Json.Object} (htype : Json.get msg "type" = .str "position") :
    ¬ PoisonEnvelope c msg ↔
      ∃ data, Json.getD msg "data" (.obj []) = .obj data ∧ ((Json.get data "symbol").truthy →
        (dec c (Json.get data "quantity")).isSome →
          ReadsAsInt c ((Json.get data "multiplier").orElse (.int 1))) := by
  constructor
  · intro h
    by_cases hdata : ∃ data, Json.getD msg "data" (.obj []) = .obj data
    · obtain ⟨data, hdata⟩ := hdata
      refine ⟨data, hdata, fun hsymbol hquantity => ?_⟩
      by_contra hmultiplier
      exact h (.multiplier htype hdata hsymbol hquantity hmultiplier)
    · exact absurd (.data htype (by simp) (not_exists.mp hdata)) h
  · rintro ⟨data, hdata, hread⟩ h
    cases h with
    | data _ _ hnone => exact hnone data hdata
    | status htype' => simp [htype] at htype'
    | multiplier _ hdata' hsymbol hquantity hmultiplier =>
      obtain rfl := Json.obj.inj (hdata.symm.trans hdata')
      exact hmultiplier (hread hsymbol hquantity)

theorem not_poison_balance {msg : Json.Object} (htype : Json.get msg "type" = .str "balance") :
    ¬ PoisonEnvelope c msg ↔ ∃ data, Json.getD msg "data" (.obj []) = .obj data := by
  constructor
  · intro h
    by_contra hdata
    exact h (.data htype (by simp) (not_exists.mp hdata))
  · rintro ⟨data, hdata⟩ h
    cases h with
    | data _ _ hnone => exact hnone data hdata
    | status htype' => simp [htype] at htype'
    | multiplier htype' => simp [htype] at htype'

/-- An envelope of another type is not read. -/
theorem not_poison_other {msg : Json.Object}
    (htype : ∀ type ∈ ["order", "position", "balance"], Json.get msg "type" ≠ .str type) :
    ¬ PoisonEnvelope c msg := by
  intro h
  cases h with
  | data h hread => exact htype _ hread h
  | status h => exact htype "order" (by simp) h
  | multiplier h => exact htype "position" (by simp) h

end Pubsub

namespace StreamSource

open Pubsub

variable (c : Codec) (src : StreamSource)

/-- The envelope of one of the daemon's accounts is read unless it is poison. -/
theorem readMessage_returns {msg : Json.Object} {accountNumber : String} :
    (∃ x, readMessage c msg accountNumber = .ok x) ↔ ¬ PoisonEnvelope c msg := by
  unfold readMessage
  split
  · rename_i htype
    rw [not_poison_order htype, ← fillEventFromPubsub_returns, returns_bind]
    exact exists_congr fun x => and_iff_left ⟨_, rfl⟩
  · rename_i htype
    rw [not_poison_position htype, ← positionFromPubsub_returns, returns_bind]
    exact exists_congr fun x => and_iff_left ⟨_, rfl⟩
  · rename_i htype
    rw [not_poison_balance htype, ← balanceFromPubsub_returns, returns_bind]
    exact exists_congr fun x => and_iff_left ⟨_, rfl⟩
  · rename_i horder hposition hbalance
    refine iff_of_true ⟨none, rfl⟩ (not_poison_other ?_)
    simpa using ⟨horder, hposition, hbalance⟩

/-- A nickname of an account the source is scoped to. -/
def Ours (nickname : String) : Prop :=
  nickname ≠ "" ∧ (∀ nicknames, src.nicknames = some nicknames → nickname ∈ nicknames) ∧
    (src.accounts.n2num.get? nickname).isSome

/-- What `parseEntry` raises on. -/
inductive Poison (fields : Fields) : Prop
  /-- The account is a list or an object with something in it. -/
  | account {msg : Json.Object} (henv : envelope c fields = some msg)
      (htruthy : (Json.get msg "account_number").truthy)
      (hhash : (Json.get msg "account_number").hashable = false)
  /-- The account is one of the daemon's, and the envelope cannot be read. -/
  | envelope {msg : Json.Object} {nickname : String} (henv : envelope c fields = some msg)
      (hacct : Json.get msg "account_number" = .str nickname) (hours : src.Ours nickname)
      (h : PoisonEnvelope c msg)

variable {c src}

theorem poison_iff {fields : Fields} {msg : Json.Object} (henv : envelope c fields = some msg) :
    src.Poison c fields ↔
      (Json.get msg "account_number").truthy ∧ (Json.get msg "account_number").hashable = false ∨
        ∃ nickname, Json.get msg "account_number" = .str nickname ∧ src.Ours nickname ∧
          PoisonEnvelope c msg := by
  constructor
  · intro h
    cases h with
    | account henv' htruthy hhash =>
      obtain rfl := Option.some.inj (henv.symm.trans henv')
      exact .inl ⟨htruthy, hhash⟩
    | envelope henv' hacct hours h =>
      obtain rfl := Option.some.inj (henv.symm.trans henv')
      exact .inr ⟨_, hacct, hours, h⟩
  · rintro (⟨htruthy, hhash⟩ | ⟨nickname, hacct, hours, h⟩)
    · exact .account henv htruthy hhash
    · exact .envelope henv hacct hours h

variable (src) in
/-- A value that has no hash is looked up in vain, with or without a scope. -/
theorem lookup_unhashable {nickname : Json} (h : nickname.hashable = false) :
    (∃ nicknames, src.nicknames = some nicknames ∧ src.filtersOut nickname = .error .typeError) ∨
      src.filtersOut nickname = .ok false ∧
        src.accounts.toAccountNumber nickname = .error .typeError := by
  unfold filtersOut AccountMapper.toAccountNumber
  cases src.nicknames with
  | none => exact .inr ⟨rfl, by simp [h]⟩
  | some nicknames => exact .inl ⟨nicknames, rfl, by simp [h]⟩

variable (src) in
/-- A text is one of the daemon's accounts, or it is passed over. -/
theorem lookup_text (nickname : String) (hne : nickname ≠ "") :
    (src.Ours nickname ∧ src.filtersOut (.str nickname) = .ok false ∧
        ∃ number, src.accounts.toAccountNumber (.str nickname) = .ok number) ∨
      ¬ src.Ours nickname ∧ (src.filtersOut (.str nickname) = .ok true ∨
        src.filtersOut (.str nickname) = .ok false ∧
          src.accounts.toAccountNumber (.str nickname) = .error .keyError) := by
  unfold Ours filtersOut AccountMapper.toAccountNumber
  cases hnum : src.accounts.n2num.get? nickname with
  | none => cases hnames : src.nicknames <;> simp [Json.hashable, hnum, em']
  | some number =>
    cases hnames : src.nicknames with
    | none => simp [Json.hashable, hnum, hne]
    | some nicknames =>
      by_cases hmem : nickname ∈ nicknames <;> simp [Json.hashable, hnum, hne, hmem]

variable (src) in
/-- Any other value is passed over. -/
theorem lookup_other {nickname : Json} (hhash : nickname.hashable)
    (htext : ∀ s, nickname ≠ .str s) :
    src.filtersOut nickname = .ok true ∨ src.filtersOut nickname = .ok false ∧
      src.accounts.toAccountNumber nickname = .error .keyError := by
  unfold filtersOut AccountMapper.toAccountNumber
  cases nickname with
  | str s => exact absurd rfl (htext s)
  | arr xs => cases hhash
  | obj entries => cases hhash
  | _ => cases src.nicknames <;> simp [Json.hashable]

/-- **`parseEntry` returns on every entry that is not poison**, and only on those. -/
theorem parseEntry_returns_iff {fields : Fields} :
    (∃ r, src.parseEntry c fields = .ok r) ↔ ¬ src.Poison c fields := by
  unfold parseEntry
  split
  · rename_i henv
    refine iff_of_true ⟨none, rfl⟩ fun h => ?_
    cases h with
    | account h => simp [henv] at h
    | envelope h => simp [henv] at h
  · rename_i msg henv
    rw [poison_iff henv]
    simp only []
    generalize Json.get msg "account_number" = nickname
    cases htruthy : nickname.truthy with
    | false =>
      refine iff_of_true ⟨none, rfl⟩ ?_
      rintro (⟨h, -⟩ | ⟨s, rfl, hours, -⟩)
      · cases h
      · exact hours.1 (by simpa [Json.truthy] using htruthy)
    | true =>
      simp only [Bool.not_true, Bool.false_eq_true, if_false, true_and]
      cases hhash : nickname.hashable with
      | false =>
        refine iff_of_false ?_ (not_not.mpr (.inl rfl))
        rw [returns_bind]
        rintro ⟨b, hb, r, hr⟩
        obtain ⟨_, -, h⟩ | ⟨h, hacc⟩ := lookup_unhashable src hhash
        · rw [h] at hb
          cases hb
        · rw [h] at hb
          cases hb
          simp only [hacc] at hr
          cases hr
      | true =>
        rw [returns_bind]
        by_cases htext : ∃ s, nickname = .str s
        · obtain ⟨s, rfl⟩ := htext
          have hne : s ≠ "" := by simpa [Json.truthy] using htruthy
          obtain ⟨hours, hin, number, hnum⟩ | ⟨hours, hout | ⟨hin, hnum⟩⟩ :=
            lookup_text src s hne
          · have hread : (∃ r, readMessage c msg number = .ok r) ↔ ¬ PoisonEnvelope c msg :=
              readMessage_returns c
            simp [hin, hnum, hours, hread]
          · simp [hout, hours, pure, Except.pure]
          · simp [hin, hnum, hours, pure, Except.pure]
        · refine iff_of_true ?_ ?_
          · obtain hout | ⟨hin, hnum⟩ := lookup_other src hhash (not_exists.mp htext)
            · exact ⟨true, hout, none, rfl⟩
            · exact ⟨false, hin, none, by simp [hnum, pure, Except.pure]⟩
          · rintro (h | ⟨s, hs, -⟩)
            · cases h
            · exact htext ⟨s, hs⟩

/-! ## Entries that are settled -/

/-- No call raises, and the caller always comes back. -/
def Answered : Replies SourceOp SourceOp.Reply StreamError := fun _ r => ∃ a, r = .ok a

/-- When the calls are answered, the program acknowledges the entry or yields its message. -/
def Handles (entry : Entry) (p : SourceProg Unit) : Prop :=
  ∀ tr x, Completes Answered p tr x →
    ∃ ev ∈ tr, ev.1 = .client (.xack entry.1) ∨ ∃ msg, ev.1 = .yield msg

/-- Some run acknowledges the entry, without having lost its fields. -/
def Acknowledged (c : Codec) (src : StreamSource) (entry : Entry) : Prop :=
  ∃ fuel content tr r, content entry.1 = entry.2 ∧
    Performs (Delivers content) (src.messages c fuel {}) tr ∧
    (⟨.client (.xack entry.1), r⟩ : SourceEvent) ∈ tr ∧
    ∀ ev ∈ tr, ev.1 ≠ .client (.logTrimmed entry.1)

/-- An entry is read, acknowledged or yielded by both loops, and not redelivered for ever. -/
structure Settled (c : Codec) (src : StreamSource) (entry : Entry) : Prop where
  parsed : ∃ r, src.parseEntry c entry.2 = .ok r
  read : Handles entry (deliver c src entry)
  reclaimed : Handles entry (deliverReclaimed c src entry)
  acknowledged : Acknowledged c src entry

/-- What is done for an entry that can be read. -/
theorem handles_deliver {entry : Entry} {r : Option StreamMessage}
    (h : src.parseEntry c entry.2 = .ok r) : Handles entry (deliver c src entry) := by
  intro tr x htr
  unfold deliver at htr
  rw [h] at htr
  cases r with
  | none =>
    obtain ⟨-, rfl⟩ := completes_invoke.mp htr
    exact ⟨_, List.mem_singleton.mpr rfl, .inl rfl⟩
  | some msg =>
    obtain ⟨e, -, hy⟩ | ⟨tr₁, tr₂, a, rfl, hy, -⟩ := completes_bind htr
    · obtain ⟨-, rfl⟩ := completes_invoke.mp hy
      exact ⟨_, List.mem_singleton.mpr rfl, .inr ⟨msg, rfl⟩⟩
    · obtain ⟨-, rfl⟩ := completes_invoke.mp hy
      exact ⟨_, List.mem_append_left _ (List.mem_singleton.mpr rfl), .inr ⟨msg, rfl⟩⟩

theorem handles_deliverReclaimed {entry : Entry} {r : Option StreamMessage}
    (h : src.parseEntry c entry.2 = .ok r) : Handles entry (deliverReclaimed c src entry) := by
  unfold deliverReclaimed
  split
  · intro tr x htr
    obtain ⟨e, -, hlog⟩ | ⟨tr₁, tr₂, a, rfl, -, hack⟩ := completes_bind htr
    · obtain ⟨⟨a, ha⟩, -⟩ := completes_invoke.mp hlog
      cases ha
    · obtain ⟨-, rfl⟩ := completes_invoke.mp hack
      exact ⟨⟨.client (.xack entry.1), x⟩, by simp, .inl rfl⟩
  · exact handles_deliver h

/-- The entry is read, its message yielded if it has one, and it is acknowledged. -/
theorem performs_deliver {E : Replies SourceOp SourceOp.Reply StreamError} {entry : Entry}
    {r : Option StreamMessage} (h : src.parseEntry c entry.2 = .ok r)
    (hack : E (.client (.xack entry.1)) (.ok ())) (hyield : ∀ msg, E (.yield msg) (.ok ())) :
    ∃ seg, Performs E (deliver c src entry) (seg ++ [⟨.client (.xack entry.1), .ok ()⟩]) ∧
      ∀ ev ∈ seg, ∃ msg, ev.1 = .yield msg := by
  unfold deliver
  rw [h]
  cases r with
  | none => exact ⟨[], (completes_invoke.mpr ⟨hack, rfl⟩).performs, by simp⟩
  | some msg =>
    refine ⟨[⟨.yield msg, .ok ()⟩], ?_, by simp⟩
    exact (completes_invoke.mpr ⟨hyield msg, rfl⟩).bind_performs
      (completes_invoke.mpr ⟨hack, rfl⟩).performs

/-- A run that reads the one entry of the stream and acknowledges it. -/
theorem acknowledged_of_returns {entry : Entry} {r : Option StreamMessage}
    (h : src.parseEntry c entry.2 = .ok r) : Acknowledged c src entry := by
  obtain ⟨seg, hseg, hyields⟩ := performs_deliver (E := Delivers fun _ => entry.2) h trivial
    fun _ => trivial
  have hall : Performs (Delivers fun _ => entry.2) (deliverAll c src [("zts:events", [entry])])
      (seg ++ [⟨.client (.xack entry.1), .ok ()⟩]) := hseg.bind.bind
  have hreclaim : Completes (Delivers fun _ => entry.2) (reclaimIfDue c src 1 0)
      [⟨.client .monotonic, .ok 0⟩, ⟨.client (.xautoclaim "0-0"), .ok ("0-0", [])⟩,
        ⟨.client .monotonic, .ok 0⟩] (.ok (0 + src.reclaimIntervalSeconds)) :=
    .call trivial (.call (fun _ h => by cases h) (.call trivial (.ret _)))
  have hread : Completes (Delivers fun _ => entry.2) (client .xreadgroup)
      [⟨.client .xreadgroup, .ok [("zts:events", [entry])]⟩] (.ok [("zts:events", [entry])]) := by
    refine completes_invoke.mpr ⟨fun stream hstream e he => ?_, rfl⟩
    obtain rfl := List.mem_singleton.mp hstream
    obtain rfl := List.mem_singleton.mp he
    rfl
  have hpolls : Performs (Delivers fun _ => entry.2) (polls c src 2 {}) _ :=
    (completes_attempt.mpr ⟨_, rfl, hreclaim⟩).bind_performs
      ((completes_attempt.mpr ⟨_, rfl, hread⟩).bind_performs (performs_attempt.mpr hall).bind)
  have hgroup : Completes (Delivers fun _ => entry.2) (ensureGroup src)
      [⟨.client (.xgroupCreate src.startId), .ok ()⟩] (.ok ()) := .call trivial (.ret _)
  have hconnection : Performs (Delivers fun _ => entry.2) (connection c src 2 {}) _ :=
    (completes_attempt.mpr ⟨_, rfl, hgroup⟩).bind_performs hpolls
  have hmessages : Performs (Delivers fun _ => entry.2) (src.messages c 3 {}) _ :=
    hconnection.bind
  refine ⟨3, fun _ => entry.2, _, .ok (), rfl, hmessages, by simp, fun ev hev => ?_⟩
  simp only [List.cons_append, List.nil_append, List.mem_cons, List.mem_append, List.not_mem_nil,
    or_false] at hev
  obtain rfl | rfl | rfl | rfl | rfl | hev | rfl := hev
  case inr.inr.inr.inr.inr.inl =>
    obtain ⟨msg, hmsg⟩ := hyields ev hev
    rw [hmsg]
    exact fun h => by cases h
  all_goals exact fun h => by cases h

/-- **The settled entries are those that are not poison.** -/
theorem settled_iff (c : Codec) (src : StreamSource) (entry : Entry) :
    Settled c src entry ↔ ¬ src.Poison c entry.2 := by
  constructor
  · exact fun h => parseEntry_returns_iff.mp h.parsed
  · intro h
    obtain ⟨r, hr⟩ := parseEntry_returns_iff.mpr h
    exact ⟨⟨r, hr⟩, handles_deliver hr, handles_deliverReclaimed hr, acknowledged_of_returns hr⟩

/-! ## An order without data -/

/-- The payload of an order envelope whose `data` is null. -/
def nullOrder : String :=
  "\x7b\"type\": \"order\", \"account_number\": \"main\", \"data\": null\x7d"

/-- The codec that reads it. -/
def nullCodec : Codec :=
  .reading nullOrder
    (.obj [("type", .str "order"), ("account_number", .str "main"), ("data", .null)])

/-- An entry whose `data` is null is not settled. -/
theorem not_settled_nullOrder :
    ¬ Settled nullCodec forMain ("1-0", accountEvent nullOrder) := by
  rintro ⟨⟨r, hr⟩, -⟩
  have hraise : forMain.parseEntry nullCodec (accountEvent nullOrder) = .error .attributeError :=
    rfl
  rw [hraise] at hr
  cases hr

end StreamSource

end TtLedger
