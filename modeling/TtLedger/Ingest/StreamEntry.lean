import TtLedger.Repositories
import TtLedger.Foundations.Dict
import TtLedger.Foundations.Truncate

/-!
# Stream entries

An entry of the host's event stream is a map of texts or bytes; its `payload` is the envelope the
host also publishes. `parseEntry` reads it (`RedisStreamMessageSource._parse_entry` in
`ingest/redis_stream_source.py`, with the mappers of `ingest/redis_source.py`): the envelope is
decoded under an `except Exception`, what follows is not guarded. A value of the payload is
whatever `json.loads` makes of it, so each read says which values it raises on.

How the standard library reads and prints texts is a parameter (`Codec`); the logging is left out.
-/

namespace TtLedger

/-! ## Values -/

/-- A number of Python's `float` or `Decimal`. -/
inductive Number
  | finite (x : ℚ)
  | infinite (negative : Bool)
  | nan

/-- What `json.loads` returns. The keys of an object are distinct. -/
inductive Json
  | null
  | bool (b : Bool)
  | int (n : ℤ)
  | float (x : Number)
  | str (s : String)
  | arr (xs : List Json)
  | obj (entries : List (String × Json))

/-- The exceptions the mappers raise. -/
inductive PyError
  | attributeError
  | keyError
  | overflowError
  | typeError
  | valueError
  deriving DecidableEq

namespace Json

/-- The entries of an object. -/
abbrev Object := List (String × Json)

/-- `bool(value)`. -/
def truthy : Json → Bool
  | null => false
  | bool b => b
  | int n => n ≠ 0
  | float (.finite x) => x ≠ 0
  | float _ => true
  | str s => s ≠ ""
  | arr xs => !xs.isEmpty
  | obj entries => !entries.isEmpty

/-- `value or default`. -/
def orElse (value default : Json) : Json := if value.truthy then value else default

/-- Lists and dicts have no hash. -/
def hashable : Json → Bool
  | arr _ => false
  | obj _ => false
  | _ => true

/-- `entries.get(key, default)`. -/
def getD (entries : Object) (key : String) (default : Json) : Json :=
  ((entries.find? fun e => e.1 = key).map Prod.snd).getD default

/-- `entries.get(key)`. -/
def get (entries : Object) (key : String) : Json := getD entries key null

/-- The entries of a value `.get` is called on; only a dict has that method. -/
def entries : Json → Except PyError Object
  | obj entries => .ok entries
  | _ => .error .attributeError

end Json

/-- How the standard library reads and prints texts; `none` where it raises. -/
structure Codec where
  /-- `json.loads(text)` -/
  loads : String → Option Json
  /-- `str(value)` of a value that is not a text -/
  repr : Json → String
  /-- `Decimal(text)` -/
  decimal : String → Option Number
  /-- `datetime.fromisoformat(text)` -/
  fromisoformat : String → Option Datetime
  /-- `float(text)` -/
  float : String → Option Number
  /-- `float(n)` of an `int` -/
  floatOfInt : ℤ → Option Number

namespace Codec

variable (c : Codec)

/-- `str(value)` -/
def str : Json → String
  | .str s => s
  | value => c.repr value

/-- `float(value)` -/
def toFloat : Json → Except PyError Number
  | .bool b => .ok (.finite (if b then 1 else 0))
  | .int n =>
    match c.floatOfInt n with
    | some x => .ok x
    | none => .error .overflowError
  | .float x => .ok x
  | .str s =>
    match c.float s with
    | some x => .ok x
    | none => .error .valueError
  | _ => .error .typeError

end Codec

/-- `int(x)` of a `float` -/
def Number.toInt : Number → Except PyError ℤ
  | .finite x => .ok (truncate x)
  | .infinite _ => .error .overflowError
  | .nan => .error .valueError

/-! ## The mappers of the host's envelope -/

namespace Pubsub

variable (c : Codec)

/-- A decimal; what cannot be read is absent. -/
def dec (value : Json) : Option Number :=
  match value with
  | .null => none
  | .str "" => none
  | value => c.decimal (c.str value)

/-- A timestamp; what cannot be read is absent. -/
def dt (value : Json) : Option Datetime :=
  if value.truthy then c.fromisoformat (c.str value) else none

/-- A fill or status update as the envelope gives it. -/
structure FillEvent where
  ttOrderId : String
  status : Option String
  averageFillPrice : Option Number
  filledQuantity : Option Number
  remainingQuantity : Option Number
  filledAt : Option Datetime

/-- A position as the envelope gives it; the texts are passed on unread. -/
structure BrokerPosition where
  accountNumber : String
  symbol : Json
  quantity : Number
  quantityDirection : Json
  underlyingSymbol : Json
  instrumentType : Json
  averageOpenPrice : Option Number
  markPrice : Option Number
  closePrice : Option Number
  realizedDayGain : Option Number
  realizedDayGainEffect : Option String
  multiplier : ℤ
  expiresAt : Option Datetime

/-- A balance snapshot as the envelope gives it. -/
structure BalanceMessage where
  accountNumber : String
  raw : Json.Object
  netLiquidatingValue : Option Number
  cashBalance : Option Number
  equityBuyingPower : Option Number
  derivativeBuyingPower : Option Number
  maintenanceRequirement : Option Number
  pendingCash : Option Number
  dayTradingBuyingPower : Option Number
  capturedAt : Option Datetime

/-- `msg.get("data", {})`, on which `.get` is called. -/
def data (msg : Json.Object) : Except PyError Json.Object :=
  (Json.getD msg "data" (.obj [])).entries

/-- `str(data.get("order_id") or "")` -/
def orderId (data : Json.Object) : String := c.str ((Json.get data "order_id").orElse (.str ""))

/-- The status of an order and whether it maps to filled; only a text can be mapped. -/
def status (data : Json.Object) : Except PyError (Option String × Bool) :=
  match Json.get data "status" with
  | .null => .ok (none, false)
  | .str raw => .ok (some raw, mapOrderStatus (some raw) = some .filled)
  | _ => .error .attributeError

/-- An order envelope; without an order id there is nothing to enrich. -/
def fillEventFromPubsub (msg : Json.Object) : Except PyError (Option FillEvent) := do
  let data ← data msg
  if orderId c data = "" then pure none
  else do
    let (status, isFilled) ← status data
    pure (some {
      ttOrderId := orderId c data
      status
      averageFillPrice := dec c (Json.get data "fill_price")
      filledQuantity := dec c (Json.get data "filled_quantity")
      remainingQuantity := dec c (Json.get data "remaining_quantity")
      filledAt := if isFilled then dt c (Json.get msg "timestamp") else none })

/-- `int(float(data.get("multiplier") or 1))` -/
def multiplier (data : Json.Object) : Except PyError ℤ :=
  c.toFloat ((Json.get data "multiplier").orElse (.int 1)) >>= Number.toInt

/-- A position envelope; without a symbol or a quantity it is no position. -/
def positionFromPubsub (msg : Json.Object) (accountNumber : String) :
    Except PyError (Option BrokerPosition) := do
  let data ← data msg
  let symbol := (Json.get data "symbol").orElse (.str "")
  match symbol.truthy, dec c (Json.get data "quantity") with
  | true, some quantity => do
    let multiplier ← multiplier c data
    pure (some {
      accountNumber
      symbol
      quantity
      quantityDirection := (Json.get data "quantity_direction").orElse (.str "Long")
      underlyingSymbol := Json.get data "underlying_symbol"
      instrumentType := Json.get data "instrument_type"
      averageOpenPrice := dec c (Json.get data "average_open_price")
      markPrice := dec c (Json.get data "mark_price")
      closePrice := dec c (Json.get data "close_price")
      realizedDayGain := dec c (Json.get data "realized_day_gain")
      realizedDayGainEffect := none
      multiplier
      expiresAt := dt c (Json.get data "expires_at") })
  | _, _ => pure none

/-- A balance envelope. -/
def balanceFromPubsub (msg : Json.Object) (accountNumber : String) :
    Except PyError BalanceMessage := do
  let data ← data msg
  pure {
    accountNumber
    raw := data
    netLiquidatingValue := dec c (Json.get data "net_liquidating_value")
    cashBalance := dec c (Json.get data "cash_balance")
    equityBuyingPower := dec c (Json.get data "equity_buying_power")
    derivativeBuyingPower := dec c (Json.get data "derivative_buying_power")
    maintenanceRequirement := dec c (Json.get data "maintenance_requirement")
    pendingCash := dec c (Json.get data "pending_cash")
    dayTradingBuyingPower := dec c (Json.get data "day_trading_buying_power")
    capturedAt := dt c (Json.get msg "timestamp") }

end Pubsub

/-! ## Accounts -/

/-- The nicknames of the accounts and their numbers. -/
structure AccountMapper where
  n2num : Dict String String

/-- The number of an account: a lookup in a dict of texts, so a value without a hash raises, and
any other value that is not a nickname is a missing key. -/
def AccountMapper.toAccountNumber (accounts : AccountMapper) (nickname : Json) :
    Except PyError String :=
  if nickname.hashable then
    match nickname with
    | .str s =>
      match accounts.n2num.get? s with
      | some number => .ok number
      | none => .error .keyError
    | _ => .error .keyError
  else .error .typeError

/-! ## Entries -/

/-- A key or a value of an entry: a text, or the bytes of a client that does not decode. -/
inductive Field
  | str (s : String)
  | bytes (b : ByteArray)

/-- The text of a field, unless its bytes are not UTF-8. -/
def Field.decode : Field → Option String
  | str s => some s
  | bytes b => String.fromUTF8? b

/-- The fields of an entry. -/
abbrev Fields := List (Field × Field)

/-- A message of the stream. -/
inductive StreamMessage
  | fill (evt : Pubsub.FillEvent)
  | position (pos : Pubsub.BrokerPosition)
  | balance (msg : Pubsub.BalanceMessage)

/-- What the source is configured with: its accounts, the nicknames it is scoped to, and how it
polls. -/
structure StreamSource where
  accounts : AccountMapper
  nicknames : Option (List String) := none
  /-- Where the group begins when the source creates it. -/
  startId : String := "$"
  reclaimIntervalSeconds : ℚ := 60
  maxConnectAttempts : Option ℕ := none
  /-- The client is the source's own, not one handed in. -/
  ownsClient : Bool := true

namespace StreamSource

variable (c : Codec) (src : StreamSource)

/-- The fields as texts. -/
def decodeFields (fields : Fields) : Option (Dict String String) := do
  let texts ← fields.mapM fun e => do pure (← e.1.decode, ← e.2.decode)
  pure (texts.foldl (fun d e => d.set e.1 e.2) Dict.empty)

/-- The guarded part of `parseEntry`: the envelope of an account event. Whatever goes wrong here
makes the entry a malformed one. -/
def envelope (fields : Fields) : Option Json.Object := do
  let decoded ← decodeFields fields
  if Text.startsWith ((decoded.get? "event_type").getD "").toList "account.".toList then
    match ← c.loads (← decoded.get? "payload") with
    | .obj msg => some msg
    | _ => none
  else none

/-- `nickname not in self._nicknames`, where there is such a set: membership hashes the value. -/
def filtersOut (nickname : Json) : Except PyError Bool :=
  match src.nicknames with
  | none => .ok false
  | some nicknames =>
    if nickname.hashable then
      match nickname with
      | .str s => .ok (!nicknames.contains s)
      | _ => .ok true
    else .error .typeError

/-- The message of an envelope for an account, by its type. -/
def readMessage (msg : Json.Object) (accountNumber : String) :
    Except PyError (Option StreamMessage) :=
  match Json.get msg "type" with
  | .str "order" => do return (← Pubsub.fillEventFromPubsub c msg).map .fill
  | .str "position" => do
    return (← Pubsub.positionFromPubsub c msg accountNumber).map .position
  | .str "balance" => do return some (.balance (← Pubsub.balanceFromPubsub c msg accountNumber))
  | _ => pure none

/-- One stream entry: a message, or nothing to deliver. -/
def parseEntry (fields : Fields) : Except PyError (Option StreamMessage) :=
  match envelope c fields with
  | none => pure none
  | some msg =>
    let nickname := Json.get msg "account_number"
    if !nickname.truthy then pure none
    else do
      if ← src.filtersOut nickname then pure none
      else
        match src.accounts.toAccountNumber nickname with
        | .ok accountNumber => readMessage c msg accountNumber
        | .error .keyError => pure none
        | .error e => throw e

end StreamSource

end TtLedger
