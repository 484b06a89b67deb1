import TtLedger.Ingest.Balances
import TtLedger.Ingest.Remap

/-!
# The REST client

`TastyTradeClient` (`ingest/tastytrade_client.py`) reads the broker's REST API: it keeps an OAuth
token and renews it before it expires or when a request is refused (`ensureToken`, `get`), reads the
lists of orders and transactions page by page (`getAllPages`), and maps their items to the records
the importers take. Its transport, its clock and its own two fields are calls (`RestOp`): what the
broker answers, and when, is up to the meaning of the calls.

The records hold texts where the JSON has texts, and finite decimals: an item with anything else in
such a place, which the client would hand on as it is, is refused here (`notText`, `notFinite`).
-/

namespace TtLedger

/-! ## Calls -/

/-- A response; `json` is what `resp.json()` returns, unless it raises. -/
structure HttpResponse where
  statusCode : ℕ
  text : String
  json : Option Json

/-- What the client asks of its transport and its clock, and of its fields. -/
inductive RestOp
  | now
  | accessToken
  | tokenExpiresAt
  | setAccessToken (token : Json)
  | setTokenExpiresAt (expiresAt : Datetime)
  | post (path : String) (json : Json.Object)
  | get (path : String) (params : Json.Object) (authorization : String)

namespace RestOp

/-- What a call returns. -/
@[reducible] def Reply : RestOp → Type
  | now => Datetime
  | accessToken => Json
  | tokenExpiresAt => Option Datetime
  | setAccessToken _ => Unit
  | setTokenExpiresAt _ => Unit
  | post _ _ => HttpResponse
  | get _ _ _ => HttpResponse

end RestOp

/-- What the client raises. -/
inductive ClientError
  /-- `TastyTradeApiError` -/
  | api (message : String)
  | python (e : PyError)
  /-- `decimal.InvalidOperation` -/
  | invalidOperation
  /-- The transport fails. -/
  | transport (message : String)
  | notText
  | notFinite
  deriving DecidableEq

/-- Programs of the client. -/
abbrev ClientProg (α : Type) := Prog RestOp RestOp.Reply ClientError α

/-! ## The calls as programs -/

namespace Http

abbrev now : ClientProg Datetime := Prog.invoke RestOp.now

abbrev accessToken : ClientProg Json := Prog.invoke RestOp.accessToken

abbrev tokenExpiresAt : ClientProg (Option Datetime) := Prog.invoke RestOp.tokenExpiresAt

abbrev setAccessToken (token : Json) : ClientProg Unit := Prog.invoke (RestOp.setAccessToken token)

abbrev setTokenExpiresAt (expiresAt : Datetime) : ClientProg Unit :=
  Prog.invoke (RestOp.setTokenExpiresAt expiresAt)

abbrev post (path : String) (json : Json.Object) : ClientProg HttpResponse :=
  Prog.invoke (RestOp.post path json)

abbrev get (path : String) (params : Json.Object) (authorization : String) :
    ClientProg HttpResponse :=
  Prog.invoke (RestOp.get path params authorization)

end Http

/-- How the standard library reads what the client hands to it. -/
structure ClientCodec extends Codec where
  /-- `int(text)` -/
  int : String → Option ℤ
  /-- `date.isoformat()` -/
  isoformat : Date → String
  /-- `date.fromisoformat(text)` -/
  dateFromisoformat : String → Option Date
  /-- `datetime.fromtimestamp(value / 1000, tz=UTC)` of a number -/
  fromtimestamp : Json → Except PyError Datetime

/-- The login of a client. -/
structure ClientConfig where
  clientId : String
  clientSecret : String
  refreshToken : String

/-! ## Values -/

namespace Json

/-- Whether an object has a key. -/
def hasKey (entries : Object) (key : String) : Bool := entries.any fun e => e.1 = key

/-- `for x in value`: a text gives its characters, a dict its keys. -/
def iter : Json → Except PyError (List Json)
  | arr xs => .ok xs
  | str s => .ok (s.toList.map fun c => .str (String.ofList [c]))
  | obj entries => .ok (entries.map fun e => .str e.1)
  | _ => .error .typeError

/-- `value[key]` -/
def item (value : Json) (key : String) : Except PyError Json :=
  match value with
  | obj entries => if hasKey entries key then .ok (get entries key) else .error .keyError
  | _ => .error .typeError

end Json

namespace ClientCodec

variable (c : ClientCodec)

/-- `repr(value)` -/
def reprOf : Json → String
  | .str s => quoted s
  | value => c.repr value

/-- `int(value)` -/
def toInt : Json → Except PyError ℤ
  | .bool b => .ok (if b then 1 else 0)
  | .int n => .ok n
  | .float x => x.toInt
  | .str s =>
    match c.int s with
    | some n => .ok n
    | none => .error .valueError
  | _ => .error .typeError

end ClientCodec

/-- A computation of the client that may raise. -/
abbrev Raises (α : Type) := Except ClientError α

/-- What Python raises. -/
def Raises.python {α : Type} : Except PyError α → Raises α
  | .ok a => .ok a
  | .error e => .error (.python e)

/-- `resp.json()` -/
def HttpResponse.body (resp : HttpResponse) : Raises Json :=
  match resp.json with
  | some json => .ok json
  | none => .error (.python .valueError)

/-! ## Tokens -/

namespace TastyTradeClient

variable (c : ClientCodec) (cfg : ClientConfig)

/-- A token is renewed a minute early, but kept for a minute. -/
def nowWithMargin (now : Datetime) (expiresInSeconds : ℤ) : Datetime :=
  now + max (expiresInSeconds - 60) 60 * second

def tokenLifetimeFallbackSeconds : ℤ := 900

/-- The access token of a token response: `in` finds it among the keys of a dict, the elements of a
list or the parts of a text, and only a dict can then be read. -/
def accessTokenOf (body : Json) : Raises Json :=
  let unexpected : Raises Json := .error (.api
    ("Unexpected OAuth token response shape (expected an 'access_token' key): " ++ c.reprOf body))
  match body with
  | .obj entries =>
    if Json.hasKey entries "access_token" then .ok (Json.get entries "access_token")
    else unexpected
  | .arr xs =>
    if xs.any fun | .str s => s = "access_token" | _ => false then .error (.python .typeError)
    else unexpected
  | .str s =>
    if Text.contains s.toList "access_token".toList then .error (.python .typeError)
    else unexpected
  | _ => .error (.python .typeError)

/-- The lifetime of a token response. -/
def expiresIn (body : Json) : Raises ℤ := Raises.python do
  c.toInt (Json.getD (← body.entries) "expires_in" (.int tokenLifetimeFallbackSeconds))

/-- Exchange the refresh token for an access token. -/
def authenticate : ClientProg Unit := do
  let resp ← Http.post "/oauth/token"
    [("grant_type", .str "refresh_token"), ("refresh_token", .str cfg.refreshToken),
     ("client_id", .str cfg.clientId), ("client_secret", .str cfg.clientSecret)]
  if 400 ≤ resp.statusCode then
    .raise (.api ("OAuth token exchange failed: " ++ toString resp.statusCode ++ " " ++ resp.text))
  else
    let body ← Prog.ofExcept resp.body
    let token ← Prog.ofExcept (accessTokenOf c body)
    Http.setAccessToken token
    -- a lifetime that cannot be read leaves the new token under the old expiry
    let seconds ← Prog.ofExcept (expiresIn c body)
    let now ← Http.now
    Http.setTokenExpiresAt (nowWithMargin now seconds)

/-- The access token, renewed when there is none or it expires. -/
def ensureToken : ClientProg Json := do
  let now ← Http.now
  let token ← Http.accessToken
  let expiresAt ← Http.tokenExpiresAt
  let fresh := match token, expiresAt with
    | .null, _ => false
    | _, none => false
    | _, some expiresAt => now < expiresAt
  if fresh then pure ()
  else authenticate c cfg
  Http.accessToken

/-! ## Requests -/

/-- The error of a response, from its error envelope or, when it is not JSON, from its text. -/
def raiseForError (resp : HttpResponse) : Raises Unit :=
  let raised (code message : String) : Raises Unit := .error (.api ("TastyTrade API error " ++
    toString resp.statusCode ++ " [" ++ code ++ "]: " ++ message))
  if resp.statusCode < 400 then .ok ()
  else
    match resp.json with
    | none => raised "unknown" resp.text
    | some json => do
      let body ← Raises.python json.entries
      let error ← Raises.python (Json.getD body "error" (.obj [])).entries
      raised (c.str (Json.getD error "code" (.str "unknown")))
        (c.str (Json.getD error "message" (.str resp.text)))

/-- A parameter that is not `None`. -/
def isGiven : String × Json → Bool
  | (_, .null) => false
  | _ => true

/-- One request under the access token; a refused one is repeated once, under a new token. -/
def get (path : String) (params : Json.Object) : ClientProg Json := do
  let token ← ensureToken c cfg
  let clean := params.filter isGiven
  let resp ← Http.get path clean ("Bearer " ++ c.str token)
  let resp ←
    if resp.statusCode = 401 then do
      authenticate c cfg
      let token ← Http.accessToken
      Http.get path clean ("Bearer " ++ c.str token)
    else pure resp
  Prog.ofExcept (raiseForError c resp)
  Prog.ofExcept resp.body

/-! ## Pages -/

/-- The items of a page. -/
def pageItems (body : Json) : Raises (List Json) := Raises.python do
  (Json.getD (← (Json.getD (← body.entries) "data" (.obj [])).entries) "items" (.arr [])).iter

/-- How many pages there are, as the page says. -/
def totalPages (body : Json) : Raises Json := Raises.python do
  pure (Json.getD (← (Json.getD (← body.entries) "pagination" (.obj [])).entries) "total-pages"
    (.int 1))

/-- `n >= value` -/
def atLeast (n : ℤ) : Json → Raises Bool
  | .bool b => .ok (decide ((if b then 1 else 0) ≤ n))
  | .int m => .ok (decide (m ≤ n))
  | .float (.finite x) => .ok (decide (x ≤ n))
  | .float (.infinite negative) => .ok negative
  | .float .nan => .ok false
  | _ => .error (.python .typeError)

/-- Whether no page follows the pages read. -/
def isLastPage (items : List Json) (pageOffset : ℕ) (totalPages : Json) : Raises Bool :=
  if items.isEmpty then .ok true else atLeast pageOffset totalPages

/-- The parameters that ask for one page. -/
def pageParams (pageOffset perPage : ℕ) : Json.Object :=
  [("page-offset", .int pageOffset), ("per-page", .int perPage)]

/-- The pages from one on, until one is empty or the last; `fuel` bounds the requests. -/
def pagesFrom (path : String) (params : Json.Object) (perPage : ℕ) :
    ℕ → ℕ → List Json → ClientProg (Option (List Json))
  | 0, _, _ => pure none
  | fuel + 1, pageOffset, items => do
    let body ← get c cfg path (params ++ pageParams pageOffset perPage)
    let pageItems ← Prog.ofExcept (pageItems body)
    let totalPages ← Prog.ofExcept (totalPages body)
    if ← Prog.ofExcept (isLastPage pageItems (pageOffset + 1) totalPages) then
      pure (some (items ++ pageItems))
    else pagesFrom path params perPage fuel (pageOffset + 1) (items ++ pageItems)

/-- The items of all pages, unless the fuel runs out first. -/
def getAllPages (fuel : ℕ) (path : String) (params : Json.Object) (perPage : ℕ) :
    ClientProg (Option (List Json)) :=
  pagesFrom c cfg path params perPage fuel 0 []

end TastyTradeClient

/-! ## Records -/

namespace BrokerJson

variable (c : ClientCodec)

/-- A decimal, when there is one. -/
def parseDecimal (value : Json) : Raises (Option ℚ) :=
  match value with
  | .null => .ok none
  | value =>
    match c.decimal (c.str value) with
    | none => .error .invalidOperation
    | some (.finite x) => .ok (some x)
    | some _ => .error .notFinite

/-- `parse_decimal(value) or Decimal("0")` -/
def parseDecimalOrZero (value : Json) : Raises ℚ := do
  pure ((← parseDecimal c value).getD 0)

/-- A timestamp in ISO 8601 or in milliseconds since the epoch. -/
def parseDatetime (value : Json) : Raises (Option Datetime) :=
  match value with
  | .null => .ok none
  | .str s =>
    match c.fromisoformat s with
    | some t => .ok (some t)
    | none => .error (.python .valueError)
  | .arr _ => .error (.python .typeError)
  | .obj _ => .error (.python .typeError)
  | value => Raises.python ((c.fromtimestamp value).map some)

def parseDate (value : Json) : Raises (Option Date) :=
  match value with
  | .null => .ok none
  | .str s =>
    match c.dateFromisoformat s with
    | some d => .ok (some d)
    | none => .error (.python .valueError)
  | _ => .error (.python .typeError)

/-- A text, when there is one. -/
def text? (value : Json) : Raises (Option String) :=
  match value with
  | .null => .ok none
  | .str s => .ok (some s)
  | _ => .error .notText

def text (value : Json) : Raises String :=
  match value with
  | .str s => .ok s
  | _ => .error .notText

/-- A flag, when there is one. -/
def flag? (value : Json) : Raises (Option Bool) :=
  match value with
  | .null => .ok none
  | .bool b => .ok (some b)
  | _ => .error .notText

/-- The entries of an item. -/
def entriesOf (item : Json) : Raises Json.Object := Raises.python item.entries

/-- `str(item[key])` -/
def requiredId (item : Json) (key : String) : Raises String := do
  pure (c.str (← Raises.python (item.item key)))

/-- One execution of a leg. -/
def fillFromJson (fill : Json) : Raises PlacedFill := do
  let fillId ← text (← Raises.python (fill.item "fill-id"))
  let entries ← entriesOf fill
  pure {
    fillId
    quantity := ← parseDecimalOrZero c (Json.get entries "quantity")
    fillPrice := ← parseDecimalOrZero c (Json.get entries "fill-price")
    filledAt := ← match ← parseDatetime c (← Raises.python (fill.item "filled-at")) with
      | some t => .ok t
      | none => .error .notText
    destinationVenue := ← text? (Json.get entries "destination-venue")
    extExecId := ← text? (Json.get entries "ext-exec-id")
    extGroupFillId := ← text? (Json.get entries "ext-group-fill-id") }

/-- One leg of an order. -/
def legFromJson (leg : Json) : Raises PlacedLeg := do
  let instrumentType ← text (← Raises.python (leg.item "instrument-type"))
  let symbol ← text (← Raises.python (leg.item "symbol"))
  let action ← text (← Raises.python (leg.item "action"))
  let entries ← entriesOf leg
  pure {
    instrumentType
    symbol
    action
    quantity := ← parseDecimalOrZero c (Json.get entries "quantity")
    remainingQuantity := ← parseDecimalOrZero c (Json.get entries "remaining-quantity")
    fills := ← (← Raises.python (Json.getD entries "fills" (.arr [])).iter).mapM (fillFromJson c) }

/-- An order of the order history; one the stream sends may lack the instant it was received at. -/
def orderFromJson (item : Json) : ClientProg PlacedOrder := do
  let entries ← Prog.ofExcept (entriesOf item)
  let legs ← Prog.ofExcept do
    (← Raises.python (Json.getD entries "legs" (.arr [])).iter).mapM (legFromJson c)
  let id ← Prog.ofExcept (requiredId c item "id")
  let _ ← Prog.ofExcept (requiredId c item "account-number")
  let receivedAt ← match ← Prog.ofExcept (parseDatetime c (Json.get entries "received-at")) with
    | some receivedAt => pure receivedAt
    | none => Http.now
  Prog.ofExcept do
    let order : PlacedOrder := {
      id
      receivedAt
      legs
      underlyingSymbol := ← text? (Json.get entries "underlying-symbol")
      orderType := ← text? (Json.get entries "order-type")
      timeInForce := ← text? (Json.get entries "time-in-force")
      gtcDate := ← text? (Json.get entries "gtc-date")
      price := ← parseDecimal c (Json.get entries "price")
      stopTrigger := ← parseDecimal c (Json.get entries "stop-trigger")
      priceEffect := ← text? (Json.get entries "price-effect")
      status := ← text? (Json.get entries "status")
      rejectReason := ← text? (Json.get entries "reject-reason")
      complexOrderId := ← text? (Json.get entries "complex-order-id")
      complexOrderTag := ← text? (Json.get entries "complex-order-tag")
      terminalAt := ← do
        -- read, and raising when it cannot be, but used by no importer
        let _ ← parseDatetime c (Json.get entries "updated-at")
        parseDatetime c (Json.get entries "terminal-at") }
    pure order

/-- One row of the transaction history. -/
def transactionFromJson (item : Json) : Raises BrokerTransaction := do
  let entries ← entriesOf item
  let id ← requiredId c item "id"
  let accountNumber ← requiredId c item "account-number"
  pure {
    id
    accountNumber
    orderId := match Json.get entries "order-id" with
      | .null => none
      | orderId => some (c.str orderId)
    underlyingSymbol := ← text? (Json.get entries "underlying-symbol")
    symbol := ← text? (Json.get entries "symbol")
    instrumentType := ← text? (Json.get entries "instrument-type")
    transactionType := ← text? (Json.get entries "transaction-type")
    transactionSubType := ← text? (Json.get entries "transaction-sub-type")
    action := ← text? (Json.get entries "action")
    quantity := ← parseDecimal c (Json.get entries "quantity")
    price := ← parseDecimal c (Json.get entries "price")
    value := ← parseDecimal c (Json.get entries "value")
    valueEffect := ← text? (Json.get entries "value-effect")
    netValue := ← parseDecimal c (Json.get entries "net-value")
    netValueEffect := ← text? (Json.get entries "net-value-effect")
    commission := ← parseDecimal c (Json.get entries "commission")
    clearingFees := ← parseDecimal c (Json.get entries "clearing-fees")
    regulatoryFees := ← parseDecimal c (Json.get entries "regulatory-fees")
    proprietaryIndexOptionFees :=
      ← parseDecimal c (Json.get entries "proprietary-index-option-fees")
    isEstimatedFee := ← flag? (Json.get entries "is-estimated-fee")
    description := ← text? (Json.get entries "description")
    executedAt := ← parseDatetime c (Json.get entries "executed-at")
    transactionDate := ← parseDate c (Json.get entries "transaction-date") }

/-- One row of the current positions. -/
def positionFromJson (item : Json) : Raises BrokerPosition := do
  let entries ← entriesOf item
  let _ ← requiredId c item "account-number"
  let symbol ← text (← Raises.python (item.item "symbol"))
  pure {
    symbol
    quantity := ← parseDecimalOrZero c (Json.get entries "quantity")
    quantityDirection := ← text (Json.getD entries "quantity-direction" (.str ""))
    instrumentType := ← text? (Json.get entries "instrument-type")
    averageOpenPrice := ← parseDecimal c (Json.get entries "average-open-price")
    markPrice := ← parseDecimal c (Json.get entries "mark-price")
    closePrice := ← parseDecimal c (Json.get entries "close-price")
    realizedDayGain := ← parseDecimal c (Json.get entries "realized-day-gain")
    realizedDayGainEffect := ← text? (Json.get entries "realized-day-gain-effect")
    multiplier := ← match Json.get entries "multiplier" with
      | .null => .ok 1
      | multiplier => Raises.python (c.toFloat multiplier >>= Number.toInt)
    expiresAt := ← parseDatetime c (Json.get entries "expires-at") }

/-- The current balances. -/
def balanceFromJson (item : Json) : Raises BalanceMessage := do
  let entries ← entriesOf item
  pure {
    accountNumber := c.str (Json.getD entries "account-number" (.str ""))
    raw := entries
    netLiquidatingValue := ← parseDecimal c (Json.get entries "net-liquidating-value")
    cashBalance := ← parseDecimal c (Json.get entries "cash-balance")
    equityBuyingPower := ← parseDecimal c (Json.get entries "equity-buying-power")
    derivativeBuyingPower := ← parseDecimal c (Json.get entries "derivative-buying-power")
    maintenanceRequirement := ← parseDecimal c (Json.get entries "maintenance-requirement")
    pendingCash := ← parseDecimal c (Json.get entries "pending-cash")
    dayTradingBuyingPower := ← parseDecimal c (Json.get entries "day-trading-buying-power")
    capturedAt := ← parseDatetime c (Json.get entries "updated-at") }

end BrokerJson

/-! ## What the importers ask for -/

namespace TastyTradeClient

variable (c : ClientCodec) (cfg : ClientConfig)

def defaultPerPage : ℕ := 250

/-- The most the order history gives. -/
def ordersPerPage : ℕ := 200

/-- Where the broker lists the orders of an account. -/
def ordersPath (accountNumber : String) : String := "/accounts/" ++ accountNumber ++ "/orders"

/-- Where the broker lists the transactions of an account. -/
def transactionsPath (accountNumber : String) : String :=
  "/accounts/" ++ accountNumber ++ "/transactions"

/-- The parameters of a listing from one date to another. -/
def between (start stop : Date) : Json.Object :=
  [("start-date", .str (c.isoformat start)), ("end-date", .str (c.isoformat stop))]

/-- The orders of an account from one date to another. -/
def getOrderHistory (fuel : ℕ) (accountNumber : String) (start stop : Date) :
    ClientProg (Option (List PlacedOrder)) := do
  match ← getAllPages c cfg fuel (ordersPath accountNumber) (between c start stop)
    ordersPerPage with
  | none => pure none
  | some items => do
    let orders ← items.mapM (BrokerJson.orderFromJson c)
    pure (some orders)

/-- The transactions of an account from one date to another. -/
def getTransactionHistory (fuel : ℕ) (accountNumber : String) (start stop : Date) :
    ClientProg (Option (List BrokerTransaction)) := do
  match ← getAllPages c cfg fuel (transactionsPath accountNumber) (between c start stop)
    defaultPerPage with
  | none => pure none
  | some items => do
    let txns ← Prog.ofExcept (items.mapM (BrokerJson.transactionFromJson c))
    pure (some txns)

/-- The current positions of an account. -/
def getPositions (accountNumber : String) : ClientProg (List BrokerPosition) := do
  let body ← get c cfg ("/accounts/" ++ accountNumber ++ "/positions") []
  Prog.ofExcept do (← pageItems body).mapM (BrokerJson.positionFromJson c)

/-- The current balances of an account. -/
def getBalances (accountNumber : String) : ClientProg BalanceMessage := do
  let body ← get c cfg ("/accounts/" ++ accountNumber ++ "/balances") []
  Prog.ofExcept do
    BrokerJson.balanceFromJson c (Json.getD (← BrokerJson.entriesOf body) "data" (.obj []))

end TastyTradeClient

end TtLedger
