import TtLedger.Foundations.Trace
import TtLedger.Ingest.StreamEntry

/-!
# The stream source and its consumer

`RedisStreamMessageSource.messages` (`ingest/redis_stream_source.py`) is a generator: it reads
batches of the consumer group, reclaims stale pending entries, yields the messages and acknowledges
an entry when it is resumed. Here it is a program whose calls are those of the Redis client and
`yield`. `StreamConsumer.run` (`ingest/push.py`) runs it: each `yield` is carried out by the
consumer's loop body, which applies the message to the store.

A `while True` takes the number of its iterations as a parameter; when they are used up, the task
is cancelled. A run may be cut off anywhere, so the traces of a run are the prefixes of it.
-/

namespace TtLedger

/-! ## Calls -/

/-- Redis's identifier of an entry. -/
abbrev EntryId := String

/-- An entry as it is delivered; a trimmed one has no fields left. -/
abbrev Entry := EntryId × Fields

/-- What the source awaits, reads and logs. -/
inductive ClientOp
  | xgroupCreate (startId : String)
  | xreadgroup
  | xautoclaim (cursor : String)
  | xack (id : EntryId)
  | aclose
  | monotonic
  | sleep (seconds : ℚ)
  | logTrimmed (id : EntryId)

/-- What a call of the client returns. -/
@[reducible] def ClientOp.Reply : ClientOp → Type
  | xgroupCreate _ => Unit
  | xreadgroup => List (String × List Entry)
  | xautoclaim _ => String × List Entry
  | xack _ => Unit
  | aclose => Unit
  | monotonic => ℚ
  | sleep _ => Unit
  | logTrimmed _ => Unit

/-- What a call may raise. -/
inductive StreamError
  /-- The blocking read timed out. -/
  | timeout
  | responseError (text : String)
  | failure (text : String)
  | python (e : PyError)
  /-- The generator was closed at a `yield`. -/
  | generatorExit
  /-- The task was cancelled. -/
  | cancelled

/-- `except Exception` catches it. -/
def StreamError.isException : StreamError → Bool
  | generatorExit => false
  | cancelled => false
  | _ => true

/-- The calls of the generator. -/
inductive SourceOp
  | client (op : ClientOp)
  | yield (msg : StreamMessage)

@[reducible] def SourceOp.Reply : SourceOp → Type
  | client op => op.Reply
  | yield _ => Unit

/-- Programs of the source. -/
abbrev SourceProg (α : Type) := Prog SourceOp SourceOp.Reply StreamError α

/-! ## The generator -/

/-- What survives a lost connection: the failed attempts in a row, and the next delay. -/
structure Retry where
  attempts : ℕ := 0
  backoff : ℚ := 1

/-- What the polling loop carries. -/
structure Polling where
  nextReclaim : ℚ := 0
  idleTimeouts : ℕ := 0
  retry : Retry := {}

namespace StreamSource

/-- The delay is doubled up to this many seconds. -/
def reconnectMaxSeconds : ℚ := 30

/-- This many timeouts in a row are a lost connection. -/
def maxConsecutiveReadTimeouts : ℕ := 3

/-- Issue one call of the client. -/
abbrev client (op : ClientOp) : SourceProg op.Reply := Prog.invoke (SourceOp.client op)

abbrev yield (msg : StreamMessage) : SourceProg Unit := Prog.invoke (SourceOp.yield msg)

variable (c : Codec) (src : StreamSource)

/-- Create the consumer group, unless it is there. -/
def ensureGroup : SourceProg Unit := do
  match ← (client (.xgroupCreate src.startId)).attempt with
  | .ok _ => pure ()
  | .error (.responseError text) =>
    if Text.contains text.toList "BUSYGROUP".toList then pure () else .raise (.responseError text)
  | .error e => .raise e

/-- Deliver one entry and acknowledge it: at once if there is nothing to deliver, else when the
caller has come back for the next one. -/
def deliver (entry : Entry) : SourceProg Unit :=
  match src.parseEntry c entry.2 with
  | .error e => .raise (.python e)
  | .ok none => client (.xack entry.1)
  | .ok (some msg) => do
    yield msg
    client (.xack entry.1)

/-- Deliver one reclaimed entry; of a trimmed one there is nothing left to deliver. -/
def deliverReclaimed (entry : Entry) : SourceProg Unit :=
  if entry.2.isEmpty then do
    client (.logTrimmed entry.1)
    client (.xack entry.1)
  else deliver c src entry

/-- Claim the stale pending entries, batch by batch. -/
def drainReclaimed : ℕ → String → SourceProg Unit
  | 0, _ => .raise .cancelled
  | fuel + 1, cursor => do
    let (nextCursor, entries) ← client (.xautoclaim cursor)
    entries.forM (deliverReclaimed c src)
    if nextCursor = "0-0" ∨ nextCursor = cursor ∨ entries.isEmpty then pure ()
    else drainReclaimed fuel nextCursor

/-- Reclaim when it is due; the time of the next one. -/
def reclaimIfDue (fuel : ℕ) (nextReclaim : ℚ) : SourceProg ℚ := do
  if nextReclaim ≤ (← client .monotonic) then
    drainReclaimed c src fuel "0-0"
    return (← client .monotonic) + src.reclaimIntervalSeconds
  else pure nextReclaim

/-- Deliver what was read; nothing read yields to the other tasks. -/
def deliverAll (resp : List (String × List Entry)) : SourceProg Unit :=
  if resp.isEmpty then client (.sleep 0)
  else resp.forM fun stream => stream.2.forM (deliver c src)

/-- Poll until something is raised; a successful read resets what the reconnects count. -/
def polls : ℕ → Polling → SourceProg (Retry × StreamError)
  | 0, st => pure (st.retry, .cancelled)
  | fuel + 1, st => do
    match ← (reclaimIfDue c src fuel st.nextReclaim).attempt with
    | .error e => pure (st.retry, e)
    | .ok nextReclaim =>
      match ← (client .xreadgroup).attempt with
      | .error .timeout =>
        if maxConsecutiveReadTimeouts ≤ st.idleTimeouts + 1 then pure (st.retry, .timeout)
        else polls fuel { st with nextReclaim, idleTimeouts := st.idleTimeouts + 1 }
      | .error e => pure (st.retry, e)
      | .ok resp =>
        match ← (deliverAll c src resp).attempt with
        | .error e => pure ({}, e)
        | .ok _ => polls fuel { nextReclaim }

/-- One connection, until something is raised. -/
def connection (fuel : ℕ) (retry : Retry) : SourceProg (Retry × StreamError) := do
  match ← (ensureGroup src).attempt with
  | .error e => pure (retry, e)
  | .ok _ => polls c src fuel { retry }

/-- Wait before the next connection, unless the attempts are used up or the source is told to
end. -/
def reconnect (retry : Retry) (e : StreamError) : SourceProg Retry :=
  if e.isException then
    if src.maxConnectAttempts.any (· ≤ retry.attempts + 1) then .raise e
    else do
      client (.sleep retry.backoff)
      pure ⟨retry.attempts + 1, min (retry.backoff * 2) reconnectMaxSeconds⟩
  else .raise e

/-- Close a client of the source's own. -/
def closeClient : SourceProg Unit :=
  if src.ownsClient then do
    match ← (client .aclose).attempt with
    | .ok _ => pure ()
    | .error e => if e.isException then pure () else .raise e
  else pure ()

/-- The generator: connections, one after the other. -/
def messages : ℕ → Retry → SourceProg Unit
  | 0, _ => .raise .cancelled
  | fuel + 1, retry => do
    let (retry, e) ← connection c src fuel retry
    let r ← (reconnect src retry e).attempt
    closeClient src
    let retry ← Prog.ofExcept r
    messages fuel retry

end StreamSource

/-! ## The consumer -/

/-- The calls of the consumer on a store with the calls `S`. -/
inductive ConsumerOp (S : Type)
  | client (op : ClientOp)
  | isStopped
  | store (op : S)
  | logException (msg : StreamMessage)

@[reducible] def ConsumerOp.Reply {S : Type} (Res : S → Type) : ConsumerOp S → Type
  | client op => op.Reply
  | isStopped => Bool
  | store op => Res op
  | logException _ => Unit

namespace StreamConsumer

variable {S : Type} {Res : S → Type}

/-- Programs of the consumer. -/
abbrev ConsumerProg (Res : S → Type) (α : Type) :=
  Prog (ConsumerOp S) (ConsumerOp.Reply Res) StreamError α

/-- A program on the store, as part of the consumer. -/
def onStore {α : Type} (p : Prog S Res StreamError α) : ConsumerProg Res α :=
  p.subst fun op => Prog.invoke (ConsumerOp.store op)

variable (apply : StreamMessage → Prog S Res StreamError Unit)

/-- The body of the consumer's loop. A failed message is logged and skipped. When the loop is left,
by a stop or by what `except Exception` does not catch, the generator is closed. -/
def consume (msg : StreamMessage) : ConsumerProg Res Unit := do
  if ← Prog.invoke ConsumerOp.isStopped then .raise .generatorExit
  else
    match ← (onStore (apply msg)).attempt with
    | .ok _ => pure ()
    | .error e =>
      if e.isException then Prog.invoke (ConsumerOp.logException msg) else .raise .generatorExit

/-- What carries out the generator's calls. -/
def carryOut : (op : SourceOp) → ConsumerProg Res op.Reply
  | .client op => Prog.invoke (ConsumerOp.client op)
  | .yield msg => consume apply msg

/-- Consume the messages of the source. -/
def run (c : Codec) (src : StreamSource) (fuel : ℕ) : ConsumerProg Res Unit :=
  (src.messages c fuel {}).subst (carryOut apply)

end StreamConsumer

end TtLedger
