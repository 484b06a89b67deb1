import TtLedger.Ingest.StreamRun

/-!
# What the stream source acknowledges

`Delivers content` is an environment in which an entry is delivered with the fields `content` gives
its identifier: Redis never changes an entry, it may only trim it away before it is reclaimed. In
such an environment every acknowledgement has a cause (`acksCaused_messages`): the entry was
trimmed, or there was nothing to deliver, or its message has just been yielded and the generator
resumed.
-/

namespace TtLedger

open Prog

/-- A new entry has the fields it was added with; a reclaimed one may have been trimmed. -/
def ClientOp.Delivers (content : EntryId → Fields) :
    (op : ClientOp) → Except StreamError op.Reply → Prop
  | .xreadgroup, .ok resp => ∀ stream ∈ resp, ∀ entry ∈ stream.2, entry.2 = content entry.1
  | .xautoclaim _, .ok resp => ∀ entry ∈ resp.2, entry.2 = content entry.1 ∨ entry.2 = []
  | _, _ => True

namespace StreamSource

/-- The environment of the generator; the caller may do anything at a `yield`. -/
def Delivers (content : EntryId → Fields) :
    Replies SourceOp SourceOp.Reply StreamError
  | .client op, r => op.Delivers content r
  | .yield _, _ => True

variable (c : Codec) (src : StreamSource) (content : EntryId → Fields)

/-- The events of the generator. -/
abbrev SourceEvent := Event SourceOp SourceOp.Reply StreamError

/-- Why an entry is acknowledged after `pre`. -/
inductive AckCause (id : EntryId) (pre : List SourceEvent) : Prop
  /-- There was nothing left of it. -/
  | trimmed {before : List SourceEvent}
      (h : pre = before ++ [⟨.client (.logTrimmed id), .ok ()⟩])
  /-- There was nothing to deliver. -/
  | nothing (hp : src.parseEntry c (content id) = .ok none)
  /-- The caller has come back from its message. -/
  | message {msg : StreamMessage} {before : List SourceEvent}
      (hp : src.parseEntry c (content id) = .ok (some msg))
      (h : pre = before ++ [⟨.yield msg, .ok ()⟩])

/-- Every acknowledgement has a cause. -/
def AcksCaused (tr : List SourceEvent) : Prop :=
  ∀ pre id r post, tr = pre ++ ⟨.client (.xack id), r⟩ :: post → AckCause c src content id pre

variable {c src content}

theorem AckCause.append {id : EntryId} {pre : List SourceEvent}
    (h : AckCause c src content id pre) (tr : List SourceEvent) :
    AckCause c src content id (tr ++ pre) := by
  cases h with
  | trimmed h => exact .trimmed (by rw [h, List.append_assoc])
  | nothing hp => exact .nothing hp
  | message hp h => exact .message hp (by rw [h, List.append_assoc])

theorem local_acksCaused : Local (AcksCaused c src content) where
  nil := fun pre id r post h => by simp at h
  append := by
    intro tr tr' h h' pre id r post he
    obtain ⟨mid, hpre, htr'⟩ | ⟨mid, htr, hmid⟩ := List.append_eq_append_iff.mp he
    · exact hpre ▸ (h' mid id r post htr').append tr
    · cases mid with
      | nil =>
        rw [List.append_nil] at htr
        exact htr ▸ (List.append_nil tr ▸ (h' [] id r post hmid.symm).append tr)
      | cons ev mid =>
        obtain ⟨rfl, -⟩ := List.cons.inj hmid
        exact h pre id r mid htr

/-- A single event that acknowledges nothing. -/
theorem acksCaused_single {op : SourceOp} {r : Except StreamError op.Reply}
    (hop : ∀ id, op ≠ .client (.xack id)) : AcksCaused c src content [⟨op, r⟩] := by
  intro pre id r' post he
  cases pre with
  | nil => cases (List.cons.inj he).1; exact absurd rfl (hop id)
  | cons ev pre => simp at he

/-- An acknowledgement whose cause is the event before it. -/
theorem acksCaused_pair {op : SourceOp} {r : Except StreamError op.Reply} {id : EntryId}
    {r' : Except StreamError Unit} (hop : ∀ id, op ≠ .client (.xack id))
    (h : AckCause c src content id [⟨op, r⟩]) :
    AcksCaused c src content [⟨op, r⟩, ⟨.client (.xack id), r'⟩] := by
  intro pre id' r'' post he
  match pre, he with
  | [], he => cases (List.cons.inj he).1; exact absurd rfl (hop id')
  | [_], he =>
    obtain ⟨rfl, htail⟩ := List.cons.inj he
    have hid : SourceOp.client (.xack id) = .client (.xack id') :=
      congrArg Sigma.fst (List.cons.inj htail).1
    cases hid
    exact h
  | _ :: _ :: pre, he => simp at he

/-- A call and then an acknowledgement, with nothing in between. -/
theorem safe_then_ack {E : Replies SourceOp SourceOp.Reply StreamError} {op : SourceOp}
    {id : EntryId} (hop : ∀ id, op ≠ .client (.xack id))
    (h : ∀ a, AckCause c src content id [⟨op, .ok a⟩]) :
    Safe E (AcksCaused c src content)
      (Prog.invoke op >>= fun _ => client (.xack id) : SourceProg Unit) := by
  intro tr htr
  obtain htr | ⟨tr₁, tr₂, a, rfl, h₁, h₂⟩ := performs_bind htr
  · obtain rfl | ⟨r, -, rfl⟩ := performs_invoke htr
    · exact local_acksCaused.nil
    · exact acksCaused_single hop
  · obtain ⟨-, rfl⟩ := completes_invoke.mp h₁
    obtain rfl | ⟨r, -, rfl⟩ := performs_invoke h₂
    · exact acksCaused_single hop
    · exact acksCaused_pair hop (h a)

theorem safe_client {E : Replies SourceOp SourceOp.Reply StreamError} {op : ClientOp}
    (hop : ∀ id, op ≠ .xack id := by intro _ h; cases h) :
    Safe E (AcksCaused c src content) (client op) :=
  Safe.invoke local_acksCaused fun _ _ =>
    acksCaused_single fun id h => hop id (SourceOp.client.inj h)

section Generator

variable {E : Replies SourceOp SourceOp.Reply StreamError}

theorem safe_deliver {entry : Entry} (h : entry.2 = content entry.1) :
    Safe E (AcksCaused c src content) (deliver c src entry) := by
  unfold deliver
  rw [h]
  split
  · exact Safe.raise local_acksCaused _
  · rename_i hp
    refine Safe.invoke local_acksCaused fun r _ pre id r' post he => ?_
    cases pre with
    | nil =>
      cases (List.cons.inj he).1
      exact .nothing hp
    | cons ev pre => simp at he
  · rename_i msg hp
    exact safe_then_ack (fun _ h => by cases h) fun _ => .message hp (List.nil_append _).symm

theorem safe_deliverReclaimed {entry : Entry} (h : entry.2 = content entry.1 ∨ entry.2 = []) :
    Safe E (AcksCaused c src content) (deliverReclaimed c src entry) := by
  unfold deliverReclaimed
  split
  · exact safe_then_ack (fun _ h => by cases h) fun _ => .trimmed (List.nil_append _).symm
  · rename_i hfields
    refine safe_deliver (h.resolve_right fun hnil => hfields ?_)
    rw [hnil]
    rfl

end Generator

theorem safe_drainReclaimed (fuel : ℕ) (cursor : String) :
    Safe (Delivers content) (AcksCaused c src content) (drainReclaimed c src fuel cursor) := by
  induction fuel generalizing cursor with
  | zero => exact Safe.raise local_acksCaused _
  | succ fuel ih =>
    refine Safe.bind local_acksCaused safe_client fun resp tr htr => ?_
    obtain ⟨hresp, -⟩ := completes_invoke.mp htr
    refine Safe.bind local_acksCaused (Safe.forM local_acksCaused fun entry hentry =>
      safe_deliverReclaimed (hresp entry hentry)) fun _ _ _ => ?_
    split
    · exact Safe.pure local_acksCaused _
    · exact ih _

theorem safe_reclaimIfDue (fuel : ℕ) (nextReclaim : ℚ) :
    Safe (Delivers content) (AcksCaused c src content)
      (reclaimIfDue c src fuel nextReclaim) := by
  refine Safe.bind local_acksCaused safe_client fun now _ _ => ?_
  split
  · exact Safe.bind local_acksCaused (safe_drainReclaimed fuel _) fun _ _ _ =>
      Safe.bind local_acksCaused safe_client fun _ _ _ => Safe.pure local_acksCaused _
  · exact Safe.pure local_acksCaused _

theorem safe_deliverAll {E : Replies SourceOp SourceOp.Reply StreamError}
    {resp : List (String × List Entry)}
    (h : ∀ stream ∈ resp, ∀ entry ∈ stream.2, entry.2 = content entry.1) :
    Safe E (AcksCaused c src content) (deliverAll c src resp) := by
  unfold deliverAll
  split
  · exact safe_client
  · exact Safe.forM local_acksCaused fun stream hstream =>
      Safe.forM local_acksCaused fun entry hentry => safe_deliver (h stream hstream entry hentry)

theorem safe_polls (fuel : ℕ) (st : Polling) :
    Safe (Delivers content) (AcksCaused c src content) (polls c src fuel st) := by
  induction fuel generalizing st with
  | zero => exact Safe.pure local_acksCaused _
  | succ fuel ih =>
    refine Safe.bind local_acksCaused (safe_reclaimIfDue fuel _).attempt fun r _ _ => ?_
    split
    · exact Safe.pure local_acksCaused _
    · refine Safe.bind local_acksCaused (Safe.attempt safe_client) fun r tr htr => ?_
      split
      · split
        · exact Safe.pure local_acksCaused _
        · exact ih _
      · exact Safe.pure local_acksCaused _
      · obtain ⟨x, hx, hread⟩ := completes_attempt.mp htr
        obtain ⟨hresp, -⟩ := completes_invoke.mp (Except.ok.inj hx ▸ hread)
        refine Safe.bind local_acksCaused (safe_deliverAll hresp).attempt fun r _ _ => ?_
        split
        · exact Safe.pure local_acksCaused _
        · exact ih _

theorem safe_connection (fuel : ℕ) (retry : Retry) :
    Safe (Delivers content) (AcksCaused c src content) (connection c src fuel retry) := by
  refine Safe.bind local_acksCaused (Safe.attempt ?_) fun r _ _ => ?_
  · refine Safe.bind local_acksCaused (Safe.attempt safe_client) fun r _ _ => ?_
    split
    · exact Safe.pure local_acksCaused _
    · split
      · exact Safe.pure local_acksCaused _
      · exact Safe.raise local_acksCaused _
    · exact Safe.raise local_acksCaused _
  · split
    · exact Safe.pure local_acksCaused _
    · exact safe_polls fuel _

theorem safe_reconnect {E : Replies SourceOp SourceOp.Reply StreamError} (retry : Retry)
    (e : StreamError) : Safe E (AcksCaused c src content) (reconnect src retry e) := by
  unfold reconnect
  split
  · split
    · exact Safe.raise local_acksCaused _
    · exact Safe.bind local_acksCaused safe_client fun _ _ _ =>
        Safe.pure local_acksCaused _
  · exact Safe.raise local_acksCaused _

theorem safe_closeClient {E : Replies SourceOp SourceOp.Reply StreamError} :
    Safe E (AcksCaused c src content) (closeClient src) := by
  unfold closeClient
  split
  · refine Safe.bind local_acksCaused (Safe.attempt safe_client) fun r _ _ => ?_
    split
    · exact Safe.pure local_acksCaused _
    · split
      · exact Safe.pure local_acksCaused _
      · exact Safe.raise local_acksCaused _
  · exact Safe.pure local_acksCaused _

/-- **Every acknowledgement of the generator has a cause**, whatever the reads return or raise and
whatever its caller does. -/
theorem acksCaused_messages (fuel : ℕ) (retry : Retry) :
    Safe (Delivers content) (AcksCaused c src content) (src.messages c fuel retry) := by
  induction fuel generalizing retry with
  | zero => exact Safe.raise local_acksCaused _
  | succ fuel ih =>
    refine Safe.bind local_acksCaused (safe_connection fuel retry) fun w _ _ => ?_
    refine Safe.bind local_acksCaused (safe_reconnect w.1 w.2).attempt fun r _ _ => ?_
    refine Safe.bind local_acksCaused safe_closeClient fun _ _ _ => ?_
    exact Safe.bind local_acksCaused (Safe.ofExcept local_acksCaused r) fun retry _ _ => ih retry

/-! ## A feed with one payload -/

/-- A source for one account. -/
def forMain : StreamSource where
  accounts := ⟨Dict.empty.set "main" "ACCT1"⟩

/-- The fields of an account event. -/
def accountEvent (payload : String) : Fields :=
  [(.str "event_type", .str "account.order"), (.str "payload", .str payload)]

end StreamSource

/-- A codec that knows one payload, and texts of no other kind. -/
def Codec.reading (payload : String) (value : Json) : Codec where
  loads text := if text = payload then some value else none
  repr _ := ""
  decimal _ := none
  fromisoformat _ := none
  float _ := none
  floatOfInt n := some (.finite n)

end TtLedger
