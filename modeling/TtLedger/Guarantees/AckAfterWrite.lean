import TtLedger.Ingest.StreamLaws

/-!
# Acknowledgements follow the writes

The source acknowledges an entry when its caller comes back for the next one, and the consumer
comes back when it has applied the message, or when the apply has failed and the failure is logged.
So an entry whose apply raised is acknowledged like any other (`not_acksApplied_failedApply`). In a
run in which no apply fails and no entry has been trimmed away, an acknowledged entry of this
daemon has been applied (`acks_applied`): neither a stop, a cancellation nor a crash between the
two programs, a lost connection or a reclaim acknowledges an entry that was not.
-/

namespace TtLedger

open Prog

namespace StreamConsumer

variable {S : Type} {Res : S → Type}

/-- The environment of the consumer; the store may fail at any call. -/
def Delivers (content : EntryId → Fields) :
    Replies (ConsumerOp S) (ConsumerOp.Reply Res) StreamError
  | .client op, r => op.Delivers content r
  | _, _ => True

/-- The events of the consumer. -/
abbrev ConsumerEvent (Res : S → Type) := Event (ConsumerOp S) (ConsumerOp.Reply Res) StreamError

variable (apply : StreamMessage → Prog S Res StreamError Unit)

/-- The last that was done is that the consumer took the message up, and that the apply returned. -/
def Applied (E : Replies (ConsumerOp S) (ConsumerOp.Reply Res) StreamError) (msg : StreamMessage)
    (tr : List (ConsumerEvent Res)) : Prop :=
  ∃ before seg, tr = before ++ ⟨.isStopped, .ok false⟩ :: seg ∧
    Completes E (onStore (apply msg)) seg (.ok ())

/-- An acknowledged entry with a message for this daemon has been applied: the apply of its message
is what was done just before the acknowledgement, so it is the apply of this entry. -/
def AcksApplied (c : Codec) (src : StreamSource) (content : EntryId → Fields)
    (tr : List (ConsumerEvent Res)) : Prop :=
  ∀ pre id r post msg, tr = pre ++ ⟨.client (.xack id), r⟩ :: post →
    src.parseEntry c (content id) = .ok (some msg) →
    Applied apply (Delivers content) msg pre

/-- No apply failed, and no entry had been trimmed. -/
def NothingLost (tr : List (ConsumerEvent Res)) : Prop :=
  ∀ ev ∈ tr, (∀ msg, ev.1 ≠ .logException msg) ∧ ∀ id, ev.1 ≠ .client (.logTrimmed id)

variable {apply}
variable {E : Replies (ConsumerOp S) (ConsumerOp.Reply Res) StreamError}

/-! ## The consumer's loop body -/

/-- The body comes back to the generator after an apply that returned or whose failure it
logged. -/
theorem consume_completes {msg : StreamMessage} {tr : List (ConsumerEvent Res)}
    (h : Completes E (consume apply msg) tr (.ok ())) :
    (∃ seg, tr = ⟨.isStopped, .ok false⟩ :: seg ∧ Completes E (onStore (apply msg)) seg (.ok ())) ∨
      ∃ ev ∈ tr, ev.1 = .logException msg := by
  obtain ⟨e, he, -⟩ | ⟨tr₁, tr₂, stopped, rfl, h₁, h₂⟩ := completes_bind h
  · cases he
  obtain ⟨-, rfl⟩ := completes_invoke.mp h₁
  cases stopped with
  | true => cases h₂
  | false =>
    obtain ⟨e, he, -⟩ | ⟨seg, tr₃, x, rfl, hseg, h₃⟩ := completes_bind h₂
    · cases he
    obtain ⟨y, hy, happly⟩ := completes_attempt.mp hseg
    obtain rfl := Except.ok.inj hy
    cases x with
    | ok a =>
      cases h₃
      exact .inl ⟨seg, by simp, happly⟩
    | error e =>
      change Completes E (if e.isException then Prog.invoke (ConsumerOp.logException msg)
        else Prog.raise .generatorExit) tr₃ (.ok ()) at h₃
      split at h₃
      · obtain ⟨-, rfl⟩ := completes_invoke.mp h₃
        exact .inr ⟨⟨.logException msg, .ok ()⟩, by simp, rfl⟩
      · cases h₃

/-- A program on the store calls nothing but the store. -/
theorem calls_onStore {α : Type} (p : Prog S Res StreamError α) :
    (onStore p).Calls fun op => ∃ o, op = .store o := by
  induction p with
  | ret a => trivial
  | raise e => trivial
  | call op k ih =>
    refine Calls.bind ?_ fun r => ih r
    exact ⟨⟨op, rfl⟩, fun r => by cases r <;> trivial⟩

/-- The body itself acknowledges nothing. -/
theorem consume_not_ack {msg : StreamMessage} {tr : List (ConsumerEvent Res)}
    (h : Performs E (consume apply msg) tr) (id : EntryId) (r : Except StreamError Unit) :
    (⟨.client (.xack id), r⟩ : ConsumerEvent Res) ∉ tr := by
  intro hmem
  have hstore : ∀ seg, Performs E (onStore (apply msg)) seg →
      (⟨.client (.xack id), r⟩ : ConsumerEvent Res) ∉ seg := fun seg hseg hm => by
    obtain ⟨o, ho⟩ := (calls_onStore (apply msg)).of_performs hseg _ hm
    cases ho
  obtain h | ⟨tr₁, tr₂, stopped, rfl, h₁, h₂⟩ := performs_bind h
  · obtain rfl | ⟨r', -, rfl⟩ := performs_invoke h <;> simp at hmem
  obtain ⟨-, rfl⟩ := completes_invoke.mp h₁
  replace hmem : (⟨.client (.xack id), r⟩ : ConsumerEvent Res) ∈ tr₂ := by simpa using hmem
  cases stopped with
  | true =>
    cases h₂
    cases hmem
  | false =>
    obtain h₂ | ⟨seg, tr₃, x, rfl, hseg, h₃⟩ := performs_bind h₂
    · exact hstore _ (performs_attempt.mp h₂) hmem
    obtain hm | hm := List.mem_append.mp hmem
    · exact hstore seg (performs_attempt.mp hseg.performs) hm
    cases x with
    | ok a =>
      cases h₃
      cases hm
    | error e =>
      change Performs E (if e.isException then Prog.invoke (ConsumerOp.logException msg)
        else Prog.raise .generatorExit) tr₃ at h₃
      split at h₃
      · obtain rfl | ⟨r', -, rfl⟩ := performs_invoke h₃ <;> simp at hm
      · cases h₃
        cases hm

/-! ## The generator run by the consumer -/

section Run

variable {c : Codec} {src : StreamSource} {content : EntryId → Fields}

/-- The consumer answers the generator's calls as its environment says. -/
theorem delivers_of_completes (op : SourceOp)
    (tr : List (ConsumerEvent Res)) (r : Except StreamError op.Reply)
    (h : Completes (Delivers content) (carryOut apply op) tr r) :
    StreamSource.Delivers content op r := by
  cases op with
  | client op => exact (completes_invoke.mp h).1
  | yield msg => trivial

/-- An acknowledgement of the run is one of the generator's, and what was done before it carries
out what the generator did before it. -/
theorem ack_of_performs {fuel : ℕ}
    {tr pre post : List (ConsumerEvent Res)} {id : EntryId} {r : Except StreamError Unit}
    (h : Performs (Delivers content) (run apply c src fuel) tr)
    (he : tr = pre ++ ⟨.client (.xack id), r⟩ :: post) :
    ∃ gen, src.AckCause c content id gen ∧ Expands (Delivers content) (carryOut apply) gen pre := by
  obtain ⟨gen, tr₁, seg, hgen, hexp, rfl, hseg⟩ := performs_subst delivers_of_completes h
  have hnot : (⟨.client (.xack id), r⟩ : ConsumerEvent Res) ∉ seg := by
    obtain rfl | ⟨op, hmid⟩ := hseg
    · simp
    · cases op with
      | client op =>
        rw [hmid.invoke]
        simp
      | yield msg => exact consume_not_ack hmid.1 id r
  obtain ⟨mid, rfl, hmid⟩ | ⟨mid, htr₁, hmid⟩ := List.append_eq_append_iff.mp he
  · exact absurd (hmid ▸ by simp) hnot
  · cases mid with
    | nil => exact absurd (by rw [show seg = _ from hmid.symm]; simp) hnot
    | cons ev mid =>
      obtain ⟨rfl, -⟩ := List.cons.inj hmid
      obtain ⟨gen₁, gen₂, op, r', pre₁, seg₁, seg₂, hgen', hexp₁, rfl, hc⟩ := hexp.split htr₁
      cases op with
      | client op =>
        obtain ⟨-, hseg'⟩ := completes_invoke.mp hc
        cases seg₁ with
        | nil =>
          cases (List.cons.inj hseg').1
          exact ⟨gen₁, StreamSource.acksCaused_messages fuel {} gen hgen gen₁ id r gen₂ hgen',
            by simpa using hexp₁⟩
        | cons ev seg₁ => simp at hseg'
      | yield msg => exact absurd (by simp) (consume_not_ack hc.performs id r)

/-- **An acknowledged entry has been applied**, in every run in which no apply fails and no entry
has been trimmed. -/
theorem acks_applied (apply : StreamMessage → Prog S Res StreamError Unit) (c : Codec)
    (src : StreamSource) (content : EntryId → Fields) (fuel : ℕ) (tr : List (ConsumerEvent Res))
    (h : Performs (Delivers content) (run apply c src fuel) tr)
    (hlost : NothingLost tr) : AcksApplied apply c src content tr := by
  intro pre id r post msg he hparse
  obtain ⟨gen, hcause, hexp⟩ := ack_of_performs h he
  have hpre : ∀ ev ∈ pre, ev ∈ tr := fun ev hev => he ▸ List.mem_append_left _ hev
  cases hcause with
  | trimmed hgen =>
    obtain ⟨pre', seg, rfl, -, hseg⟩ := (hgen ▸ hexp).concat
    obtain ⟨-, rfl⟩ := completes_invoke.mp hseg
    have hmem : (⟨.client (.logTrimmed id), .ok ()⟩ : ConsumerEvent Res) ∈ tr :=
      hpre _ (List.mem_append_right _ (List.mem_singleton.mpr rfl))
    exact absurd rfl ((hlost _ hmem).2 id)
  | nothing hp =>
    rw [hparse] at hp
    cases hp
  | message hp hgen =>
    rw [hparse] at hp
    cases hp
    obtain ⟨pre', seg, rfl, -, hseg⟩ := (hgen ▸ hexp).concat
    obtain ⟨seg', rfl, happly⟩ | ⟨ev, hev, hlog⟩ := consume_completes hseg
    · exact ⟨pre', seg', rfl, happly⟩
    · exact absurd hlog ((hlost ev (hpre ev (List.mem_append_right _ hev))).1 msg)

end Run

/-! ## A fill of an order -/

section Fill

/-- The payload of a status update. -/
def filledOrder : String :=
  "\x7b\"type\": \"order\", \"account_number\": \"main\", \"data\": " ++
    "\x7b\"order_id\": \"77\", \"status\": \"Filled\"\x7d\x7d"

/-- The codec that reads it. -/
def filledCodec : Codec :=
  .reading filledOrder (.obj [("type", .str "order"), ("account_number", .str "main"),
    ("data", .obj [("order_id", .str "77"), ("status", .str "Filled")])])

/-- An apply that looks the order of a fill up. -/
def lookUpOrder (msg : StreamMessage) : Prog LedgerOp LedgerOp.Reply StreamError Unit :=
  match msg with
  | .fill evt => do
    let _ ← Prog.invoke (.getOrder evt.ttOrderId)
    pure ()
  | _ => pure ()

/-- The source connects, finds nothing to reclaim, reads one entry and hands its message over; the
store answers the apply with `r`, and after `logged` the entry is acknowledged. -/
def oneFill (r : Except StreamError (Option OrderRow))
    (logged : List (ConsumerEvent LedgerOp.Reply)) : List (ConsumerEvent LedgerOp.Reply) :=
  [⟨.client (.xgroupCreate "$"), .ok ()⟩, ⟨.client .monotonic, .ok 0⟩,
    ⟨.client (.xautoclaim "0-0"), .ok ("0-0", [])⟩, ⟨.client .monotonic, .ok 0⟩,
    ⟨.client .xreadgroup,
      .ok [("zts:events", [("1-0", StreamSource.accountEvent filledOrder)])]⟩,
    ⟨.isStopped, .ok false⟩, ⟨.store (.getOrder "77"), r⟩] ++ logged ++
  [⟨.client (.xack "1-0"), .ok ()⟩]

/-- The message of the entry. -/
def filledMessage : StreamMessage := .fill ⟨"77", some "Filled", none, none, none, none⟩

/-- The one entry of the stream. -/
def filledContent (_ : EntryId) : Fields := StreamSource.accountEvent filledOrder

theorem parseEntry_filledOrder (id : EntryId) :
    StreamSource.forMain.parseEntry filledCodec (filledContent id) = .ok (some filledMessage) := rfl

/-- Only entries of the stream are read. -/
theorem delivers_oneFill : ClientOp.Delivers filledContent .xreadgroup
    (.ok [("zts:events", [("1-0", StreamSource.accountEvent filledOrder)])]) := by
  intro stream hstream entry hentry
  obtain rfl := List.mem_singleton.mp hstream
  obtain rfl := List.mem_singleton.mp hentry
  rfl

/-- The source delivers the entry and acknowledges it after a failed apply. -/
theorem performs_failedFill : Performs (Delivers filledContent)
    (run lookUpOrder filledCodec StreamSource.forMain 3)
    (oneFill (.error (.failure "database is locked")) [⟨.logException filledMessage, .ok ()⟩]) :=
  .call trivial (.call trivial (.call (fun _ h => by cases h) (.call trivial
    (.call delivers_oneFill (.call trivial (.call trivial (.call trivial (.call trivial
      (.start _)))))))))

/-- The source delivers the entry and acknowledges it after an apply that returned. -/
theorem performs_appliedFill : Performs (Delivers filledContent)
    (run lookUpOrder filledCodec StreamSource.forMain 3) (oneFill (.ok none) []) :=
  .call trivial (.call trivial (.call (fun _ h => by cases h) (.call trivial
    (.call delivers_oneFill (.call trivial (.call trivial (.call trivial (.start _))))))))

/-- An apply that returned has had its answer from the store. -/
theorem answered_of_completes {E : Replies (ConsumerOp LedgerOp) (ConsumerOp.Reply LedgerOp.Reply)
      StreamError} {seg : List (ConsumerEvent LedgerOp.Reply)}
    (h : Completes E (onStore (lookUpOrder filledMessage)) seg (.ok ())) :
    ∃ order, (⟨.store (.getOrder "77"), .ok order⟩ : ConsumerEvent LedgerOp.Reply) ∈ seg := by
  obtain ⟨e, he, -⟩ | ⟨tr₁, tr₂, r, rfl, h₁, h₂⟩ := completes_bind h
  · cases he
  obtain ⟨x, hx, hstore⟩ := completes_attempt.mp h₁
  obtain rfl := Except.ok.inj hx
  obtain ⟨-, rfl⟩ := completes_invoke.mp hstore
  cases r with
  | ok order => exact ⟨order, by simp⟩
  | error e => cases h₂

/-- After a store failure a write does not come before the acknowledgement: the entry is
acknowledged, and no apply of its message has returned anywhere in the run. -/
theorem not_acksApplied_failedApply : ∃ tr, Performs (Delivers filledContent)
    (run lookUpOrder filledCodec StreamSource.forMain 3) tr ∧
      ¬ AcksApplied lookUpOrder filledCodec StreamSource.forMain filledContent tr ∧
      ∀ before seg after, tr = before ++ seg ++ after → ¬ Completes (Delivers filledContent)
        (onStore (lookUpOrder filledMessage)) seg (.ok ()) := by
  have hnone : ∀ before seg after : List (ConsumerEvent LedgerOp.Reply),
      oneFill (.error (.failure "database is locked")) [⟨.logException filledMessage, .ok ()⟩] =
        before ++ seg ++ after →
      ¬ Completes (Delivers filledContent) (onStore (lookUpOrder filledMessage)) seg (.ok ()) := by
    intro before seg after htr happly
    obtain ⟨order, horder⟩ := answered_of_completes happly
    have hmem : (⟨.store (.getOrder "77"), .ok order⟩ : ConsumerEvent LedgerOp.Reply) ∈
        before ++ seg ++ after := by simp [horder]
    rw [← htr] at hmem
    simp [oneFill] at hmem
  refine ⟨_, performs_failedFill, fun h => ?_, hnone⟩
  obtain ⟨before, seg, hpre, happly⟩ :=
    h _ "1-0" (.ok ()) [] filledMessage rfl (parseEntry_filledOrder "1-0")
  refine hnone (before ++ [⟨.isStopped, .ok false⟩]) seg [⟨.client (.xack "1-0"), .ok ()⟩] ?_ happly
  rw [oneFill, hpre]
  simp

/-- The acknowledged entry of a run without failures has been applied. -/
theorem applied_oneFill : ∃ pre, oneFill (.ok none) [] = pre ++ [⟨.client (.xack "1-0"), .ok ()⟩] ∧
    Applied lookUpOrder (Delivers filledContent) filledMessage pre :=
  ⟨_, rfl, acks_applied lookUpOrder filledCodec StreamSource.forMain filledContent 3
    (oneFill (.ok none) []) performs_appliedFill (by simp [NothingLost, oneFill]) _ "1-0" (.ok ())
    [] filledMessage rfl (parseEntry_filledOrder "1-0")⟩

end Fill

end StreamConsumer

end TtLedger
