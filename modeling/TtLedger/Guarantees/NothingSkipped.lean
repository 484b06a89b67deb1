import TtLedger.Ingest.StreamGroup

/-!
# No entry is skipped

Whatever the daemons of a group do and wherever they stop, an entry of the stream from where the
group begins is still to be handed out, or pending, or was trimmed away, or a daemon has settled it:
it acknowledged the entry after it had applied its message, after it had logged that the apply
failed, because the entry was not for it, or because it found the entry trimmed
(`kept_or_settled`). An entry is pending from the read that hands it out, also when the reply to
that read is lost, until an acknowledgement reaches the server, and a daemon acknowledges nothing
that it has not settled (`ack_of_performs`). The group begins where the daemon that creates it says:
by default behind the entries that are there already.
-/

namespace TtLedger

open Prog StreamConsumer

variable {S : Type} {Res : S → Type} {apply : StreamMessage → Prog S Res StreamError Unit}
  {c : Codec} {content : EntryId → Fields}

/-! ## The books of the group -/

/-- An entry that was handed out, from where the group begins, is pending, or trimmed, or an
acknowledgement of it was sent. -/
structure Group.Booked (g : Group) (P : ConsumerEvent Res → Prop) : Prop where
  read_le : g.read ≤ g.log.length
  booked : ∀ start, g.start = some start → ∀ id ∈ (g.log.take g.read).drop start,
    id ∈ g.pending ∨ id ∈ g.trimmed ∨ ∃ r : Except StreamError Unit, P ⟨.client (.xack id), r⟩

namespace Group.Booked

variable {g g' : Group} {P Q : ConsumerEvent Res → Prop}

theorem mono (h : g.Booked P) (hPQ : ∀ ev, P ev → Q ev) : g.Booked Q where
  read_le := h.read_le
  booked start hstart id hid :=
    (h.booked start hstart id hid).imp_right (Or.imp_right fun ⟨r, hr⟩ => ⟨r, hPQ _ hr⟩)

theorem env (h : g.Booked P) (henv : Env g g') : g'.Booked P := by
  cases henv with
  | add id _ =>
    refine ⟨by simpa using h.read_le.trans (Nat.le_succ _), fun start hstart id' hid => ?_⟩
    rw [List.take_append_of_le_length h.read_le] at hid
    exact h.booked start hstart id' hid
  | trim id _ =>
    exact ⟨h.read_le, fun start hstart id' hid => (h.booked start hstart id' hid).imp_right
      (Or.imp_left (List.mem_append_left _))⟩

/-- A new group has handed out nothing. -/
theorem create {n : ℕ} (hn : n ≤ g.log.length) : (g.create n).Booked P where
  read_le := hn
  booked start hstart id hid := by
    obtain rfl := Option.some.inj hstart
    change id ∈ (g.log.take n).drop n at hid
    rw [List.drop_eq_nil_of_le (List.length_take_le _ _)] at hid
    cases hid

/-- What a read hands out is pending. -/
theorem handOut (h : g.Booked P) (n : ℕ) : (g.handOut n).Booked P where
  read_le := Nat.min_le_right _ _
  booked start hstart id hid := by
    have hsplit : g.log.take (min (g.read + n) g.log.length) =
        g.log.take g.read ++ (g.log.drop g.read).take n := by
      rw [← List.take_add]
      rcases Nat.le_total (g.read + n) g.log.length with hle | hle
      · rw [Nat.min_eq_left hle]
      · rw [Nat.min_eq_right hle, List.take_length, List.take_of_length_le hle]
    rw [Group.handOut, hsplit, List.drop_append] at hid
    rcases List.mem_append.mp hid with hid | hid
    · exact (h.booked start hstart id hid).imp_left (List.mem_append_left _)
    · replace hid := List.mem_of_mem_drop hid
      by_cases htrimmed : id ∈ g.trimmed
      · exact .inr (.inl htrimmed)
      · refine .inl (List.mem_append_right _ (List.mem_filter.mpr ⟨hid, ?_⟩))
        simpa using htrimmed

/-- What a claim drops is trimmed. -/
theorem dropTrimmed (h : g.Booked P) (ids : List EntryId) : (g.dropTrimmed ids).Booked P where
  read_le := h.read_le
  booked start hstart id hid := by
    rcases h.booked start hstart id hid with hp | hrest
    · by_cases htrimmed : id ∈ g.trimmed
      · exact .inr (.inl htrimmed)
      · exact .inl (List.mem_filter.mpr ⟨hp, by simp [htrimmed]⟩)
    · exact .inr hrest

/-- What an acknowledgement takes off the books has been acknowledged. -/
theorem settle (h : g.Booked P) {id : EntryId} {r : Except StreamError Unit}
    (hr : P ⟨.client (.xack id), r⟩) : (g.settle id).Booked P where
  read_le := h.read_le
  booked start hstart id' hid := by
    rcases h.booked start hstart id' hid with hp | hrest
    · by_cases he : id' = id
      · exact .inr (.inr ⟨r, he ▸ hr⟩)
      · exact .inl (List.mem_filter.mpr ⟨hp, by simpa using he⟩)
    · exact .inr hrest

/-- **One event** keeps the books. -/
theorem sees (h : g.Booked P) {ev : ConsumerEvent Res} (hev : g.Sees content ev g') :
    g'.Booked fun ev' => P ev' ∨ ev' = ev := by
  have hmono : g.Booked fun ev' => P ev' ∨ ev' = ev := h.mono fun _ => .inl
  obtain ⟨op, r⟩ := ev
  cases op with
  | client op =>
    cases op with
    | xgroupCreate startId =>
      cases r with
      | ok _ =>
        obtain ⟨-, n, hn, rfl⟩ := hev
        exact .create hn.le
      | error e =>
        obtain rfl | ⟨-, n, hn, rfl⟩ := hev
        · exact hmono
        · exact .create hn.le
    | xreadgroup =>
      cases r with
      | ok resp =>
        obtain ⟨-, n, -, rfl⟩ := hev
        exact hmono.handOut n
      | error e =>
        obtain rfl | ⟨-, n, rfl⟩ := hev
        · exact hmono
        · exact hmono.handOut n
    | xautoclaim cursor =>
      cases r with
      | ok resp =>
        obtain ⟨-, ids, rfl⟩ := hev
        exact hmono.dropTrimmed ids
      | error e =>
        obtain ⟨ids, rfl⟩ := hev
        exact hmono.dropTrimmed ids
    | xack id =>
      cases r with
      | ok _ =>
        obtain rfl := hev
        exact hmono.settle (.inr rfl)
      | error e =>
        rcases hev with rfl | rfl
        · exact hmono
        · exact hmono.settle (.inr rfl)
    | _ =>
      obtain rfl := hev
      exact hmono
  | _ =>
    obtain rfl := hev
    exact hmono

end Group.Booked

/-! ## What a daemon has settled -/

/-- What a daemon did about an entry before it acknowledged it. -/
inductive Outcome (apply : StreamMessage → Prog S Res StreamError Unit) (c : Codec)
    (src : StreamSource) (content : EntryId → Fields) (id : EntryId)
    (pre : List (ConsumerEvent Res)) : Prop
  /-- It was logged that there was nothing left of the entry. -/
  | trimmed (h : (⟨.client (.logTrimmed id), .ok ()⟩ : ConsumerEvent Res) ∈ pre)
  /-- The entry has no message for this daemon. -/
  | nothing (hp : src.parseEntry c (content id) = .ok none)
  /-- The message was applied. -/
  | applied {msg : StreamMessage} (hp : src.parseEntry c (content id) = .ok (some msg))
      (h : StreamConsumer.Applied apply (Delivers content) msg pre)
  /-- It was logged that the apply of the message failed. -/
  | logged {msg : StreamMessage} (hp : src.parseEntry c (content id) = .ok (some msg))
      {r : Except StreamError Unit}
      (h : (⟨.logException msg, r⟩ : ConsumerEvent Res) ∈ pre)

/-- A daemon acknowledged an entry after it had done something about it. -/
def Settled (apply : StreamMessage → Prog S Res StreamError Unit) (c : Codec)
    (content : EntryId → Fields) (src : StreamSource) (id : EntryId)
    (tr : List (ConsumerEvent Res)) : Prop :=
  ∃ pre r post, tr = pre ++ ⟨.client (.xack id), r⟩ :: post ∧ Outcome apply c src content id pre

/-- A daemon has settled what it acknowledges. -/
theorem settled_of_ack {d : Daemon} {tr : List (ConsumerEvent Res)}
    (h : DaemonMay apply c content d tr) {id : EntryId} {r : Except StreamError Unit}
    (hack : (⟨.client (.xack id), r⟩ : ConsumerEvent Res) ∈ tr) :
    Settled apply c content d.1 id tr := by
  obtain ⟨pre, post, he⟩ := List.append_of_mem hack
  refine ⟨pre, r, post, he, ?_⟩
  obtain ⟨gen, hcause, hexp⟩ := ack_of_performs h he
  cases hcause with
  | trimmed hgen =>
    obtain ⟨pre', seg, rfl, -, hseg⟩ := (hgen ▸ hexp).concat
    obtain ⟨-, rfl⟩ := completes_invoke.mp hseg
    exact .trimmed (List.mem_append_right _ (List.mem_singleton.mpr rfl))
  | nothing hp => exact .nothing hp
  | message hp hgen =>
    obtain ⟨pre', seg, rfl, -, hseg⟩ := (hgen ▸ hexp).concat
    obtain ⟨seg', rfl, happly⟩ | ⟨⟨op, r'⟩, hev, rfl⟩ := consume_completes hseg
    · exact .applied hp ⟨pre', seg', rfl, happly⟩
    · exact .logged hp (List.mem_append_right _ hev)

/-! ## Nothing is skipped -/

/-- **No entry is skipped**: in every state that a group and its daemons can reach, whatever each
daemon has done and wherever it stopped, an entry of the stream from where the group begins is still
to be handed out, or pending, or was trimmed away, or some daemon has settled it. -/
theorem kept_or_settled {w : Swarm Group Daemon (ConsumerEvent Res)}
    (h : GroupReachable apply c content w) {start : ℕ} (hstart : w.state.start = some start) :
    ∀ id ∈ w.state.log.drop start, id ∈ w.state.log.drop w.state.read ∨ id ∈ w.state.pending ∨
      id ∈ w.state.trimmed ∨ ∃ d ∈ w.agents, Settled apply c content d.1.1 id d.2 := by
  intro id hid
  have hbooks : w.state.Booked w.Happened := Swarm.Reachable.invariant
    ⟨Nat.zero_le _, fun _ hnone => by cases hnone⟩ (fun h hPQ => h.mono hPQ) (fun h he => h.env he)
    (fun h hev => h.sees hev) h
  rw [← List.take_append_drop w.state.read w.state.log, List.drop_append] at hid
  rcases List.mem_append.mp hid with hid | hid
  · rcases hbooks.booked start hstart id hid with hp | ht | ⟨r, d, hd, hack⟩
    · exact .inr (.inl hp)
    · exact .inr (.inr (.inl ht))
    · rcases h.agent_may hd with hnil | hmay
      · rw [hnil] at hack
        cases hack
      · exact .inr (.inr (.inr ⟨d, hd, settled_of_ack hmay hack⟩))
  · exact .inl (List.mem_of_mem_drop hid)

/-! ## A daemon that applies one fill -/

namespace OneFill

/-- What has been done was done step by step. -/
theorem performs_of_append {Op : Type} {Res : Op → Type} {ε α : Type} {E : Replies Op Res ε}
    {p : Prog Op Res ε α} {tr tr' : List (Event Op Res ε)} (h : Performs E p (tr ++ tr')) :
    Performs E p tr := by
  induction tr generalizing p with
  | nil => exact .start p
  | cons ev tr ih =>
    cases h with
    | call hr hrest => exact .call hr (ih hrest)

/-- The stream before the daemon starts: one entry, and no group. -/
def before : Group := { log := ["0-1"] }

/-- The group, which begins behind that entry, when another has been added. -/
def added : Group := { log := ["0-1", "1-0"], start := some 1, read := 1 }

theorem sees_created : Group.Sees filledContent before
    (⟨.client (.xgroupCreate "$"), .ok ()⟩ : ConsumerEvent LedgerOp.Reply) (before.create 1) :=
  ⟨rfl, 1, ⟨by decide, fun _ => rfl, by decide⟩, rfl⟩

theorem sees_rest : Swarm.Sees (Group.Sees filledContent) added
    (oneFill (.ok none) []).tail ((added.handOut 1).settle "1-0") :=
  .cons rfl (.cons ⟨fun _ h => (by cases h), [], rfl⟩ (.cons rfl
    (.cons ⟨rfl, 1, rfl, rfl⟩ (.cons rfl (.cons rfl (.cons rfl (.nil _)))))))

/-- The group after a daemon has created it, and read, applied and acknowledged the entry that was
added then. -/
theorem reachable : GroupReachable lookUpOrder filledCodec filledContent
    ⟨(added.handOut 1).settle "1-0", [((StreamSource.forMain, 3), oneFill (.ok none) [])]⟩ := by
  have hbefore : GroupReachable lookUpOrder filledCodec filledContent ⟨before, []⟩ :=
    Swarm.Reachable.init.environment (Group.Env.add "0-1" (List.not_mem_nil))
  have hmay : ∀ n, DaemonMay lookUpOrder filledCodec filledContent (StreamSource.forMain, 3)
      ((oneFill (.ok none) []).take (n + 1)) := by
    intro n
    have hall := performs_appliedFill
    rw [← List.take_append_drop (n + 1) (oneFill (.ok none) [])] at hall
    exact performs_of_append hall
  have hcreated : GroupReachable lookUpOrder filledCodec filledContent
      ⟨before.create 1, [((StreamSource.forMain, 3), (oneFill (.ok none) []).take 1)]⟩ :=
    (hbefore.join (StreamSource.forMain, 3)).act
      (show _ = [] ++ ((StreamSource.forMain, 3), []) :: [] from rfl) (hmay 0) sees_created
  have hadded : GroupReachable lookUpOrder filledCodec filledContent
      ⟨added, [((StreamSource.forMain, 3), (oneFill (.ok none) []).take 1)]⟩ :=
    hcreated.environment (Group.Env.add "1-0" (by decide))
  exact hadded.runs
    (show _ = [] ++ ((StreamSource.forMain, 3), (oneFill (.ok none) []).take 1) :: [] from rfl)
    (fun n => hmay (n + 1)) sees_rest

/-- The entry is off the books, so the daemon has settled it. -/
theorem settled : Settled lookUpOrder filledCodec filledContent StreamSource.forMain "1-0"
    (oneFill (.ok none) []) := by
  rcases kept_or_settled reachable rfl "1-0" (by decide) with h | h | h | ⟨d, hd, h⟩
  · exact absurd h (by decide)
  · exact absurd h (by decide)
  · exact absurd h (by decide)
  · obtain rfl := List.mem_singleton.mp hd
    exact h

end OneFill

end TtLedger
