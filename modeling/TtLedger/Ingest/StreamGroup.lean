import TtLedger.Foundations.Swarm
import TtLedger.Guarantees.AckAfterWrite

/-!
# The consumer group of the stream

What the Redis server keeps of the consumer group, and what a call of a daemon does to it: the
first creation says where the group begins, a read with `>` hands out the next entries and adds them
to the pending ones, an acknowledgement removes an entry from these, and a claim hands out pending
entries again. A call that raised may have been carried out all the same. Entries may be trimmed
away at any time; a claim drops those from the pending ones.

A daemon is a run of the consumer (`StreamConsumer.run`) that may stop anywhere; a restarted one is
another daemon. Any number of daemons share the group, each acting when it likes (`Swarm`).
-/

namespace TtLedger

open Prog StreamConsumer

/-! ## The group -/

/-- A consumer group. -/
structure Group where
  /-- The entries of the stream, in the order in which they were added. -/
  log : List EntryId := []
  /-- The entries that are gone from the stream. -/
  trimmed : List EntryId := []
  /-- Where in the stream the group begins, once it is created. -/
  start : Option ℕ := none
  /-- How far the group has read the stream. -/
  read : ℕ := 0
  /-- The entries handed out and not acknowledged. -/
  pending : List EntryId := []

namespace Group

/-- Where a new group begins: `$` is behind the last entry, `0` before the first, and an identifier
somewhere between the two. -/
structure StartsAt (g : Group) (startId : String) (n : ℕ) : Prop where
  le : n ≤ g.log.length
  last : startId = "$" → n = g.log.length
  first : startId = "0" → n = 0

/-- Create the group. -/
def create (g : Group) (n : ℕ) : Group := { g with start := some n, read := n }

/-- The next entries that a read hands out: those that are still there. -/
def next (g : Group) (n : ℕ) : List EntryId :=
  ((g.log.drop g.read).take n).filter fun id => !g.trimmed.contains id

/-- Hand out the next entries. -/
def handOut (g : Group) (n : ℕ) : Group :=
  { g with
    read := min (g.read + n) g.log.length
    pending := g.pending ++ g.next n }

/-- Take an entry off the pending ones. -/
def settle (g : Group) (id : EntryId) : Group :=
  { g with pending := g.pending.filter (· ≠ id) }

/-- Drop trimmed entries from the pending ones. -/
def dropTrimmed (g : Group) (ids : List EntryId) : Group :=
  { g with pending := g.pending.filter fun id => !(ids.contains id && g.trimmed.contains id) }

/-- What a call does to the group, and what it returns. -/
def Serves (content : EntryId → Fields) (g : Group) :
    (op : ClientOp) → Except StreamError op.Reply → Group → Prop
  | .xgroupCreate startId, .ok _, g' =>
    g.start = none ∧ ∃ n, g.StartsAt startId n ∧ g' = g.create n
  | .xgroupCreate startId, .error _, g' =>
    g' = g ∨ g.start = none ∧ ∃ n, g.StartsAt startId n ∧ g' = g.create n
  | .xreadgroup, .ok resp, g' => g.start.isSome ∧
    ∃ n, resp.flatMap Prod.snd = (g.next n).map (fun id => (id, content id)) ∧ g' = g.handOut n
  | .xreadgroup, .error _, g' => g' = g ∨ g.start.isSome ∧ ∃ n, g' = g.handOut n
  | .xautoclaim _, .ok resp, g' =>
    (∀ entry ∈ resp.2, entry.1 ∈ g.pending ∧
      (entry.2 = content entry.1 ∨ entry.2 = [] ∧ entry.1 ∈ g.trimmed)) ∧
      ∃ ids, g' = g.dropTrimmed ids
  | .xautoclaim _, .error _, g' => ∃ ids, g' = g.dropTrimmed ids
  | .xack id, .ok _, g' => g' = g.settle id
  | .xack id, .error _, g' => g' = g ∨ g' = g.settle id
  | _, _, g' => g' = g

/-- What an event of a daemon does to the group. -/
def Sees {S : Type} {Res : S → Type} (content : EntryId → Fields) (g : Group)
    (ev : ConsumerEvent Res) (g' : Group) : Prop :=
  match ev with
  | ⟨.client op, r⟩ => g.Serves content op r g'
  | _ => g' = g

/-- What the host and the server do to the stream: an entry is added, or trimmed away. -/
inductive Env (g : Group) : Group → Prop
  | add (id : EntryId) (h : id ∉ g.log) : Env g { g with log := g.log ++ [id] }
  | trim (id : EntryId) (h : id ∈ g.log) : Env g { g with trimmed := g.trimmed ++ [id] }

end Group

/-! ## Daemons -/

/-- What a daemon is configured with, and how long it may run. -/
abbrev Daemon := StreamSource × ℕ

section Daemons

variable {S : Type} {Res : S → Type} (apply : StreamMessage → Prog S Res StreamError Unit)
  (c : Codec) (content : EntryId → Fields)

/-- What a daemon can have done. -/
def DaemonMay (d : Daemon) (tr : List (ConsumerEvent Res)) : Prop :=
  Performs (Delivers content) (run apply c d.1 d.2) tr

/-- The states of the group and its daemons, from a stream without a group. -/
abbrev GroupReachable (w : Swarm Group Daemon (ConsumerEvent Res)) : Prop :=
  w.Reachable Group.Env (Group.Sees content) (DaemonMay apply c content) {}

end Daemons

end TtLedger
