import TtLedger.Ingest.StreamLaws

/-!
# What a reclaim pass settles

`XAUTOCLAIM` goes through the pending entries from a cursor on, claims the stale ones among those it
has looked at, and returns the cursor at which to go on, `0-0` at the end. It looks at a bounded
number of entries, so a batch may be empty before the end. `drainReclaimed` goes on until it gets
`0-0`, the cursor it has sent, or an empty batch: a pass that ends has acknowledged each entry of
the batches before the first empty one, once and in order (`acksOf_drainReclaimed`), which are all
stale entries exactly when an empty batch is followed by empty ones only (`reclaims_all_iff`).
-/

namespace TtLedger

open Prog

namespace StreamSource

/-! ## Scans -/

/-- The batches of a scan that is carried on from the cursor to its end. -/
inductive Scan (claim : String → String × List Entry) : String → List (List Entry) → Prop
  | last {cursor : String} (h : (claim cursor).1 = "0-0") : Scan claim cursor [(claim cursor).2]
  | more {cursor : String} {batches : List (List Entry)} (h : (claim cursor).1 ≠ "0-0")
      (rest : Scan claim (claim cursor).1 batches) :
      Scan claim cursor ((claim cursor).2 :: batches)

namespace Scan

variable {claim : String → String × List Entry} {cursor : String} {batches : List (List Entry)}

theorem unique (h : Scan claim cursor batches) {batches' : List (List Entry)}
    (h' : Scan claim cursor batches') : batches = batches' := by
  induction h generalizing batches' with
  | last hend =>
    cases h' with
    | last => rfl
    | more hgo => exact absurd hend hgo
  | more hgo _ ih =>
    cases h' with
    | last hend => exact absurd hend hgo
    | more _ hrest => rw [ih hrest]

/-- A scan that comes to its end does not come back to its cursor. -/
theorem ne_cursor (h : Scan claim cursor batches) (hgo : (claim cursor).1 ≠ "0-0") :
    (claim cursor).1 ≠ cursor := by
  intro hback
  cases h with
  | last hend => exact hgo hend
  | more _ hrest =>
    have hsame := (Scan.more hgo hrest).unique (hback ▸ hrest)
    exact absurd (congrArg List.length hsame) (by simp)

end Scan

/-! ## Acknowledgements -/

/-- The entry that an event acknowledges. -/
def ackOf (ev : Event SourceOp SourceOp.Reply StreamError) : Option EntryId :=
  match ev.1 with
  | .client (.xack id) => some id
  | _ => none

/-- The entries acknowledged, in order. -/
def acksOf (tr : List (Event SourceOp SourceOp.Reply StreamError)) : List EntryId :=
  tr.filterMap ackOf

theorem acksOf_append (tr tr' : List (Event SourceOp SourceOp.Reply StreamError)) :
    acksOf (tr ++ tr') = acksOf tr ++ acksOf tr' := List.filterMap_append

variable {c : Codec} {src : StreamSource} {E : Replies SourceOp SourceOp.Reply StreamError}
  {tr : List (Event SourceOp SourceOp.Reply StreamError)}

theorem acksOf_client {op : ClientOp} {x : Except StreamError op.Reply}
    (h : Completes E (client op) tr x) : acksOf tr = (ackOf ⟨.client op, x⟩).toList := by
  obtain ⟨-, rfl⟩ := completes_invoke.mp h
  cases op <;> rfl

/-- Delivering an entry acknowledges it, and nothing else. -/
theorem acksOf_deliver {entry : Entry} (h : Completes E (deliver c src entry) tr (.ok ())) :
    acksOf tr = [entry.1] := by
  unfold deliver at h
  split at h
  · cases h
  · exact acksOf_client h
  · obtain ⟨e, he, -⟩ | ⟨tr₁, tr₂, a, rfl, hyield, hack⟩ := completes_bind h
    · cases he
    · obtain ⟨-, rfl⟩ := completes_invoke.mp hyield
      rw [acksOf_append, acksOf_client hack]
      rfl

theorem acksOf_deliverReclaimed {entry : Entry}
    (h : Completes E (deliverReclaimed c src entry) tr (.ok ())) : acksOf tr = [entry.1] := by
  unfold deliverReclaimed at h
  split at h
  · obtain ⟨e, he, -⟩ | ⟨tr₁, tr₂, a, rfl, hlog, hack⟩ := completes_bind h
    · cases he
    · rw [acksOf_append, acksOf_client hlog, acksOf_client hack]
      rfl
  · exact acksOf_deliver h

/-- A batch is acknowledged entry by entry. -/
theorem acksOf_batch {entries : List Entry}
    (h : Completes E (entries.forM (deliverReclaimed c src)) tr (.ok ())) :
    acksOf tr = entries.map Prod.fst := by
  induction entries generalizing tr with
  | nil =>
    cases h
    rfl
  | cons entry entries ih =>
    obtain ⟨e, he, -⟩ | ⟨tr₁, tr₂, a, rfl, hone, hrest⟩ := completes_bind h
    · cases he
    · rw [acksOf_append, acksOf_deliverReclaimed hone, ih hrest]
      rfl

/-! ## The pass -/

section Pass

variable {claim : String → String × List Entry} {fuel : ℕ}

/-- One round of a pass: a batch, and the rest of the pass unless it ends. -/
theorem drainReclaimed_cases
    (hE : ∀ cursor r, E (.client (.xautoclaim cursor)) r → r = .ok (claim cursor))
    {cursor : String} (h : Completes E (drainReclaimed c src fuel cursor) tr (.ok ())) :
    ∃ rest, acksOf tr = (claim cursor).2.map Prod.fst ++ acksOf rest ∧
      (((claim cursor).1 = "0-0" ∨ (claim cursor).1 = cursor ∨ (claim cursor).2 = []) ∧ rest = [] ∨
        (claim cursor).1 ≠ "0-0" ∧ (claim cursor).2 ≠ [] ∧
          ∃ fuel', Completes E (drainReclaimed c src fuel' (claim cursor).1) rest (.ok ())) := by
  cases fuel with
  | zero => cases h
  | succ fuel =>
    obtain ⟨e, he, -⟩ | ⟨tr₁, tr', r, rfl, hclaim, hrest⟩ := completes_bind h
    · cases he
    obtain ⟨hr, rfl⟩ := completes_invoke.mp hclaim
    obtain rfl := Except.ok.inj (hE _ _ hr)
    obtain ⟨e, he, -⟩ | ⟨tr₂, tr₃, a, rfl, hbatch, hnext⟩ := completes_bind hrest
    · cases he
    refine ⟨tr₃, ?_, ?_⟩
    · rw [acksOf_append, acksOf_append, acksOf_client hclaim, acksOf_batch hbatch]
      rfl
    · simp only [List.isEmpty_iff] at hnext
      split at hnext
      · rename_i hstop
        cases hnext
        exact .inl ⟨hstop, rfl⟩
      · rename_i hgo
        exact .inr ⟨fun hend => hgo (.inl hend), fun hempty => hgo (.inr (.inr hempty)), fuel,
          hnext⟩

/-- **What a pass acknowledges**: the batches of the scan before the first empty one. -/
theorem acksOf_drainReclaimed
    (hE : ∀ cursor r, E (.client (.xautoclaim cursor)) r → r = .ok (claim cursor))
    {cursor : String} {batches : List (List Entry)} (hscan : Scan claim cursor batches)
    (h : Completes E (drainReclaimed c src fuel cursor) tr (.ok ())) :
    acksOf tr = (batches.takeWhile fun batch => !batch.isEmpty).flatten.map Prod.fst := by
  induction hscan generalizing fuel tr with
  | @last cursor hend =>
    obtain ⟨rest, hacks, ⟨-, rfl⟩ | ⟨hgo, -⟩⟩ := drainReclaimed_cases hE h
    · rw [hacks]
      cases hbatch : (claim cursor).2 <;> simp [acksOf]
    · exact absurd hend hgo
  | @more cursor batches hgo hrest ih =>
    obtain ⟨rest, hacks, ⟨hstop, rfl⟩ | ⟨-, hne, fuel', hnext⟩⟩ := drainReclaimed_cases hE h
    · obtain hend | hback | hempty := hstop
      · exact absurd hend hgo
      · exact absurd hback ((Scan.more hgo hrest).ne_cursor hgo)
      · rw [hacks, hempty]
        rfl
    · rw [hacks, ih hnext, List.takeWhile_cons_of_pos (by simpa using hne), List.flatten_cons,
        List.map_append]

/-- Up to the first empty batch there is nothing of what comes after an empty one. -/
theorem takeWhile_subset (before after : List (List Entry)) {batch : List Entry}
    (h : batch ∈ (before ++ [] :: after).takeWhile fun batch => !batch.isEmpty) :
    batch ∈ before := by
  induction before with
  | nil => simp at h
  | cons b before ih =>
    rw [List.cons_append, List.takeWhile_cons] at h
    split at h
    · rcases List.mem_cons.mp h with rfl | h
      · exact .head _
      · exact .tail _ (ih h)
    · cases h

/-- If nothing comes after an empty batch, the batches before hold everything. -/
theorem flatten_takeWhile {batches : List (List Entry)}
    (h : ∀ before after, batches = before ++ [] :: after → after.flatten = []) :
    (batches.takeWhile fun batch => !batch.isEmpty).flatten = batches.flatten := by
  induction batches with
  | nil => rfl
  | cons batch batches ih =>
    cases hbatch : batch with
    | nil => exact (h [] batches (by rw [hbatch]; rfl)).symm
    | cons entry entries =>
      rw [List.takeWhile_cons_of_pos rfl, List.flatten_cons, List.flatten_cons,
        ih fun before after he => h (batch :: before) after (by rw [he]; rfl)]

/-- **A reclaim pass settles every stale entry** exactly when an empty batch of the scan is followed
by empty ones only; what it acknowledges are the entries before, once each and in order. -/
theorem reclaims_all_iff (c : Codec) (src : StreamSource)
    (hE : ∀ cursor r, E (.client (.xautoclaim cursor)) r → r = .ok (claim cursor))
    {batches : List (List Entry)} (hscan : Scan claim "0-0" batches)
    (hids : (batches.flatten.map Prod.fst).Nodup)
    (h : Completes E (drainReclaimed c src fuel "0-0") tr (.ok ())) :
    acksOf tr = (batches.takeWhile fun batch => !batch.isEmpty).flatten.map Prod.fst ∧
      ((∀ entry ∈ batches.flatten, entry.1 ∈ acksOf tr) ↔
        ∀ before after, batches = before ++ [] :: after → after.flatten = []) := by
  have hacks := acksOf_drainReclaimed hE hscan h
  refine ⟨hacks, ?_⟩
  rw [hacks]
  constructor
  · rintro hall before after rfl
    rw [List.flatten_append, List.flatten_cons, List.nil_append, List.map_append] at hids
    refine List.eq_nil_iff_forall_not_mem.mpr fun entry hentry => ?_
    have hmem : entry ∈ (before ++ [] :: after).flatten := by
      rw [List.flatten_append, List.flatten_cons, List.nil_append]
      exact List.mem_append_right _ hentry
    obtain ⟨entry', hentry', hid⟩ := List.mem_map.mp (hall entry hmem)
    obtain ⟨batch, hbatch, hin⟩ := List.mem_flatten.mp hentry'
    have hbefore := List.mem_map_of_mem (f := Prod.fst)
      (List.mem_flatten.mpr ⟨batch, takeWhile_subset before after hbatch, hin⟩)
    exact (List.nodup_append.mp hids).2.2 _ hbefore _ (List.mem_map_of_mem hentry) hid
  · intro hgaps entry hentry
    rw [flatten_takeWhile hgaps]
    exact List.mem_map_of_mem hentry

end Pass

/-! ## A scan with an empty batch before its end -/

namespace EmptyBatch

/-- The first entries looked at are all fresh, and a stale one comes after them. -/
def claim (cursor : String) : String × List Entry :=
  if cursor = "0-0" then ("5-0", []) else ("0-0", [("5-0", [])])

/-- The server answers the claims so. -/
def Serves : Replies SourceOp SourceOp.Reply StreamError
  | .client (.xautoclaim cursor), r => r = .ok (claim cursor)
  | _, _ => True

theorem scan : Scan claim "0-0" [[], [("5-0", [])]] := .more (by decide) (.last (by decide))

/-- The pass ends at the empty batch. -/
theorem completes : Completes Serves (drainReclaimed (.reading "" .null) forMain 2 "0-0")
    [⟨.client (.xautoclaim "0-0"), .ok ("5-0", [])⟩] (.ok ()) := .call rfl (.ret ())

/-- The stale entry is left pending. -/
theorem not_reclaimed : ¬ ∀ entry ∈ ([[], [("5-0", [])]] : List (List Entry)).flatten,
    entry.1 ∈ acksOf [⟨.client (.xautoclaim "0-0"), .ok ("5-0", [])⟩] := by
  rw [(reclaims_all_iff (.reading "" .null) forMain (fun _ _ h => h) scan (by decide) completes).2]
  intro h
  exact absurd (h [] [[("5-0", [])]] rfl) (by simp)

end EmptyBatch

end StreamSource

end TtLedger
