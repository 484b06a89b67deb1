import TtLedger.Ingest.TaskRefs

/-!
# No dangling reference

Whatever tasks run against a ledger, however their calls interleave and whichever of them fail, the
orders, transactions, positions, closed positions and group events refer to stored rows only, in
every state reached, on either store (`integrity_of_reaches`). The schema declares most of these
references as foreign keys, leaves `orders.trade_group_id` without one, and SQLite checks none of
them; a backend that checked these would refuse no call of a task. References stay what they were:
no row is deleted, no id is given out twice, and the row under an id keeps its natural key.
-/

namespace TtLedger

open LedgerStore Prog

/-- Whatever programs share a ledger, it only grows. -/
theorem appendOnly_of_reaches {ι α : Type} [DecidableEq ι] {kind : StoreKind}
    {ps ps' : ι → LedgerProg α} {s s' : InMemoryStore}
    (h : Pool.Reaches kind.meaning ps s ps' s') : AppendOnly s s' := by
  induction h with
  | refl ps s => exact .refl s
  | step _ hop _ ih => exact (StoreKind.appendOnly_meaning hop).trans ih

/-- **Referential integrity**: from a ledger in which every reference is to a stored row, tasks
whose hosts name stored securities reach only such ledgers, each an extension of the one before,
and the next call of each of them writes references to stored rows only. -/
theorem integrity_of_reaches {ι : Type} [DecidableEq ι] (kind : StoreKind) (tasks : ι → Task)
    (hscan : ∀ rows, kind.scan rows ⊆ rows) {s s' : InMemoryStore}
    {ps' : ι → LedgerProg (Option TradeGroupRow)} (hs : Whole s)
    (hnamed : ∀ i, ∀ ref ∈ (tasks i).named, ref.Stored s)
    (h : Pool.Reaches kind.meaning (fun i => (tasks i).program) s ps' s') :
    AppendOnly s s' ∧ Whole s' ∧
      ∀ i op k, ps' i = .call op k → ∀ ref ∈ op.refs, ref.Stored s' := by
  exact ⟨appendOnly_of_reaches h,
    h.references_live (sound_ledgerRefs hscan) (fun i => passes_program (tasks i)) hnamed hs⟩

/-! ### A rebuild during a pass -/

/-- A bought share whose order is stored, without a group and without a position. -/
def boughtShare : InMemoryStore :=
  .seeded [{ securityId := "equity:X", productType := "E" }] [.placed "A" "O"]
    [.fill "A" "T" "O" "Buy to Open" "equity:X" 1 0]

/-- The account is rebuilt while a pass runs over it. -/
def rebuildDuringPass : Bool → Task
  | true => .reconcile (some "A") {}
  | false => .rebuild (some "A")

/-- The two take turns. -/
def rebuiltDuringPass : (Bool → LedgerProg (Option TradeGroupRow)) × InMemoryStore :=
  Pool.play memory (List.replicate 30 [true, false]).flatten
    (fun i => (rebuildDuringPass i).program) boughtShare

theorem integrity_rebuiltDuringPass :
    (AppendOnly boughtShare rebuiltDuringPass.2 ∧ Whole rebuiltDuringPass.2 ∧
      ∀ i op k, rebuiltDuringPass.1 i = .call op k →
        ∀ ref ∈ op.refs, ref.Stored rebuiltDuringPass.2) ∧
      rebuiltDuringPass.2.refs ≠ [] := by
  refine ⟨integrity_of_reaches .memory rebuildDuringPass
    (fun rows => List.Subset.refl rows) (by decide +kernel) ?_
    (StoreKind.memory.reaches_play _ _ boughtShare), by decide +kernel⟩
  intro i ref href
  cases i <;> cases href

end TtLedger
