import TtLedger.Guarantees.Conservation
import TtLedger.Ingest.LotMoves
import Mathlib.Algebra.Order.BigOperators.Group.List

/-!
# Closed rows and their round trips

A closed row is the record of a round trip: the quantity its lifecycle closed, the mean of the
prices it closed at, and the P&L between the two averages (`Describes`). The rebuild assembles it
from the lot as the last row finds it, which is the whole round trip exactly when that row is the
only one that closes anything of it. `closedRows_describe_iff` states this for all closed rows of
a replay: no row that closes a part of the lot may come before one that closes or flips it.
-/

namespace TtLedger

/-! ## Moves and closings -/

/-- What a row does to the lot. -/
inductive Move
  | opens
  | adds
  | closes
  | flips
  | reduces
  deriving DecidableEq

/-- The move of a row that changes a lot of `held` by `delta`. -/
def lotMove (held delta : ℚ) : Move :=
  if held = 0 then .opens
  else if 0 < held * delta then .adds
  else if held + delta = 0 then .closes
  else if (0 < held + delta) ≠ (0 < held) then .flips
  else .reduces

/-- The move ends a lifecycle. -/
def Move.completes (m : Move) : Bool := m = .closes || m = .flips

/-- A quantity of the lot that a row closes, and its price. -/
structure Closing where
  quantity : ℚ
  price : ℚ
  deriving DecidableEq

/-- The quantity of closings. -/
def closedQuantity (cs : List Closing) : ℚ := (cs.map Closing.quantity).sum

/-- The mean price of closings, weighted by their quantities. -/
def meanPrice (cs : List Closing) : ℚ :=
  (cs.map fun c => c.quantity * c.price).sum / closedQuantity cs

/-- A closed row describes the round trip with these closings. -/
structure Describes (multiplier : Int) (c : ClosedPositionRow) (cs : List Closing) : Prop where
  quantity : c.quantity = closedQuantity cs
  close : c.averageClosePrice = some (meanPrice cs)
  realized : c.realizedPnl = some
    ((c.averageClosePrice.getD 0 - c.averageOpenPrice.getD 0) * c.quantity * multiplier *
      (if c.quantityDirection = "Long" then 1 else -1))

instance (multiplier : Int) (c : ClosedPositionRow) (cs : List Closing) :
    Decidable (Describes multiplier c cs) :=
  decidable_of_iff (c.quantity = closedQuantity cs ∧ c.averageClosePrice = some (meanPrice cs) ∧
      c.realizedPnl = some
        ((c.averageClosePrice.getD 0 - c.averageOpenPrice.getD 0) * c.quantity * multiplier *
          (if c.quantityDirection = "Long" then 1 else -1)))
    ⟨fun ⟨hq, hc, hr⟩ => ⟨hq, hc, hr⟩, fun h => ⟨h.quantity, h.close, h.realized⟩⟩

section Defs

variable (account sid : String) (multiplier : Int)

/-- The moves of the rows from a state on. -/
def movesFrom : Rebuild → List TxnRow → List Move
  | _, [] => []
  | w, r :: rows =>
    ((appliedBy w r).map fun e => lotMove w.lot.signedQuantity e.1).toList ++
      movesFrom (rebuildStep account sid multiplier w r) rows

/-- The closings of each lifecycle that the rows complete from a state on, whose open lifecycle
has had some already. -/
def closingsFrom : Rebuild → List Closing → List TxnRow → List (List Closing)
  | _, _, [] => []
  | w, cs, r :: rows =>
    let next := rebuildStep account sid multiplier w r
    match appliedBy w r with
    | none => closingsFrom next cs rows
    | some (delta, price) =>
      let closing : Closing := ⟨min |delta| |w.lot.signedQuantity|, price⟩
      match lotMove w.lot.signedQuantity delta with
      | .opens => closingsFrom next cs rows
      | .adds => closingsFrom next cs rows
      | .reduces => closingsFrom next (cs ++ [closing]) rows
      | .closes => (cs ++ [closing]) :: closingsFrom next [] rows
      | .flips => (cs ++ [closing]) :: closingsFrom next [] rows

/-- The moves of the rows. -/
def moves (rows : List TxnRow) : List Move := movesFrom account sid multiplier {} rows

/-- The closings of each lifecycle that the rows complete, in order. -/
def closings (rows : List TxnRow) : List (List Closing) :=
  closingsFrom account sid multiplier {} [] rows

end Defs

/-- A later move does not complete the lifecycle that an earlier one has closed in part. -/
def Move.Whole (m m' : Move) : Prop := m = .reduces → m'.completes = false

instance (m m' : Move) : Decidable (m.Whole m') := inferInstanceAs (Decidable (_ → _))

/-- No lifecycle that the moves complete, the open one with its closings included, is closed in
part before. -/
def WholeFrom (cs : List Closing) (ms : List Move) : Prop :=
  (cs = [] ∨ ∀ m ∈ ms, m.completes = false) ∧ ms.Pairwise Move.Whole

section Whole

variable {m : Move} {ms : List Move} {cs cs' : List Closing}

theorem wholeFrom_nil : WholeFrom [] ms ↔ ms.Pairwise Move.Whole := by
  simp [WholeFrom]

/-- Neither an opening nor an addition matters. -/
theorem wholeFrom_cons_of_feeds (hm : m = .opens ∨ m = .adds) :
    WholeFrom cs (m :: ms) ↔ WholeFrom cs ms := by
  have hcompletes : m.completes = false := by rcases hm with rfl | rfl <;> rfl
  have hwhole : ∀ m', m.Whole m' := by
    rintro m' rfl
    rcases hm with h | h <;> cases h
  simp [WholeFrom, hcompletes, hwhole]

theorem wholeFrom_cons_reduces (hcs : cs' ≠ []) :
    WholeFrom cs (.reduces :: ms) ↔ WholeFrom cs' ms := by
  have hwhole : (∀ m' ∈ ms, Move.reduces.Whole m') ↔ ∀ m' ∈ ms, m'.completes = false := by
    simp [Move.Whole]
  simp only [WholeFrom, List.forall_mem_cons, List.pairwise_cons, hwhole, hcs, false_or]
  constructor
  · exact And.right
  · intro h
    exact ⟨Or.inr ⟨rfl, h.1⟩, h⟩

theorem wholeFrom_cons_of_completes (hm : m.completes = true) :
    WholeFrom cs (m :: ms) ↔ cs = [] ∧ WholeFrom [] ms := by
  have hwhole : ∀ m', m.Whole m' := by
    rintro m' rfl
    cases hm
  simp [WholeFrom, hm, hwhole]

end Whole

/-! ## The open lifecycle -/

/-- The closings so far are those of the open lot. -/
structure OpenLifecycle (w : Rebuild) (cs : List Closing) : Prop where
  flat : w.lot.signedQuantity = 0 → cs = []
  positive : ∀ c ∈ cs, 0 < c.quantity
  unrealized : cs = [] → w.lot.realizedPnl = 0

section Step

variable {account sid : String} {multiplier : Int} {w : Rebuild} {cs : List Closing}
  {delta price : ℚ}

@[simp] theorem closedQuantity_append (cs cs' : List Closing) :
    closedQuantity (cs ++ cs') = closedQuantity cs + closedQuantity cs' := by
  simp [closedQuantity]

@[simp] theorem closedQuantity_singleton (c : Closing) : closedQuantity [c] = c.quantity := by
  simp [closedQuantity]

theorem OpenLifecycle.closedQuantity_pos (h : OpenLifecycle w cs) (hcs : cs ≠ []) :
    0 < closedQuantity cs := by
  refine List.sum_pos _ (fun q hq => ?_) (by simpa using hcs)
  obtain ⟨c, hc, rfl⟩ := List.mem_map.mp hq
  exact h.positive c hc

/-- The record that the rebuild assembles describes the round trip exactly when the row that
completes it is its only closing. -/
theorem OpenLifecycle.describes_iff (h : OpenLifecycle w cs) (r : TxnRow)
    (hopen : w.lot.signedQuantity ≠ 0)
    (hwhole : min |delta| |w.lot.signedQuantity| = |w.lot.signedQuantity|) :
    Describes multiplier (completedRow account sid multiplier w r delta price)
      (cs ++ [⟨min |delta| |w.lot.signedQuantity|, price⟩]) ↔ cs = [] := by
  constructor
  · intro hdescribes
    by_contra hcs
    have hq := hdescribes.quantity
    have hpos := h.closedQuantity_pos hcs
    simp only [completedRow, closedRow, RunningLot.signedQuantity_reduced, closedQuantity_append,
      closedQuantity_singleton, hwhole] at hq
    linarith
  · rintro rfl
    have hmean : meanPrice [⟨|w.lot.signedQuantity|, price⟩] = price := by
      have hne : |w.lot.signedQuantity| ≠ 0 := abs_ne_zero.mpr hopen
      simp only [meanPrice, closedQuantity_singleton, List.map_cons, List.map_nil, List.sum_cons,
        List.sum_nil, add_zero]
      exact mul_div_cancel_left₀ price hne
    rw [List.nil_append, hwhole]
    refine ⟨?_, ?_, ?_⟩
    · rw [closedQuantity_singleton]
      rfl
    · rw [hmean]
      rfl
    · simp only [completedRow, closedRow, RunningLot.reduced, h.unrealized rfl, hwhole, zero_add,
        Option.getD_some]
      by_cases hpos : 0 < w.lot.signedQuantity <;> simp [hpos]

/-- A row that completes the lifecycle closes the whole lot. -/
theorem min_abs_of_completes {held : ℚ} (hagainst : ¬0 < held * delta) (hopen : held ≠ 0)
    (hcompletes : held + delta = 0 ∨ (0 < held + delta) ≠ (0 < held)) :
    min |delta| |held| = |held| := by
  by_cases hzero : held + delta = 0
  · rw [eq_neg_of_add_eq_zero_right hzero, abs_neg, min_self]
  · refine min_eq_right (le_of_not_ge fun hle => ?_)
    rcases (abs_le_abs_iff_of_reduces hagainst hopen).mp hle with hempty | hsame
    · exact hzero hempty
    · exact hsame (hcompletes.resolve_left hzero)

/-- The closing of a row that goes against the lot belongs to the open lifecycle. -/
theorem OpenLifecycle.positive_append (h : OpenLifecycle w cs) (hopen : w.lot.signedQuantity ≠ 0)
    (hdelta : delta ≠ 0) :
    ∀ c ∈ cs ++ [⟨min |delta| |w.lot.signedQuantity|, price⟩], 0 < c.quantity := by
  intro c hc
  rcases List.mem_append.mp hc with hc | hc
  · exact h.positive c hc
  · rw [List.mem_singleton.mp hc]
    exact lt_min (abs_pos.mpr hdelta) (abs_pos.mpr hopen)

/-- A row feeds the open lifecycle, closes a part of it or completes it. -/
theorem OpenLifecycle.apply_cases (account sid : String) (multiplier : Int) (r : TxnRow)
    (price : ℚ) (h : OpenLifecycle w cs) (hdelta : delta ≠ 0) :
    let closing : Closing := ⟨min |delta| |w.lot.signedQuantity|, price⟩
    let record := completedRow account sid multiplier w r delta price
    let next := applyDelta account sid multiplier w r delta price
    ((lotMove w.lot.signedQuantity delta = .opens ∨ lotMove w.lot.signedQuantity delta = .adds) ∧
        closedRows next.plan = closedRows w.plan ∧ OpenLifecycle next cs) ∨
      (lotMove w.lot.signedQuantity delta = .reduces ∧
        closedRows next.plan = closedRows w.plan ∧ OpenLifecycle next (cs ++ [closing])) ∨
      ((lotMove w.lot.signedQuantity delta = .closes ∨
          lotMove w.lot.signedQuantity delta = .flips) ∧
        closedRows next.plan = closedRows w.plan ++ [record] ∧ OpenLifecycle next [] ∧
        (Describes multiplier record (cs ++ [closing]) ↔ cs = [])) := by
  simp only []
  refine applyDelta_cases account sid multiplier w r delta price ?_ ?_ ?_ ?_ ?_
  · intro hflat
    have hmove : lotMove w.lot.signedQuantity delta = .opens := by simp [lotMove, hflat]
    exact Or.inl ⟨Or.inl hmove, by simp, fun _ => h.flat hflat, h.positive, fun _ => rfl⟩
  · intro hflat hadds
    have hmove : lotMove w.lot.signedQuantity delta = .adds := by simp [lotMove, hflat, hadds]
    exact Or.inl ⟨Or.inr hmove, by simp,
      fun h0 => absurd h0 (add_ne_zero_of_mul_pos hadds), h.positive, h.unrealized⟩
  · intro hflat hagainst hzero
    have hmove : lotMove w.lot.signedQuantity delta = .closes := by
      simp [lotMove, hflat, hagainst, hzero]
    exact Or.inr (Or.inr ⟨Or.inl hmove, by simp, ⟨fun _ => rfl, by simp, fun _ => rfl⟩,
      h.describes_iff r hflat (min_abs_of_completes hagainst hflat (Or.inl hzero))⟩)
  · intro hflat hagainst hzero hflip
    have hmove : lotMove w.lot.signedQuantity delta = .flips := by
      simp only [lotMove, hflat, hagainst, hzero, if_false, if_pos hflip]
    exact Or.inr (Or.inr ⟨Or.inr hmove, by simp, ⟨fun _ => rfl, by simp, fun _ => rfl⟩,
      h.describes_iff r hflat (min_abs_of_completes hagainst hflat (Or.inr hflip))⟩)
  · intro hflat hagainst hzero hflip
    have hmove : lotMove w.lot.signedQuantity delta = .reduces := by
      simp only [lotMove, hflat, hagainst, hzero, if_false, if_neg hflip]
    exact Or.inr (Or.inl ⟨hmove, by simp, fun h0 => absurd h0 hzero,
      h.positive_append hflat hdelta, fun h0 => absurd h0 (by simp)⟩)

end Step

/-! ## The whole walk -/

section Walk

variable {account sid : String} {multiplier : Int}

/-- What the rows complete from a state on, described or not. -/
theorem describe_from_iff (rows : List TxnRow) :
    ∀ (w : Rebuild) (cs : List Closing), OpenLifecycle w cs →
      ∃ emitted,
        closedRows (rows.foldl (rebuildStep account sid multiplier) w).plan =
          closedRows w.plan ++ emitted ∧
        (List.Forall₂ (Describes multiplier) emitted
            (closingsFrom account sid multiplier w cs rows) ↔
          WholeFrom cs (movesFrom account sid multiplier w rows)) := by
  induction rows with
  | nil =>
    intro w cs _
    exact ⟨[], by simp, by simp [closingsFrom, movesFrom, WholeFrom]⟩
  | cons r rows ih =>
    intro w cs h
    rw [List.foldl_cons, movesFrom, closingsFrom]
    simp only []
    cases happ : appliedBy w r with
    | none =>
      have hstep : rebuildStep account sid multiplier w r =
          { w with plan := w.plan ++ [⟨r.ttTransactionId, false, none⟩] } := by
        rw [rebuildStep, happ]
      obtain ⟨emitted, hemitted, hiff⟩ := ih (rebuildStep account sid multiplier w r) cs (by
        rw [hstep]
        exact ⟨h.flat, h.positive, h.unrealized⟩)
      refine ⟨emitted, ?_, ?_⟩
      · rw [hemitted, hstep]
        simp
      · simpa using hiff
    | some e =>
      obtain ⟨delta, price⟩ := e
      have hstep : rebuildStep account sid multiplier w r =
          applyDelta account sid multiplier w r delta price := by
        rw [rebuildStep, happ]
      rw [hstep]
      simp only [Option.map_some, Option.toList_some, List.singleton_append]
      rcases h.apply_cases account sid multiplier r price (appliedBy_ne_zero happ) with
        ⟨hmove, hrows, hnext⟩ | ⟨hmove, hrows, hnext⟩ | ⟨hmove, hrows, hnext, hdescribes⟩
      · obtain ⟨emitted, hemitted, hiff⟩ := ih _ cs hnext
        refine ⟨emitted, by rw [hemitted, hrows], ?_⟩
        rw [wholeFrom_cons_of_feeds hmove, ← hiff]
        rcases hmove with hmove | hmove <;> rw [hmove]
      · obtain ⟨emitted, hemitted, hiff⟩ := ih _ _ hnext
        refine ⟨emitted, by rw [hemitted, hrows], ?_⟩
        have hne : cs ++ [⟨min |delta| |w.lot.signedQuantity|, price⟩] ≠ [] := by simp
        rw [hmove, wholeFrom_cons_reduces hne]
        exact hiff
      · obtain ⟨emitted, hemitted, hiff⟩ := ih _ [] hnext
        have hcompletes : (lotMove w.lot.signedQuantity delta).completes = true := by
          rcases hmove with hmove | hmove <;> rw [hmove] <;> rfl
        refine ⟨completedRow account sid multiplier w r delta price :: emitted,
          by rw [hemitted, hrows, List.append_assoc, List.singleton_append], ?_⟩
        rw [wholeFrom_cons_of_completes hcompletes, ← hiff, ← hdescribes, ← List.forall₂_cons]
        rcases hmove with hmove | hmove <;> rw [hmove]

variable (account sid) (multiplier)

/-- **A closed row describes its round trip exactly when its lifecycle is closed in one go.** For
every list of rows and every multiplier, the closed rows of the replay describe the lifecycles that
the rows complete, one by one, if and only if no row that closes a part of the lot comes before a
row that closes or flips it. -/
theorem closedRows_describe_iff (existing : Option PositionRow) (rows : List TxnRow) :
    List.Forall₂ (Describes multiplier)
        (closedRows (replaySecurity account sid rows multiplier existing).2)
        (closings account sid multiplier rows) ↔
      (moves account sid multiplier rows).Pairwise Move.Whole := by
  obtain ⟨emitted, hemitted, hiff⟩ := @describe_from_iff account sid multiplier rows {} []
    ⟨fun _ => rfl, by simp, fun _ => rfl⟩
  have hrows : closedRows (replaySecurity account sid rows multiplier existing).2 = emitted := by
    rw [replaySecurity, rebuild, hemitted]
    rfl
  rw [hrows, closings, hiff, wholeFrom_nil, moves]

end Walk

/-- Two contracts bought at 100 and sold one by one, at 110 and at 120: the closed row is of one
contract, closed at 120, with the P&L of both. -/
theorem not_closedRows_describe :
    let rows :=
      [TxnRow.trade "a" "Buy to Open" 2 100 0 0, TxnRow.trade "b" "Sell to Close" 1 110 0 day,
        TxnRow.trade "c" "Sell to Close" 1 120 0 (2 * day)]
    (closedRows (replaySecurity "live" "contract" rows 1 none).2).map (fun c =>
        (c.quantity, c.averageOpenPrice, c.averageClosePrice, c.realizedPnl)) =
        [(1, some 100, some 120, some 30)] ∧
      closings "live" "contract" 1 rows = [[⟨1, 110⟩, ⟨1, 120⟩]] ∧
      ¬List.Forall₂ (Describes 1)
        (closedRows (replaySecurity "live" "contract" rows 1 none).2)
        (closings "live" "contract" 1 rows) := by
  decide +kernel

end TtLedger
