import Mathlib.Data.List.TakeWhile
import Mathlib.Data.Option.Basic

/-!
# Backtracking matchers

A pattern is matched against the front of a text by the list of its successes, each the value read
with the text left over, in the order a backtracking engine tries them; what the engine finds is
the first. A class repeated between two bounds is tried longest first, or shortest first when lazy:
the order is all that laziness changes (`mem_rep`), so where a text has one split only, it does not
matter (`first_eq_some_iff`).
-/

namespace TtLedger

/-- The successes of a pattern on a text, each with the text left over, in the order tried. -/
def Matcher (α β : Type) := List α → List (β × List α)

namespace Matcher

variable {α β γ : Type}

/-- The pattern that reads nothing. -/
def done (b : β) : Matcher α β := fun s => [(b, s)]

/-- A pattern, then one that depends on what was read. -/
def andThen (m : Matcher α β) (f : β → Matcher α γ) : Matcher α γ :=
  fun s => (m s).flatMap fun r => f r.1 r.2

instance : Monad (Matcher α) where
  pure := done
  bind := andThen

/-- The class `p` from `lo` to `hi` times. -/
def rep (p : α → Bool) (greedy : Bool) : ℕ → Option ℕ → Matcher α (List α)
  | lo, _, [] => if lo = 0 then [([], [])] else []
  | lo, hi, c :: s =>
    let stop := if lo = 0 then [([], c :: s)] else []
    let more := if p c && hi != some 0 then
      (rep p greedy (lo - 1) (hi.map (· - 1)) s).map fun r => (c :: r.1, r.2) else []
    if greedy then more ++ stop else stop ++ more

/-- The class `p`, once. -/
def one (p : α → Bool) : Matcher α α
  | [] => []
  | c :: s => if p c then [(c, s)] else []

/-- The end of the text, or of its last line. -/
def atEnd [DecidableEq α] (newline : α) : Matcher α Unit :=
  fun s => if s = [] ∨ s = [newline] then [((), s)] else []

/-- What the engine finds. -/
def first (m : Matcher α β) (s : List α) : Option β := ((m s).head?).map Prod.fst

/-! ## The successes -/

@[simp] theorem mem_pure {b b' : β} {s rest : List α} :
    (b', rest) ∈ (pure b : Matcher α β) s ↔ b' = b ∧ rest = s := by
  change (b', rest) ∈ [(b, s)] ↔ _
  simp

@[simp] theorem mem_bind {m : Matcher α β} {f : β → Matcher α γ} {c : γ} {s rest : List α} :
    (c, rest) ∈ (m >>= f) s ↔ ∃ b mid, (b, mid) ∈ m s ∧ (c, rest) ∈ f b mid := by
  change (c, rest) ∈ (m s).flatMap (fun r => f r.1 r.2) ↔ _
  simp

@[simp] theorem mem_one {p : α → Bool} {c : α} {s rest : List α} :
    (c, rest) ∈ one p s ↔ s = c :: rest ∧ p c = true := by
  cases s with
  | nil => simp [one]
  | cons d s =>
    rw [one, List.cons.injEq]
    split
    · next hp =>
      simp only [List.mem_singleton, Prod.mk.injEq]
      constructor
      · rintro ⟨rfl, rfl⟩
        exact ⟨⟨rfl, rfl⟩, hp⟩
      · rintro ⟨⟨rfl, rfl⟩, -⟩
        exact ⟨rfl, rfl⟩
    · next hp =>
      simp only [List.not_mem_nil, false_iff]
      rintro ⟨⟨rfl, -⟩, h⟩
      exact hp h

/-- Greedy or lazy, the successes of a repeated class are to stop here and to read one more. -/
theorem mem_rep_cons {p : α → Bool} {greedy : Bool} {lo : ℕ} {hi : Option ℕ} {c : α}
    {s a rest : List α} : (a, rest) ∈ rep p greedy lo hi (c :: s) ↔
      (lo = 0 ∧ a = [] ∧ rest = c :: s) ∨
        (p c = true ∧ hi ≠ some 0) ∧
          ∃ a', (a', rest) ∈ rep p greedy (lo - 1) (hi.map (· - 1)) s ∧ a = c :: a' := by
  have horder : ∀ stop more : List (List α × List α),
      (a, rest) ∈ (if greedy then more ++ stop else stop ++ more) ↔
        (a, rest) ∈ stop ∨ (a, rest) ∈ more := by
    intro stop more
    cases greedy <;> simp [or_comm]
  rw [rep, horder]
  refine or_congr ?_ ?_
  · by_cases hlo : lo = 0 <;> simp [hlo]
  · by_cases hgo : p c = true ∧ hi ≠ some 0
    · have hgo' : (p c && hi != some 0) = true := by simpa using hgo
      rw [if_pos hgo', and_iff_right hgo, List.mem_map]
      constructor
      · rintro ⟨⟨a', rest'⟩, hmem, heq⟩
        obtain ⟨rfl, rfl⟩ := Prod.mk.inj heq
        exact ⟨a', hmem, rfl⟩
      · rintro ⟨a', hmem, rfl⟩
        exact ⟨(a', rest), hmem, rfl⟩
    · have hgo' : ¬(p c && hi != some 0) = true := by simpa using hgo
      simp [hgo', hgo]

/-- A repeated class matches each front of the text that is in the class and within the bounds,
whether it is greedy or lazy. -/
theorem mem_rep {p : α → Bool} {greedy : Bool} {lo : ℕ} {hi : Option ℕ} {s a rest : List α} :
    (a, rest) ∈ rep p greedy lo hi s ↔
      s = a ++ rest ∧ lo ≤ a.length ∧ (∀ n ∈ hi, a.length ≤ n) ∧ ∀ c ∈ a, p c = true := by
  induction s generalizing lo hi a with
  | nil =>
    cases a <;> cases lo <;> simp [rep, @eq_comm _ [] rest]
  | cons c s ih =>
    rw [mem_rep_cons]
    cases a with
    | nil => simp [@eq_comm _ (c :: s) rest, and_comm]
    | cons d a =>
      have hbound : (∀ n ∈ hi, (d :: a).length ≤ n) ↔
          hi ≠ some 0 ∧ ∀ n ∈ hi.map (· - 1), a.length ≤ n := by
        cases hi with
        | none => simp
        | some n => cases n <;> simp
      have hlow : lo ≤ (d :: a).length ↔ lo - 1 ≤ a.length := by
        rw [List.length_cons]
        omega
      simp only [List.cons_append, List.cons.injEq, reduceCtorEq, false_and, and_false, false_or,
        ih, hbound, hlow, List.forall_mem_cons]
      constructor
      · rintro ⟨⟨hp, hhi⟩, a', ⟨rfl, hlo, hle, hclass⟩, rfl, rfl⟩
        exact ⟨⟨rfl, rfl⟩, hlo, ⟨hhi, hle⟩, hp, hclass⟩
      · rintro ⟨⟨rfl, rfl⟩, hlo, ⟨hhi, hle⟩, hp, hclass⟩
        exact ⟨⟨hp, hhi⟩, a, ⟨rfl, hlo, hle, hclass⟩, rfl, rfl⟩

/-- A class repeated a fixed number of times. -/
theorem mem_rep_self {p : α → Bool} {greedy : Bool} {n : ℕ} {s a rest : List α} :
    (a, rest) ∈ rep p greedy n (some n) s ↔
      s = a ++ rest ∧ a.length = n ∧ ∀ c ∈ a, p c = true := by
  rw [mem_rep, ← and_assoc (a := n ≤ a.length)]
  simp only [Option.mem_some_iff, forall_eq']
  rw [← Nat.le_antisymm_iff, @eq_comm _ n]

@[simp] theorem mem_atEnd [DecidableEq α] {newline : α} {b : Unit} {s rest : List α} :
    (b, rest) ∈ atEnd newline s ↔ rest = s ∧ (s = [] ∨ s = [newline]) := by
  rw [atEnd]
  split <;> simp_all

/-- Where the successes agree on the value read, the engine finds it. -/
theorem first_eq_some_iff {m : Matcher α β} {s : List α} {b : β}
    (huniq : ∀ b b' rest rest', (b, rest) ∈ m s → (b', rest') ∈ m s → b = b') :
    first m s = some b ↔ ∃ rest, (b, rest) ∈ m s := by
  rw [first, Option.map_eq_some_iff]
  constructor
  · rintro ⟨r, hr, rfl⟩
    exact ⟨r.2, List.mem_of_head? hr⟩
  · rintro ⟨rest, hmem⟩
    cases hhead : (m s).head? with
    | none =>
      rw [List.head?_eq_none_iff.mp hhead] at hmem
      exact absurd hmem (List.not_mem_nil)
    | some r => exact ⟨r, rfl, huniq _ _ _ _ (List.mem_of_head? hhead) hmem⟩

/-! ## Splits -/

/-- A text splits in one way into a front in a class and a remainder that does not start in it. -/
theorem split_unique {p : α → Bool} {a a' b b' : List α} (ha : ∀ c ∈ a, p c = true)
    (ha' : ∀ c ∈ a', p c = true) (hb : ∀ c ∈ b.head?, p c = false)
    (hb' : ∀ c ∈ b'.head?, p c = false) (h : a ++ b = a' ++ b') : a = a' ∧ b = b' := by
  have hfront : ∀ {x y : List α}, (∀ c ∈ x, p c = true) → (∀ c ∈ y.head?, p c = false) →
      (x ++ y).takeWhile p = x := by
    intro x y hx hy
    rw [List.takeWhile_append_of_pos hx]
    cases y with
    | nil => simp
    | cons c y => simp [hy c rfl]
  have haa : a = a' := by rw [← hfront ha hb, h, hfront ha' hb']
  subst haa
  exact ⟨rfl, List.append_cancel_left h⟩

end Matcher

end TtLedger
