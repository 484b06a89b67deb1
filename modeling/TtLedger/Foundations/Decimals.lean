import TtLedger.Foundations.Rounding
import Mathlib.Algebra.BigOperators.Group.List.Basic
import Mathlib.Algebra.Order.Group.Unbundled.Abs
import Mathlib.Tactic.TypeStar

/-!
# Arithmetic whose results are rounded

An `Arith K α` is a computation over numbers of `K` whose operations round: each states its exact
result and goes on with the rounded one. `run` is the computation in a context, given by how it
rounds; `results` are the exact results on the way. A computation none of whose results is rounded
computes what exact arithmetic does (`run_of_exact`), and so a sum whose partial sums are kept is
the sum (`run_total_of_exact`). A `Context` rounds without changing signs, as a context of bounded
precision does (`Context.digits`).
-/

namespace TtLedger

/-- A computation in a context of rounded arithmetic. -/
inductive Arith (K α : Type) : Type
  /-- Return a value. -/
  | ret (a : α)
  /-- Round an exact result and go on. -/
  | op (exact : K) (next : K → Arith K α)

namespace Arith

variable {K α β σ : Type}

def bind : Arith K α → (α → Arith K β) → Arith K β
  | ret a, f => f a
  | op q k, f => op q fun x => (k x).bind f

instance : Monad (Arith K) where
  pure := ret
  bind := bind

/-- The value computed in a context. -/
def run (round : K → K) : Arith K α → α
  | ret a => a
  | op q k => run round (k (round q))

/-- The exact results of the operations, before each is rounded. -/
def results (round : K → K) : Arith K α → List K
  | ret _ => []
  | op q k => q :: results round (k (round q))

/-- No result is rounded. -/
def Exact (round : K → K) (p : Arith K α) : Prop := ∀ q ∈ p.results round, round q = q

instance [DecidableEq K] (round : K → K) (p : Arith K α) : Decidable (Exact round p) :=
  inferInstanceAs (Decidable (∀ q ∈ p.results round, round q = q))

/-! ## Runs -/

section Runs

variable (round : K → K)

@[simp] theorem run_pure (a : α) : (pure a : Arith K α).run round = a := rfl

@[simp] theorem run_bind (p : Arith K α) (f : α → Arith K β) :
    (p >>= f).run round = (f (p.run round)).run round := by
  show (p.bind f).run round = _
  induction p with
  | ret a => rfl
  | op q k ih => exact ih _

@[simp] theorem run_ite (c : Prop) [Decidable c] (p p' : Arith K α) :
    (if c then p else p').run round = if c then p.run round else p'.run round := by
  split <;> rfl

@[simp] theorem results_pure (a : α) : (pure a : Arith K α).results round = [] := rfl

@[simp] theorem results_bind (p : Arith K α) (f : α → Arith K β) :
    (p >>= f).results round = p.results round ++ (f (p.run round)).results round := by
  show (p.bind f).results round = _
  induction p with
  | ret a => rfl
  | op q k ih => exact congrArg (q :: ·) (ih _)

theorem run_foldlM (f : σ → α → Arith K σ) (x : σ) (l : List α) :
    (l.foldlM f x).run round = l.foldl (fun x a => (f x a).run round) x := by
  induction l generalizing x with
  | nil => rfl
  | cons a l ih => rw [List.foldlM_cons, run_bind, ih, List.foldl_cons]

variable {round}

@[simp] theorem exact_pure (a : α) : Exact round (pure a : Arith K α) := by simp [Exact]

theorem exact_bind_iff {p : Arith K α} {f : α → Arith K β} :
    Exact round (p >>= f) ↔ Exact round p ∧ Exact round (f (p.run round)) := by
  simp only [Exact, results_bind, List.forall_mem_append]

/-- **A computation none of whose results is rounded is exact.** -/
theorem run_of_exact {p : Arith K α} (h : Exact round p) : p.run round = p.run id := by
  induction p with
  | ret a => rfl
  | op q k ih =>
    have hq : round q = q := h q List.mem_cons_self
    have htail : Exact round (k (round q)) := fun x hx => h x (List.mem_cons_of_mem _ hx)
    rw [hq] at htail
    show (k (round q)).run round = (k q).run id
    rw [hq, ih q htail]

end Runs

/-! ## Operations -/

/-- Round a result. -/
def rounded (q : K) : Arith K K := op q ret

@[simp] theorem run_rounded (round : K → K) (q : K) : (rounded q).run round = round q := rfl

def add [Add K] (x y : K) : Arith K K := rounded (x + y)

def sub [Sub K] (x y : K) : Arith K K := rounded (x - y)

def mul [Mul K] (x y : K) : Arith K K := rounded (x * y)

def div [Div K] (x y : K) : Arith K K := rounded (x / y)

def neg [Neg K] (x : K) : Arith K K := rounded (-x)

def abs [Lattice K] [AddGroup K] (x : K) : Arith K K := rounded |x|

section Operations

variable (round : K → K)

@[simp] theorem run_add [Add K] (x y : K) : (add x y).run round = round (x + y) := rfl

@[simp] theorem run_sub [Sub K] (x y : K) : (sub x y).run round = round (x - y) := rfl

@[simp] theorem run_mul [Mul K] (x y : K) : (mul x y).run round = round (x * y) := rfl

@[simp] theorem run_div [Div K] (x y : K) : (div x y).run round = round (x / y) := rfl

@[simp] theorem run_neg [Neg K] (x : K) : (neg x).run round = round (-x) := rfl

@[simp] theorem run_abs [Lattice K] [AddGroup K] (x : K) : (abs x).run round = round |x| := rfl

end Operations

/-! ## Totals -/

section Totals

variable [AddMonoid K]

/-- Add numbers up, one after the other. -/
def total (l : List K) : Arith K K := l.foldlM add 0

theorem run_total (round : K → K) (l : List K) :
    (total l).run round = l.foldl (fun x y => round (x + y)) 0 := run_foldlM round add 0 l

theorem run_total_concat (round : K → K) (l : List K) (q : K) :
    (total (l ++ [q])).run round = round ((total l).run round + q) := by
  rw [run_total, run_total, List.foldl_append]
  rfl

/-- A total whose partial sums are kept is the sum. -/
theorem run_total_of_exact {round : K → K} {l : List K} (h : Exact round (total l)) :
    (total l).run round = l.sum := by
  rw [run_of_exact h, run_total, List.sum_eq_foldl]
  rfl

end Totals

/-! ## Contexts -/

/-- A way to round that keeps signs. -/
structure Context (K : Type) [Zero K] [LT K] where
  round : K → K
  pos : ∀ q, 0 < round q ↔ 0 < q
  neg : ∀ q, round q < 0 ↔ q < 0

namespace Context

theorem ne_zero [Zero K] [LinearOrder K] (ctx : Context K) {q : K} (h : q ≠ 0) :
    ctx.round q ≠ 0 := by
  rcases lt_or_gt_of_ne h with hneg | hpos
  · exact ((ctx.neg q).mpr hneg).ne
  · exact ((ctx.pos q).mpr hpos).ne'

/-- The context of some significant digits. -/
def digits (precision : ℕ) (h : 0 < precision) : Context ℚ where
  round := roundToDigits precision
  pos := roundToDigits_pos_iff h
  neg := roundToDigits_neg_iff h

end Context

end Arith

end TtLedger
