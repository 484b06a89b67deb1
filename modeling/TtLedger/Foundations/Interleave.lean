import TtLedger.Foundations.Guarded

/-!
# Two programs side by side

`Interleaved m p q s tr x y s'` is a run of two programs that share a state: their calls alternate
in any order, each of them atomic, and `tr` records who issued which. `interleave` runs a given
schedule, and what it computes is such a run (`interleaved_interleave`).

A `Monitor` follows one party's own calls and replies: `Obeys M g p` says that, whatever replies
`p` receives, each call it issues is allowed by what the monitor has seen since `g`. It is a
property of the program alone, so it holds in the presence of any other party, and it composes
along the program (`Obeys.bind`, `Obeys.tryCatch`, `Obeys.foldlM`). Where the memory only grows,
`ObeysFrom M le g p` says so from a certain knowledge on.

A monitor is also a meaning of the calls, on what it has seen: a program guarded under
`Monitor.meaning` says in addition what it has seen when it ends. Two such programs side by side
keep every invariant that relates what both have seen to the shared state, when each allowed call
of either keeps it (`Interleaved.guarded`).
-/

namespace TtLedger

namespace Prog

variable {Op : Type} {Res : Op → Type} {ε α β γ σ : Type}

/-! ## Interleaved runs -/

/-- The first or the second of two programs. -/
inductive Party
  | first
  | second
  deriving DecidableEq

/-- What a program with no call left has come to. -/
def outcome : Prog Op Res ε α → Option (Except ε α)
  | ret a => some (.ok a)
  | raise e => some (.error e)
  | call _ _ => none

/-- The runs of two programs side by side: the calls issued, the outcomes and the state reached. -/
inductive Interleaved (m : Meaning Op Res ε σ) :
    Prog Op Res ε α → Prog Op Res ε β → σ → List (Party × Op) → Except ε α → Except ε β → σ → Prop
  | done {p : Prog Op Res ε α} {q : Prog Op Res ε β} {s : σ} {x : Except ε α} {y : Except ε β}
      (hp : p.outcome = some x) (hq : q.outcome = some y) : Interleaved m p q s [] x y s
  | first {op : Op} {k : Except ε (Res op) → Prog Op Res ε α} {q : Prog Op Res ε β} {s s' s'' : σ}
      {r : Except ε (Res op)} {tr : List (Party × Op)} {x : Except ε α} {y : Except ε β}
      (hop : m op s r s') (hrest : Interleaved m (k r) q s' tr x y s'') :
      Interleaved m (call op k) q s ((.first, op) :: tr) x y s''
  | second {op : Op} {k : Except ε (Res op) → Prog Op Res ε β} {p : Prog Op Res ε α} {s s' s'' : σ}
      {r : Except ε (Res op)} {tr : List (Party × Op)} {x : Except ε α} {y : Except ε β}
      (hop : m op s r s') (hrest : Interleaved m p (k r) s' tr x y s'') :
      Interleaved m p (call op k) s ((.second, op) :: tr) x y s''

/-- The calls of a sequential run. -/
def callsOf (h : Handler Op Res ε σ) : Prog Op Res ε α → σ → List Op
  | ret _, _ => []
  | raise _, _ => []
  | call op k, s => op :: callsOf h (k (h op s).1) (h op s).2

/-- Run two programs by a schedule, then the first and then the second to their ends: the calls,
the outcomes and the state. A party that has ended is skipped. -/
def interleave (h : Handler Op Res ε σ) : List Party → Prog Op Res ε α → Prog Op Res ε β → σ →
    List (Party × Op) × Except ε α × Except ε β × σ
  | [], p, q, s =>
    let r := run h p s
    let r' := run h q r.2
    ((callsOf h p s).map (Party.first, ·) ++ (callsOf h q r.2).map (Party.second, ·),
      r.1, r'.1, r'.2)
  | .first :: sched, call op k, q, s =>
    let r := interleave h sched (k (h op s).1) q (h op s).2
    ((.first, op) :: r.1, r.2)
  | .first :: sched, p, q, s => interleave h sched p q s
  | .second :: sched, p, call op k, s =>
    let r := interleave h sched p (k (h op s).1) (h op s).2
    ((.second, op) :: r.1, r.2)
  | .second :: sched, p, q, s => interleave h sched p q s

section Interleave

variable (h : Handler Op Res ε σ)

theorem interleaved_second {p : Prog Op Res ε α} {x : Except ε α} (hp : p.outcome = some x)
    (q : Prog Op Res ε β) (s : σ) :
    Interleaved h.meaning p q s ((callsOf h q s).map (Party.second, ·)) x
      (run h q s).1 (run h q s).2 := by
  induction q generalizing s with
  | ret b => exact .done hp rfl
  | raise e => exact .done hp rfl
  | call op k ih => exact .second rfl (ih (h op s).1 (h op s).2)

theorem interleaved_sequential (p : Prog Op Res ε α) (q : Prog Op Res ε β) (s : σ) :
    Interleaved h.meaning p q s (interleave h [] p q s).1 (interleave h [] p q s).2.1
      (interleave h [] p q s).2.2.1 (interleave h [] p q s).2.2.2 := by
  induction p generalizing s with
  | ret a => exact interleaved_second h rfl q s
  | raise e => exact interleaved_second h rfl q s
  | call op k ih => exact .first rfl (ih (h op s).1 (h op s).2)

/-- A schedule gives an interleaved run. -/
theorem interleaved_interleave (sched : List Party) (p : Prog Op Res ε α) (q : Prog Op Res ε β)
    (s : σ) :
    Interleaved h.meaning p q s (interleave h sched p q s).1 (interleave h sched p q s).2.1
      (interleave h sched p q s).2.2.1 (interleave h sched p q s).2.2.2 := by
  induction sched generalizing p q s with
  | nil => exact interleaved_sequential h p q s
  | cons party sched ih =>
    cases party with
    | first =>
      cases p with
      | ret a => exact ih _ q s
      | raise e => exact ih _ q s
      | call op k => exact .first rfl (ih (k (h op s).1) q (h op s).2)
    | second =>
      cases q with
      | ret b => exact ih p _ s
      | raise e => exact ih p _ s
      | call op k => exact .second rfl (ih p (k (h op s).1) (h op s).2)

end Interleave

/-! ## Monitors -/

/-- What a party's own calls and replies leave behind, and the calls allowed after them. -/
structure Monitor (Op : Type) (Res : Op → Type) (ε γ : Type) where
  update : γ → (op : Op) → Except ε (Res op) → γ
  allows : γ → Op → Prop

/-- Whatever the replies, each call is allowed by what was seen before it. -/
def Obeys (M : Monitor Op Res ε γ) : γ → Prog Op Res ε α → Prop
  | _, ret _ => True
  | _, raise _ => True
  | g, call op k => M.allows g op ∧ ∀ r, (k r).Obeys M (M.update g op r)

namespace Obeys

variable {M : Monitor Op Res ε γ} {g : γ} {p : Prog Op Res ε α}

@[simp] theorem pure (a : α) : (Pure.pure a : Prog Op Res ε α).Obeys M g := trivial

@[simp] theorem ofExcept (x : Except ε α) : (Prog.ofExcept x : Prog Op Res ε α).Obeys M g := by
  cases x <;> trivial

/-- The calls of a program are allowed ones. -/
theorem calls {P : Op → Prop} (hp : p.Obeys M g) (hP : ∀ g op, M.allows g op → P op) :
    p.Calls P := by
  induction p generalizing g with
  | ret a => trivial
  | raise e => trivial
  | call op k ih => exact ⟨hP g op hp.1, fun r => ih r (hp.2 r)⟩

/-- A monitor that follows another and allows more. -/
theorem follow {δ : Type} {N : Monitor Op Res ε δ} {R : γ → δ → Prop} {d : δ}
    (hallows : ∀ g d op, R g d → M.allows g op → N.allows d op)
    (hupdate : ∀ g d op r, R g d → M.allows g op → R (M.update g op r) (N.update d op r))
    (hp : p.Obeys M g) (hR : R g d) : p.Obeys N d := by
  induction p generalizing g d with
  | ret a => trivial
  | raise e => trivial
  | call op k ih =>
    exact ⟨hallows g d op hR hp.1, fun r => ih r (hp.2 r) (hupdate g d op r hR hp.1)⟩

/-- A monitor with the same memory that allows more. -/
theorem mono {N : Monitor Op Res ε γ} (hp : p.Obeys M g)
    (hallows : ∀ g op, M.allows g op → N.allows g op)
    (hupdate : ∀ g op r, M.update g op r = N.update g op r) : p.Obeys N g :=
  follow (fun g _ op hR h => by cases hR; exact hallows g op h)
    (fun g _ op r hR _ => by cases hR; exact hupdate g op r) hp rfl

theorem invoke {op : Op} (hop : M.allows g op) :
    (Prog.invoke op : Prog Op Res ε (Res op)).Obeys M g := by
  refine ⟨hop, fun r => ?_⟩
  cases r <;> trivial

theorem bind {f : α → Prog Op Res ε β} (hp : p.Obeys M g) (hf : ∀ a g', (f a).Obeys M g') :
    (p >>= f).Obeys M g := by
  change (p.bind f).Obeys M g
  induction p generalizing g with
  | ret a => exact hf a g
  | raise e => trivial
  | call op k ih => exact ⟨hp.1, fun r => ih r (hp.2 r)⟩

theorem tryCatch {f : ε → Prog Op Res ε α} (hp : p.Obeys M g)
    (hf : ∀ e g', (f e).Obeys M g') : (p.tryCatch f).Obeys M g := by
  induction p generalizing g with
  | ret a => trivial
  | raise e => exact hf e g
  | call op k ih => exact ⟨hp.1, fun r => ih r (hp.2 r)⟩

/-- A sequence whose first call replies before the rest goes on. -/
theorem bind_invoke {op : Op} {f : Res op → Prog Op Res ε β} (hop : M.allows g op)
    (hf : ∀ a, (f a).Obeys M (M.update g op (.ok a))) : (Prog.invoke op >>= f).Obeys M g := by
  refine ⟨hop, fun r => ?_⟩
  cases r with
  | ok a => exact hf a
  | error e => trivial

/-- A sequence whose first program the monitor does not notice. -/
theorem bind_calls {P : Op → Prop} {f : α → Prog Op Res ε β} (hp : p.Calls P)
    (hP : ∀ op, P op → M.allows g op ∧ ∀ r, M.update g op r = g) (hf : ∀ a, (f a).Obeys M g) :
    (p >>= f).Obeys M g := by
  change (p.bind f).Obeys M g
  induction p with
  | ret a => exact hf a
  | raise e => trivial
  | call op k ih =>
    obtain ⟨hallows, hsame⟩ := hP op hp.1
    refine ⟨hallows, fun r => ?_⟩
    rw [hsame r]
    exact ih r (hp.2 r)

theorem of_calls {P : Op → Prop} (hp : p.Calls P) (hP : ∀ op, P op → ∀ g, M.allows g op) :
    p.Obeys M g := by
  induction p generalizing g with
  | ret a => trivial
  | raise e => trivial
  | call op k ih => exact ⟨hP op hp.1 g, fun r => ih r (hp.2 r)⟩

theorem foldlM {f : β → α → Prog Op Res ε β} {l : List α}
    (hf : ∀ b, ∀ a ∈ l, ∀ g', (f b a).Obeys M g') : ∀ b, (l.foldlM f b).Obeys M g := by
  induction l generalizing g with
  | nil => exact fun b => trivial
  | cons a l ih =>
    intro b
    rw [List.foldlM_cons]
    exact (hf b a (by simp) g).bind fun b' g' => ih (fun b a ha => hf b a (by simp [ha])) b'

theorem forM {f : α → Prog Op Res ε PUnit} {l : List α} (hf : ∀ a ∈ l, ∀ g', (f a).Obeys M g') :
    (l.forM f).Obeys M g := by
  induction l generalizing g with
  | nil => trivial
  | cons a l ih =>
    exact (hf a (by simp) g).bind fun _ g' => ih fun a ha => hf a (by simp [ha])

end Obeys

/-! ## Monitors that only learn -/

/-- What a monitor has seen grows along a preorder. -/
structure Monitor.Grows (M : Monitor Op Res ε γ) (le : γ → γ → Prop) : Prop where
  refl : ∀ g, le g g
  trans : ∀ {g g' g''}, le g g' → le g' g'' → le g g''
  update : ∀ g op r, le g (M.update g op r)

/-- The program obeys the monitor once that much has been seen. -/
def ObeysFrom (M : Monitor Op Res ε γ) (le : γ → γ → Prop) (g : γ) (p : Prog Op Res ε α) : Prop :=
  ∀ g', le g g' → p.Obeys M g'

namespace ObeysFrom

variable {M : Monitor Op Res ε γ} {le : γ → γ → Prop} {g : γ} {p : Prog Op Res ε α}

@[simp] theorem pure (a : α) : (Pure.pure a : Prog Op Res ε α).ObeysFrom M le g :=
  fun _ _ => trivial

@[simp] theorem raise (e : ε) : (Prog.raise e : Prog Op Res ε α).ObeysFrom M le g :=
  fun _ _ => trivial

@[simp] theorem ofExcept (x : Except ε α) : (Prog.ofExcept x : Prog Op Res ε α).ObeysFrom M le g :=
  fun _ _ => .ofExcept x

theorem of_calls {P : Op → Prop} (hp : p.Calls P) (hP : ∀ op, P op → ∀ g, M.allows g op) :
    p.ObeysFrom M le g := fun _ _ => .of_calls hp hP

variable (hM : M.Grows le)
include hM

theorem bind {f : α → Prog Op Res ε β} (hp : p.ObeysFrom M le g)
    (hf : ∀ a, (f a).ObeysFrom M le g) : (p >>= f).ObeysFrom M le g := by
  intro g' hg
  have h := hp g' hg
  change (p.bind f).Obeys M g'
  clear hp
  induction p generalizing g' with
  | ret a => exact hf a g' hg
  | raise e => trivial
  | call op k ih => exact ⟨h.1, fun r => ih r _ (hM.trans hg (hM.update g' op r)) (h.2 r)⟩

/-- A sequence whose first call replies before the rest goes on: the rest has seen the reply. -/
theorem bind_invoke {op : Op} {f : Res op → Prog Op Res ε β} (hop : ∀ g', le g g' → M.allows g' op)
    (hf : ∀ a g', le g g' → (f a).ObeysFrom M le (M.update g' op (.ok a))) :
    (Prog.invoke op >>= f).ObeysFrom M le g :=
  fun g' hg => .bind_invoke (hop g' hg) fun a => hf a g' hg _ (hM.refl _)

theorem foldlM {f : β → α → Prog Op Res ε β} {l : List α}
    (hf : ∀ b, ∀ a ∈ l, (f b a).ObeysFrom M le g) : ∀ b, (l.foldlM f b).ObeysFrom M le g := by
  induction l with
  | nil => exact fun b => pure b
  | cons a l ih =>
    intro b
    rw [List.foldlM_cons]
    exact bind hM (hf b a (by simp)) fun b' => ih (fun b a ha => hf b a (by simp [ha])) b'

end ObeysFrom

/-! ## Guarded by monitors -/

/-- What is seen of a call: any reply. -/
def Monitor.meaning (M : Monitor Op Res ε γ) : Meaning Op Res ε γ :=
  fun op g r g' => M.update g op r = g'

/-- A program that obeys a monitor is guarded by it, with any promise that holds anyway. -/
theorem Obeys.guarded {M : Monitor Op Res ε γ} {p : Prog Op Res ε α} {g : γ}
    {Q : Except ε α → γ → Prop} (hp : p.Obeys M g) (hQ : ∀ x g', Q x g') :
    p.Guarded M.meaning M.allows g Q := by
  induction p generalizing g with
  | ret a => exact hQ _ _
  | raise e => exact hQ _ _
  | call op k ih =>
    refine ⟨hp.1, fun r g' hr => ?_⟩
    subst hr
    exact ih r (hp.2 r)

/-- A sequence whose first call replies before the rest goes on. -/
theorem Guarded.bind_watch {M : Monitor Op Res ε γ} {g : γ} {op : Op} {f : Res op → Prog Op Res ε β}
    {Q : Except ε β → γ → Prop} (hop : M.allows g op)
    (hok : ∀ a, (f a).Guarded M.meaning M.allows (M.update g op (.ok a)) Q)
    (herr : ∀ e g', Q (.error e) g') : (Prog.invoke op >>= f).Guarded M.meaning M.allows g Q := by
  refine ⟨hop, fun r g' hr => ?_⟩
  subst hr
  cases r with
  | ok a => exact hok a
  | error e => exact herr e _

/-- **Rely and guarantee**: an invariant of what two parties have seen and of the state they share,
which every allowed call of either keeps, holds at the end, with what each promises. -/
theorem Interleaved.guarded {δ : Type} {m : Meaning Op Res ε σ} {M : Monitor Op Res ε γ}
    {N : Monitor Op Res ε δ} {J : γ → δ → σ → Prop}
    (hfirst : ∀ g d s op r s', J g d s → M.allows g op → m op s r s' → J (M.update g op r) d s')
    (hsecond : ∀ g d s op r s', J g d s → N.allows d op → m op s r s' → J g (N.update d op r) s')
    {p : Prog Op Res ε α} {q : Prog Op Res ε β} {s s' : σ} {tr : List (Party × Op)}
    {x : Except ε α} {y : Except ε β} (hrun : Interleaved m p q s tr x y s')
    {g : γ} {d : δ} {Q : Except ε α → γ → Prop} {R : Except ε β → δ → Prop}
    (hp : p.Guarded M.meaning M.allows g Q) (hq : q.Guarded N.meaning N.allows d R)
    (hJ : J g d s) : ∃ g' d', Q x g' ∧ R y d' ∧ J g' d' s' := by
  induction hrun generalizing g d with
  | @done p q s x y hx hy =>
    refine ⟨g, d, ?_, ?_, hJ⟩
    · cases p with
      | ret a => exact Option.some.inj hx ▸ hp
      | raise e => exact Option.some.inj hx ▸ hp
      | call op k => cases hx
    · cases q with
      | ret b => exact Option.some.inj hy ▸ hq
      | raise e => exact Option.some.inj hy ▸ hq
      | call op k => cases hy
  | first hop _ ih => exact ih (hp.2 _ _ rfl) hq (hfirst _ _ _ _ _ _ hJ hp.1 hop)
  | second hop _ ih => exact ih hp (hq.2 _ _ rfl) (hsecond _ _ _ _ _ _ hJ hq.1 hop)

/-- A run in which no call fails is one of those in which they may. -/
theorem Interleaved.faulty {h : Handler Op Res ε σ} {p : Prog Op Res ε α} {q : Prog Op Res ε β}
    {s s' : σ} {tr : List (Party × Op)} {x : Except ε α} {y : Except ε β}
    (hrun : Interleaved h.meaning p q s tr x y s') : Interleaved h.faulty p q s tr x y s' := by
  induction hrun with
  | done hp hq => exact .done hp hq
  | first hop _ ih => exact .first (Or.inl hop) ih
  | second hop _ ih => exact .second (Or.inl hop) ih

section Watched

variable {M : Monitor Op Res ε γ} {R : γ → γ → Prop} {g : γ}

/-- One call, whatever it replies. -/
theorem Triple.watch {op : Op} {Φ : Res op → γ → Prop} (hop : M.allows g op)
    (hR : ∀ r, R g (M.update g op r)) (hΦ : ∀ a, Φ a (M.update g op (.ok a))) :
    Triple M.meaning M.allows R (Prog.invoke op) g Φ := by
  refine Guarded.invoke hop fun r g' hr => ?_
  subst hr
  exact ⟨hR r, fun a ha => ha ▸ hΦ a⟩

/-- Calls the monitor does not notice. -/
theorem Direct.watch {P : Op → Prop} {p : Prog Op Res ε α} (hp : p.Direct P)
    (hP : ∀ op, P op → M.allows g op ∧ ∀ r, M.update g op r = g) (hR : R g g) :
    Triple M.meaning M.allows R p g fun _ g' => g' = g := by
  have hsame : p.Guarded M.meaning M.allows g fun _ g' => g' = g := by
    induction p with
    | ret a => rfl
    | raise e => rfl
    | call op k ih =>
      obtain ⟨hallows, hsame⟩ := hP op hp.1
      refine ⟨hallows, fun r g' hr => ?_⟩
      obtain rfl : g = g' := (hsame r).symm.trans hr
      cases r with
      | ok a => exact ih _ (hp.2.2 a)
      | error e =>
        rw [hp.2.1]
        rfl
  refine Guarded.mono (fun x g' hg => ?_) hsame
  subst hg
  exact ⟨hR, fun _ _ => rfl⟩

end Watched

/-- A direct program calls what it calls. -/
theorem Direct.calls {P : Op → Prop} {p : Prog Op Res ε α} (hp : p.Direct P) : p.Calls P := by
  induction p with
  | ret a => trivial
  | raise e => trivial
  | call op k ih =>
    refine ⟨hp.1, fun r => ?_⟩
    cases r with
    | ok a => exact ih _ (hp.2.2 a)
    | error e =>
      rw [hp.2.1 e]
      trivial

end Prog

end TtLedger
