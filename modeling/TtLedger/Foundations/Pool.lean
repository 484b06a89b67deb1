import TtLedger.Foundations.Interleave
import Mathlib.Logic.Function.Basic

/-!
# Any number of programs side by side

`Reaches m ps s ps' s'` says that the programs `ps i` sharing the state `s` can come to `ps' i` and
`s'`: a step is one call of one of them, atomic, under the meaning `m`. Nothing is said about who
calls next, and a program that is never chosen again has crashed.

* `Reaches.calls`, `Reaches.rel`: what the calls of all programs do to the state, step by step.
* `Watched` is a run in which each program has a monitor; `Watched.guarded` carries an invariant of
  what every program has seen and of the state they share through it, when each allowed call of
  each of them keeps it.
* `play` runs a given schedule, and what it computes is reached (`reaches_play`).
-/

namespace TtLedger

namespace Prog

namespace Pool

variable {Op : Type} {Res : Op → Type} {ε α σ ι : Type} [DecidableEq ι]

/-- What the programs of a pool can come to, and with them the state they share. -/
inductive Reaches (m : Meaning Op Res ε σ) :
    (ι → Prog Op Res ε α) → σ → (ι → Prog Op Res ε α) → σ → Prop
  | refl (ps : ι → Prog Op Res ε α) (s : σ) : Reaches m ps s ps s
  | step {ps ps' : ι → Prog Op Res ε α} {s s' s'' : σ} {i : ι} {op : Op}
      {k : Except ε (Res op) → Prog Op Res ε α} {r : Except ε (Res op)} (hi : ps i = call op k)
      (hop : m op s r s') (hrest : Reaches m (Function.update ps i (k r)) s' ps' s'') :
      Reaches m ps s ps' s''

namespace Reaches

variable {m : Meaning Op Res ε σ} {ps ps' : ι → Prog Op Res ε α} {s s' : σ}

theorem trans {ps'' : ι → Prog Op Res ε α} {s'' : σ} (h : Reaches m ps s ps' s')
    (h' : Reaches m ps' s' ps'' s'') : Reaches m ps s ps'' s'' := by
  induction h with
  | refl ps s => exact h'
  | step hi hop _ ih => exact .step hi hop (ih h')

/-- A meaning that allows more reaches more. -/
theorem mono {m' : Meaning Op Res ε σ} (hm : ∀ op s r s', m op s r s' → m' op s r s')
    (h : Reaches m ps s ps' s') : Reaches m' ps s ps' s' := by
  induction h with
  | refl ps s => exact .refl ps s
  | step hi hop _ ih => exact .step hi (hm _ _ _ _ hop) ih

/-- What the programs still call is what they called at the start. -/
theorem calls {P : Op → Prop} (h : Reaches m ps s ps' s') (hps : ∀ i, (ps i).Calls P) :
    ∀ i, (ps' i).Calls P := by
  induction h with
  | refl ps s => exact hps
  | @step ps ps' s s' s'' i op k r hi hop _ ih =>
    refine ih fun j => ?_
    rw [Function.update_apply]
    split
    · have hcall := hps i
      rw [hi] at hcall
      exact hcall.2 r
    · exact hps j

/-- **Step by step**: a preorder that every call follows relates the start to every state
reached. -/
theorem rel {P : Op → Prop} {R : σ → σ → Prop} (hrefl : ∀ s, R s s)
    (htrans : ∀ s s' s'', R s s' → R s' s'' → R s s'')
    (hR : ∀ op s r s', P op → m op s r s' → R s s') (h : Reaches m ps s ps' s')
    (hps : ∀ i, (ps i).Calls P) : R s s' := by
  induction h with
  | refl ps s => exact hrefl s
  | @step ps ps' s s' s'' i op k r hi hop hrest ih =>
    have hcall : (call op k).Calls P := hi ▸ hps i
    refine htrans s s' s'' (hR op s r s' hcall.1 hop) (ih fun j => ?_)
    exact (Reaches.step hi hop (.refl _ _)).calls hps j

end Reaches

/-! ## What the programs have seen -/

section Watched

variable {γ : Type} {M : ι → Monitor Op Res ε γ}

/-- A run in which each program has a monitor, and every step is one that `C` admits. -/
inductive Watched (m : Meaning Op Res ε σ) (M : ι → Monitor Op Res ε γ)
    (C : (ι → γ) → σ → ι → Op → Prop) : (ι → Prog Op Res ε α) → (ι → γ) → σ →
      (ι → Prog Op Res ε α) → (ι → γ) → σ → Prop
  | refl (ps : ι → Prog Op Res ε α) (gs : ι → γ) (s : σ) : Watched m M C ps gs s ps gs s
  | step {ps ps' : ι → Prog Op Res ε α} {gs gs' : ι → γ} {s s' s'' : σ} {i : ι} {op : Op}
      {k : Except ε (Res op) → Prog Op Res ε α} {r : Except ε (Res op)} (hi : ps i = call op k)
      (hC : C gs s i op) (hop : m op s r s')
      (hrest : Watched m M C (Function.update ps i (k r))
        (Function.update gs i ((M i).update (gs i) op r)) s' ps' gs' s'') :
      Watched m M C ps gs s ps' gs' s''

variable {m : Meaning Op Res ε σ} {ps ps' : ι → Prog Op Res ε α} {s s' : σ}
  {C : (ι → γ) → σ → ι → Op → Prop} {gs gs' : ι → γ}

/-- A part of what one program has seen that stays is the same for all. -/
theorem view_update {δ : Type} (f : γ → δ) {i : ι} {g : γ} (h : f g = f (gs i)) (j : ι) :
    f (Function.update gs i g j) = f (gs j) := by
  rcases eq_or_ne j i with rfl | hj
  · rw [Function.update_self, h]
  · rw [Function.update_of_ne hj]

/-- Every run can be watched. -/
theorem Reaches.watched (h : Reaches m ps s ps' s') (M : ι → Monitor Op Res ε γ) (gs : ι → γ) :
    ∃ gs', Watched m M (fun _ _ _ _ => True) ps gs s ps' gs' s' := by
  induction h generalizing gs with
  | refl ps s => exact ⟨gs, .refl ps gs s⟩
  | step hi hop _ ih =>
    obtain ⟨gs', hrest⟩ := ih _
    exact ⟨gs', .step hi trivial hop hrest⟩

/-- **Invariants of a pool**: of what every program has seen and of the state they share, kept by
each allowed call of each of them at the steps admitted. -/
theorem Watched.guarded {J : (ι → γ) → σ → Prop} {Q : ι → Except ε α → γ → Prop}
    (hstep : ∀ gs s i op r s', J gs s → (M i).allows (gs i) op → C gs s i op → m op s r s' →
      J (Function.update gs i ((M i).update (gs i) op r)) s')
    (h : Watched m M C ps gs s ps' gs' s')
    (hps : ∀ i, (ps i).Guarded (M i).meaning (M i).allows (gs i) (Q i)) (hJ : J gs s) :
    (∀ i, (ps' i).Guarded (M i).meaning (M i).allows (gs' i) (Q i)) ∧ J gs' s' := by
  induction h with
  | refl ps gs s => exact ⟨hps, hJ⟩
  | @step ps ps' gs gs' s s' s'' i op k r hi hC hop _ ih =>
    have hcall : (call op k).Guarded (M i).meaning (M i).allows (gs i) (Q i) := hi ▸ hps i
    refine ih (fun j => ?_) (hstep gs s i op r s' hJ hcall.1 hC hop)
    rcases eq_or_ne j i with rfl | hj
    · simpa only [Function.update_self] using hcall.2 r _ rfl
    · simpa only [Function.update_of_ne hj] using hps j

/-- A run whose invariant makes every step one that `C'` admits. -/
theorem Watched.admitted {J : (ι → γ) → σ → Prop} {Q : ι → Except ε α → γ → Prop}
    {C' : (ι → γ) → σ → ι → Op → Prop}
    (hstep : ∀ gs s i op r s', J gs s → (M i).allows (gs i) op → C gs s i op → m op s r s' →
      J (Function.update gs i ((M i).update (gs i) op r)) s')
    (hC : ∀ gs s i op, J gs s → (M i).allows (gs i) op → C gs s i op → C' gs s i op)
    (h : Watched m M C ps gs s ps' gs' s')
    (hps : ∀ i, (ps i).Guarded (M i).meaning (M i).allows (gs i) (Q i)) (hJ : J gs s) :
    Watched m M C' ps gs s ps' gs' s' := by
  induction h with
  | refl ps gs s => exact .refl ps gs s
  | @step ps ps' gs gs' s s' s'' i op k r hi hCi hop hrest ih =>
    have hcall : (call op k).Guarded (M i).meaning (M i).allows (gs i) (Q i) := hi ▸ hps i
    have hone := (Watched.step hi hCi hop (.refl _ _ _)).guarded hstep hps hJ
    exact .step hi (hC gs s i op hJ hcall.1 hCi) hop (ih hone.1 hone.2)

/-- Only what the monitors remember matters to a run. -/
theorem Watched.congr {M' : ι → Monitor Op Res ε γ} (hM : ∀ i, (M i).update = (M' i).update)
    (h : Watched m M C ps gs s ps' gs' s') : Watched m M' C ps gs s ps' gs' s' := by
  induction h with
  | refl ps gs s => exact .refl ps gs s
  | @step ps ps' gs gs' s s' s'' i op k r hi hC hop _ ih =>
    refine .step hi hC hop ?_
    rw [← hM]
    exact ih

end Watched

/-! ## Schedules -/

/-- Run a schedule; a program that has ended is skipped. -/
def play (h : Handler Op Res ε σ) : List ι → (ι → Prog Op Res ε α) → σ →
    (ι → Prog Op Res ε α) × σ
  | [], ps, s => (ps, s)
  | i :: sched, ps, s =>
    match ps i with
    | call op k => play h sched (Function.update ps i (k (h op s).1)) (h op s).2
    | _ => play h sched ps s

/-- What a schedule computes is reached. -/
theorem reaches_play (h : Handler Op Res ε σ) (sched : List ι) (ps : ι → Prog Op Res ε α)
    (s : σ) : Reaches h.meaning ps s (play h sched ps s).1 (play h sched ps s).2 := by
  induction sched generalizing ps s with
  | nil => exact .refl ps s
  | cons i sched ih =>
    cases hi : ps i with
    | ret a => simpa only [play, hi] using ih ps s
    | raise e => simpa only [play, hi] using ih ps s
    | call op k =>
      refine .step hi rfl ?_
      simpa only [play, hi] using ih (Function.update ps i (k (h op s).1)) (h op s).2

end Pool

end Prog

end TtLedger
