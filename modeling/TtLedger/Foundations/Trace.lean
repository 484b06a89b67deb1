import TtLedger.Foundations.Prog

/-!
# Traces of programs, and programs run by programs

A trace lists the calls a program has issued and what each of them returned. In an environment
`E`, which says what the calls may return, `Performs E p tr` says that `tr` is what `p` has done
so far, and `Completes E p tr x` that `p` has ended with `x` after `tr`. A program that is
interrupted leaves a trace it performs, so what holds of every performed trace survives a crash.

* `Safe E I p`: every trace `p` performs satisfies `I`. For an `I` that concatenation preserves
  (`Local`), `Safe.bind`, `Safe.attempt` and the loop rules compose such facts along a program.
* `attempt p` returns the outcome of `p` as a value: the source's `try`.
* `subst f p` carries out each call of `p` by a program of another signature: a generator run by
  its consumer. `performs_subst` splits its traces into those of the programs that answer the
  calls, and `Expands.split` finds the call of `p` behind an event.
-/

namespace TtLedger

namespace Prog

variable {Op Op' : Type} {Res : Op → Type} {Res' : Op' → Type} {ε α β : Type}

/-- A call and what it returned. -/
abbrev Event (Op : Type) (Res : Op → Type) (ε : Type) := (op : Op) × Except ε (Res op)

/-- What the calls may return. -/
abbrev Replies (Op : Type) (Res : Op → Type) (ε : Type) := (op : Op) → Except ε (Res op) → Prop

variable {E : Replies Op Res ε} {E' : Replies Op' Res' ε}

/-- The calls a program may have issued so far. -/
inductive Performs (E : Replies Op Res ε) : Prog Op Res ε α → List (Event Op Res ε) → Prop
  | start (p : Prog Op Res ε α) : Performs E p []
  | call {op : Op} {k : Except ε (Res op) → Prog Op Res ε α} {r : Except ε (Res op)}
      {tr : List (Event Op Res ε)} (hr : E op r) (hk : Performs E (k r) tr) :
      Performs E (call op k) (⟨op, r⟩ :: tr)

/-- The calls a program may have issued when it has ended, and its outcome. -/
inductive Completes (E : Replies Op Res ε) :
    Prog Op Res ε α → List (Event Op Res ε) → Except ε α → Prop
  | ret (a : α) : Completes E (ret a) [] (.ok a)
  | raise (e : ε) : Completes E (raise e) [] (.error e)
  | call {op : Op} {k : Except ε (Res op) → Prog Op Res ε α} {r : Except ε (Res op)}
      {tr : List (Event Op Res ε)} {x : Except ε α} (hr : E op r) (hk : Completes E (k r) tr x) :
      Completes E (call op k) (⟨op, r⟩ :: tr) x

variable {p : Prog Op Res ε α} {tr : List (Event Op Res ε)}

theorem Completes.performs {x : Except ε α} (h : Completes E p tr x) : Performs E p tr := by
  induction h with
  | ret a => exact .start _
  | raise e => exact .start _
  | call hr _ ih => exact .call hr ih

/-! ## Sequences -/

/-- What a sequence has done is what its first program has done, or that and more. -/
theorem performs_bind {f : α → Prog Op Res ε β} (h : Performs E (p >>= f) tr) :
    Performs E p tr ∨ ∃ tr₁ tr₂ a, tr = tr₁ ++ tr₂ ∧ Completes E p tr₁ (.ok a) ∧
      Performs E (f a) tr₂ := by
  change Performs E (p.bind f) tr at h
  induction p generalizing tr with
  | ret a => exact .inr ⟨[], tr, a, rfl, .ret a, h⟩
  | raise e =>
    cases h with
    | start => exact .inl (.start _)
  | call op k ih =>
    cases h with
    | start => exact .inl (.start _)
    | call hr hk =>
      obtain hp | ⟨tr₁, tr₂, a, rfl, h₁, h₂⟩ := ih _ hk
      · exact .inl (.call hr hp)
      · exact .inr ⟨_ :: tr₁, tr₂, a, rfl, .call hr h₁, h₂⟩

/-- How a sequence has ended: its first program raised, or both have ended. -/
theorem completes_bind {f : α → Prog Op Res ε β} {y : Except ε β}
    (h : Completes E (p >>= f) tr y) :
    (∃ e, y = .error e ∧ Completes E p tr (.error e)) ∨
      ∃ tr₁ tr₂ a, tr = tr₁ ++ tr₂ ∧ Completes E p tr₁ (.ok a) ∧ Completes E (f a) tr₂ y := by
  change Completes E (p.bind f) tr y at h
  induction p generalizing tr with
  | ret a => exact .inr ⟨[], tr, a, rfl, .ret a, h⟩
  | raise e =>
    cases h with
    | raise => exact .inl ⟨e, rfl, .raise e⟩
  | call op k ih =>
    cases h with
    | call hr hk =>
      obtain ⟨e, he, hp⟩ | ⟨tr₁, tr₂, a, rfl, h₁, h₂⟩ := ih _ hk
      · exact .inl ⟨e, he, .call hr hp⟩
      · exact .inr ⟨_ :: tr₁, tr₂, a, rfl, .call hr h₁, h₂⟩

theorem Completes.bind_performs {f : α → Prog Op Res ε β} {tr₁ tr₂ : List (Event Op Res ε)}
    {a : α} (hp : Completes E p tr₁ (.ok a)) (hf : Performs E (f a) tr₂) :
    Performs E (p >>= f) (tr₁ ++ tr₂) := by
  change Performs E (p.bind f) _
  induction p generalizing tr₁ with
  | ret a' =>
    cases hp with
    | ret => exact hf
  | raise e => cases hp
  | call op k ih =>
    cases hp with
    | call hr hk => exact .call hr (ih _ hk)

theorem Performs.bind {f : α → Prog Op Res ε β} (hp : Performs E p tr) :
    Performs E (p >>= f) tr := by
  change Performs E (p.bind f) tr
  induction hp with
  | start p => exact .start _
  | call hr _ ih => exact .call hr ih

theorem performs_invoke {op : Op} (h : Performs E (invoke op : Prog Op Res ε (Res op)) tr) :
    tr = [] ∨ ∃ r, E op r ∧ tr = [⟨op, r⟩] := by
  cases h with
  | start => exact .inl rfl
  | @call _ _ r _ hr hk =>
    cases r <;>
    · cases hk
      exact .inr ⟨_, hr, rfl⟩

theorem completes_invoke {op : Op} {x : Except ε (Res op)} :
    Completes E (invoke op : Prog Op Res ε (Res op)) tr x ↔ E op x ∧ tr = [⟨op, x⟩] := by
  constructor
  · intro h
    cases h with
    | @call _ _ r _ _ hr hk =>
      cases r <;>
      · cases hk
        exact ⟨hr, rfl⟩
  · rintro ⟨hr, rfl⟩
    refine .call hr ?_
    cases x with
    | ok a => exact .ret a
    | error e => exact .raise e

/-! ## Outcomes as values -/

/-- Return the outcome of a program as a value. -/
def attempt : Prog Op Res ε α → Prog Op Res ε (Except ε α)
  | ret a => ret (.ok a)
  | raise e => ret (.error e)
  | call op k => call op fun r => (k r).attempt

theorem performs_attempt : Performs E p.attempt tr ↔ Performs E p tr := by
  constructor
  · intro h
    induction p generalizing tr with
    | ret a =>
      cases h
      exact .start _
    | raise e =>
      cases h
      exact .start _
    | call op k ih =>
      cases h with
      | start => exact .start _
      | call hr hk => exact .call hr (ih _ hk)
  · intro h
    induction h with
    | start p => exact .start _
    | call hr _ ih => exact .call hr ih

theorem completes_attempt {y : Except ε (Except ε α)} :
    Completes E p.attempt tr y ↔ ∃ x, y = .ok x ∧ Completes E p tr x := by
  constructor
  · intro h
    induction p generalizing tr with
    | ret a =>
      cases h
      exact ⟨_, rfl, .ret a⟩
    | raise e =>
      cases h
      exact ⟨_, rfl, .raise e⟩
    | call op k ih =>
      cases h with
      | call hr hk =>
        obtain ⟨x, hy, hx⟩ := ih _ hk
        exact ⟨x, hy, .call hr hx⟩
  · rintro ⟨x, rfl, h⟩
    induction h with
    | ret a => exact .ret _
    | raise e => exact .ret _
    | call hr _ ih => exact .call hr ih

@[simp] theorem run_attempt {σ : Type} (h : Handler Op Res ε σ) (p : Prog Op Res ε α) (s : σ) :
    run h p.attempt s = (.ok (run h p s).1, (run h p s).2) := by
  induction p generalizing s with
  | ret a => rfl
  | raise e => rfl
  | call op k ih => exact ih _ _

/-- The calls in a trace are calls of the program. -/
theorem Calls.of_performs {P : Op → Prop} (hp : p.Calls P) (h : Performs E p tr) :
    ∀ ev ∈ tr, P ev.1 := by
  induction h with
  | start p => exact fun _ hev => absurd hev (List.not_mem_nil)
  | call hr _ ih =>
    intro ev hev
    obtain rfl | hev := List.mem_cons.mp hev
    · exact hp.1
    · exact ih (hp.2 _) ev hev

/-! ## Properties of every trace -/

/-- A property of traces that holds before the first call and of two traces in a row. -/
structure Local (I : List (Event Op Res ε) → Prop) : Prop where
  nil : I []
  append {tr tr' : List (Event Op Res ε)} : I tr → I tr' → I (tr ++ tr')

/-- Every trace of the program satisfies `I`. -/
def Safe (E : Replies Op Res ε) (I : List (Event Op Res ε) → Prop) (p : Prog Op Res ε α) : Prop :=
  ∀ tr, Performs E p tr → I tr

namespace Safe

variable {I : List (Event Op Res ε) → Prop} (hI : Local I)
include hI

theorem pure (a : α) : Safe E I (Pure.pure a : Prog Op Res ε α) := by
  intro tr h
  cases h
  exact hI.nil

theorem raise (e : ε) : Safe E I (Prog.raise e : Prog Op Res ε α) := by
  intro tr h
  cases h
  exact hI.nil

theorem ofExcept (x : Except ε α) : Safe E I (Prog.ofExcept x : Prog Op Res ε α) := by
  cases x with
  | ok a => exact pure hI a
  | error e => exact raise hI e

theorem invoke {op : Op} (hop : ∀ r, E op r → I [⟨op, r⟩]) :
    Safe E I (Prog.invoke op : Prog Op Res ε (Res op)) := by
  intro tr h
  obtain rfl | ⟨r, hr, rfl⟩ := performs_invoke h
  · exact hI.nil
  · exact hop r hr

/-- The second program is safe for what the first one may have returned. -/
theorem bind {f : α → Prog Op Res ε β} (hp : Safe E I p)
    (hf : ∀ a tr, Completes E p tr (.ok a) → Safe E I (f a)) : Safe E I (p >>= f) := by
  intro tr h
  obtain h | ⟨tr₁, tr₂, a, rfl, h₁, h₂⟩ := performs_bind h
  · exact hp tr h
  · exact hI.append (hp tr₁ h₁.performs) (hf a tr₁ h₁ tr₂ h₂)

theorem forM {f : α → Prog Op Res ε PUnit} {l : List α} (hf : ∀ a ∈ l, Safe E I (f a)) :
    Safe E I (l.forM f) := by
  induction l with
  | nil => exact pure hI _
  | cons a l ih =>
    exact bind hI (hf a (by simp)) fun _ _ _ => ih fun b hb => hf b (by simp [hb])

omit hI in
theorem attempt (hp : Safe E I p) : Safe E I p.attempt := fun tr h =>
  hp tr (performs_attempt.mp h)

end Safe

/-! ## Programs run by programs -/

/-- Carry out each call of a program by a program of another signature: its outcome is what the
call returns. -/
def subst (f : (op : Op) → Prog Op' Res' ε (Res op)) : Prog Op Res ε α → Prog Op' Res' ε α
  | ret a => ret a
  | raise e => raise e
  | call op k => (f op).attempt >>= fun r => (k r).subst f

variable {f : (op : Op) → Prog Op' Res' ε (Res op)}

/-- A trace with every call replaced by what carried it out. -/
inductive Expands (E' : Replies Op' Res' ε) (f : (op : Op) → Prog Op' Res' ε (Res op)) :
    List (Event Op Res ε) → List (Event Op' Res' ε) → Prop
  | nil : Expands E' f [] []
  | cons {op : Op} {r : Except ε (Res op)} {tr : List (Event Op Res ε)}
      {seg tr' : List (Event Op' Res' ε)} (hseg : Completes E' (f op) seg r)
      (h : Expands E' f tr tr') : Expands E' f (⟨op, r⟩ :: tr) (seg ++ tr')

/-- A program that has not ended in the middle of carrying out a call. -/
def Midway (E' : Replies Op' Res' ε) (q : Prog Op' Res' ε α) (tr : List (Event Op' Res' ε)) :
    Prop :=
  Performs E' q tr ∧ ∀ x, ¬ Completes E' q tr x

/-- **The traces of a program run by another**: those of the program with its calls carried out,
and then what has been done of one more call. -/
theorem performs_subst (hE : ∀ op tr r, Completes E' (f op) tr r → E op r)
    {tr' : List (Event Op' Res' ε)} (h : Performs E' (p.subst f) tr') :
    ∃ tr tr₁ seg, Performs E p tr ∧ Expands E' f tr tr₁ ∧ tr' = tr₁ ++ seg ∧
      (seg = [] ∨ ∃ op, Midway E' (f op) seg) := by
  induction p generalizing tr' with
  | ret a =>
    cases h
    exact ⟨[], [], [], .start _, .nil, rfl, .inl rfl⟩
  | raise e =>
    cases h
    exact ⟨[], [], [], .start _, .nil, rfl, .inl rfl⟩
  | call op k ih =>
    obtain h | ⟨seg, tr₂, y, rfl, hseg, htr₂⟩ := performs_bind h
    · rw [performs_attempt] at h
      by_cases hc : ∃ r, Completes E' (f op) tr' r
      · obtain ⟨r, hr⟩ := hc
        exact ⟨[⟨op, r⟩], tr' ++ [], [], .call (hE op _ r hr) (.start _), .cons hr .nil,
          by simp, .inl rfl⟩
      · exact ⟨[], [], tr', .start _, .nil, rfl, .inr ⟨op, h, fun r hr => hc ⟨r, hr⟩⟩⟩
    · obtain ⟨r, hy, hr⟩ := completes_attempt.mp hseg
      rw [Except.ok.inj hy] at htr₂
      obtain ⟨tr, tr₁, seg', hp, hx, rfl, hmid⟩ := ih r htr₂
      exact ⟨⟨op, r⟩ :: tr, seg ++ tr₁, seg', .call (hE op seg r hr) hp, .cons hr hx,
        by simp, hmid⟩

namespace Expands

variable {tr' : List (Event Op' Res' ε)}

/-- An event belongs to what carried out one of the calls. -/
theorem split (h : Expands E' f tr tr') {pre post : List (Event Op' Res' ε)}
    {ev : Event Op' Res' ε} (he : tr' = pre ++ ev :: post) :
    ∃ tr₁ tr₂ op r pre₁ seg₁ seg₂, tr = tr₁ ++ ⟨op, r⟩ :: tr₂ ∧ Expands E' f tr₁ pre₁ ∧
      pre = pre₁ ++ seg₁ ∧ Completes E' (f op) (seg₁ ++ ev :: seg₂) r := by
  induction h generalizing pre with
  | nil => simp at he
  | @cons op r tr seg tr' hseg hx ih =>
    obtain ⟨mid, rfl, hmid⟩ | ⟨mid, hmid, htr⟩ := List.append_eq_append_iff.mp he
    · obtain ⟨tr₁, tr₂, op', r', pre₁, seg₁, seg₂, rfl, hx₁, rfl, hc⟩ := ih hmid
      exact ⟨⟨op, r⟩ :: tr₁, tr₂, op', r', seg ++ pre₁, seg₁, seg₂, rfl, .cons hseg hx₁,
        by simp, hc⟩
    · cases mid with
      | nil =>
        obtain ⟨tr₁, tr₂, op', r', pre₁, seg₁, seg₂, rfl, hx₁, hpre, hc⟩ :=
          ih (show _ = [] ++ ev :: post from htr.symm)
        rw [List.append_nil] at hmid
        exact ⟨⟨op, r⟩ :: tr₁, tr₂, op', r', seg ++ pre₁, seg₁, seg₂, rfl, .cons hseg hx₁,
          by rw [← hmid, List.append_assoc, ← hpre, List.append_nil], hc⟩
      | cons ev' mid =>
        obtain ⟨rfl, -⟩ := List.cons.inj htr
        exact ⟨[], tr, op, r, [], pre, mid, rfl, .nil, rfl, hmid ▸ hseg⟩

/-- The last call was carried out last. -/
theorem concat {op : Op} {r : Except ε (Res op)} (h : Expands E' f (tr ++ [⟨op, r⟩]) tr') :
    ∃ pre seg, tr' = pre ++ seg ∧ Expands E' f tr pre ∧ Completes E' (f op) seg r := by
  induction tr generalizing tr' with
  | nil =>
    cases h with
    | cons hseg hx =>
      cases hx
      exact ⟨[], _, by simp, .nil, hseg⟩
  | cons ev tr ih =>
    cases h with
    | cons hseg hx =>
      obtain ⟨pre, seg, rfl, hpre, hlast⟩ := ih hx
      exact ⟨_ ++ pre, seg, by simp, .cons hseg hpre, hlast⟩

end Expands

/-- A call carried out by one call is never midway but before it. -/
theorem Midway.invoke {op : Op'} {tr' : List (Event Op' Res' ε)}
    (h : Midway E' (Prog.invoke op : Prog Op' Res' ε (Res' op)) tr') : tr' = [] := by
  obtain rfl | ⟨r, hr, rfl⟩ := performs_invoke h.1
  · rfl
  · exact absurd (completes_invoke.mpr ⟨hr, rfl⟩) (h.2 r)

end Prog

end TtLedger
