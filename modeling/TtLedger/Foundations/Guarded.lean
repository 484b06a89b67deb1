import TtLedger.Foundations.Prog
import Mathlib.Order.Defs.Unbundled

/-!
# Programs whose calls may fail, and what they call

A `Meaning` says which replies and states a call may lead to: `Handler.meaning` is a handler's
own, in `Handler.faulty` every call may also fail and then changes nothing. `Runs m p s x s'` is a
run of a program under a meaning, `RunsVia` names the states it passes through as well, and
`Meaning.within` allows only calls that leave a state of some set.

`Direct P p` says that the calls of `p` satisfy `P` and that it throws what they fail with: such a
program, when it returns, has done what it does without failures (`Direct.guarded_run`).

`Guarded m C p s Q` says that in every run of `p` from `s` each call satisfies `C` in the state it
is issued in, and that the run ends in `Q`. It composes along the program (`Guarded.bind`,
`Guarded.tryCatch`, `Guarded.foldlM`), holds of every run (`Guarded.of_runs`), and carries what
the calls in `C` preserve from the start of a run to its end (`Guarded.preserves`). `Ensures P p Φ`
is the part of it that does not depend on what the calls do: each satisfies `P`, and the value
returned `Φ`.
-/

namespace TtLedger

namespace Prog

variable {Op : Type} {Res : Op → Type} {ε α β σ : Type}

/-! ## Meanings -/

/-- What a call may reply, and the state it may leave. -/
abbrev Meaning (Op : Type) (Res : Op → Type) (ε σ : Type) :=
  (op : Op) → σ → Except ε (Res op) → σ → Prop

namespace Handler

variable (h : Handler Op Res ε σ)

/-- Every call does what the handler says. -/
def meaning : Meaning Op Res ε σ := fun op s r s' => h op s = (r, s')

/-- Every call does what the handler says, or fails and changes nothing. -/
def faulty : Meaning Op Res ε σ := fun op s r s' =>
  h op s = (r, s') ∨ (∃ e, r = .error e) ∧ s' = s

end Handler

/-- The runs of a program: its outcome and the state it ends in. -/
inductive Runs (m : Meaning Op Res ε σ) : Prog Op Res ε α → σ → Except ε α → σ → Prop
  | ret (a : α) (s : σ) : Runs m (ret a) s (.ok a) s
  | raise (e : ε) (s : σ) : Runs m (raise e) s (.error e) s
  | call {op : Op} {k : Except ε (Res op) → Prog Op Res ε α} {s s' s'' : σ}
      {r : Except ε (Res op)} {x : Except ε α} (hop : m op s r s') (hk : Runs m (k r) s' x s'') :
      Runs m (call op k) s x s''

/-- The sequential run is a run under the handler's own meaning. -/
theorem runs_run (h : Handler Op Res ε σ) (p : Prog Op Res ε α) (s : σ) :
    Runs h.meaning p s (run h p s).1 (run h p s).2 := by
  induction p generalizing s with
  | ret a => exact .ret a s
  | raise e => exact .raise e s
  | call op k ih => exact .call rfl (ih _ _)

/-- A run under a meaning is one under any that allows more. -/
theorem Runs.mono {m m' : Meaning Op Res ε σ} (hm : ∀ op s r s', m op s r s' → m' op s r s')
    {p : Prog Op Res ε α} {s s' : σ} {x : Except ε α} (hp : Runs m p s x s') :
    Runs m' p s x s' := by
  induction hp with
  | ret a s => exact .ret a s
  | raise e s => exact .raise e s
  | call hop _ ih => exact .call (hm _ _ _ _ hop) ih

/-- A call that does not fail is one of those that may. -/
theorem Runs.faulty {h : Handler Op Res ε σ} {p : Prog Op Res ε α} {s s' : σ} {x : Except ε α}
    (hp : Runs h.meaning p s x s') : Runs h.faulty p s x s' := by
  induction hp with
  | ret a s => exact .ret a s
  | raise e s => exact .raise e s
  | call hop _ ih => exact .call (Or.inl hop) ih

/-- A run with the states it passes through: the one it starts in and those its calls leave. -/
inductive RunsVia (m : Meaning Op Res ε σ) :
    Prog Op Res ε α → σ → List σ → Except ε α → σ → Prop
  | ret (a : α) (s : σ) : RunsVia m (ret a) s [s] (.ok a) s
  | raise (e : ε) (s : σ) : RunsVia m (raise e) s [s] (.error e) s
  | call {op : Op} {k : Except ε (Res op) → Prog Op Res ε α} {s s' s'' : σ}
      {r : Except ε (Res op)} {states : List σ} {x : Except ε α} (hop : m op s r s')
      (hk : RunsVia m (k r) s' states x s'') : RunsVia m (call op k) s (s :: states) x s''

/-- The calls that leave a state in `P`. -/
def Meaning.within (m : Meaning Op Res ε σ) (P : σ → Prop) : Meaning Op Res ε σ :=
  fun op s r s' => m op s r s' ∧ P s'

section Via

variable {m : Meaning Op Res ε σ} {p : Prog Op Res ε α} {s s' : σ} {states : List σ}
  {x : Except ε α}

theorem Runs.via (h : Runs m p s x s') : ∃ states, RunsVia m p s states x s' := by
  induction h with
  | ret a s => exact ⟨[s], .ret a s⟩
  | raise e s => exact ⟨[s], .raise e s⟩
  | call hop _ ih =>
    obtain ⟨states, hk⟩ := ih
    exact ⟨_, .call hop hk⟩

theorem RunsVia.start_mem (h : RunsVia m p s states x s') : s ∈ states := by
  cases h <;> exact List.mem_cons_self

/-- A run is one of the calls that leave states it passes through. -/
theorem RunsVia.within (h : RunsVia m p s states x s') {P : σ → Prop} (hP : ∀ t ∈ states, P t) :
    Runs (m.within P) p s x s' := by
  induction h with
  | ret a s => exact .ret a s
  | raise e s => exact .raise e s
  | call hop hk ih =>
    have hlater := (List.forall_mem_cons.mp hP).2
    exact .call ⟨hop, hlater _ hk.start_mem⟩ (ih hlater)

theorem Runs.within_true (h : Runs m p s x s') : Runs (m.within fun _ => True) p s x s' :=
  h.mono fun _ _ _ _ hop => ⟨hop, trivial⟩

end Via

/-! ## Guarded programs -/

variable (m : Meaning Op Res ε σ) (C : σ → Op → Prop)

/-- Each call satisfies `C` in the state it is issued in, and every run ends in `Q`. -/
def Guarded : Prog Op Res ε α → σ → (Except ε α → σ → Prop) → Prop
  | ret a, s, Q => Q (.ok a) s
  | raise e, s, Q => Q (.error e) s
  | call op k, s, Q => C s op ∧ ∀ r s', m op s r s' → (k r).Guarded s' Q

namespace Guarded

variable {m C} {p : Prog Op Res ε α} {s : σ}

theorem mono {Q R : Except ε α → σ → Prop} (hQR : ∀ x s', Q x s' → R x s')
    (hp : p.Guarded m C s Q) : p.Guarded m C s R := by
  induction p generalizing s with
  | ret a => exact hQR _ _ hp
  | raise e => exact hQR _ _ hp
  | call op k ih => exact ⟨hp.1, fun r s' hop => ih r (hp.2 r s' hop)⟩

theorem weaken {D : σ → Op → Prop} {Q : Except ε α → σ → Prop} (hCD : ∀ s op, C s op → D s op)
    (hp : p.Guarded m C s Q) : p.Guarded m D s Q := by
  induction p generalizing s with
  | ret a => exact hp
  | raise e => exact hp
  | call op k ih => exact ⟨hCD s op hp.1, fun r s' hop => ih r (hp.2 r s' hop)⟩

theorem and {Q R : Except ε α → σ → Prop} (hQ : p.Guarded m C s Q) (hR : p.Guarded m C s R) :
    p.Guarded m C s fun x s' => Q x s' ∧ R x s' := by
  induction p generalizing s with
  | ret a => exact ⟨hQ, hR⟩
  | raise e => exact ⟨hQ, hR⟩
  | call op k ih => exact ⟨hQ.1, fun r s' hop => ih r (hQ.2 r s' hop) (hR.2 r s' hop)⟩

theorem bind {f : α → Prog Op Res ε β} {Q : Except ε α → σ → Prop} {R : Except ε β → σ → Prop}
    (hp : p.Guarded m C s Q) (hok : ∀ a s', Q (.ok a) s' → (f a).Guarded m C s' R)
    (herr : ∀ e s', Q (.error e) s' → R (.error e) s') : (p >>= f).Guarded m C s R := by
  change (p.bind f).Guarded m C s R
  induction p generalizing s with
  | ret a => exact hok a s hp
  | raise e => exact herr e s hp
  | call op k ih => exact ⟨hp.1, fun r s' hop => ih r (hp.2 r s' hop)⟩

theorem tryCatch {f : ε → Prog Op Res ε α} {Q R : Except ε α → σ → Prop}
    (hp : p.Guarded m C s Q) (hok : ∀ a s', Q (.ok a) s' → R (.ok a) s')
    (herr : ∀ e s', Q (.error e) s' → (f e).Guarded m C s' R) :
    (p.tryCatch f).Guarded m C s R := by
  induction p generalizing s with
  | ret a => exact hok a s hp
  | raise e => exact herr e s hp
  | call op k ih => exact ⟨hp.1, fun r s' hop => ih r (hp.2 r s' hop)⟩

theorem invoke {op : Op} {Q : Except ε (Res op) → σ → Prop} (hop : C s op)
    (hQ : ∀ r s', m op s r s' → Q r s') : (Prog.invoke op).Guarded m C s Q := by
  refine ⟨hop, fun r s' hr => ?_⟩
  cases r with
  | ok a => exact hQ _ _ hr
  | error e => exact hQ _ _ hr

/-- What holds of the guarded program holds of each of its runs. -/
theorem of_runs {Q : Except ε α → σ → Prop} (hp : p.Guarded m C s Q) {x : Except ε α} {s' : σ}
    (hrun : Runs m p s x s') : Q x s' := by
  induction hrun with
  | ret a s => exact hp
  | raise e s => exact hp
  | call hop _ ih => exact ih (hp.2 _ _ hop)

/-- What the calls in `C` preserve, a guarded program preserves. -/
theorem preserves {Q : Except ε α → σ → Prop} {I : σ → Prop}
    (hI : ∀ op s r s', C s op → m op s r s' → I s → I s') (hp : p.Guarded m C s Q) (hs : I s) :
    p.Guarded m C s fun x s' => Q x s' ∧ I s' := by
  induction p generalizing s with
  | ret a => exact ⟨hp, hs⟩
  | raise e => exact ⟨hp, hs⟩
  | call op k ih =>
    exact ⟨hp.1, fun r s' hop => ih r (hp.2 r s' hop) (hI op s r s' hp.1 hop hs)⟩

end Guarded

/-- Nothing asked of the calls. -/
theorem Calls.any (p : Prog Op Res ε α) : p.Calls fun _ => True := by
  induction p with
  | ret a => exact True.intro
  | raise e => exact True.intro
  | call op k ih => exact ⟨True.intro, ih⟩

/-! ## Triples -/

section Triple

variable (R : σ → σ → Prop)

/-- Each call satisfies `C`, every run changes the state by `R`, and one that returns ends in
`Φ`. -/
def Triple (p : Prog Op Res ε α) (s : σ) (Φ : α → σ → Prop) : Prop :=
  p.Guarded m C s fun x s' => R s s' ∧ ∀ a, x = .ok a → Φ a s'

namespace Triple

variable {m C R} {p : Prog Op Res ε α} {s : σ} {Φ Ψ : α → σ → Prop}

theorem pure {a : α} (hs : R s s) (hΦ : Φ a s) :
    Triple m C R (Pure.pure a : Prog Op Res ε α) s Φ := ⟨hs, fun _ hb => Except.ok.inj hb ▸ hΦ⟩

theorem raise {e : ε} (hs : R s s) : Triple m C R (Prog.raise e : Prog Op Res ε α) s Φ :=
  ⟨hs, fun _ hb => by cases hb⟩

theorem ofExcept {x : Except ε α} (hs : R s s) (hΦ : ∀ a, x = .ok a → Φ a s) :
    Triple m C R (Prog.ofExcept x) s Φ := by
  cases x with
  | ok a => exact pure hs (hΦ a rfl)
  | error e => exact raise hs

/-- One call, which may fail. -/
theorem invoke {h : Handler Op Res ε σ} {op : Op} {Φ : Res op → σ → Prop} {a : Res op} {s' : σ}
    (hop : C s op) (hrun : h op s = (.ok a, s')) (hs : R s s) (hR : R s s') (hΦ : Φ a s') :
    Triple h.faulty C R (Prog.invoke op) s Φ := by
  refine Guarded.invoke hop fun r t hr => ?_
  rcases hr with hr | ⟨⟨e, rfl⟩, rfl⟩
  · obtain ⟨rfl, rfl⟩ := Prod.mk.inj (hrun.symm.trans hr)
    exact ⟨hR, fun b hb => Except.ok.inj hb ▸ hΦ⟩
  · exact ⟨hs, fun b hb => by cases hb⟩

theorem mono (hp : Triple m C R p s Φ) (hΦ : ∀ a s', R s s' → Φ a s' → Ψ a s') :
    Triple m C R p s Ψ :=
  Guarded.mono (fun _ s' hQ => ⟨hQ.1, fun a ha => hΦ a s' hQ.1 (hQ.2 a ha)⟩) hp

variable [IsTrans σ R]

theorem bind {f : α → Prog Op Res ε β} {Ψ : β → σ → Prop} (hp : Triple m C R p s Φ)
    (hf : ∀ a s', R s s' → Φ a s' → Triple m C R (f a) s' Ψ) :
    Triple m C R (p >>= f) s Ψ := by
  refine Guarded.bind hp (fun a s' hQ => ?_) fun e s' hQ => ⟨hQ.1, fun b hb => by cases hb⟩
  refine Guarded.mono (fun x s'' hR => ?_) (hf a s' hQ.1 (hQ.2 a rfl))
  exact ⟨IsTrans.trans s s' s'' hQ.1 hR.1, hR.2⟩

/-- **Loop rule**: the invariant holds of the accumulator in the state it is reached in. -/
theorem foldlM {f : β → α → Prog Op Res ε β} {l : List α} (I : β → σ → Prop)
    (step : ∀ b, ∀ a ∈ l, ∀ s', R s s' → I b s' → Triple m C R (f b a) s' I)
    (hR : ∀ s', R s s' → R s' s') (hs : R s s) :
    ∀ {b}, I b s → Triple m C R (l.foldlM f b) s I := by
  induction l generalizing s with
  | nil => exact fun hI => pure hs hI
  | cons a l ih =>
    intro b hI
    rw [List.foldlM_cons]
    refine (step b a (by simp) s hs hI).bind fun b' s' hs' hI' => ?_
    refine ih (fun b a ha s'' h'' => step b a (by simp [ha]) s'' ?_)
      (fun s'' h'' => hR s'' ?_) (hR s' hs') hI'
    · exact IsTrans.trans s s' s'' hs' h''
    · exact IsTrans.trans s s' s'' hs' h''

theorem forM {f : α → Prog Op Res ε PUnit} {l : List α} (I : σ → Prop)
    (step : ∀ a ∈ l, ∀ s', R s s' → I s' → Triple m C R (f a) s' fun _ => I)
    (hR : ∀ s', R s s' → R s' s') (hs : R s s) (hI : I s) :
    Triple m C R (l.forM f) s fun _ => I := by
  induction l generalizing s with
  | nil => exact pure hs hI
  | cons a l ih =>
    refine (step a (by simp) s hs hI).bind fun _ s' hs' hI' => ?_
    refine ih (fun a ha s'' h'' => step a (by simp [ha]) s'' ?_)
      (fun s'' h'' => hR s'' ?_) (hR s' hs') hI'
    · exact IsTrans.trans s s' s'' hs' h''
    · exact IsTrans.trans s s' s'' hs' h''

/-- What every call changes the state by, a program changes it by. -/
theorem of_calls {P : Op → Prop} (hrefl : ∀ s, R s s)
    (hR : ∀ op s r s', P op → m op s r s' → R s s') (hp : p.Calls P) :
    Triple m (fun _ => P) R p s fun _ _ => True := by
  induction p generalizing s with
  | ret a => exact pure (hrefl s) trivial
  | raise e => exact raise (hrefl s)
  | call op k ih =>
    refine ⟨hp.1, fun r s' hop => Guarded.mono (fun x s'' hQ => ?_) (ih r (hp.2 r))⟩
    exact ⟨IsTrans.trans s s' s'' (hR op s r s' hp.1 hop) hQ.1, hQ.2⟩

end Triple

end Triple

/-! ## Direct programs -/

/-- The calls satisfy `P`, and the program throws what they fail with. -/
def Direct (P : Op → Prop) : Prog Op Res ε α → Prop
  | ret _ => True
  | raise _ => True
  | call op k => P op ∧ (∀ e, k (.error e) = raise e) ∧ ∀ a, (k (.ok a)).Direct P

namespace Direct

variable {P : Op → Prop} {h : Handler Op Res ε σ} {p : Prog Op Res ε α} {s : σ}

@[simp] theorem pure (a : α) : (Pure.pure a : Prog Op Res ε α).Direct P := trivial

@[simp] theorem raise (e : ε) : (Prog.raise e : Prog Op Res ε α).Direct P := trivial

@[simp] theorem ofExcept (x : Except ε α) : (Prog.ofExcept x : Prog Op Res ε α).Direct P := by
  cases x <;> trivial

@[simp] theorem invoke {op : Op} : (Prog.invoke op : Prog Op Res ε (Res op)).Direct P ↔ P op :=
  ⟨fun hp => hp.1, fun hp => ⟨hp, fun _ => rfl, fun _ => trivial⟩⟩

theorem mono {Q : Op → Prop} (hPQ : ∀ op, P op → Q op) (hp : p.Direct P) : p.Direct Q := by
  induction p with
  | ret a => trivial
  | raise e => trivial
  | call op k ih => exact ⟨hPQ op hp.1, hp.2.1, fun a => ih _ (hp.2.2 a)⟩

theorem bind {f : α → Prog Op Res ε β} (hp : p.Direct P) (hf : ∀ a, (f a).Direct P) :
    (p >>= f).Direct P := by
  change (p.bind f).Direct P
  induction p with
  | ret a => exact hf a
  | raise e => trivial
  | call op k ih =>
    refine ⟨hp.1, fun e => ?_, fun a => ih _ (hp.2.2 a)⟩
    show (k (.error e)).bind f = _
    rw [hp.2.1]
    rfl

theorem foldlM {f : β → α → Prog Op Res ε β} {l : List α}
    (hf : ∀ b, ∀ a ∈ l, (f b a).Direct P) : ∀ b, (l.foldlM f b).Direct P := by
  induction l with
  | nil => exact fun b => trivial
  | cons a l ih =>
    intro b
    rw [List.foldlM_cons]
    exact (hf b a (by simp)).bind fun b' => ih (fun b a ha => hf b a (by simp [ha])) b'

theorem mapM {f : α → Prog Op Res ε β} {l : List α} (hf : ∀ a ∈ l, (f a).Direct P) :
    (l.mapM f).Direct P := by
  induction l with
  | nil => trivial
  | cons a l ih =>
    rw [List.mapM_cons]
    exact (hf a (by simp)).bind fun _ =>
      (ih fun a ha => hf a (by simp [ha])).bind fun _ => pure _

/-- A direct program that returns, although its calls may fail, does what it does when none
does. -/
theorem guarded_run (hp : p.Direct P) {C : σ → Op → Prop} (hC : ∀ s op, P op → C s op) :
    p.Guarded h.faulty C s fun x s' => ∀ a, x = .ok a → run h p s = (.ok a, s') := by
  induction p generalizing s with
  | ret a => exact fun b hb => Prod.ext hb rfl
  | raise e => exact fun b hb => by cases hb
  | call op k ih =>
    refine ⟨hC s op hp.1, fun r s' hop => ?_⟩
    cases r with
    | ok a =>
      rcases hop with hop | ⟨⟨e, he⟩, -⟩
      · have hrun : run h (Prog.call op k) s = run h (k (.ok a)) s' := by
          show run h (k (h op s).1) (h op s).2 = _
          rw [hop]
        rw [hrun]
        exact ih _ (hp.2.2 a)
      · cases he
    | error e =>
      rw [hp.2.1]
      exact fun b hb => by cases hb

/-- A direct program whose calls leave the state alone ends where it began. -/
theorem guarded_same (hp : p.Direct P) {C : σ → Op → Prop} (hC : ∀ s op, P op → C s op)
    (hread : ∀ op s, P op → (h op s).2 = s) :
    p.Guarded h.faulty C s fun _ s' => s' = s := by
  induction p with
  | ret a => rfl
  | raise e => rfl
  | call op k ih =>
    refine ⟨hC s op hp.1, fun r s' hop => ?_⟩
    have hs : s' = s := by
      rcases hop with hop | ⟨-, hs⟩
      · rw [← hread op s hp.1, hop]
      · exact hs
    rw [hs]
    cases r with
    | ok a => exact ih _ (hp.2.2 a)
    | error e =>
      rw [hp.2.1]
      rfl

end Direct

/-! ## Whatever the calls reply -/

/-- A call may reply anything. -/
def anyReply : Meaning Op Res ε Unit := fun _ _ _ _ => True

/-- Whatever the calls reply, each satisfies `P` and a value returned satisfies `Φ`. -/
abbrev Ensures (P : Op → Prop) (p : Prog Op Res ε α) (Φ : α → Prop) : Prop :=
  Triple anyReply (fun _ => P) Eq p () fun a _ => Φ a

namespace Ensures

variable {P : Op → Prop} {p : Prog Op Res ε α} {Φ : α → Prop}

theorem pure {a : α} (hΦ : Φ a) : Ensures P (Pure.pure a : Prog Op Res ε α) Φ :=
  Triple.pure rfl hΦ

theorem bind {f : α → Prog Op Res ε β} {Ψ : β → Prop} (hp : Ensures P p Φ)
    (hf : ∀ a, Φ a → Ensures P (f a) Ψ) : Ensures P (p >>= f) Ψ :=
  Triple.bind hp fun a _ _ ha => hf a ha

theorem foldlM {f : β → α → Prog Op Res ε β} {l : List α} (I : β → Prop)
    (step : ∀ b, ∀ a ∈ l, I b → Ensures P (f b a) I) {b : β} (hI : I b) :
    Ensures P (l.foldlM f b) I :=
  Triple.foldlM (fun b _ => I b) (fun b a ha _ _ hb => step b a ha hb) (fun _ _ => rfl) rfl hI

/-- Nothing is known of what calls in `P` reply. -/
theorem of_calls (hp : p.Calls P) : Ensures P p fun _ => True := by
  induction p with
  | ret a => exact ⟨rfl, fun _ _ => trivial⟩
  | raise e => exact ⟨rfl, fun _ _ => trivial⟩
  | call op k ih => exact ⟨hp.1, fun r _ _ => ih r (hp.2 r)⟩

theorem calls (hp : Ensures P p Φ) : p.Calls P := by
  change p.Guarded anyReply (fun _ => P) () _ at hp
  induction p with
  | ret a => trivial
  | raise e => trivial
  | call op k ih =>
    refine ⟨hp.1, fun r => ih r (hp.2 r () trivial)⟩

/-- What a program ensures whatever its calls reply, it ensures under any meaning. -/
theorem guarded {m : Meaning Op Res ε σ} {s : σ} (hp : Ensures P p Φ) :
    p.Guarded m (fun _ => P) s fun x _ => ∀ a, x = .ok a → Φ a := by
  change p.Guarded anyReply (fun _ => P) () _ at hp
  induction p generalizing s with
  | ret a => exact hp.2
  | raise e => exact hp.2
  | call op k ih => exact ⟨hp.1, fun r s' _ => ih r (hp.2 r () trivial)⟩

end Ensures

end Prog

end TtLedger
