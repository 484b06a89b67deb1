import Mathlib.Logic.Basic
import Mathlib.Tactic.TypeStar

/-!
# Programs over a signature of fallible calls

A `Prog Op Res ε α` is a program that issues calls `op : Op`, receives for each of them either
a reply in `Res op` or a failure in `ε`, and returns a value in `α` or throws. The tree records
every call at which another program may be interleaved or the call may fail; a *handler* gives
the calls their meaning on a state, and `run` is the sequential meaning of a program.

* `run_bind`, `run_tryCatch`, `run_foldlM_eq`: the run of a composite program.
* `Calls P p`: every call `p` may issue, whatever the replies, satisfies `P`. A property of the
  state that the handler preserves on these calls is preserved by the run (`Calls.run_preserves`),
  and a part of the state they leave alone is left alone (`Calls.run_frame`).
* `Preserves h I p`: every run of `p` keeps `I`; such facts compose along programs that also
  issue calls which keep it only where they stand (`Preserves.bind`, `Preserves.foldlM`).
-/

namespace TtLedger

/-- Programs over the calls `op : Op` with replies in `Res op` and failures in `ε`. -/
inductive Prog (Op : Type) (Res : Op → Type) (ε α : Type) : Type
  /-- Return a value. -/
  | ret (a : α)
  /-- Throw a failure. -/
  | raise (e : ε)
  /-- Issue a call; the continuation receives the reply or the failure. -/
  | call (op : Op) (k : Except ε (Res op) → Prog Op Res ε α)

namespace Prog

variable {Op : Type} {Res : Op → Type} {ε α β σ : Type}

/-- Sequencing: a failure skips the continuation. -/
def bind : Prog Op Res ε α → (α → Prog Op Res ε β) → Prog Op Res ε β
  | ret a, f => f a
  | raise e, _ => raise e
  | call op k, f => call op fun r => (k r).bind f

/-- Run `f` on the failure of a program. -/
def tryCatch : Prog Op Res ε α → (ε → Prog Op Res ε α) → Prog Op Res ε α
  | ret a, _ => ret a
  | raise e, f => f e
  | call op k, f => call op fun r => (k r).tryCatch f

instance : Monad (Prog Op Res ε) where
  pure := ret
  bind := bind

theorem bind_ret (p : Prog Op Res ε α) : p.bind ret = p := by
  induction p with
  | ret a => rfl
  | raise e => rfl
  | call op k ih => simp only [bind, ih]

theorem bind_assoc {γ : Type} (p : Prog Op Res ε α) (f : α → Prog Op Res ε β)
    (g : β → Prog Op Res ε γ) : (p.bind f).bind g = p.bind fun a => (f a).bind g := by
  induction p with
  | ret a => rfl
  | raise e => rfl
  | call op k ih => simp only [bind, ih]

instance : LawfulMonad (Prog Op Res ε) :=
  LawfulMonad.mk' _ bind_ret (fun _ _ => rfl) bind_assoc

/-- The program of one call: return its reply, throw its failure. -/
def invoke (op : Op) : Prog Op Res ε (Res op) :=
  call op fun
    | .ok r => ret r
    | .error e => raise e

theorem invoke_bind (op : Op) (f : Res op → Prog Op Res ε α) :
    (invoke op >>= f) = call op fun
      | .ok a => f a
      | .error e => raise e := by
  show call op _ = call op _
  congr 1
  funext r
  cases r <;> rfl

/-- A value computed without calls. -/
def ofExcept : Except ε α → Prog Op Res ε α
  | .ok a => ret a
  | .error e => raise e

/-! ## Sequential runs -/

/-- The meaning of the calls on a state. A failing call may have changed the state. -/
abbrev Handler (Op : Type) (Res : Op → Type) (ε σ : Type) :=
  (op : Op) → σ → Except ε (Res op) × σ

variable (h : Handler Op Res ε σ)

/-- The sequential run of a program from a state: its outcome and the state it ends in. -/
def run : Prog Op Res ε α → σ → Except ε α × σ
  | ret a, s => (.ok a, s)
  | raise e, s => (.error e, s)
  | call op k, s => run (k (h op s).1) (h op s).2

@[simp] theorem run_pure (a : α) (s : σ) :
    run h (pure a : Prog Op Res ε α) s = (.ok a, s) := rfl

@[simp] theorem run_ret (a : α) (s : σ) : run h (ret a : Prog Op Res ε α) s = (.ok a, s) := rfl

@[simp] theorem run_raise (e : ε) (s : σ) :
    run h (raise e : Prog Op Res ε α) s = (.error e, s) := rfl

@[simp] theorem run_ofExcept (x : Except ε α) (s : σ) :
    run h (ofExcept x : Prog Op Res ε α) s = (x, s) := by
  cases x <;> rfl

@[simp] theorem run_invoke (op : Op) (s : σ) : run h (invoke op) s = h op s := by
  rcases hop : h op s with ⟨r | r, s'⟩ <;> simp [invoke, run, hop]

theorem run_bind (p : Prog Op Res ε α) (f : α → Prog Op Res ε β) (s : σ) :
    run h (p >>= f) s =
      match run h p s with
      | (.ok a, s') => run h (f a) s'
      | (.error e, s') => (.error e, s') := by
  change run h (p.bind f) s = _
  induction p generalizing s with
  | ret a => rfl
  | raise e => rfl
  | call op k ih => exact ih _ _

/-- A run of a sequence whose first program is known to return. -/
theorem run_bind_of_ok {p : Prog Op Res ε α} {f : α → Prog Op Res ε β} {s s' : σ} {a : α}
    (hp : run h p s = (.ok a, s')) : run h (p >>= f) s = run h (f a) s' := by
  rw [run_bind, hp]

/-- A run of a sequence whose first program is known to throw. -/
theorem run_bind_of_error {p : Prog Op Res ε α} {f : α → Prog Op Res ε β} {s s' : σ} {e : ε}
    (hp : run h p s = (.error e, s')) : run h (p >>= f) s = (.error e, s') := by
  rw [run_bind, hp]

/-- Inversion of a sequence that returned. -/
theorem run_bind_eq_ok {p : Prog Op Res ε α} {f : α → Prog Op Res ε β} {s s'' : σ} {b : β} :
    run h (p >>= f) s = (.ok b, s'') ↔
      ∃ a s', run h p s = (.ok a, s') ∧ run h (f a) s' = (.ok b, s'') := by
  rw [run_bind]
  rcases run h p s with ⟨_ | a, s'⟩
  · simp
  · refine ⟨fun h' => ⟨a, s', rfl, h'⟩, ?_⟩
    rintro ⟨_, _, he, h'⟩
    cases he
    exact h'

theorem run_tryCatch (p : Prog Op Res ε α) (f : ε → Prog Op Res ε α) (s : σ) :
    run h (p.tryCatch f) s =
      match run h p s with
      | (.ok a, s') => (.ok a, s')
      | (.error e, s') => run h (f e) s' := by
  induction p generalizing s with
  | ret a => rfl
  | raise e => rfl
  | call op k ih => exact ih _ _

@[simp] theorem run_map (g : α → β) (p : Prog Op Res ε α) (s : σ) :
    run h (g <$> p) s = ((run h p s).1.map g, (run h p s).2) := by
  rw [← bind_pure_comp, run_bind]
  rcases run h p s with ⟨_ | a, s'⟩ <;> rfl

/-! ## Loops -/

/-- A loop whose every iteration returns runs as the fold of its iterations. -/
theorem run_foldlM_eq {f : β → α → Prog Op Res ε β} (g : β × σ → α → β × σ) :
    ∀ (l : List α) (w : β × σ),
      (∀ a ∈ l, ∀ w, run h (f w.1 a) w.2 = (.ok (g w a).1, (g w a).2)) →
      run h (l.foldlM f w.1) w.2 = (.ok (l.foldl g w).1, (l.foldl g w).2)
  | [], _, _ => rfl
  | a :: l, w, hg => by
    rw [List.foldlM_cons, run_bind_of_ok h (hg a (by simp) w),
      run_foldlM_eq g l (g w a) fun a ha => hg a (by simp [ha]), List.foldl_cons]

theorem run_forM_eq {f : α → Prog Op Res ε PUnit} (g : σ → α → σ) :
    ∀ (l : List α) (s : σ), (∀ a ∈ l, ∀ s, run h (f a) s = (.ok ⟨⟩, g s a)) →
      run h (l.forM f) s = (.ok ⟨⟩, l.foldl g s)
  | [], _, _ => rfl
  | a :: l, s, hg => by
    rw [show (a :: l).forM f = (f a >>= fun _ => l.forM f) from rfl,
      run_bind_of_ok h (hg a (by simp) s),
      run_forM_eq g l (g s a) fun a ha => hg a (by simp [ha]), List.foldl_cons]

/-! ## The calls of a program -/

/-- Every call the program may issue, whatever the replies, satisfies `P`. -/
def Calls (P : Op → Prop) : Prog Op Res ε α → Prop
  | ret _ => True
  | raise _ => True
  | call op k => P op ∧ ∀ r, (k r).Calls P

namespace Calls

variable {P Q : Op → Prop}

@[simp] theorem pure (a : α) : (Pure.pure a : Prog Op Res ε α).Calls P := trivial

@[simp] theorem raise (e : ε) : (Prog.raise e : Prog Op Res ε α).Calls P := trivial

@[simp] theorem ofExcept (x : Except ε α) : (Prog.ofExcept x : Prog Op Res ε α).Calls P := by
  cases x <;> trivial

@[simp] theorem invoke {op : Op} : (Prog.invoke op : Prog Op Res ε (Res op)).Calls P ↔ P op := by
  refine ⟨fun hp => hp.1, fun hp => ⟨hp, fun r => ?_⟩⟩
  cases r <;> trivial

theorem bind {p : Prog Op Res ε α} {f : α → Prog Op Res ε β} (hp : p.Calls P)
    (hf : ∀ a, (f a).Calls P) : (p >>= f).Calls P := by
  change (p.bind f).Calls P
  induction p with
  | ret a => exact hf a
  | raise e => trivial
  | call op k ih => exact ⟨hp.1, fun r => ih r (hp.2 r)⟩

theorem tryCatch {p : Prog Op Res ε α} {f : ε → Prog Op Res ε α} (hp : p.Calls P)
    (hf : ∀ e, (f e).Calls P) : (p.tryCatch f).Calls P := by
  induction p with
  | ret a => trivial
  | raise e => exact hf e
  | call op k ih => exact ⟨hp.1, fun r => ih r (hp.2 r)⟩

theorem map {p : Prog Op Res ε α} (g : α → β) (hp : p.Calls P) : (g <$> p).Calls P := by
  rw [← bind_pure_comp]
  exact hp.bind fun _ => trivial

theorem foldlM {f : β → α → Prog Op Res ε β} {l : List α}
    (hf : ∀ b, ∀ a ∈ l, (f b a).Calls P) : ∀ b, (l.foldlM f b).Calls P := by
  induction l with
  | nil => exact fun b => trivial
  | cons a l ih =>
    intro b
    rw [List.foldlM_cons]
    exact (hf b a (by simp)).bind fun b' => ih (fun b a ha => hf b a (by simp [ha])) b'

theorem mapM {f : α → Prog Op Res ε β} {l : List α} (hf : ∀ a ∈ l, (f a).Calls P) :
    (l.mapM f).Calls P := by
  induction l with
  | nil => trivial
  | cons a l ih =>
    rw [List.mapM_cons]
    exact (hf a (by simp)).bind fun _ =>
      (ih fun a ha => hf a (by simp [ha])).bind fun _ => pure _

theorem forM {f : α → Prog Op Res ε PUnit} {l : List α} (hf : ∀ a ∈ l, (f a).Calls P) :
    (l.forM f).Calls P := by
  induction l with
  | nil => trivial
  | cons a l ih => exact (hf a (by simp)).bind fun _ => ih fun a ha => hf a (by simp [ha])

theorem mono {p : Prog Op Res ε α} (hPQ : ∀ op, P op → Q op) (hp : p.Calls P) : p.Calls Q := by
  induction p with
  | ret a => trivial
  | raise e => trivial
  | call op k ih => exact ⟨hPQ op hp.1, fun r => ih r (hp.2 r)⟩

variable {h}

/-- A property of the state that the calls of a program preserve is preserved by its run. -/
theorem run_preserves {p : Prog Op Res ε α} (hp : p.Calls P) {I : σ → Prop}
    (hI : ∀ op s, P op → I s → I (h op s).2) : ∀ {s}, I s → I (run h p s).2 := by
  induction p with
  | ret a => exact fun hs => hs
  | raise e => exact fun hs => hs
  | call op k ih => exact fun hs => ih _ (hp.2 _) (hI op _ hp.1 hs)

/-- A part of the state that the calls of a program leave alone is left alone by its run. -/
theorem run_frame {τ : Type*} {p : Prog Op Res ε α} (hp : p.Calls P) (view : σ → τ)
    (hv : ∀ op s, P op → view (h op s).2 = view s) (s : σ) :
    view (run h p s).2 = view s :=
  hp.run_preserves (I := fun s' => view s' = view s)
    (fun op s' ho hs' => (hv op s' ho).trans hs') rfl

end Calls

/-! ## Invariants of runs -/

/-- Every run of the program keeps a property of the state. -/
def Preserves (h : Handler Op Res ε σ) (I : σ → Prop) (p : Prog Op Res ε α) : Prop :=
  ∀ s, I s → I (run h p s).2

namespace Preserves

variable {h} {I : σ → Prop}

theorem of_calls {P : Op → Prop} {p : Prog Op Res ε α} (hp : p.Calls P)
    (hI : ∀ op s, P op → I s → I (h op s).2) : Preserves h I p :=
  fun _ hs => hp.run_preserves hI hs

theorem pure (a : α) : Preserves h I (Pure.pure a : Prog Op Res ε α) := fun _ hs => hs

theorem bind {p : Prog Op Res ε α} {f : α → Prog Op Res ε β} (hp : Preserves h I p)
    (hf : ∀ a, Preserves h I (f a)) : Preserves h I (p >>= f) := by
  intro s hs
  have hp' := hp s hs
  rw [run_bind]
  rcases hrun : run h p s with ⟨_ | a, s'⟩
  · rw [hrun] at hp'
    exact hp'
  · rw [hrun] at hp'
    exact hf a s' hp'

theorem tryCatch {p : Prog Op Res ε α} {f : ε → Prog Op Res ε α} (hp : Preserves h I p)
    (hf : ∀ e, Preserves h I (f e)) : Preserves h I (p.tryCatch f) := by
  intro s hs
  have hp' := hp s hs
  rw [run_tryCatch]
  rcases hrun : run h p s with ⟨e | _, s'⟩
  · rw [hrun] at hp'
    exact hf e s' hp'
  · rw [hrun] at hp'
    exact hp'

theorem foldlM {f : β → α → Prog Op Res ε β} {l : List α}
    (hf : ∀ b, ∀ a ∈ l, Preserves h I (f b a)) : ∀ b, Preserves h I (l.foldlM f b) := by
  induction l with
  | nil => exact fun b => pure b
  | cons a l ih =>
    intro b
    rw [List.foldlM_cons]
    exact (hf b a (by simp)).bind fun b' => ih (fun b a ha => hf b a (by simp [ha])) b'

end Preserves

end Prog

end TtLedger
