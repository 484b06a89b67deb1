import TtLedger.Foundations.Pool
import Mathlib.Data.List.Basic

/-!
# Programs that pass on what they were given

The records of a store refer to one another, and the programs that write them run side by side.
`References` says which references a call sends and a reply brings, which ones a state's records
hold, and which are live in it; it is `Sound` for a meaning when live references stay so, and when
a call puts into the records, and a reply brings, only references that were there, were sent or
are live.

`R.Passes K p Φ` says that `p`, given the references `K`, sends only these and what its own calls
have brought, and returns a value whose references `Φ` are among them. It is a property of the
program alone and composes along it. When every program of a pool passes on live references, no
record ever holds a dangling one, and no call ever sends one (`Pool.Reaches.references_live`).
-/

namespace TtLedger

namespace Prog

variable {Op : Type} {Res : Op → Type} {ε α β σ Ref : Type}

/-- The references of calls, replies and records. -/
structure References (Op : Type) (Res : Op → Type) (σ Ref : Type) where
  /-- What a call writes into the records. -/
  sent : Op → List Ref
  /-- What a reply brings. -/
  got : (op : Op) → Res op → List Ref
  /-- What the records of a state refer to. -/
  held : σ → List Ref
  /-- What is in place in a state. -/
  live : σ → Ref → Prop

namespace References

variable (R : References Op Res σ Ref)

/-- What the calls of a meaning do to the references. -/
structure Sound (m : Meaning Op Res ε σ) : Prop where
  live : ∀ {op s r s' ref}, m op s r s' → R.live s ref → R.live s' ref
  held : ∀ {op s r s' ref}, m op s r s' → ref ∈ R.held s' →
    ref ∈ R.held s ∨ ref ∈ R.sent op ∨ R.live s' ref
  got : ∀ {op s a s' ref}, m op s (.ok a) s' → ref ∈ R.got op a → ref ∈ R.held s ∨ R.live s' ref

/-- What a program has been given so far. -/
def monitor (ε : Type) : Monitor Op Res ε (List Ref) where
  update known op
    | .ok a => known ++ R.got op a
    | .error _ => known
  allows known op := R.sent op ⊆ known

theorem subset_update (known : List Ref) (op : Op) (r : Except ε (Res op)) :
    known ⊆ (R.monitor ε).update known op r := by
  cases r with
  | ok a => exact List.subset_append_left _ _
  | error e => exact List.Subset.refl _

/-- Given `K`, the program sends only what it was given and returns a value with the references
`Φ`, among what it was given. -/
def Passes (K : List Ref) (p : Prog Op Res ε α) (Φ : α → List Ref) : Prop :=
  ∀ known, K ⊆ known →
    Triple (R.monitor ε).meaning (R.monitor ε).allows (· ⊆ ·) p known fun a known' => Φ a ⊆ known'

namespace Passes

variable {R} {K : List Ref} {p : Prog Op Res ε α} {Φ : α → List Ref}

theorem pure {a : α} (ha : Φ a ⊆ K) : R.Passes K (Pure.pure a : Prog Op Res ε α) Φ :=
  fun _ hK => .pure (List.Subset.refl _) (List.Subset.trans ha hK)

theorem raise {e : ε} : R.Passes K (Prog.raise e : Prog Op Res ε α) Φ :=
  fun _ _ => .raise (List.Subset.refl _)

theorem ofExcept {x : Except ε α} (hx : ∀ a, x = .ok a → Φ a ⊆ K) :
    R.Passes K (Prog.ofExcept x) Φ :=
  fun _ hK => .ofExcept (List.Subset.refl _) fun a ha =>
    List.Subset.trans (hx a ha) hK

/-- One call. -/
theorem invoke {op : Op} {Φ : Res op → List Ref} (hsent : R.sent op ⊆ K)
    (hΦ : ∀ a, Φ a ⊆ K ++ R.got op a) :
    R.Passes K (Prog.invoke op : Prog Op Res ε (Res op)) Φ := by
  intro known hK
  refine .watch (List.Subset.trans hsent hK) (R.subset_update known op) fun a => ?_
  refine List.Subset.trans (hΦ a) (List.append_subset.mpr ⟨?_, List.subset_append_right _ _⟩)
  exact List.Subset.trans hK (List.subset_append_left _ _)

/-- What follows knows what came before. -/
theorem bind {f : α → Prog Op Res ε β} {Ψ : β → List Ref} (hp : R.Passes K p Φ)
    (hf : ∀ a, R.Passes (K ++ Φ a) (f a) Ψ) : R.Passes K (p >>= f) Ψ := by
  intro known hK
  refine (hp known hK).bind fun a known' hle hΦ => ?_
  exact hf a known' (List.append_subset.mpr ⟨List.Subset.trans hK hle, hΦ⟩)

theorem tryCatch {f : ε → Prog Op Res ε α} (hp : R.Passes K p Φ)
    (hf : ∀ e, R.Passes K (f e) Φ) : R.Passes K (p.tryCatch f) Φ := by
  intro known hK
  refine Guarded.tryCatch (hp known hK) (fun a _ h => h) fun e known' h => ?_
  refine Guarded.mono (fun x known'' h' => ?_) (hf e known' (List.Subset.trans hK h.1))
  exact ⟨List.Subset.trans h.1 h'.1, h'.2⟩

/-- More is given. -/
theorem mono {K' : List Ref} (hp : R.Passes K p Φ) (hK : K ⊆ K') : R.Passes K' p Φ :=
  fun known hK' => hp known (List.Subset.trans hK hK')

/-- A program that sends nothing. -/
theorem of_calls (hp : p.Calls fun op => R.sent op = []) : R.Passes K p fun _ => [] := by
  intro known hK
  induction p generalizing known with
  | ret a => exact ⟨List.Subset.refl _, fun _ _ => List.nil_subset _⟩
  | raise e => exact ⟨List.Subset.refl _, fun _ _ => List.nil_subset _⟩
  | call op k ih =>
    have hnone : R.sent op = [] := hp.1
    have hsent : R.sent op ⊆ known := hnone ▸ List.nil_subset known
    refine ⟨hsent, fun r known' hr => ?_⟩
    subst hr
    have hle := R.subset_update known op r
    refine Guarded.mono (fun x known'' h => ?_) (ih r (hp.2 r) _ (List.Subset.trans hK hle))
    exact ⟨List.Subset.trans hle h.1, h.2⟩

/-- **Loop rule**: the references of the accumulator, from turn to turn. -/
theorem foldlM {f : β → α → Prog Op Res ε β} {l : List α} (I : β → List Ref)
    (step : ∀ b, ∀ a ∈ l, R.Passes (K ++ I b) (f b a) I) :
    ∀ {b}, I b ⊆ K → R.Passes K (l.foldlM f b) I := by
  intro b hb known hK
  refine Triple.foldlM (fun b known' => I b ⊆ known') (fun b a ha known' hle hI => ?_)
    (fun _ _ => List.Subset.refl _) (List.Subset.refl _) (List.Subset.trans hb hK)
  exact step b a ha known' (List.append_subset.mpr ⟨List.Subset.trans hK hle, hI⟩)

theorem forM {f : α → Prog Op Res ε PUnit} {l : List α}
    (step : ∀ a ∈ l, R.Passes K (f a) fun _ => []) : R.Passes K (l.forM f) fun _ => [] := by
  intro known hK
  exact Triple.forM (fun known' => [] ⊆ known')
    (fun a ha known' hle _ => step a ha known' (List.Subset.trans hK hle))
    (fun _ _ => List.Subset.refl _) (List.Subset.refl _) (List.nil_subset _)

theorem mapM {f : α → Prog Op Res ε β} {l : List α} {I : β → List Ref}
    (step : ∀ a ∈ l, R.Passes K (f a) I) : R.Passes K (l.mapM f) fun bs => bs.flatMap I := by
  induction l with
  | nil => exact pure (List.nil_subset _)
  | cons a l ih =>
    rw [List.mapM_cons]
    refine (step a (by simp)).bind fun b => ?_
    have htail := ih fun a ha => step a (by simp [ha])
    refine (htail.mono (List.subset_append_left _ _)).bind fun bs => pure ?_
    rw [List.flatMap_cons, List.append_assoc]
    exact List.subset_append_right _ _

end Passes

end References

/-! ## Pools -/

/-- **No dangling reference**: when every program passes on live references, whatever the order of
their calls, the references of all records stay live, and so are those of every call when it is
issued. -/
theorem Pool.Reaches.references_live {ι : Type} [DecidableEq ι] {m : Meaning Op Res ε σ}
    {ps ps' : ι → Prog Op Res ε α} {s s' : σ} {R : References Op Res σ Ref} (hm : R.Sound m)
    {K : ι → List Ref} {Φ : ι → α → List Ref} (hps : ∀ i, R.Passes (K i) (ps i) (Φ i))
    (hK : ∀ i, ∀ ref ∈ K i, R.live s ref) (hs : ∀ ref ∈ R.held s, R.live s ref)
    (h : Pool.Reaches m ps s ps' s') :
    (∀ ref ∈ R.held s', R.live s' ref) ∧
      ∀ i op k, ps' i = call op k → ∀ ref ∈ R.sent op, R.live s' ref := by
  obtain ⟨gs, hwatched⟩ := h.watched (fun _ => R.monitor ε) K
  -- the records and what the programs were given are live
  have hinv := hwatched.guarded
    (J := fun gs s => (∀ ref ∈ R.held s, R.live s ref) ∧ ∀ i, ∀ ref ∈ gs i, R.live s ref)
    (fun gs s i op r s' hJ hsent _ hop => ?_)
    (fun i => hps i (K i) (List.Subset.refl _)) ⟨hs, hK⟩
  · refine ⟨hinv.2.1, fun i op k hi ref href => ?_⟩
    have hcall := hinv.1 i
    rw [hi] at hcall
    exact hinv.2.2 i ref (hcall.1 href)
  · have hkept : ∀ ref, R.live s ref → R.live s' ref := fun ref => hm.live hop
    refine ⟨fun ref href => ?_, fun j ref href => ?_⟩
    · rcases hm.held hop href with hold | hnew | hlive
      · exact hkept ref (hJ.1 ref hold)
      · exact hkept ref (hJ.2 i ref (hsent hnew))
      · exact hlive
    · rcases eq_or_ne j i with rfl | hj
      · rw [Function.update_self] at href
        cases r with
        | error e => exact hkept ref (hJ.2 j ref href)
        | ok a =>
          rcases List.mem_append.mp href with hknown | hgot
          · exact hkept ref (hJ.2 j ref hknown)
          · exact (hm.got hop hgot).elim (fun hheld => hkept ref (hJ.1 ref hheld)) id
      · rw [Function.update_of_ne hj] at href
        exact hkept ref (hJ.2 j ref href)

end Prog

end TtLedger
