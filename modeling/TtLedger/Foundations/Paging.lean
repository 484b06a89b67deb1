import TtLedger.Foundations.Ranking

/-!
# Reading a list page by page while it changes

A reader asks for the pages of a list one after the other, and others change the list between its
requests. `Recedes l l'` says that no element has moved toward the front: then what was not on the
pages read is from the next page on (`Unread.step`), and a reader who reaches the end has every
element of the list it began with (`Unread.subset`), whatever has been inserted meanwhile. When the
list only grows at its end, the pages read are its first elements (`take_append_page`), so the
reader ends with the list as it is at its last request.

Each page comes with the number of pages there are (`PageCount`), which tells the reader to stop
(`PageCount.length_le`) or that it has not yet reached the end (`PageCount.lt_length`).
-/

namespace TtLedger

variable {α : Type*} {l l' l'' : List α}

/-! ## Lists whose elements do not move toward the front -/

/-- What stood from a position on still stands there or farther back. -/
def Recedes (l l' : List α) : Prop := ∀ n, l.drop n ⊆ l'.drop n

namespace Recedes

theorem refl (l : List α) : Recedes l l := fun _ => List.Subset.refl _

theorem trans (h : Recedes l l') (h' : Recedes l' l'') : Recedes l l'' :=
  fun n => List.Subset.trans (h n) (h' n)

theorem subset (h : Recedes l l') : l ⊆ l' := by
  have hzero := h 0
  simpa using hzero

/-- Insertions, wherever they are. -/
theorem of_sublist (h : l.Sublist l') : Recedes l l' := fun n => (h.drop n).subset

instance instRefl : Std.Refl (Recedes (α := α)) where
  refl := refl

instance instTrans : IsTrans (List α) Recedes where
  trans _ _ _ := trans

end Recedes

/-! ## What is still to be read -/

/-- The elements of `l₀` that are not among the items read stand in `l` from position `n` on. -/
def Unread (l₀ items l : List α) (n : ℕ) : Prop := ∀ a ∈ l₀, a ∈ items ∨ a ∈ l.drop n

namespace Unread

variable {l₀ items : List α} {limit k : ℕ}

theorem start (l : List α) : Unread l [] l 0 := fun _ ha => Or.inr ha

theorem recedes {n : ℕ} (h : Unread l₀ items l n) (hl : Recedes l l') : Unread l₀ items l' n :=
  fun a ha => (h a ha).imp_right fun hunread => hl n hunread

/-- Reading a page. -/
theorem step (h : Unread l₀ items l (k * limit)) :
    Unread l₀ (items ++ page l (k * limit) limit) l ((k + 1) * limit) := by
  intro a ha
  rcases h a ha with hread | hunread
  · exact Or.inl (List.mem_append_left _ hread)
  · rw [← List.take_append_drop limit (l.drop (k * limit)), List.mem_append] at hunread
    rcases hunread with hpage | hlater
    · exact Or.inl (List.mem_append_right _ hpage)
    · rw [List.drop_drop, ← Nat.succ_mul] at hlater
      exact Or.inr hlater

/-- At the end everything is read. -/
theorem subset {n : ℕ} (h : Unread l₀ items l n) (hend : l.length ≤ n) : l₀ ⊆ items := by
  intro a ha
  rcases h a ha with hread | hunread
  · exact hread
  · rw [List.drop_eq_nil_iff.mpr hend] at hunread
    cases hunread

end Unread

/-! ## Lists that grow at the end -/

/-- The elements read and the next page are the first elements, when those read are all before the
end. -/
theorem take_append_page {limit k : ℕ} (hl : l <+: l') (hk : k * limit ≤ l.length) :
    l.take (k * limit) ++ page l' (k * limit) limit = l'.take ((k + 1) * limit) := by
  obtain ⟨new, rfl⟩ := hl
  rw [Nat.succ_mul, List.take_add, page, List.take_append_of_le_length hk]

/-! ## Counting pages -/

/-- How many pages a list has; an empty one may count as one page. -/
structure PageCount (l : List α) (limit total : ℕ) : Prop where
  covers : l.length ≤ total * limit
  needed : total ≤ 1 ∨ (total - 1) * limit < l.length

namespace PageCount

variable {limit total k : ℕ}

theorem length_le (h : PageCount l limit total) (hk : total ≤ k) : l.length ≤ k * limit :=
  h.covers.trans (Nat.mul_le_mul_right limit hk)

/-- A page that is not the last is full. -/
theorem lt_length (h : PageCount l limit total) (hk : k < total) (h0 : 0 < k) :
    k * limit < l.length := by
  rcases h.needed with hone | hneeded
  · omega
  · exact (Nat.mul_le_mul_right limit (by omega)).trans_lt hneeded

/-- The least number of pages that hold all elements. -/
theorem ceil (hlimit : 0 < limit) : PageCount l limit ((l.length + limit - 1) / limit) := by
  obtain ⟨t, ht⟩ : ∃ t, t = (l.length + limit - 1) / limit := ⟨_, rfl⟩
  have hmod := Nat.div_add_mod (l.length + limit - 1) limit
  have hlt := Nat.mod_lt (l.length + limit - 1) hlimit
  rw [← ht, Nat.mul_comm] at hmod
  rw [← ht]
  refine ⟨by omega, ?_⟩
  rcases Nat.eq_zero_or_pos t with hzero | hpos
  · exact Or.inl (by omega)
  · have hpred : t * limit = (t - 1) * limit + limit := by
      rw [← Nat.succ_mul, Nat.succ_eq_add_one, Nat.sub_add_cancel hpos]
    by_cases hempty : l.length = 0
    · left
      omega
    · right
      omega

end PageCount

/-- The list goes on after its first `k` pages; of no pages nothing is said. -/
def BeforeEnd (l : List α) (limit k : ℕ) : Prop := k = 0 ∨ k * limit < l.length

theorem BeforeEnd.le {limit k : ℕ} (h : BeforeEnd l limit k) : k * limit ≤ l.length := by
  rcases h with rfl | hlt
  · simp
  · exact hlt.le

end TtLedger
