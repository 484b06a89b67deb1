import TtLedger.Foundations.Greedy
import TtLedger.Ingest.RouteLaws
import Mathlib.Tactic.Linarith
import Mathlib.Tactic.Ring

/-!
# Laws of the draw down

A closing row draws on the nets it offsets, group by group in list order: each gives as much of
what is left of the quantity as it holds, a greedy allocation (`taken_drawDown`). No other net
moves, and none grows or changes sign (`drawn_drawDown`). The first group that the row offsets
carries it (`fst_drawDown`). `routeTrace` lists what happens to each row of a cluster, and
`routeCluster_eq_trace` reads the buckets and the rest off it.
-/

namespace TtLedger

/-! ## Nets that shrink -/

/-- A net that neither grows nor changes sign. -/
def Shrinks (net net' : ℚ) : Prop := 0 ≤ net' ∧ net' ≤ net ∨ net ≤ net' ∧ net' ≤ 0

theorem Shrinks.refl (net : ℚ) : Shrinks net net := by
  rcases le_total 0 net with h | h
  · exact Or.inl ⟨h, le_refl net⟩
  · exact Or.inr ⟨le_refl net, h⟩

theorem Shrinks.trans {net net' net'' : ℚ} (h : Shrinks net net') (h' : Shrinks net' net'') :
    Shrinks net net'' := by
  unfold Shrinks at *
  grind

/-- What is left of a group's net in a security. -/
def netLeft (sid : String) (e : OpenGroup × Dict String ℚ) : ℚ := (e.2.get? sid).getD 0

/-- What a group can give to a closing row. -/
def capacity (sid : String) (delta : Option ℚ) (e : OpenGroup × Dict String ℚ) : ℚ :=
  if offsets (netLeft sid e) delta then |netLeft sid e| else 0

theorem capacity_nonneg (sid : String) (delta : Option ℚ) (e : OpenGroup × Dict String ℚ) :
    0 ≤ capacity sid delta e := by
  unfold capacity
  split
  · exact abs_nonneg _
  · exact le_rfl

/-- What each group gave in a security. -/
def taken (sid : String) (before after : Remaining) : List ℚ :=
  List.zipWith (fun e e' => |netLeft sid e| - |netLeft sid e'|) before after

theorem taken_self (sid : String) (remaining : Remaining) :
    taken sid remaining remaining = List.replicate remaining.length 0 := by
  induction remaining with
  | nil => rfl
  | cons e remaining ih =>
    simp only [taken, List.zipWith_cons_cons, sub_self] at ih ⊢
    rw [ih, List.length_cons, List.replicate_succ]

/-- A group after a draw in one security: its net there shrinks, the others stay. -/
structure Drawn (sid : String) (e e' : OpenGroup × Dict String ℚ) : Prop where
  group : e'.1 = e.1
  shrinks : Shrinks (netLeft sid e) (netLeft sid e')
  others : ∀ sid', sid' ≠ sid → netLeft sid' e' = netLeft sid' e

theorem Drawn.refl (sid : String) (e : OpenGroup × Dict String ℚ) : Drawn sid e e :=
  ⟨rfl, Shrinks.refl _, fun _ _ => rfl⟩

theorem Drawn.shrinks_in {sid : String} {e e' : OpenGroup × Dict String ℚ} (h : Drawn sid e e')
    (sid' : String) : Shrinks (netLeft sid' e) (netLeft sid' e') := by
  by_cases hsid : sid' = sid
  · exact hsid ▸ h.shrinks
  · rw [h.others sid' hsid]
    exact Shrinks.refl _

theorem forall₂_refl_drawn (sid : String) (remaining : Remaining) :
    List.Forall₂ (Drawn sid) remaining remaining :=
  List.forall₂_same.mpr fun e _ => Drawn.refl sid e

/-! ## One draw -/

section DrawDown

variable (sid : String) (delta : Option ℚ)

/-- A group after a draw of at most what it holds. -/
def drawn (e : OpenGroup × Dict String ℚ) (take : ℚ) : OpenGroup × Dict String ℚ :=
  (e.1, e.2.set sid (if 0 < netLeft sid e then netLeft sid e - take else netLeft sid e + take))

theorem netLeft_drawn (e : OpenGroup × Dict String ℚ) (take : ℚ) :
    netLeft sid (drawn sid e take) =
      if 0 < netLeft sid e then netLeft sid e - take else netLeft sid e + take := by
  rw [netLeft, drawn, Dict.get?_set, if_pos rfl, Option.getD_some]

theorem drawn_of_le {e : OpenGroup × Dict String ℚ} {take : ℚ} (h₀ : 0 ≤ take)
    (h : take ≤ |netLeft sid e|) : Drawn sid e (drawn sid e take) := by
  refine ⟨rfl, ?_, fun sid' hsid => ?_⟩
  · rw [netLeft_drawn]
    unfold Shrinks
    split
    · rename_i hpos
      rw [abs_of_pos hpos] at h
      exact Or.inl ⟨sub_nonneg.mpr h, sub_le_self _ h₀⟩
    · rename_i hneg
      rw [abs_of_nonpos (not_lt.mp hneg)] at h
      exact Or.inr ⟨le_add_of_nonneg_right h₀, by linarith⟩
  · rw [netLeft, drawn, Dict.get?_set, if_neg hsid, netLeft]

theorem abs_netLeft_drawn {e : OpenGroup × Dict String ℚ} {take : ℚ}
    (h : take ≤ |netLeft sid e|) : |netLeft sid (drawn sid e take)| = |netLeft sid e| - take := by
  rw [netLeft_drawn]
  split
  · rename_i hpos
    rw [abs_of_pos hpos] at h ⊢
    exact abs_of_nonneg (sub_nonneg.mpr h)
  · rename_i hneg
    rw [abs_of_nonpos (not_lt.mp hneg)] at h ⊢
    rw [abs_of_nonpos (by linarith)]
    ring

theorem drawDown_cons_of_offsets {left : ℚ} {e : OpenGroup × Dict String ℚ}
    {remaining : Remaining} (h : offsets (netLeft sid e) delta) :
    drawDown sid delta left (e :: remaining) =
      (some e.1, drawn sid e (min left |netLeft sid e|) ::
        if left - min left |netLeft sid e| ≤ 0 then remaining
        else (drawDown sid delta (left - min left |netLeft sid e|) remaining).2) := by
  obtain ⟨g, nets⟩ := e
  conv_lhs => unfold drawDown
  simp only []
  rw [if_pos (show offsets ((nets.get? sid).getD 0) delta = true from h)]
  by_cases hdone : left - min left |netLeft sid (g, nets)| ≤ 0
  · rw [if_pos hdone]
    exact if_pos hdone
  · rw [if_neg hdone]
    exact if_neg hdone

theorem drawDown_cons_of_not_offsets {left : ℚ} {e : OpenGroup × Dict String ℚ}
    {remaining : Remaining} (h : offsets (netLeft sid e) delta = false) :
    drawDown sid delta left (e :: remaining) =
      ((drawDown sid delta left remaining).1, e :: (drawDown sid delta left remaining).2) := by
  obtain ⟨g, nets⟩ := e
  unfold netLeft at h
  conv_lhs => unfold drawDown
  simp only []
  rw [if_neg (by simp [h])]

/-- The first group the row offsets carries it. -/
theorem fst_drawDown (left : ℚ) (remaining : Remaining) :
    (drawDown sid delta left remaining).1 =
      (remaining.find? fun e => offsets (netLeft sid e) delta).map Prod.fst := by
  induction remaining with
  | nil => rfl
  | cons e remaining ih =>
    cases h : offsets (netLeft sid e) delta with
    | true =>
      rw [drawDown_cons_of_offsets sid delta h]
      simp [h]
    | false =>
      rw [drawDown_cons_of_not_offsets sid delta h, ih]
      simp [h]

/-- A draw shrinks nets of its security and touches no other. -/
theorem drawn_drawDown {left : ℚ} (hleft : 0 ≤ left) (remaining : Remaining) :
    List.Forall₂ (Drawn sid) remaining (drawDown sid delta left remaining).2 := by
  induction remaining generalizing left with
  | nil => exact List.Forall₂.nil
  | cons e remaining ih =>
    cases h : offsets (netLeft sid e) delta with
    | true =>
      rw [drawDown_cons_of_offsets sid delta h]
      have hhead : Drawn sid e (drawn sid e (min left |netLeft sid e|)) :=
        drawn_of_le sid (le_min hleft (abs_nonneg _)) (min_le_right _ _)
      refine List.Forall₂.cons hhead ?_
      split
      · exact forall₂_refl_drawn sid remaining
      · rename_i hmore
        exact ih (not_le.mp hmore).le
    | false =>
      rw [drawDown_cons_of_not_offsets sid delta h]
      exact List.Forall₂.cons (Drawn.refl sid e) (ih hleft)

/-- **The draw down is a greedy allocation** over what the groups hold that the row offsets. -/
theorem taken_drawDown {left : ℚ} (hleft : 0 ≤ left) (remaining : Remaining) :
    taken sid remaining (drawDown sid delta left remaining).2 =
      greedy left (remaining.map (capacity sid delta)) := by
  induction remaining generalizing left with
  | nil => rfl
  | cons e remaining ih =>
    have hrest : ∀ q ∈ remaining.map (capacity sid delta), 0 ≤ q := by
      intro q hq
      obtain ⟨e', -, rfl⟩ := List.mem_map.mp hq
      exact capacity_nonneg sid delta e'
    cases h : offsets (netLeft sid e) delta with
    | true =>
      have hcap : capacity sid delta e = |netLeft sid e| := if_pos h
      rw [drawDown_cons_of_offsets sid delta h, List.map_cons, greedy_cons, hcap]
      have hhead : |netLeft sid e| - |netLeft sid (drawn sid e (min left |netLeft sid e|))| =
          min left |netLeft sid e| := by
        rw [abs_netLeft_drawn sid (min_le_right _ _), sub_sub_cancel]
      rw [taken, List.zipWith_cons_cons, hhead]
      refine congrArg (List.cons _) ?_
      split
      · rename_i hdone
        have hzero : left - min left |netLeft sid e| = 0 :=
          le_antisymm hdone (sub_nonneg.mpr (min_le_left _ _))
        rw [hzero, greedy_zero hrest, List.length_map]
        exact taken_self sid remaining
      · rename_i hmore
        exact ih (not_le.mp hmore).le
    | false =>
      have hcap : capacity sid delta e = 0 := if_neg (by simp [h])
      rw [drawDown_cons_of_not_offsets sid delta h, List.map_cons, greedy_cons, hcap,
        min_eq_right hleft, sub_zero, taken, List.zipWith_cons_cons, sub_self]
      exact congrArg (List.cons 0) (ih hleft)

end DrawDown

/-! ## Drawing for a row -/

/-- The signed change a closing row asks for; a settlement without an action asks for none. -/
def TxnRow.closingDelta (r : TxnRow) : Option ℚ :=
  if truthy r.action then some r.actionDelta else none

section Row

variable {openGroups : List OpenGroup} {remaining : Remaining} {row : TxnRow}

theorem closingDelta_of_bare (h : isBareAction row.action) :
    row.closingDelta = some row.actionDelta := by
  refine if_pos ?_
  rcases Bool.or_eq_true_iff.mp h with h | h <;> rw [of_decide_eq_true h] <;> decide

/-- A closing or bare row draws on the nets in its security. -/
theorem snd_routeRow {sid : String} (hsid : row.securityId = some sid) (h : row.exits) :
    (routeRow openGroups remaining row).2 =
      (drawDown sid row.closingDelta row.absQuantity remaining).2 := by
  unfold routeRow
  simp only [hsid]
  cases hclosing : row.isClosing with
  | true =>
    simp only [if_true]
    split <;> rfl
  | false =>
    have hbare : isBareAction row.action = true := by simpa [TxnRow.exits, hclosing] using h
    simp only [Bool.false_eq_true, if_false]
    rw [if_pos hbare, closingDelta_of_bare hbare]

/-- A closing or bare row lands on the group that carries its draw, if there is one. -/
theorem fst_routeRow_of_some {sid : String} {g : OpenGroup} (hsid : row.securityId = some sid)
    (h : row.exits)
    (hg : (drawDown sid row.closingDelta row.absQuantity remaining).1 = some g) :
    (routeRow openGroups remaining row).1 = some g := by
  unfold routeRow
  simp only [hsid]
  cases hclosing : row.isClosing with
  | true =>
    simp only [if_true]
    unfold TxnRow.closingDelta at hg
    rw [hg]
  | false =>
    have hbare : isBareAction row.action = true := by simpa [TxnRow.exits, hclosing] using h
    simp only [Bool.false_eq_true, if_false]
    rw [if_pos hbare, ← closingDelta_of_bare hbare, hg]

/-- A closing row that no group can carry lands on the first group with a member in its
security. -/
theorem fst_routeRow_of_none {sid : String} (hsid : row.securityId = some sid)
    (h : row.isClosing)
    (hnone : (drawDown sid row.closingDelta row.absQuantity remaining).1 = none) :
    (routeRow openGroups remaining row).1 =
      openGroups.find? fun g => g.securityIds.contains sid := by
  unfold routeRow
  simp only [hsid]
  rw [if_pos h]
  unfold TxnRow.closingDelta at hnone
  rw [hnone]

/-- A row of another kind, or without a security, draws on no net and lands on no group. -/
theorem routeRow_of_idle (h : row.securityId = none ∨ row.exits = false) :
    routeRow openGroups remaining row = (none, remaining) := by
  unfold routeRow
  cases hsid : row.securityId with
  | none => rfl
  | some sid =>
    have hidle : row.exits = false := h.resolve_left (by simp [hsid])
    obtain ⟨hclosing, hbare⟩ := Bool.or_eq_false_iff.mp hidle
    simp [hclosing, hbare]

end Row

/-! ## Routing a cluster, row by row -/

/-- What happens to a row of a cluster: the nets it finds, the group it lands on, the nets it
leaves. -/
structure Routed where
  before : Remaining
  row : ActivityRow
  landing : Option OpenGroup
  after : Remaining

section Trace

variable (openGroups : List OpenGroup)

/-- One row routed. -/
def routed (remaining : Remaining) (row : ActivityRow) : Routed where
  before := remaining
  row
  landing := (routeRow openGroups remaining row.toTxnRow).1
  after := (routeRow openGroups remaining row.toTxnRow).2

/-- The rows of a cluster routed one after the other. -/
def routeTrace : Remaining → List ActivityRow → List Routed
  | _, [] => []
  | remaining, row :: rows =>
    routed openGroups remaining row ::
      routeTrace (routed openGroups remaining row).after rows

/-- The nets a cluster finds. -/
def openNets : Remaining := openGroups.map fun g => (g, netQuantities g.rows)

/-- The trace of a whole cluster. -/
def clusterTrace (cluster : List ActivityRow) : List Routed :=
  routeTrace openGroups (openNets openGroups) cluster

theorem map_row_routeTrace (remaining : Remaining) (rows : List ActivityRow) :
    (routeTrace openGroups remaining rows).map Routed.row = rows := by
  induction rows generalizing remaining with
  | nil => rfl
  | cons row rows ih => rw [routeTrace, List.map_cons, ih, routed]

/-- Each entry of a trace is one row routed. -/
theorem eq_routed_of_mem {remaining : Remaining} {rows : List ActivityRow} {t : Routed}
    (ht : t ∈ routeTrace openGroups remaining rows) :
    t = routed openGroups t.before t.row := by
  induction rows generalizing remaining with
  | nil => cases ht
  | cons row rows ih =>
    rcases List.mem_cons.mp ht with rfl | ht
    · rfl
    · exact ih ht

/-- The buckets and the rest are those of the rows traced so far. -/
structure TraceInv (done : List Routed) (routing : Routing) : Prop where
  rest : routing.rest = (done.filter fun t => t.landing.isNone).map Routed.row
  bucket : ∀ b ∈ routing.buckets,
    b.2 = (done.filter fun t => t.landing.any fun g => g.pk = b.1.pk).map Routed.row
  landed : ∀ t ∈ done, ∀ g, t.landing = some g → ∃ b ∈ routing.buckets, b.1.pk = g.pk

theorem TraceInv.step {done : List Routed} {w : Remaining × Routing} (h : TraceInv done w.2)
    (row : ActivityRow) :
    TraceInv (done ++ [routed openGroups w.1 row]) (routeStep openGroups w row).2 := by
  have hlanding : (routed openGroups w.1 row).landing =
    (routeRow openGroups w.1 row.toTxnRow).1 := rfl
  have hrow : (routed openGroups w.1 row).row = row := rfl
  unfold routeStep
  simp only []
  cases hroute : (routeRow openGroups w.1 row.toTxnRow).1 with
  | none =>
    rw [hroute] at hlanding
    refine ⟨?_, fun b hb => ?_, fun t ht g hg => ?_⟩
    · simp [h.rest, hlanding, hrow]
    · simp [h.bucket b hb, hlanding]
    · rcases List.mem_append.mp ht with ht | ht
      · exact h.landed t ht g hg
      · rw [List.mem_singleton.mp ht, hlanding] at hg
        cases hg
  | some group =>
    rw [hroute] at hlanding
    refine ⟨?_, fun b hb => ?_, fun t ht g hg => ?_⟩
    · simp [h.rest, hlanding]
    · rcases mem_addToBucket hb with ⟨hb, hne⟩ | ⟨b', hb', hpk, rfl⟩ | ⟨rfl, hnew⟩
      · simp [h.bucket b hb, hlanding, Ne.symm hne]
      · simp [h.bucket b' hb', hlanding, hpk, hrow]
      · have hnone : done.filter (fun t => t.landing.any fun g => g.pk = group.pk) = [] := by
          refine List.filter_eq_nil_iff.mpr fun t ht hany => ?_
          obtain ⟨g, hg, hpk⟩ : ∃ g, t.landing = some g ∧ g.pk = group.pk := by
            simpa [Option.any_eq_true] using hany
          obtain ⟨b, hb, hb'⟩ := h.landed t ht g hg
          exact hnew b hb (hb'.trans hpk)
        simp [hnone, hlanding, hrow]
    · refine exists_addToBucket ?_
      rcases List.mem_append.mp ht with ht | ht
      · exact Or.inr (h.landed t ht g hg)
      · rw [List.mem_singleton.mp ht, hlanding] at hg
        exact Or.inl (congrArg OpenGroup.pk (Option.some.inj hg).symm)

theorem fst_routeStep (w : Remaining × Routing) (row : ActivityRow) :
    (routeStep openGroups w row).1 = (routed openGroups w.1 row).after := by
  unfold routeStep
  simp only []
  split <;> rfl

theorem TraceInv.steps {done : List Routed} {w : Remaining × Routing} (h : TraceInv done w.2)
    (rows : List ActivityRow) :
    TraceInv (done ++ routeTrace openGroups w.1 rows)
      (rows.foldl (routeStep openGroups) w).2 := by
  induction rows generalizing done w with
  | nil => simpa [routeTrace] using h
  | cons row rows ih =>
    have := ih (h.step openGroups row)
    rw [fst_routeStep, List.append_assoc] at this
    exact this

/-- **Routing follows its trace**: each row is in the bucket of the group it lands on, or in the
rest. -/
theorem routeCluster_eq_trace (cluster : List ActivityRow) :
    TraceInv (clusterTrace openGroups cluster) (routeCluster openGroups cluster) := by
  have hinit : TraceInv [] ((openNets openGroups, {}) : Remaining × Routing).2 :=
    ⟨rfl, by simp, by simp⟩
  have hsteps := hinit.steps openGroups cluster
  rwa [List.nil_append] at hsteps

end Trace

end TtLedger
