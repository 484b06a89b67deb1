import TtLedger.Guarantees.Routing
import TtLedger.Ingest.Lapse
import Mathlib.Data.List.Nodup

/-!
# Cash-settled pairs over several groups

Several open groups hold the same quantity of an index option, and the cluster brings each a
removal row and a money row of that quantity. The first settlement row that draws on a group
flattens it, so no group carries a second one by its net (`countP_settling_le_one`); every row that
finds nothing left falls back to the first group that has traded the option. So each holder gets
its pair exactly when it is that group, which at most one can be (`first_of_pair`).
-/

namespace TtLedger

/-! ## Settlement rows of one security -/

/-- Whether a row settles a security. -/
def TxnRow.settlesIn (sid : String) (r : TxnRow) : Bool :=
  r.isNontradeClose && r.securityId = some sid

/-- The removal rows and the money rows of a security. -/
def TxnRow.removesIn (sid : String) (r : TxnRow) : Bool :=
  r.settlesIn sid && !isCashSettled r.transactionSubType

def TxnRow.paysIn (sid : String) (r : TxnRow) : Bool :=
  r.settlesIn sid && isCashSettled r.transactionSubType

/-- Whether an entry of a trace lands on the group with a key. -/
def Routed.landsOn (pk : ℕ) (t : Routed) : Bool := t.landing.any fun g => g.pk = pk

/-- The rows a routing gives the group with a key. -/
def Routing.bucketOf (routing : Routing) (pk : ℕ) : List ActivityRow :=
  (routing.buckets.filter fun b => b.1.pk = pk).flatMap Prod.snd

theorem exits_of_settlesIn {sid : String} {r : TxnRow} (h : r.settlesIn sid) :
    r.exits = true ∧ r.isClosing = true ∧ r.securityId = some sid := by
  obtain ⟨hsettles, hsid⟩ := Bool.and_eq_true_iff.mp h
  have hclosing : r.isClosing = true := by rw [TxnRow.isClosing, hsettles, Bool.or_true]
  exact ⟨by rw [TxnRow.exits, hclosing, Bool.true_or], hclosing, of_decide_eq_true hsid⟩

/-- The rows of a group's bucket are those that land on it. -/
theorem bucketOf_eq {done : List Routed} {routing : Routing} (h : TraceInv done routing)
    (hpks : (routing.buckets.map fun b => b.1.pk).Nodup) (pk : ℕ) :
    routing.bucketOf pk = (done.filter (Routed.landsOn pk)).map Routed.row := by
  have hlanded : ∀ t ∈ done, t.landsOn pk = true →
      pk ∈ routing.buckets.map fun b => b.1.pk := by
    intro t ht hpk
    obtain ⟨g, hg, hgpk⟩ : ∃ g, t.landing = some g ∧ g.pk = pk := by
      simpa [Routed.landsOn, Option.any_eq_true] using hpk
    obtain ⟨b, hb, hbpk⟩ := h.landed t ht g hg
    exact List.mem_map.mpr ⟨b, hb, hbpk.trans hgpk⟩
  by_cases hpk : pk ∈ routing.buckets.map fun b => b.1.pk
  · obtain ⟨b, hb, rfl⟩ := List.mem_map.mp hpk
    have hone : (routing.buckets.filter fun c => c.1.pk = b.1.pk) = [b] := by
      obtain ⟨before, after, hsplit⟩ := List.append_of_mem hb
      rw [hsplit] at hpks ⊢
      rw [List.map_append, List.map_cons, List.nodup_middle, List.nodup_cons, List.mem_append]
        at hpks
      have hbefore : ∀ c ∈ before, c.1.pk ≠ b.1.pk := fun c hc heq =>
        hpks.1 (Or.inl (List.mem_map.mpr ⟨c, hc, heq⟩))
      have hafter : ∀ c ∈ after, c.1.pk ≠ b.1.pk := fun c hc heq =>
        hpks.1 (Or.inr (List.mem_map.mpr ⟨c, hc, heq⟩))
      rw [List.filter_append, List.filter_cons_of_pos (by simp),
        List.filter_eq_nil_iff.mpr fun c hc => by simp [hbefore c hc],
        List.filter_eq_nil_iff.mpr fun c hc => by simp [hafter c hc], List.nil_append]
    rw [Routing.bucketOf, hone, List.flatMap_cons, List.flatMap_nil, List.append_nil,
      h.bucket b hb]
    rfl
  · have hnone : (routing.buckets.filter fun c => c.1.pk = pk) = [] :=
      List.filter_eq_nil_iff.mpr fun c hc heq =>
        hpk (List.mem_map.mpr ⟨c, hc, of_decide_eq_true heq⟩)
    have hempty : done.filter (Routed.landsOn pk) = [] :=
      List.filter_eq_nil_iff.mpr fun t ht hland => hpk (hlanded t ht hland)
    rw [Routing.bucketOf, hnone, hempty]
    rfl

/-! ## One draw flattens a group -/

/-- What is left of the net of the group with a key is nothing. -/
def FlatAt (sid : String) (pk : ℕ) (remaining : Remaining) : Prop :=
  ∀ e ∈ remaining, e.1.pk = pk → netLeft sid e = 0

theorem FlatAt.shrinks {sid : String} {pk : ℕ} {remaining remaining' : Remaining}
    (h : FlatAt sid pk remaining) (hs : ShrinksAll sid remaining remaining') :
    FlatAt sid pk remaining' := by
  induction hs with
  | nil => exact h
  | cons hhead _ ih =>
    obtain ⟨hehead, hetail⟩ := List.forall_mem_cons.mp h
    refine List.forall_mem_cons.mpr ⟨fun hpk => ?_, ih hetail⟩
    have hzero := hehead (hhead.1 ▸ hpk)
    rcases hhead.2 with hle | hle
    · exact le_antisymm (hle.2.trans hzero.le) hle.1
    · exact le_antisymm hle.2 (hzero.ge.trans hle.1)

theorem Shrinks.abs_le {net net' : ℚ} (h : Shrinks net net') : |net'| ≤ |net| := by
  rcases h with h | h
  · rw [abs_of_nonneg h.1, abs_of_nonneg (h.1.trans h.2)]
    exact h.2
  · rw [abs_of_nonpos h.2, abs_of_nonpos (h.1.trans h.2)]
    exact neg_le_neg h.1

theorem ShrinksAll.exists_of_mem {sid : String} {remaining remaining' : Remaining}
    (h : ShrinksAll sid remaining remaining') {e' : OpenGroup × Dict String ℚ}
    (he' : e' ∈ remaining') :
    ∃ e ∈ remaining, e'.1 = e.1 ∧ Shrinks (netLeft sid e) (netLeft sid e') := by
  induction h with
  | nil => cases he'
  | cons hhead _ ih =>
    rcases List.mem_cons.mp he' with rfl | he'
    · exact ⟨_, List.mem_cons_self, hhead⟩
    · obtain ⟨e, he, hrel⟩ := ih he'
      exact ⟨e, List.mem_cons_of_mem _ he, hrel⟩

/-- A draw of at least what each group holds flattens the group that carries it. -/
theorem flatAt_drawDown (sid : String) (delta : Option ℚ) {left : ℚ} {remaining : Remaining}
    {g : OpenGroup} (hpks : (remaining.map fun e => e.1.pk).Nodup)
    (hsize : ∀ e ∈ remaining, |netLeft sid e| ≤ left)
    (h : (drawDown sid delta left remaining).1 = some g) :
    FlatAt sid g.pk (drawDown sid delta left remaining).2 := by
  induction remaining with
  | nil => cases h
  | cons e remaining ih =>
    obtain ⟨hfresh, hpks⟩ := List.nodup_cons.mp hpks
    have hgroups : ∀ left', ((drawDown sid delta left' remaining).2.map fun e => e.1.pk) =
        remaining.map fun e => e.1.pk := by
      intro left'
      have := congrArg (List.map OpenGroup.pk) (map_fst_drawDown sid delta left' remaining)
      rwa [List.map_map, List.map_map] at this
    cases hoff : offsets (netLeft sid e) delta with
    | true =>
      rw [drawDown_cons_of_offsets sid delta hoff] at h ⊢
      obtain rfl := Option.some.inj h
      refine List.forall_mem_cons.mpr ⟨fun _ => ?_, fun e' he' hpk => ?_⟩
      · have hall : min left |netLeft sid e| = |netLeft sid e| :=
          min_eq_right (hsize e List.mem_cons_self)
        have habs := abs_netLeft_drawn sid (le_refl |netLeft sid e|)
        rw [sub_self, abs_eq_zero] at habs
        rw [hall]
        exact habs
      · refine absurd (List.mem_map.mpr ⟨e', he', hpk⟩ : e.1.pk ∈ List.map (fun e => e.1.pk) _) ?_
        split
        · exact hfresh
        · rw [hgroups]
          exact hfresh
    | false =>
      rw [drawDown_cons_of_not_offsets sid delta hoff] at h ⊢
      have htail := ih hpks (fun e' he' => hsize e' (List.mem_cons_of_mem _ he')) h
      obtain ⟨nets, hmem, -⟩ := drawDown_eq_some sid delta h
      refine List.forall_mem_cons.mpr ⟨fun hpk => ?_, htail⟩
      exact absurd (List.mem_map.mpr ⟨_, hmem, hpk.symm⟩) hfresh

/-! ## Where settlement rows land -/

section Landing

variable (openGroups : List OpenGroup) {sid : String} {remaining : Remaining}

theorem ne_zero_of_offsets {net : ℚ} {delta : Option ℚ} (h : offsets net delta) : net ≠ 0 :=
  of_decide_eq_true (Bool.and_eq_true_iff.mp h).1

/-- A settlement row lands on a group with something left, or on the first group that has traded
its security. -/
theorem landing_of_settlesIn {row : ActivityRow} {g : OpenGroup} (h : row.settlesIn sid)
    (hland : (routed openGroups remaining row).landing = some g) :
    ((drawDown sid row.closingDelta row.absQuantity remaining).1 = some g ∧
        ∃ nets, (g, nets) ∈ remaining ∧ netLeft sid (g, nets) ≠ 0) ∨
      (openGroups.find? fun g => g.securityIds.contains sid) = some g := by
  obtain ⟨hexits, hclosing, hsid⟩ := exits_of_settlesIn h
  cases hdraw : (drawDown sid row.closingDelta row.absQuantity remaining).1 with
  | some g' =>
    have hsome : (routed openGroups remaining row).landing = some g' :=
      fst_routeRow_of_some hsid hexits hdraw
    obtain rfl := Option.some.inj (hsome.symm.trans hland)
    obtain ⟨nets, hmem, hoff⟩ := drawDown_eq_some sid _ hdraw
    exact Or.inl ⟨rfl, nets, hmem, ne_zero_of_offsets hoff⟩
  | none =>
    have hfirst : (routed openGroups remaining row).landing = _ :=
      fst_routeRow_of_none hsid hclosing hdraw
    exact Or.inr (hfirst.symm.trans hland)

variable {pk : ℕ}

/-- Nothing settles on a flat group that is not the first to have traded the security. -/
theorem countP_settling_eq_zero
    (hfirst : ∀ f, (openGroups.find? fun g => g.securityIds.contains sid) = some f → f.pk ≠ pk)
    (hflat : FlatAt sid pk remaining) (rows : List ActivityRow) :
    (routeTrace openGroups remaining rows).countP
      (fun t => t.row.settlesIn sid && t.landsOn pk) = 0 := by
  induction rows generalizing remaining with
  | nil => rfl
  | cons row rows ih =>
    have hafter := ih (hflat.shrinks (shrinksAll_routed openGroups sid remaining row))
    rw [routeTrace, List.countP_cons_of_neg, hafter]
    intro hcount
    obtain ⟨hsettles, hland⟩ := Bool.and_eq_true_iff.mp hcount
    obtain ⟨g, hg, rfl⟩ : ∃ g, (routed openGroups remaining row).landing = some g ∧ g.pk = pk := by
      simpa [Routed.landsOn, Option.any_eq_true] using hland
    rcases landing_of_settlesIn openGroups hsettles hg with ⟨-, nets, hmem, hne⟩ | hfind
    · exact hne (hflat _ hmem rfl)
    · exact hfirst g hfind rfl

/-- **One settlement to a net**: at most one settlement row lands on a group that is not the first
to have traded the security, when each settles at least what any group holds. -/
theorem countP_settling_le_one
    (hfirst : ∀ f, (openGroups.find? fun g => g.securityIds.contains sid) = some f → f.pk ≠ pk)
    {rows : List ActivityRow} (hpks : (remaining.map fun e => e.1.pk).Nodup)
    (hsize : ∀ row ∈ rows, row.settlesIn sid → ∀ e ∈ remaining, |netLeft sid e| ≤ row.absQuantity) :
    (routeTrace openGroups remaining rows).countP
      (fun t => t.row.settlesIn sid && t.landsOn pk) ≤ 1 := by
  induction rows generalizing remaining with
  | nil => exact Nat.zero_le 1
  | cons row rows ih =>
    have hshrinks := shrinksAll_routed openGroups sid remaining row
    rw [routeTrace, List.countP_cons]
    split
    · rename_i hcount
      obtain ⟨hsettles, hland⟩ := Bool.and_eq_true_iff.mp hcount
      obtain ⟨g, hg, rfl⟩ : ∃ g, (routed openGroups remaining row).landing = some g ∧
          g.pk = pk := by
        simpa [Routed.landsOn, Option.any_eq_true] using hland
      obtain ⟨hexits, -, hsid⟩ := exits_of_settlesIn hsettles
      rcases landing_of_settlesIn openGroups hsettles hg with ⟨hdraw, -⟩ | hfind
      · have hflat : FlatAt sid g.pk (routed openGroups remaining row).after := by
          have hafter : (routed openGroups remaining row).after = _ := snd_routeRow hsid hexits
          rw [hafter]
          exact flatAt_drawDown sid _ hpks (hsize row List.mem_cons_self hsettles) hdraw
        rw [countP_settling_eq_zero openGroups hfirst hflat]
      · exact absurd rfl (hfirst g hfind)
    · have hgroups : (routed openGroups remaining row).after.map (fun e => e.1.pk) =
          remaining.map fun e => e.1.pk := by
        have := congrArg (List.map OpenGroup.pk)
          (map_fst_routeRow openGroups remaining row.toTxnRow)
        rwa [List.map_map, List.map_map] at this
      refine ih (hgroups ▸ hpks) fun row' hrow' hsettles e' he' => ?_
      obtain ⟨e, he, -, hle⟩ := hshrinks.exists_of_mem he'
      exact hle.abs_le.trans (hsize row' (List.mem_cons_of_mem _ hrow') hsettles e he)

end Landing

/-! ## The pairs of a cluster -/

/-- The open groups that hold a security hold the same quantity of it, and the cluster brings each
of them a removal row and a money row of that quantity. -/
structure PairsDue (openGroups : List OpenGroup) (sid : String) (cluster : List ActivityRow) :
    Prop where
  distinct : (openGroups.map OpenGroup.pk).Nodup
  size : ∀ row ∈ cluster, row.settlesIn sid → ∀ g ∈ openGroups, netIn g.rows sid ≠ 0 →
    |netIn g.rows sid| = row.absQuantity
  removals : cluster.countP (fun row => row.removesIn sid) =
    openGroups.countP fun g => netIn g.rows sid ≠ 0
  moneys : cluster.countP (fun row => row.paysIn sid) =
    openGroups.countP fun g => netIn g.rows sid ≠ 0

section Pairs

variable {openGroups : List OpenGroup} {sid : String} {cluster : List ActivityRow}

/-- The rows of a bucket, counted along the trace. -/
theorem countP_bucketOf (p : TxnRow → Bool) (pk : ℕ) :
    ((routeCluster openGroups cluster).bucketOf pk).countP (fun row => p row.toTxnRow) =
      (clusterTrace openGroups cluster).countP fun t => p t.row.toTxnRow && t.landsOn pk := by
  rw [bucketOf_eq (routeCluster_eq_trace openGroups cluster) (nodup_bucket_pks openGroups cluster),
    List.countP_map, List.countP_filter]
  rfl

theorem countP_settlesIn (l : List ActivityRow) :
    l.countP (fun row => row.settlesIn sid) =
      l.countP (fun row => row.removesIn sid) + l.countP fun row => row.paysIn sid := by
  induction l with
  | nil => rfl
  | cons row l ih =>
    rw [List.countP_cons, List.countP_cons, List.countP_cons, ih]
    unfold TxnRow.removesIn TxnRow.paysIn
    cases row.settlesIn sid <;> cases isCashSettled row.transactionSubType <;> simp <;> omega

/-- A group that carries both rows of a pair is the first to have traded the security. -/
theorem first_of_pair (h : PairsDue openGroups sid cluster) {g : OpenGroup} (hg : g ∈ openGroups)
    (hremoval : ((routeCluster openGroups cluster).bucketOf g.pk).countP
      (fun row => row.removesIn sid) = 1)
    (hmoney : ((routeCluster openGroups cluster).bucketOf g.pk).countP
      (fun row => row.paysIn sid) = 1) :
    (openGroups.find? fun g => g.securityIds.contains sid) = some g := by
  by_contra hnot
  have hfirst : ∀ f, (openGroups.find? fun g => g.securityIds.contains sid) = some f →
      f.pk ≠ g.pk := by
    intro f hf hpk
    obtain rfl := List.inj_on_of_nodup_map h.distinct (List.mem_of_find?_eq_some hf) hg hpk
    exact hnot hf
  have hpks : ((openNets openGroups).map fun e => e.1.pk).Nodup := by
    rw [openNets, List.map_map]
    exact h.distinct
  have hone : (routeTrace openGroups (openNets openGroups) cluster).countP
      (fun t => t.row.settlesIn sid && t.landsOn g.pk) ≤ 1 := by
    refine countP_settling_le_one openGroups hfirst hpks fun row hrow hsettles e he => ?_
    obtain ⟨g', hg', rfl⟩ := List.mem_map.mp he
    show |netIn g'.rows sid| ≤ row.absQuantity
    by_cases hzero : netIn g'.rows sid = 0
    · rw [hzero, abs_zero]
      exact abs_nonneg _
    · exact (h.size row hrow hsettles g' hg' hzero).le
  have htwo : ((routeCluster openGroups cluster).bucketOf g.pk).countP
      (fun row => row.settlesIn sid) = _ := countP_settlesIn _
  rw [hremoval, hmoney, countP_bucketOf (TxnRow.settlesIn sid)] at htwo
  exact absurd (htwo.symm.le.trans hone) (by omega)

/-- Where every holder is the first group to have traded the security, all its settlement rows land
on it. -/
theorem landsOn_of_first {g : OpenGroup} (hhold : netIn g.rows sid ≠ 0)
    (hfirst : ∀ g ∈ openGroups, netIn g.rows sid ≠ 0 →
      (openGroups.find? fun g => g.securityIds.contains sid) = some g)
    (hg : g ∈ openGroups) {t : Routed} (ht : t ∈ clusterTrace openGroups cluster)
    (hsettles : t.row.settlesIn sid) : t.landsOn g.pk = true := by
  have hrouted := eq_routed_of_mem openGroups ht
  obtain ⟨hexits, hclosing, hsid⟩ := exits_of_settlesIn hsettles
  have hlanding : t.landing = some g := by
    cases hdraw : (drawDown sid t.row.closingDelta t.row.absQuantity t.before).1 with
    | none =>
      rw [hrouted]
      exact (fst_routeRow_of_none hsid hclosing hdraw).trans (hfirst g hg hhold)
    | some g' =>
      obtain ⟨nets, hmem, hoff⟩ := drawDown_eq_some sid _ hdraw
      obtain ⟨e, he, hgroup, hshrinks⟩ := (shrinksAll_before openGroups sid ht).exists_of_mem hmem
      obtain ⟨g'', hg'', rfl⟩ := List.mem_map.mp he
      obtain rfl : g' = g'' := hgroup
      have hhold' : netIn g'.rows sid ≠ 0 := by
        intro hzero
        have hle : |netLeft sid (g', nets)| ≤ |netIn g'.rows sid| := hshrinks.abs_le
        rw [hzero, abs_zero] at hle
        exact ne_zero_of_offsets hoff (abs_eq_zero.mp (le_antisymm hle (abs_nonneg _)))
      have hsame := (hfirst g' hg'' hhold').symm.trans (hfirst g hg hhold)
      rw [hrouted, ← hsame]
      exact fst_routeRow_of_some hsid hexits hdraw
  rw [Routed.landsOn, hlanding]
  simp

/-- **Cash-settled pairs**: every holder gets its pair exactly when every holder is the first open
group to have traded the security. -/
theorem pairsTogether_iff_first (h : PairsDue openGroups sid cluster) :
    (∀ g ∈ openGroups, netIn g.rows sid ≠ 0 →
      ((routeCluster openGroups cluster).bucketOf g.pk).countP (fun row => row.removesIn sid) = 1 ∧
      ((routeCluster openGroups cluster).bucketOf g.pk).countP (fun row => row.paysIn sid) = 1) ↔
    ∀ g ∈ openGroups, netIn g.rows sid ≠ 0 →
      (openGroups.find? fun g => g.securityIds.contains sid) = some g := by
  constructor
  · intro hpairs g hg hhold
    exact first_of_pair h hg (hpairs g hg hhold).1 (hpairs g hg hhold).2
  · intro hfirst g hg hhold
    have hone : openGroups.countP (fun g => netIn g.rows sid ≠ 0) = 1 := by
      have honly : ∀ g' ∈ openGroups, decide (netIn g'.rows sid ≠ 0) = true ↔ g' = g := by
        intro g' hg'
        refine ⟨fun hhold' => ?_, fun heq => decide_eq_true (heq ▸ hhold)⟩
        exact Option.some.inj
          ((hfirst g' hg' (of_decide_eq_true hhold')).symm.trans (hfirst g hg hhold))
      have hcount := List.count_eq_one_of_mem (List.Nodup.of_map _ h.distinct) hg
      rw [← hcount, List.count]
      exact List.countP_congr fun g' hg' => (honly g' hg').trans (by simp)
    have hall : ∀ p : TxnRow → Bool, (∀ r, p r = true → r.settlesIn sid = true) →
        ((routeCluster openGroups cluster).bucketOf g.pk).countP (fun row => p row.toTxnRow) =
          cluster.countP fun row => p row.toTxnRow := by
      intro p hp
      have hrows := map_row_routeTrace openGroups (openNets openGroups) cluster
      rw [countP_bucketOf]
      conv_rhs => rw [← hrows, List.countP_map]
      refine List.countP_congr fun t ht => ?_
      rw [Bool.and_eq_true_iff]
      exact ⟨And.left, fun hpt => ⟨hpt, landsOn_of_first hhold hfirst hg ht (hp _ hpt)⟩⟩
    have hremoves := hall (TxnRow.removesIn sid) fun r hr => (Bool.and_eq_true_iff.mp hr).1
    have hpays := hall (TxnRow.paysIn sid) fun r hr => (Bool.and_eq_true_iff.mp hr).1
    exact ⟨hremoves.trans (h.removals.trans hone), hpays.trans (h.moneys.trans hone)⟩

end Pairs

/-! ## Two groups -/

namespace TwoHolders

/-- Two groups that bought one contract each. -/
def holders : List OpenGroup :=
  [⟨1, [.fill "main" "T-1" "1001" "Buy to Open" "option:X" 1 (10 * second)]⟩,
    ⟨2, [.fill "main" "T-2" "1002" "Buy to Open" "option:X" 1 (20 * second)]⟩]

/-- A settlement row of one contract. -/
def settlement (ttTransactionId subType : String) : ActivityRow where
  ttTransactionId
  account := "main"
  transactionType := some "Receive Deliver"
  transactionSubType := some subType
  securityId := some "option:X"
  quantity := some 1
  executedAt := some (100 * second)

/-- Their removal rows, and the money rows after them. -/
def settlements : List ActivityRow :=
  [settlement "T-3" "Exercise", settlement "T-4" "Exercise",
    settlement "T-5" "Cash Settled Exercise", settlement "T-6" "Cash Settled Exercise"]

theorem pairsDue : PairsDue holders "option:X" settlements where
  distinct := by decide
  size := by decide +kernel
  removals := by decide +kernel
  moneys := by decide +kernel

/-- Both money rows go to the first group. -/
theorem not_pairsTogether : ¬ ∀ (openGroups : List OpenGroup) (sid : String)
    (cluster : List ActivityRow), PairsDue openGroups sid cluster →
    ∀ g ∈ openGroups, netIn g.rows sid ≠ 0 →
      ((routeCluster openGroups cluster).bucketOf g.pk).countP (fun row => row.removesIn sid) = 1 ∧
      ((routeCluster openGroups cluster).bucketOf g.pk).countP (fun row => row.paysIn sid) = 1 := by
  intro h
  have hpairs := h holders "option:X" settlements pairsDue
  revert hpairs
  decide +kernel

/-- The pairs of the two groups, and the groups. -/
theorem pairsTogether_iff :
    (∀ g ∈ holders, netIn g.rows "option:X" ≠ 0 →
      ((routeCluster holders settlements).bucketOf g.pk).countP
        (fun row => row.removesIn "option:X") = 1 ∧
      ((routeCluster holders settlements).bucketOf g.pk).countP
        (fun row => row.paysIn "option:X") = 1) ↔
    ∀ g ∈ holders, netIn g.rows "option:X" ≠ 0 →
      (holders.find? fun g => g.securityIds.contains "option:X") = some g :=
  pairsTogether_iff_first pairsDue

end TwoHolders

end TtLedger
