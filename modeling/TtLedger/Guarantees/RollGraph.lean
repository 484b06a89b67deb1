import TtLedger.Guarantees.Rolls
import TtLedger.Ingest.ScopeWalk
import Mathlib.Logic.Relation

/-!
# The roll graph

A group is continued in the groups its rolls and its delivering settlements name. Whatever tasks
run one after the other, each of these is younger than the group itself, so no group is ever
continued in itself (`rolls_acyclic`). Within a cluster that is because the group for what the
cluster leaves over is created after those it closes. Across clusters it is because the clusters
follow one another in time: a group that opened no earlier than an exit was created no earlier
than the exit's cluster was reached (`PassRolls.later`).
-/

namespace TtLedger

open LedgerStore Prog

/-! ## The graph -/

/-- The event continues its group, if at all, in a younger one that is stored as it is. -/
def EventRow.ForwardIn (s : InMemoryStore) (ev : EventRow) : Prop :=
  ∀ pk, ev.rolledToGroupId = some pk →
    (s.getTradeGroupById ev.tradeGroupId).isSome = true ∧
      (s.getTradeGroupById pk).isSome = true ∧ ev.tradeGroupId < pk

namespace InMemoryStore

/-- Every continuation goes from a stored group to a younger one. -/
def RollsForward (s : InMemoryStore) : Prop := ∀ ev ∈ s.events.values, ev.ForwardIn s

/-- A group is continued in another. -/
def RollsTo (s : InMemoryStore) (pk rolledTo : ℕ) : Prop :=
  ∃ ev ∈ s.events.values, ev.tradeGroupId = pk ∧ ev.rolledToGroupId = some rolledTo

theorem RollsForward.acyclic {s : InMemoryStore} (h : s.RollsForward) (pk : ℕ) :
    ¬Relation.TransGen s.RollsTo pk pk := by
  have hlt : ∀ a b, s.RollsTo a b → a < b := by
    rintro a b ⟨ev, hev, rfl, hto⟩
    exact (h ev hev b hto).2.2
  intro hcycle
  have hpath : Relation.TransGen (fun a b : ℕ => a < b) pk pk := hcycle.lift id hlt
  rw [Relation.transGen_eq_self] at hpath
  exact Nat.lt_irrefl pk hpath

/-- The continuations that are added go forward, so all do. -/
theorem RollsForward.of_append {s s' : InMemoryStore} {events : List EventRow}
    (h : s.RollsForward) (hevents : s'.continuations = s.continuations ++ events)
    (hkeeps : ∀ pk, (s.getTradeGroupById pk).isSome = true →
      (s'.getTradeGroupById pk).isSome = true)
    (hnew : ∀ ev ∈ events, ev.ForwardIn s') : s'.RollsForward := by
  intro ev hev pk hto
  have hmem : ev ∈ s'.continuations :=
    List.mem_filter.mpr ⟨hev, by rw [EventRow.continues, hto, Option.isSome_some, Bool.or_true]⟩
  rw [hevents] at hmem
  rcases List.mem_append.mp hmem with hold | hadded
  · obtain ⟨hgroup, hinto, hlt⟩ := h ev (List.mem_of_mem_filter hold) pk hto
    exact ⟨hkeeps _ hgroup, hkeeps _ hinto, hlt⟩
  · exact hnew ev hadded pk hto

/-- Calls that record no continuation keep the others. -/
theorem RollsForward.step {s : InMemoryStore} {op : LedgerOp} (h : s.RollsForward)
    (hop : op.IsUncontinued) : (s.step op).2.RollsForward :=
  h.of_append ((continuations_step hop s).trans (List.append_nil _).symm)
    (fun _ => s.isSome_getTradeGroupById_step op) fun _ hev => (by cases hev)

end InMemoryStore

theorem Uncontinued.forwards {α : Type} {p : LedgerProg α} (hp : Uncontinued p) :
    Preserves memory InMemoryStore.RollsForward p :=
  Preserves.of_calls hp fun _ _ hop h => h.step hop

theorem forwards_issue {op : LedgerOp} (hop : op.IsUncontinued) :
    Preserves memory InMemoryStore.RollsForward (issue op) :=
  Uncontinued.forwards (Calls.invoke.mpr hop)

theorem uncontinued_raise {α : Type} (e : String) : Uncontinued (.raise e : LedgerProg α) :=
  Calls.raise e

/-! ## One exit -/

/-- The groups the events of an exit name. -/
theorem rolledTo_exitEvents {pk rolledTo : ℕ} {rows : List TxnRow} {closed : Bool}
    {rolledToPk deliveryPk : Option ℕ} {ev : EventRow}
    (hev : ev ∈ exitEvents pk rows closed rolledToPk deliveryPk)
    (hto : ev.rolledToGroupId = some rolledTo) :
    rolledToPk = some rolledTo ∨ deliveryPk = some rolledTo := by
  unfold exitEvents at hev
  rcases List.mem_append.mp hev with hev | hev
  · rcases List.mem_append.mp hev with hev | hev
    · split at hev
      · cases hev
      · rw [List.mem_singleton.mp hev] at hto
        cases hto
    · obtain ⟨e, -, rfl⟩ := List.mem_map.mp hev
      rw [settlementEvent] at hto
      split at hto
      · exact Or.inr hto
      · cases hto
  · cases hrolled : rolledToPk with
    | none =>
      rw [hrolled] at hev
      cases hev
    | some rolled =>
      rw [hrolled] at hev
      rw [List.mem_singleton.mp hev] at hto
      exact Or.inl hto

theorem deliveryOf_eq_some {s : InMemoryStore} {newPk : Option ℕ} {rows rest : List TxnRow}
    {pk : ℕ} (h : deliveryOf s newPk rows rest = some pk) : newPk = some pk := by
  have hexec := exec_deliveryPk s newPk rows rest
  rw [h] at hexec
  unfold deliveryPk at hexec
  cases newPk with
  | none => cases congrArg Prod.fst hexec
  | some new =>
    obtain ⟨delivers, s', -, hret⟩ := (run_bind_eq_ok memory).mp hexec
    have hsome := Except.ok.inj (congrArg Prod.fst hret)
    cases delivers with
    | true => exact hsome
    | false => cases hsome

/-- What a bucket records goes from its group to the group for the rest of the cluster. -/
theorem rollsForward_bucketStep {newPk : Option ℕ} {rest : List TxnRow} {w : Pass × InMemoryStore}
    {bucket : OpenGroup × List ActivityRow} (h : w.2.RollsForward)
    (hgroup : (w.2.getTradeGroupById bucket.1.pk).isSome = true)
    (hnew : ∀ pk, newPk = some pk →
      (w.2.getTradeGroupById pk).isSome = true ∧ bucket.1.pk < pk) :
    (bucketStep newPk rest w bucket).2.RollsForward := by
  unfold bucketStep
  simp only []
  generalize hrolled : (if sameUnderlying (bucket.2.map ActivityRow.toTxnRow) rest = true
    then newPk else none) = rolledTo
  have hkeeps : ∀ pk delivery, ((exitState w.2 bucket.1 (bucket.2.map ActivityRow.toTxnRow)
      rolledTo delivery).getTradeGroupById pk).isSome = (w.2.getTradeGroupById pk).isSome :=
    fun pk delivery => isSome_getTradeGroupById_exitState _ _ _ rolledTo delivery pk
  refine h.of_append
    (InMemoryStore.continuations_of_append (InMemoryStore.values_exitState _ _ _ _ _))
    (fun pk hpk => (hkeeps pk _).trans hpk) fun ev hev pk hto => ?_
  have hev := List.mem_of_mem_filter hev
  split at hev
  · cases hev
  · obtain ⟨ev₀, hev₀, rfl⟩ := List.mem_map.mp hev
    have hinto : newPk = some pk := by
      rcases rolledTo_exitEvents hev₀ hto with hrolledTo | hdelivery
      · rw [← hrolled] at hrolledTo
        split at hrolledTo
        · exact hrolledTo
        · cases hrolledTo
      · exact deliveryOf_eq_some hdelivery
    have hfrom : ev₀.tradeGroupId = bucket.1.pk := mem_exitEvents hev₀
    obtain ⟨hstored, hlt⟩ := hnew pk hinto
    rw [EventRow.recorded, hfrom, hkeeps, hkeeps]
    exact ⟨hgroup, hstored, hlt⟩

/-! ## The cluster loop -/

/-- What a pass knows of its exits and its new groups once it has routed the rows `done`: a group
that opened no earlier than an exit is younger than the group of the exit. -/
structure PassRolls (done : List ActivityRow) (w : Pass × InMemoryStore) : Prop where
  backed : Backed w.2 w.1.openGroups
  forward : w.2.RollsForward
  exits : ∀ ex ∈ w.1.exits, (w.2.getTradeGroupById ex.group.pk).isSome = true
  closed : ∀ ex ∈ w.1.exits, ex.rows ≠ [] → ∀ t, ex.closedAt = some t →
    ∃ a ∈ done, a.executedAt = some t
  created : ∀ cg ∈ w.1.created, (w.2.getTradeGroupById cg.pk).isSome = true
  opened : ∀ cg ∈ w.1.created, ∀ t, firstExecutedAt cg.rows = some t →
    ∃ a ∈ done, a.executedAt = some t
  later : ∀ ex ∈ w.1.exits, ∀ cg ∈ w.1.created, ex.rows ≠ [] → ∀ t u, ex.closedAt = some t →
    firstExecutedAt cg.rows = some u → t ≤ u → ex.group.pk < cg.pk

/-- An exit closes its group at one of its rows. -/
theorem closedAt_exitResult {s : InMemoryStore} {group : OpenGroup} {rows : List ActivityRow}
    {rolledTo : Option ℕ} {t : Datetime}
    (hrows : (exitResult s group (rows.map ActivityRow.toTxnRow) rolledTo).rows ≠ [])
    (ht : (exitResult s group (rows.map ActivityRow.toTxnRow) rolledTo).closedAt = some t) :
    ∃ a ∈ rows, a.executedAt = some t := by
  unfold exitResult at hrows ht
  split at hrows
  · exact absurd rfl hrows
  · rename_i hnew
    rw [if_neg hnew] at ht
    obtain ⟨r, hr, hrt⟩ := (lastExecutedAt_eq_some.mp ht).1
    obtain ⟨a, ha, rfl⟩ := List.mem_map.mp (List.mem_of_mem_filter hr)
    exact ⟨a, ha, hrt⟩

theorem pk_exitResult (s : InMemoryStore) (group : OpenGroup) (rows : List TxnRow)
    (rolledTo : Option ℕ) : (exitResult s group rows rolledTo).group.pk = group.pk := by
  unfold exitResult
  split <;> rfl

section Loop

variable {done cluster : List ActivityRow} {w : Pass × InMemoryStore}

theorem PassRolls.mono {done' : List ActivityRow} (h : PassRolls done w) (hsub : done ⊆ done') :
    PassRolls done' w where
  backed := h.backed
  forward := h.forward
  exits := h.exits
  closed ex hex hrows t ht :=
    let ⟨a, ha, hat⟩ := h.closed ex hex hrows t ht
    ⟨a, hsub ha, hat⟩
  created := h.created
  opened cg hcg t ht :=
    let ⟨a, ha, hat⟩ := h.opened cg hcg t ht
    ⟨a, hsub ha, hat⟩
  later := h.later

/-- The bucket of a group that is older than every group of the pass that opened as late as the
cluster. -/
theorem PassRolls.bucketStep {newPk : Option ℕ} {rest : List TxnRow}
    {bucket : OpenGroup × List ActivityRow} (h : PassRolls done w)
    (hgroup : (w.2.getTradeGroupById bucket.1.pk).isSome = true)
    (hnew : ∀ pk, newPk = some pk →
      (w.2.getTradeGroupById pk).isSome = true ∧ bucket.1.pk < pk)
    (hrows : bucket.2 ⊆ done)
    (hlater : ∀ cg ∈ w.1.created, ∀ u, firstExecutedAt cg.rows = some u → ∀ a ∈ bucket.2, ∀ t,
      a.executedAt = some t → t ≤ u → bucket.1.pk < cg.pk) :
    PassRolls done (bucketStep newPk rest w bucket) := by
  have hforward : (TtLedger.bucketStep newPk rest w bucket).2.RollsForward :=
    rollsForward_bucketStep h.forward hgroup hnew
  have hkeeps : ∀ pk, ((TtLedger.bucketStep newPk rest w bucket).2.getTradeGroupById pk).isSome =
      (w.2.getTradeGroupById pk).isSome :=
    fun pk => isSome_getTradeGroupById_exitState _ _ _ _ _ pk
  have hopen := backed_bucketStep newPk rest h.backed hgroup
  refine ⟨?_, hforward, ?_, ?_, ?_, h.opened, ?_⟩
  · exact fun g hg => (hkeeps g.pk).trans (hopen g hg)
  · intro ex hex
    rw [hkeeps]
    rcases List.mem_append.mp hex with hex | hex
    · exact h.exits ex hex
    · rw [List.mem_singleton.mp hex, pk_exitResult]
      exact hgroup
  · intro ex hex hne t ht
    rcases List.mem_append.mp hex with hex | hex
    · exact h.closed ex hex hne t ht
    · obtain rfl := List.mem_singleton.mp hex
      obtain ⟨a, ha, hat⟩ := closedAt_exitResult hne ht
      exact ⟨a, hrows ha, hat⟩
  · exact fun cg hcg => (hkeeps cg.pk).trans (h.created cg hcg)
  · intro ex hex cg hcg hne t u ht hu hle
    rcases List.mem_append.mp hex with hex | hex
    · exact h.later ex hex cg hcg hne t u ht hu hle
    · obtain rfl := List.mem_singleton.mp hex
      obtain ⟨a, ha, hat⟩ := closedAt_exitResult hne ht
      rw [pk_exitResult]
      exact hlater cg hcg u hu a ha t hat hle

theorem PassRolls.buckets {newPk : Option ℕ} {rest : List TxnRow}
    {buckets : List (OpenGroup × List ActivityRow)} (h : PassRolls done w)
    (hgroups : ∀ b ∈ buckets, (w.2.getTradeGroupById b.1.pk).isSome = true)
    (hnew : ∀ pk, newPk = some pk →
      (w.2.getTradeGroupById pk).isSome = true ∧ ∀ b ∈ buckets, b.1.pk < pk)
    (hrows : ∀ b ∈ buckets, b.2 ⊆ done)
    (hlater : ∀ b ∈ buckets, ∀ cg ∈ w.1.created, ∀ u, firstExecutedAt cg.rows = some u →
      ∀ a ∈ b.2, ∀ t, a.executedAt = some t → t ≤ u → b.1.pk < cg.pk) :
    PassRolls done (buckets.foldl (TtLedger.bucketStep newPk rest) w) := by
  induction buckets generalizing w with
  | nil => exact h
  | cons b buckets ih =>
    have hkeeps : ∀ pk, ((TtLedger.bucketStep newPk rest w b).2.getTradeGroupById pk).isSome =
        (w.2.getTradeGroupById pk).isSome :=
      fun pk => isSome_getTradeGroupById_exitState _ _ _ _ _ pk
    refine ih ?_ (fun b' hb' => (hkeeps _).trans (hgroups b' (.tail _ hb'))) (fun pk hpk => ?_)
      (fun b' hb' => hrows b' (.tail _ hb')) fun b' hb' => hlater b' (.tail _ hb')
    · exact h.bucketStep (hgroups b (by simp))
        (fun pk hpk => ⟨(hnew pk hpk).1, (hnew pk hpk).2 b (by simp)⟩) (hrows b (by simp))
        (hlater b (by simp))
    · exact ⟨(hkeeps pk).trans (hnew pk hpk).1, fun b' hb' => (hnew pk hpk).2 b' (.tail _ hb')⟩

/-- A step that applies no exit and opens no group. -/
theorem PassRolls.grow {s' : InMemoryStore} {openGroups : List OpenGroup} (h : PassRolls done w)
    (hbacked : Backed s' openGroups) (hforward : s'.RollsForward)
    (hkeeps : ∀ pk, (w.2.getTradeGroupById pk).isSome = true →
      (s'.getTradeGroupById pk).isSome = true) :
    PassRolls done ({ w.1 with openGroups }, s') where
  backed := hbacked
  forward := hforward
  exits ex hex := hkeeps _ (h.exits ex hex)
  closed := h.closed
  created cg hcg := hkeeps _ (h.created cg hcg)
  opened := h.opened
  later := h.later

/-- A stored group is older than the next one. -/
theorem lt_nextId_of_isSome {s : InMemoryStore} {pk : ℕ}
    (h : (s.getTradeGroupById pk).isSome = true) : pk < s.tradeGroups.nextId := by
  refine lt_of_not_ge fun hle => ?_
  rw [InMemoryStore.getTradeGroupById, Table.get_eq_none_of_le hle] at h
  cases h

/-- The group for the rest of a cluster is younger than every group there was. -/
theorem PassRolls.createStep {rows : List ActivityRow} (h : PassRolls done w) (account : String)
    (hrows : rows ⊆ done) (tradeGroups : ℕ) :
    PassRolls done
      ({ w.1 with
          openGroups := w.1.openGroups ++
            [⟨newPk w.2 account (rows.map ActivityRow.toTxnRow), rows.map ActivityRow.toTxnRow⟩]
          created := w.1.created ++
            [⟨newPk w.2 account (rows.map ActivityRow.toTxnRow), rows.map ActivityRow.toTxnRow⟩]
          tradeGroups },
        createState w.2 account (rows.map ActivityRow.toTxnRow)) := by
  set rest := rows.map ActivityRow.toTxnRow with hrest
  have hkeeps := keeps_createState w.2 account rest
  have hforward : (createState w.2 account rest).RollsForward := by
    have := (uncontinued_createTradeGroup account rest).forwards w.2 h.forward
    rwa [show run memory _ w.2 = _ from exec_createTradeGroup w.2 account rest] at this
  have hyounger : ∀ pk, (w.2.getTradeGroupById pk).isSome = true → pk < newPk w.2 account rest :=
    fun pk hpk => (lt_nextId_of_isSome hpk).trans_eq (newPk_eq w.2 account rest).symm
  refine ⟨?_, hforward, fun ex hex => hkeeps _ (h.exits ex hex), h.closed, ?_, ?_, ?_⟩
  · exact (h.backed.mono hkeeps).append (backed_newPk w.2 account rest)
  · intro cg hcg
    rcases List.mem_append.mp hcg with hcg | hcg
    · exact hkeeps _ (h.created cg hcg)
    · rw [List.mem_singleton.mp hcg]
      exact backed_newPk w.2 account rest
  · intro cg hcg t ht
    rcases List.mem_append.mp hcg with hcg | hcg
    · exact h.opened cg hcg t ht
    · rw [List.mem_singleton.mp hcg] at ht
      obtain ⟨hr, -⟩ := List.min?_eq_some_iff.mp ht
      obtain ⟨r, hr, hrt⟩ := List.mem_filterMap.mp hr
      rw [hrest] at hr
      obtain ⟨a, ha, rfl⟩ := List.mem_map.mp hr
      exact ⟨a, hrows ha, hrt⟩
  · intro ex hex cg hcg hne t u ht hu hle
    rcases List.mem_append.mp hcg with hcg | hcg
    · exact h.later ex hex cg hcg hne t u ht hu hle
    · rw [List.mem_singleton.mp hcg]
      exact hyounger _ (h.exits ex hex)

/-- Routing the pre-attributed rows of a cluster. -/
theorem PassRolls.intentRows (h : PassRolls done w) (cluster : List ActivityRow) :
    PassRolls done
      ({ w.1 with openGroups := (TtLedger.intentRows w.2 w.1.openGroups cluster false).1.1 },
        (TtLedger.intentRows w.2 w.1.openGroups cluster false).2) := by
  obtain ⟨ids, hattach, hbacked, -⟩ := attaches_intentRows w.1.openGroups cluster h.backed
  refine h.grow hbacked ?_ hattach.keeps
  have := (uncontinued_applyIntentRows w.1.openGroups cluster false).forwards w.2 h.forward
  rwa [show run memory _ w.2 = _ from exec_applyIntentRows w.2 _ _ _] at this

/-- A cluster that comes after what has been routed. -/
theorem PassRolls.clusterStep (h : PassRolls done w) (account : String)
    (hearlier : Earlier done cluster) :
    PassRolls (done ++ cluster) (clusterStep account false w cluster) := by
  have hintent := (h.intentRows cluster).mono (List.subset_append_left done cluster)
  have hleft := leftRows_subset w.1.openGroups cluster (s := w.2)
  unfold TtLedger.clusterStep
  simp only [Bool.false_eq_true, if_false]
  generalize TtLedger.intentRows w.2 w.1.openGroups cluster false = intent at *
  obtain ⟨⟨openGroups, left⟩, s₁⟩ := intent
  simp only [] at *
  split
  · exact hintent
  · have hperm := routeCluster_perm openGroups left
    have hbuckets : ∀ b ∈ (routeCluster openGroups left).buckets,
        (s₁.getTradeGroupById b.1.pk).isSome = true ∧ b.2 ⊆ cluster := by
      intro b hb
      refine ⟨hintent.backed b.1 (mem_of_mem_buckets openGroups left hb), fun a ha => hleft ?_⟩
      exact hperm.subset (List.mem_append_left _ (List.mem_flatMap.mpr ⟨b, hb, ha⟩))
    have hrest : (routeCluster openGroups left).rest ⊆ done ++ cluster := fun a ha =>
      List.mem_append_right _ (hleft (hperm.subset (List.mem_append_right _ ha)))
    -- the groups of the pass so far opened before the cluster
    have hbefore : ∀ cg ∈ w.1.created, ∀ u, firstExecutedAt cg.rows = some u → ∀ a ∈ cluster,
        ∀ t, a.executedAt = some t → u < t := by
      intro cg hcg u hu a ha t ht
      obtain ⟨a₀, ha₀, hat₀⟩ := h.opened cg hcg u hu
      exact hearlier a₀ ha₀ a ha u t hat₀ ht
    unfold restStep
    split
    · refine hintent.buckets (fun b hb => (hbuckets b hb).1) (fun _ hpk => by cases hpk)
        (fun b hb => List.subset_append_of_subset_right _ (hbuckets b hb).2) ?_
      intro b hb cg hcg u hu a ha t ht hle
      exact absurd hle (not_le_of_gt (hbefore cg hcg u hu a ((hbuckets b hb).2 ha) t ht))
    · have hkeeps := keeps_createState s₁ account
        ((routeCluster openGroups left).rest.map ActivityRow.toTxnRow)
      have hyounger : ∀ b ∈ (routeCluster openGroups left).buckets, b.1.pk <
          newPk s₁ account ((routeCluster openGroups left).rest.map ActivityRow.toTxnRow) :=
        fun b hb => (lt_nextId_of_isSome (hbuckets b hb).1).trans_eq (newPk_eq _ _ _).symm
      refine (hintent.createStep account hrest _).buckets
        (fun b hb => hkeeps _ (hbuckets b hb).1) (fun pk hpk => ?_)
        (fun b hb => List.subset_append_of_subset_right _ (hbuckets b hb).2) ?_
      · obtain rfl := Option.some.inj hpk
        exact ⟨backed_newPk s₁ account _, hyounger⟩
      · intro b hb cg hcg u hu a ha t ht hle
        rcases List.mem_append.mp hcg with hcg | hcg
        · exact absurd hle (not_le_of_gt (hbefore cg hcg u hu a ((hbuckets b hb).2 ha) t ht))
        · rw [List.mem_singleton.mp hcg]
          exact hyounger b hb

theorem PassRolls.clusterSteps (account : String) {clusters : List (List ActivityRow)}
    (h : PassRolls done w) (hearlier : ∀ c ∈ clusters, Earlier done c)
    (hordered : clusters.Pairwise Earlier) :
    PassRolls (done ++ clusters.flatten)
      (clusters.foldl (TtLedger.clusterStep account false) w) := by
  induction clusters generalizing done w with
  | nil => exact h.mono (List.subset_append_left _ _)
  | cons cluster clusters ih =>
    obtain ⟨hhead, htail⟩ := List.pairwise_cons.mp hordered
    have hstep := h.clusterStep account (hearlier cluster (by simp))
    rw [List.foldl_cons, List.flatten_cons, ← List.append_assoc]
    refine ih hstep (fun c hc a ha => ?_) htail
    rcases List.mem_append.mp ha with ha | ha
    · exact hearlier c (.tail _ hc) a ha
    · exact hhead c hc a ha

theorem passRolls_routeLoop {s : InMemoryStore} (h : s.RollsForward) (account : String)
    {args : ReconcileArgs} (hdry : args.dryRun = false) :
    PassRolls (clusterByTime (candidatesOf s account args)).flatten
      (routeLoop s account args) := by
  have hstart : PassRolls [] ({ openGroups := openGroupsOf s account }, s) := by
    refine ⟨backed_openGroupsOf s account, h, ?_, ?_, ?_, ?_, ?_⟩ <;>
      exact fun _ hmem => (by cases hmem)
  unfold routeLoop
  rw [hdry]
  exact hstart.clusterSteps account (fun _ _ _ ha => by cases ha) (pairwise_clusterByTime _)

end Loop

/-! ## Passes -/

theorem RollLinks.of_mem {created : List CreatedGroup} {exits : List AppliedExit}
    {links : List (Option EventRow)} (h : RollLinks created exits links) {ev : EventRow}
    (hev : ev ∈ links.reduceOption) : ∃ ex ∈ exits, LinksRoll created ex ev := by
  induction h with
  | nil => cases hev
  | @cons ex link exits links hlink _ ih =>
    rcases List.mem_cons.mp (List.reduceOption_mem_iff.mp hev) with heq | hmem
    · exact ⟨ex, by simp, hlink ev heq.symm⟩
    · obtain ⟨ex', hex', hlink'⟩ := ih (List.reduceOption_mem_iff.mpr hmem)
      exact ⟨ex', .tail _ hex', hlink'⟩

/-- The rolls linked after the clusters go forward too. -/
theorem forwards_routeCandidates (account : String) (args : ReconcileArgs) :
    Preserves memory InMemoryStore.RollsForward (routeCandidates account args) := by
  intro s h
  obtain ⟨links, hlinks, hexec⟩ := exec_routeCandidates s account args
  rw [show run memory _ s = _ from hexec]
  cases hdry : args.dryRun with
  | true =>
    rw [exits_routeLoop_dryRun s hdry] at hlinks
    rw [List.forall₂_nil_left_iff.mp hlinks, routeLoop_dryRun s hdry]
    exact h
  | false =>
    have hloop := passRolls_routeLoop h account hdry
    have hgroups : ∀ pk, ((routeLoop s account args).2.addEvents
        links.reduceOption).getTradeGroupById pk =
          (routeLoop s account args).2.getTradeGroupById pk :=
      InMemoryStore.getTradeGroupById_congr (InMemoryStore.tradeGroups_addEvents _ _)
    refine hloop.forward.of_append
      (InMemoryStore.continuations_of_append (InMemoryStore.values_addEvents _ _))
      (fun pk hpk => ?_) fun ev hev => ?_
    · rwa [hgroups]
    · obtain ⟨ev₀, hev₀, rfl⟩ := List.mem_map.mp (List.mem_of_mem_filter hev)
      obtain ⟨ex, hex, hlink⟩ := hlinks.of_mem hev₀
      obtain ⟨cg, hcg, closedAt, openedAt, hclosed, hopened, hafter, -, hunder, rfl⟩ := hlink.into
      have hrows : ex.rows ≠ [] := by
        intro hnil
        rw [hnil] at hunder
        cases hunder
      intro pk hto
      obtain rfl : cg.pk = pk := Option.some.inj hto
      rw [hgroups, hgroups]
      exact ⟨hloop.exits ex hex, hloop.created cg hcg,
        hloop.later ex hex cg hcg hrows closedAt openedAt hclosed hopened (sub_nonneg.mp hafter)⟩

theorem forwards_reconcileAccount (args : ReconcileArgs) (account : String) :
    Preserves memory InMemoryStore.RollsForward (reconcileAccount args account) :=
  (uncontinued_linkAccount account).forwards.bind fun _ =>
    (uncontinued_synthesizeLapsedSettlements account args).forwards.bind fun _ =>
      (forwards_routeCandidates account args).bind fun _ =>
        (uncontinued_healFullyClosedGroups account args.dryRun).forwards.bind fun _ =>
          Preserves.pure _

theorem forwards_reconcile (account : Option String) (args : ReconcileArgs) :
    Preserves memory InMemoryStore.RollsForward (reconcile account args) := by
  refine (readOnly_accountsOf account args.since).uncontinued.forwards.bind fun accounts =>
    Preserves.foldlM (fun result acct _ => ?_) _
  exact ((forwards_reconcileAccount args acct).bind fun _ => Preserves.pure _).tryCatch
    fun _ => Preserves.pure _

/-! ## The rolls of an exit -/

namespace InMemoryStore

/-- The rolls that have been recorded. -/
def rolls (s : InMemoryStore) : List EventRow := s.events.values.filter fun ev =>
  ev.eventType = .roll

theorem rolls_eq (s : InMemoryStore) :
    s.rolls = s.continuations.filter fun ev => ev.eventType = .roll := by
  rw [rolls, continuations, List.filter_filter]
  refine List.filter_congr fun ev _ => ?_
  cases hroll : decide (ev.eventType = .roll) <;> simp [EventRow.continues, hroll]

theorem rolls_of_continuations {s s' : InMemoryStore} (h : s'.continuations = s.continuations) :
    s'.rolls = s.rolls := by
  rw [rolls_eq, h, rolls_eq]

end InMemoryStore

/-- The rolls of one exit: none or the one recorded with it, and none or the one it is linked to
after the clusters, but not both. -/
structure ExitRolls (created : List CreatedGroup) where
  exit : AppliedExit
  own : Option EventRow
  link : Option EventRow
  rolled : own.isSome = exit.rolled
  own_from : ∀ ev ∈ own, ev.tradeGroupId = exit.group.pk
  linked : ∀ ev ∈ link, LinksRoll created exit ev
  once : own = none ∨ link = none

/-- The rolls a pass records as it routes the candidates of an account: those of its exits, with
the cluster loop first and the links after it. -/
def RollsOnce (s : InMemoryStore) (account : String) (args : ReconcileArgs) : Prop :=
  ∃ log : List (ExitRolls (routeLoop s account args).1.created),
    log.map ExitRolls.exit = (routeLoop s account args).1.exits ∧
      (routeLoop s account args).2.rolls = s.rolls ++ log.filterMap ExitRolls.own ∧
      (exec (routeCandidates account args) s).2.events.values =
        (routeLoop s account args).2.events.values ++ log.filterMap ExitRolls.link

/-- The rolls recorded with exits. -/
abbrev OwnRolls : List AppliedExit → List (Option EventRow) → Prop :=
  List.Forall₂ fun ex own => own.isSome = ex.rolled ∧ ∀ ev ∈ own, ev.tradeGroupId = ex.group.pk

/-- An exit that rolled with its cluster is not linked after it. -/
theorem exists_exitRolls {created : List CreatedGroup} {exits : List AppliedExit}
    {owns links : List (Option EventRow)} (howns : OwnRolls exits owns)
    (hlinks : RollLinks created exits links) :
    ∃ log : List (ExitRolls created), log.map ExitRolls.exit = exits ∧
      log.filterMap ExitRolls.own = owns.reduceOption ∧
      log.filterMap ExitRolls.link = links.reduceOption := by
  induction howns generalizing links with
  | nil =>
    rw [List.forall₂_nil_left_iff.mp hlinks]
    exact ⟨[], rfl, rfl, rfl⟩
  | @cons ex own exits owns hown _ ih =>
    obtain ⟨link, links, hlink, hrest, rfl⟩ := List.forall₂_cons_left_iff.mp hlinks
    obtain ⟨log, hexits, howns', hlinks'⟩ := ih hrest
    have honce : own = none ∨ link = none := by
      cases link with
      | none => exact Or.inr rfl
      | some ev =>
        refine Or.inl (Option.not_isSome_iff_eq_none.mp ?_)
        rw [hown.1, (hlink ev rfl).unrolled]
        exact Bool.false_ne_true
    refine ⟨⟨ex, own, link, hown.1, hown.2, hlink, honce⟩ :: log, ?_, ?_, ?_⟩
    · rw [List.map_cons, hexits]
    · cases own <;> simp [howns']
    · cases link <;> simp [hlinks']

/-- The rolls among the events of an exit. -/
theorem filter_roll_exitEvents (pk : ℕ) (rows : List TxnRow) (closed : Bool)
    (rolledToPk deliveryPk : Option ℕ) :
    ∃ own : Option EventRow,
      (exitEvents pk rows closed rolledToPk deliveryPk).filter (fun ev => ev.eventType = .roll) =
        own.toList ∧
      own.isSome = rolledToPk.isSome ∧ ∀ ev ∈ own, ev.tradeGroupId = pk := by
  have htrade : ((if (tradeRows rows).isEmpty = true then [] else [exitEvent pk rows closed]) :
      List EventRow).filter (fun ev => ev.eventType = .roll) = [] := by
    split
    · rfl
    · cases closed <;> rfl
  have hsettled : ((rdRowsByEvent rows).map (settlementEvent pk rows deliveryPk)).filter
      (fun ev => ev.eventType = .roll) = [] := by
    rw [List.filter_eq_nil_iff]
    intro ev hev
    obtain ⟨e, he, rfl⟩ := List.mem_map.mp hev
    simpa [settlementEvent] using ne_roll_of_mem_rdRowsByEvent he
  unfold exitEvents
  rw [List.filter_append, List.filter_append, htrade, hsettled]
  cases rolledToPk with
  | none => exact ⟨none, rfl, rfl, fun _ hev => (by cases hev)⟩
  | some rolledTo =>
    refine ⟨some _, rfl, rfl, fun ev hev => ?_⟩
    rw [← Option.some.inj hev]

/-- An exit records the roll it returns, and no other. -/
theorem rolls_exitState (s : InMemoryStore) (group : OpenGroup) (rows : List TxnRow)
    (rolledToPk deliveryPk : Option ℕ) :
    ∃ own : Option EventRow,
      (exitState s group rows rolledToPk deliveryPk).rolls = s.rolls ++ own.toList ∧
      own.isSome = (exitResult s group rows rolledToPk).rolled ∧
      ∀ ev ∈ own, ev.tradeGroupId = (exitResult s group rows rolledToPk).group.pk := by
  have hvalues := InMemoryStore.values_exitState s group rows rolledToPk deliveryPk
  rw [InMemoryStore.rolls, hvalues, List.filter_append]
  unfold exitResult
  split
  · exact ⟨none, rfl, rfl, fun _ hev => (by cases hev)⟩
  · obtain ⟨own, hfilter, hsome, hpk⟩ := filter_roll_exitEvents group.pk (group.newRows rows)
      (fullyClosed (group.extendUnique rows).rows) rolledToPk deliveryPk
    refine ⟨own.map (EventRow.recorded s.clock), ?_, by rw [Option.isSome_map, hsome], ?_⟩
    · have hmap : ∀ events : List EventRow, (events.map (EventRow.recorded s.clock)).filter
          (fun ev => ev.eventType = .roll) =
            (events.filter fun ev => ev.eventType = .roll).map (EventRow.recorded s.clock) :=
        fun _ => List.filter_map
      rw [InMemoryStore.rolls, hmap, hfilter]
      cases own <;> rfl
    · intro ev hev
      obtain ⟨ev₀, hev₀, rfl⟩ := Option.mem_map.mp hev
      exact hpk ev₀ hev₀

section Log

variable {w : Pass × InMemoryStore}

/-- The buckets of a cluster apply their exits in turn. -/
theorem exists_ownRolls_buckets (newPk : Option ℕ) (rest : List TxnRow)
    (buckets : List (OpenGroup × List ActivityRow)) (w : Pass × InMemoryStore) :
    ∃ exits owns, OwnRolls exits owns ∧
      (buckets.foldl (bucketStep newPk rest) w).1.exits = w.1.exits ++ exits ∧
      (buckets.foldl (bucketStep newPk rest) w).2.rolls = w.2.rolls ++ owns.reduceOption := by
  induction buckets generalizing w with
  | nil => exact ⟨[], [], .nil, (List.append_nil _).symm, (List.append_nil _).symm⟩
  | cons b buckets ih =>
    obtain ⟨exits, owns, hall, hexits, hrolls⟩ := ih (bucketStep newPk rest w b)
    obtain ⟨own, hown, hsome, hpk⟩ := rolls_exitState w.2 b.1 (b.2.map ActivityRow.toTxnRow)
      (if sameUnderlying (b.2.map ActivityRow.toTxnRow) rest = true then newPk else none)
      (deliveryOf w.2 newPk (b.2.map ActivityRow.toTxnRow) rest)
    refine ⟨_ :: exits, own :: owns, .cons ⟨hsome, hpk⟩ hall, ?_, ?_⟩
    · rw [List.foldl_cons, hexits, bucketStep]
      exact List.append_assoc _ _ _
    · rw [List.foldl_cons, hrolls, bucketStep]
      simp only []
      rw [hown, List.append_assoc]
      cases own <;> rfl

theorem exists_ownRolls_clusterStep (account : String) (w : Pass × InMemoryStore)
    (cluster : List ActivityRow) :
    ∃ exits owns, OwnRolls exits owns ∧
      (clusterStep account false w cluster).1.exits = w.1.exits ++ exits ∧
      (clusterStep account false w cluster).2.rolls = w.2.rolls ++ owns.reduceOption := by
  have hintent := InMemoryStore.rolls_of_continuations
    ((uncontinued_applyIntentRows w.1.openGroups cluster false).continuations_of_run
      (exec_applyIntentRows w.2 w.1.openGroups cluster false))
  unfold clusterStep
  simp only [Bool.false_eq_true, if_false]
  generalize intentRows w.2 w.1.openGroups cluster false = intent at *
  split
  · exact ⟨[], [], .nil, (List.append_nil _).symm, hintent.trans (List.append_nil _).symm⟩
  · have hrest : ∀ pass rest, (restStep intent.2 account false pass rest).1.2.exits = pass.exits ∧
        (restStep intent.2 account false pass rest).2.rolls = intent.2.rolls := by
      intro pass rest
      have hcreated := InMemoryStore.rolls_of_continuations
        ((uncontinued_createTradeGroup account rest).continuations_of_run
          (exec_createTradeGroup intent.2 account rest))
      unfold restStep
      split
      · exact ⟨rfl, rfl⟩
      · exact ⟨rfl, hcreated⟩
    obtain ⟨exits, owns, hall, hexits, hrolls⟩ := exists_ownRolls_buckets _ _ _ _
    refine ⟨exits, owns, hall, hexits.trans ?_, hrolls.trans ?_⟩
    · rw [(hrest _ _).1]
    · rw [(hrest _ _).2, hintent]

theorem exists_ownRolls_clusterSteps (account : String) (clusters : List (List ActivityRow))
    (w : Pass × InMemoryStore) :
    ∃ exits owns, OwnRolls exits owns ∧
      (clusters.foldl (clusterStep account false) w).1.exits = w.1.exits ++ exits ∧
      (clusters.foldl (clusterStep account false) w).2.rolls =
        w.2.rolls ++ owns.reduceOption := by
  induction clusters generalizing w with
  | nil => exact ⟨[], [], .nil, (List.append_nil _).symm, (List.append_nil _).symm⟩
  | cons cluster clusters ih =>
    obtain ⟨exits, owns, hall, hexits, hrolls⟩ := exists_ownRolls_clusterStep account w cluster
    obtain ⟨exits', owns', hall', hexits', hrolls'⟩ := ih (clusterStep account false w cluster)
    refine ⟨exits ++ exits', owns ++ owns', List.rel_append hall hall', ?_, ?_⟩
    · rw [List.foldl_cons, hexits', hexits, List.append_assoc]
    · rw [List.foldl_cons, hrolls', hrolls, List.reduceOption_append, List.append_assoc]

/-- **The rolls of a pass are its exits'**, one for each at most. -/
theorem rollsOnce (s : InMemoryStore) (account : String) (args : ReconcileArgs) :
    RollsOnce s account args := by
  obtain ⟨links, hlinks, hexec⟩ := exec_routeCandidates s account args
  obtain ⟨owns, howns, hrolls⟩ : ∃ owns, OwnRolls (routeLoop s account args).1.exits owns ∧
      (routeLoop s account args).2.rolls = s.rolls ++ owns.reduceOption := by
    cases hdry : args.dryRun with
    | true =>
      rw [exits_routeLoop_dryRun s hdry, routeLoop_dryRun s hdry]
      exact ⟨[], .nil, (List.append_nil _).symm⟩
    | false =>
      obtain ⟨exits, owns, hall, hexits, hrolls⟩ := exists_ownRolls_clusterSteps account
        (clusterByTime (candidatesOf s account args)) ({ openGroups := openGroupsOf s account }, s)
      refine ⟨owns, ?_, ?_⟩
      · rw [routeLoop, hdry, hexits]
        exact hall
      · rw [routeLoop, hdry, hrolls]
  obtain ⟨log, hexits, howns', hlinks'⟩ := exists_exitRolls howns hlinks
  refine ⟨log, hexits, by rw [hrolls, howns'], ?_⟩
  rw [hexec, InMemoryStore.values_addEvents, hlinks']
  congr 1
  -- a linked roll has its instant, so it is recorded as it is
  refine (List.map_congr_left fun ev hev => ?_).trans (List.map_id _)
  obtain ⟨ex, -, hlink⟩ := hlinks.of_mem hev
  obtain ⟨cg, -, closedAt, openedAt, -, -, -, -, -, rfl⟩ := hlink.into
  rfl

end Log

/-! ## Every run -/

/-- The state after tasks run one after the other, each when the clock shows its time. -/
def serially (s : InMemoryStore) (run : List (Datetime × Task)) : InMemoryStore :=
  run.foldl (fun s t => (exec t.2.program { s with clock := t.1 }).2) s

/-- Linking an order reconciles its account. -/
theorem forwards_linkOrderToGroup (ttOrderId : String) (targetGroupId : Option String)
    (reviewedBy : String) :
    Preserves memory InMemoryStore.RollsForward
      (linkOrderToGroup ttOrderId targetGroupId reviewedBy) := by
  refine (forwards_issue (by trivial)).bind fun order? => ?_
  split
  · exact (uncontinued_raise _).forwards
  · split
    · exact (uncontinued_raise _).forwards
    · refine (forwards_issue (by trivial)).bind fun at_ => ?_
      refine (uncontinued_linkTarget _ _ _ _ _).forwards.bind fun pk => ?_
      refine (forwards_issue (by trivial)).bind fun _ => ?_
      refine (forwards_issue (by rfl)).bind fun _ => ?_
      refine (forwards_reconcile _ _).bind fun _ => ?_
      refine (forwards_issue (by trivial)).bind fun tg? => ?_
      split
      · exact (uncontinued_raise _).forwards
      · exact Preserves.pure _

theorem forwards_program (task : Task) :
    Preserves memory InMemoryStore.RollsForward task.program := by
  cases task with
  | openTradeGroup account input =>
    exact (uncontinued_openTradeGroup account input).forwards.bind fun _ => Preserves.pure _
  | recordOrder resolver order =>
    exact (quiet_recordOrder resolver order).uncontinued.forwards.bind fun _ => Preserves.pure _
  | importOrders resolver placedOrders account =>
    exact (quiet_upsertFromHistory resolver placedOrders account).uncontinued.forwards.bind
      fun _ => Preserves.pure _
  | importTransactions resolver settlementPrice account txns sourceSystem reconcileAfter =>
    refine Preserves.bind ?_ fun _ => Preserves.pure _
    refine (quiet_upsertTransactions resolver txns account
      sourceSystem).uncontinued.forwards.bind fun transactions => ?_
    split
    · exact (forwards_reconcile _ _).bind fun _ => Preserves.pure _
    · exact Preserves.pure _
  | importPositions resolver positions account =>
    exact (quiet_upsertPositions resolver positions account).uncontinued.forwards.bind
      fun _ => Preserves.pure _
  | applyFill evt =>
    exact (quiet_applyFillEvent evt).uncontinued.forwards.bind fun _ => Preserves.pure _
  | linkOrder ttOrderId targetGroupId reviewedBy =>
    exact (forwards_linkOrderToGroup ttOrderId targetGroupId reviewedBy).bind
      fun _ => Preserves.pure _
  | regroup txnIds targetGroupId reviewedBy =>
    exact (uncontinued_regroupTransactions txnIds targetGroupId reviewedBy).forwards.bind
      fun _ => Preserves.pure _
  | remap groupId attribution =>
    exact (uncontinued_remapTradeGroup groupId attribution).forwards.bind fun _ => Preserves.pure _
  | markUnfilled groupId reviewedBy reason =>
    exact (uncontinued_markTradeGroupUnfilled groupId reviewedBy reason).forwards.bind
      fun _ => Preserves.pure _
  | dismiss groupId reviewedBy =>
    exact (uncontinued_dismissTradeGroup groupId reviewedBy).forwards.bind
      fun _ => Preserves.pure _
  | reconcile account args => exact (forwards_reconcile account args).bind fun _ => Preserves.pure _
  | rebuild account =>
    exact (quiet_rebuildPositionsFromTransactions account).uncontinued.forwards.bind
      fun _ => Preserves.pure _
  | recomputeFutures str account dryRun =>
    exact (uncontinued_recomputeFuturesGroupPnl str account dryRun).forwards.bind
      fun _ => Preserves.pure _

theorem rollsForward_serially {s : InMemoryStore} (h : s.RollsForward)
    (run : List (Datetime × Task)) : (serially s run).RollsForward := by
  induction run generalizing s with
  | nil => exact h
  | cons t run ih => exact ih (forwards_program t.2 { s with clock := t.1 } h)

/-- **The roll graph is acyclic**: after any tasks that ran one after the other on a new ledger,
every event that names the group its own is continued in names a younger one, so no group is
continued in itself, at once or in the end. In whatever state a pass routes its candidates, it
records one roll at most for each exit of a bucket, and one it links after the clusters opens at
most a minute after the exit; the other exits record none. -/
theorem rolls_acyclic (clock : Datetime) (run : List (Datetime × Task)) :
    (serially (InMemoryStore.empty clock) run).RollsForward ∧
      (∀ pk, ¬Relation.TransGen (serially (InMemoryStore.empty clock) run).RollsTo pk pk) ∧
      (∀ s account args, RollsOnce s account args) ∧
      ∀ s group rows, (exec (applyExit group rows none none) s).2.rolls = s.rolls := by
  have hforward : (serially (InMemoryStore.empty clock) run).RollsForward :=
    rollsForward_serially (fun _ hev => (by cases hev)) run
  refine ⟨hforward, hforward.acyclic, rollsOnce, fun s group rows => ?_⟩
  exact InMemoryStore.rolls_of_continuations ((uncontinued_applyExit group rows).continuations s)

/-- A fill of one contract of the index. -/
def indexFill (ttTransactionId ttOrderId action securityId : String) (seconds : Int) : TxnRow :=
  { TxnRow.fill "A" ttTransactionId ttOrderId action securityId 1 (seconds * second) with
    underlying := some "SPX" }

/-- A position that is closed and opened again half a minute later has rolled. -/
example :
    (exec (reconcile (some "A") {}) (InMemoryStore.seeded []
      (["1", "2", "3"].map (OrderRow.placed "A"))
      [indexFill "1" "1" "Buy to Open" "X" 0, indexFill "2" "2" "Sell to Close" "X" 100,
        indexFill "3" "3" "Buy to Open" "Y" 130])).2.rolls =
      [rollEvent 1 (130 * second) 2] := by
  decide +kernel

end TtLedger
