import TtLedger.Ingest.Frames
import TtLedger.Ingest.Membership
import TtLedger.Ingest.RouteLaws

/-!
# What a pass attaches

`Attaches ids s s'` says that `s'` differs from `s`, as far as transactions go, in the groups of
the transactions `ids` only, each of which has been given a stored group. It holds of every
writing step (`attaches_exitState`, `attaches_createState`, …), composes along a run
(`Attaches.trans`), and so the cluster loop attaches its candidates, all of them and nothing else
(`attaches_routeLoop`).
-/

namespace TtLedger

/-- The row with the group `f` has for it, if any. -/
def assignRow (f : String → Option ℕ) (r : TxnRow) : TxnRow :=
  { r with tradeGroupId := f r.ttTransactionId <|> r.tradeGroupId }

theorem key_assignRow (f : String → Option ℕ) (r : TxnRow) : (assignRow f r).key = r.key := rfl

theorem assignRow_of_none {f : String → Option ℕ} {r : TxnRow} (h : f r.ttTransactionId = none) :
    assignRow f r = r := by
  rw [assignRow, h, Option.orElse_eq_orElse, Option.orElse_none]

theorem assignRow_of_some {f : String → Option ℕ} {r : TxnRow} {pk : ℕ}
    (h : f r.ttTransactionId = some pk) : assignRow f r = { r with tradeGroupId := some pk } := by
  rw [assignRow, h]
  rfl

/-- The transactions `ids` have been given groups, and no other one has changed. -/
structure Attaches (ids : List String) (s s' : InMemoryStore) : Prop where
  keeps : ∀ pk, (s.getTradeGroupById pk).isSome = true → (s'.getTradeGroupById pk).isSome = true
  assigns : ∃ f : String → Option ℕ, (∀ id, (f id).isSome = true ↔ id ∈ ids) ∧
    (∀ id pk, f id = some pk → (s'.getTradeGroupById pk).isSome = true) ∧
    s'.transactions = s.transactions.modify (assignRow f) (key_assignRow f)

namespace Attaches

variable {s s' s'' : InMemoryStore} {ids ids' : List String}

/-- A step that leaves the transactions alone attaches nothing. -/
theorem nil (ht : s'.transactions = s.transactions)
    (hk : ∀ pk, (s.getTradeGroupById pk).isSome = true → (s'.getTradeGroupById pk).isSome = true) :
    Attaches [] s s' := by
  refine ⟨hk, fun _ => none, by simp, by simp, ?_⟩
  rw [ht, Table.modify_id]
  intro r _
  rfl

theorem congr (h : Attaches ids s s') (hids : ∀ id, id ∈ ids ↔ id ∈ ids') :
    Attaches ids' s s' := by
  obtain ⟨hk, f, hf, hg, ht⟩ := h
  exact ⟨hk, f, fun id => (hf id).trans (hids id), hg, ht⟩

theorem perm (h : Attaches ids s s') (hp : ids.Perm ids') : Attaches ids' s s' :=
  h.congr fun _ => hp.mem_iff

theorem trans (h : Attaches ids s s') (h' : Attaches ids' s' s'') :
    Attaches (ids ++ ids') s s'' := by
  obtain ⟨hk, f, hf, hg, ht⟩ := h
  obtain ⟨hk', f', hf', hg', ht'⟩ := h'
  refine ⟨fun pk hpk => hk' pk (hk pk hpk), fun id => f' id <|> f id, ?_, ?_, ?_⟩
  · intro id
    rw [List.mem_append, ← hf id, ← hf' id, or_comm]
    simp
  · intro id pk hpk
    have hor : (f' id).or (f id) = some pk := by simpa using hpk
    rcases Option.or_eq_some_iff.mp hor with hpk | ⟨-, hpk⟩
    · exact hg' id pk hpk
    · exact hk' pk (hg id pk hpk)
  · rw [ht', ht]
    refine Table.ext ?_ rfl
    simp only [Table.modify, List.map_map]
    refine List.map_congr_left fun p _ => ?_
    simp only [Function.comp_apply, assignRow]
    cases f' p.2.ttTransactionId <;> rfl

/-- An attach to a stored group. -/
theorem of_attached {pk : ℕ} (hpk : (s.getTradeGroupById pk).isSome = true)
    (ht : s'.transactions = (s.attached ids pk).transactions)
    (hk : ∀ pk, (s.getTradeGroupById pk).isSome = true → (s'.getTradeGroupById pk).isSome = true) :
    Attaches ids s s' := by
  refine ⟨hk, fun id => if id ∈ ids then some pk else none, ?_, ?_, ?_⟩
  · intro id
    by_cases h : id ∈ ids <;> simp [h]
  · intro id pk' h
    obtain ⟨-, rfl⟩ : id ∈ ids ∧ pk = pk' := by simpa using h
    exact hk _ hpk
  · rw [ht]
    refine Table.ext ?_ rfl
    simp only [InMemoryStore.attached, InMemoryStore.attachTransactionsToTradeGroup, Table.modify]
    refine List.map_congr_left fun p _ => ?_
    simp only [assignRow]
    split <;> rfl

/-- A transaction that is not attached keeps its row. -/
theorem txn_of_notMem (h : Attaches ids s s') {id : String} (hid : id ∉ ids) :
    s'.txn id = s.txn id := by
  obtain ⟨-, f, hf, -, ht⟩ := h
  have hnone : f id = none := by
    rw [← Option.not_isSome_iff_eq_none, hf]
    exact hid
  rw [InMemoryStore.txn, ht, Table.getByKey_modify]
  cases hr : s.transactions.getByKey id with
  | none => exact hr.symm
  | some r =>
    have hk : r.ttTransactionId = id := s.txn_key hr
    rw [InMemoryStore.txn, hr, Option.map_some, assignRow_of_none (by rw [hk, hnone])]

/-- A transaction that is attached changes its group to a stored one and nothing else. -/
theorem txn_of_mem (h : Attaches ids s s') {id : String} (hid : id ∈ ids) {r : TxnRow}
    (hr : s.txn id = some r) :
    ∃ pk, s'.txn id = some { r with tradeGroupId := some pk } ∧
      (s'.getTradeGroupById pk).isSome = true := by
  obtain ⟨-, f, hf, hg, ht⟩ := h
  obtain ⟨pk, hpk⟩ := Option.isSome_iff_exists.mp ((hf id).mpr hid)
  have hk : r.ttTransactionId = id := s.txn_key hr
  refine ⟨pk, ?_, hg id pk hpk⟩
  rw [InMemoryStore.txn] at hr
  rw [InMemoryStore.txn, ht, Table.getByKey_modify, hr, Option.map_some,
    assignRow_of_some (by rw [hk, hpk])]

theorem txn_eq_none (h : Attaches ids s s') {id : String} (hid : s.txn id = none) :
    s'.txn id = none := by
  obtain ⟨-, f, -, -, ht⟩ := h
  rw [InMemoryStore.txn] at hid
  rw [InMemoryStore.txn, ht, Table.getByKey_modify, hid, Option.map_none]

theorem isSome_txn (h : Attaches ids s s') (id : String) :
    (s'.txn id).isSome = (s.txn id).isSome := by
  cases hid : s.txn id with
  | none => rw [h.txn_eq_none hid]
  | some r =>
    by_cases hmem : id ∈ ids
    · obtain ⟨pk, hpk, -⟩ := h.txn_of_mem hmem hid
      rw [hpk]
      rfl
    · rw [h.txn_of_notMem hmem, hid]

end Attaches

/-! ## Stored groups -/

/-- The groups are stored. -/
def Backed (s : InMemoryStore) (groups : List OpenGroup) : Prop :=
  ∀ g ∈ groups, (s.getTradeGroupById g.pk).isSome = true

namespace Backed

variable {s s' : InMemoryStore} {groups : List OpenGroup} {ids : List String}

theorem mono (h : Backed s groups)
    (hk : ∀ pk, (s.getTradeGroupById pk).isSome = true → (s'.getTradeGroupById pk).isSome = true) :
    Backed s' groups := fun g hg => hk _ (h g hg)

theorem replaceGroup (h : Backed s groups) {group : OpenGroup}
    (hg : (s.getTradeGroupById group.pk).isSome = true) :
    Backed s (replaceGroup groups group) := by
  intro g hmem
  obtain ⟨g', hg', rfl⟩ := List.mem_map.mp hmem
  split
  · exact hg
  · exact h g' hg'

theorem removeGroup (h : Backed s groups) (pk : ℕ) : Backed s (removeGroup groups pk) :=
  fun g hg => h g (List.mem_of_mem_filter hg)

theorem append (h : Backed s groups) {group : OpenGroup}
    (hg : (s.getTradeGroupById group.pk).isSome = true) : Backed s (groups ++ [group]) := by
  intro g hmem
  rcases List.mem_append.mp hmem with hmem | hmem
  · exact h g hmem
  · obtain rfl : g = group := by simpa using hmem
    exact hg

end Backed

theorem backed_openGroupsOf (s : InMemoryStore) (account : String) :
    Backed s (openGroupsOf s account) := by
  intro g hg
  obtain ⟨tg, -, hpk⟩ := List.mem_filterMap.mp hg
  obtain ⟨pk, hid, rfl⟩ := Option.map_eq_some_iff.mp hpk
  obtain ⟨row, hrow, -⟩ := Table.idOf_eq_some.mp hid
  exact Option.isSome_iff_exists.mpr ⟨row, Table.get_eq_some.mpr hrow⟩

/-! ## The steps -/

section Steps

variable (s : InMemoryStore) (group : OpenGroup) (rows : List TxnRow)

@[simp] theorem isSome_getTradeGroupById_exitState (rolledToPk deliveryPk : Option ℕ) (pk : ℕ) :
    ((exitState s group rows rolledToPk deliveryPk).getTradeGroupById pk).isSome =
      (s.getTradeGroupById pk).isSome := by
  rw [getTradeGroupById_exitState]
  split
  · exact Option.isSome_map
  · rfl

@[simp] theorem isSome_getTradeGroupById_intentExitState (pk : ℕ) :
    ((intentExitState s group rows).getTradeGroupById pk).isSome =
      (s.getTradeGroupById pk).isSome := by
  unfold intentExitState
  split
  · rfl
  · exact isSome_getTradeGroupById_exitState s group rows none none pk

@[simp] theorem isSome_getTradeGroupById_openingState (pk : ℕ) :
    ((openingState s group rows).getTradeGroupById pk).isSome =
      (s.getTradeGroupById pk).isSome := by
  unfold openingState
  split
  · rfl
  · rw [InMemoryStore.getTradeGroupById_refreshedGroup]
    split
    · rw [Option.isSome_map]
      rfl
    · rfl

variable {s group}

theorem attaches_exitState (hg : (s.getTradeGroupById group.pk).isSome = true)
    (rolledToPk deliveryPk : Option ℕ) :
    Attaches (rows.map TxnRow.ttTransactionId) s
      (exitState s group rows rolledToPk deliveryPk) :=
  .of_attached hg (transactions_exitState s group rows _ _) (by simp)

theorem attaches_intentExitState (hg : (s.getTradeGroupById group.pk).isSome = true) :
    Attaches (rows.map TxnRow.ttTransactionId) s (intentExitState s group rows) :=
  .of_attached hg (transactions_intentExitState s group rows) (by simp)

theorem attaches_openingState (hg : (s.getTradeGroupById group.pk).isSome = true) :
    Attaches (rows.map TxnRow.ttTransactionId) s (openingState s group rows) :=
  .of_attached hg (transactions_openingState s group rows) (by simp)

variable (s)

theorem keeps_createState (account : String) (cluster : List TxnRow) (pk : ℕ)
    (hpk : (s.getTradeGroupById pk).isSome = true) :
    ((createState s account cluster).getTradeGroupById pk).isSome = true := by
  rw [getTradeGroupById_createState]
  split
  · rfl
  · exact hpk

theorem backed_newPk (account : String) (cluster : List TxnRow) :
    ((createState s account cluster).getTradeGroupById (newPk s account cluster)).isSome =
      true := by
  rw [getTradeGroupById_createState, if_pos (newPk_eq s account cluster)]
  rfl

theorem attaches_createState (account : String) (cluster : List TxnRow) :
    Attaches (cluster.map TxnRow.ttTransactionId) s (createState s account cluster) := by
  -- the new group's row is written first, the rows are attached to it after
  have hwritten : Attaches [] s (groupWritten s account cluster) := by
    refine .nil rfl fun pk hpk => ?_
    rw [getTradeGroupById_groupWritten]
    split
    · rfl
    · exact hpk
  have hnew : ((groupWritten s account cluster).getTradeGroupById
      (newPk s account cluster)).isSome = true := by
    rw [getTradeGroupById_groupWritten, if_pos (newPk_eq s account cluster)]
    rfl
  refine hwritten.trans (.of_attached hnew (transactions_createState s account cluster) ?_)
  intro pk hpk
  rwa [InMemoryStore.getTradeGroupById_congr (tradeGroups_createState s account cluster) pk]

end Steps

/-! ## The cluster loop -/

/-- The identifiers of a list of activity rows. -/
def idsOf (rows : List ActivityRow) : List String := rows.map fun a => a.ttTransactionId

theorem idsOf_append (rows rows' : List ActivityRow) :
    idsOf (rows ++ rows') = idsOf rows ++ idsOf rows' := List.map_append

theorem idsOf_eq (rows : List ActivityRow) :
    (rows.map ActivityRow.toTxnRow).map TxnRow.ttTransactionId = idsOf rows := by
  rw [List.map_map]
  rfl

theorem openingRows_closingRows_perm (rows : List ActivityRow) :
    ((openingRows rows).map TxnRow.ttTransactionId ++
      (closingRows rows).map TxnRow.ttTransactionId).Perm (idsOf rows) := by
  rw [← idsOf_eq, ← List.map_append]
  refine List.Perm.map _ (List.perm_append_comm.trans ?_)
  exact List.filter_append_perm _ _

section Loop

variable {s : InMemoryStore}

theorem backed_groupForPkResult {openGroups : List OpenGroup} (hb : Backed s openGroups) (pk : ℕ) :
    Backed s (groupForPkResult s openGroups pk).2 ∧
      ∀ g, (groupForPkResult s openGroups pk).1 = some g →
        (s.getTradeGroupById g.pk).isSome = true := by
  unfold groupForPkResult
  cases hfind : openGroups.find? fun g => g.pk = pk with
  | some g =>
    refine ⟨hb, ?_⟩
    intro g' hg'
    obtain rfl := Option.some.inj hg'
    exact hb g (List.mem_of_find?_eq_some hfind)
  | none =>
    cases htg : s.getTradeGroupById pk with
    | none => exact ⟨hb, fun g hg => by cases hg⟩
    | some tg =>
      have hpk : (s.getTradeGroupById pk).isSome = true := by rw [htg]; rfl
      refine ⟨hb.append hpk, ?_⟩
      intro g' hg'
      obtain rfl := Option.some.inj hg'
      exact hpk

theorem backed_intentExitResult {openGroups : List OpenGroup} {group : OpenGroup}
    (hb : Backed s openGroups) (hg : (s.getTradeGroupById group.pk).isSome = true)
    (closing : List TxnRow) :
    Backed s (intentExitResult s openGroups group closing) := by
  unfold intentExitResult
  split
  · exact hb
  · split
    · exact hb.removeGroup _
    · refine hb.replaceGroup ?_
      unfold exitResult
      split <;> exact hg

/-- The rows pre-attributed to one group are attached, or stay to be routed. -/
theorem attaches_intentStep (w : (List OpenGroup × List ActivityRow) × InMemoryStore)
    (e : ℕ × List ActivityRow) (hb : Backed w.2 w.1.1) :
    ∃ ids, Attaches ids w.2 (intentStep w e).2 ∧ Backed (intentStep w e).2 (intentStep w e).1.1 ∧
      (ids ++ idsOf (intentStep w e).1.2).Perm (idsOf w.1.2 ++ idsOf e.2) := by
  obtain ⟨hb', hg⟩ := backed_groupForPkResult hb e.1
  unfold intentStep
  simp only []
  cases hgroup : (groupForPkResult w.2 w.1.1 e.1).1 with
  | none => exact ⟨[], .nil rfl fun _ h => h, hb', by simp [idsOf]⟩
  | some group =>
    have hbacked := hg group hgroup
    have hopen := attaches_openingState (openingRows e.2) hbacked
    have hbacked' : ((openingState w.2 group (openingRows e.2)).getTradeGroupById
        (group.extendUnique (openingRows e.2)).pk).isSome = true := hopen.keeps _ hbacked
    have hclose : Attaches ((closingRows e.2).map TxnRow.ttTransactionId)
        (openingState w.2 group (openingRows e.2))
        (intentExitState (openingState w.2 group (openingRows e.2))
          (group.extendUnique (openingRows e.2)) (closingRows e.2)) :=
      attaches_intentExitState (closingRows e.2) hbacked'
    refine ⟨_, hopen.trans hclose, ?_, ?_⟩
    · have hopened : Backed (openingState w.2 group (openingRows e.2))
          (replaceGroup (groupForPkResult w.2 w.1.1 e.1).2
            (group.extendUnique (openingRows e.2))) :=
        (hb'.mono hopen.keeps).replaceGroup hbacked'
      have hclosed : Backed (openingState w.2 group (openingRows e.2))
          (intentExitResult (openingState w.2 group (openingRows e.2))
            (replaceGroup (groupForPkResult w.2 w.1.1 e.1).2
              (group.extendUnique (openingRows e.2)))
            (group.extendUnique (openingRows e.2)) (closingRows e.2)) :=
        backed_intentExitResult hopened hbacked' (closingRows e.2)
      exact hclosed.mono hclose.keeps
    · exact ((openingRows_closingRows_perm e.2).append_right _).trans List.perm_append_comm

/-- Pre-attributed rows are attached, or stay to be routed. -/
theorem attaches_intentSteps (entries : List (ℕ × List ActivityRow))
    (w : (List OpenGroup × List ActivityRow) × InMemoryStore) (hb : Backed w.2 w.1.1) :
    ∃ ids, Attaches ids w.2 (entries.foldl intentStep w).2 ∧
      Backed (entries.foldl intentStep w).2 (entries.foldl intentStep w).1.1 ∧
      (ids ++ idsOf (entries.foldl intentStep w).1.2).Perm
        (idsOf w.1.2 ++ idsOf (entries.flatMap Prod.snd)) := by
  induction entries generalizing w with
  | nil => exact ⟨[], .nil rfl fun _ h => h, hb, by simp [idsOf]⟩
  | cons e entries ih =>
    obtain ⟨ids₁, h₁, hb₁, hp₁⟩ := attaches_intentStep w e hb
    obtain ⟨ids₂, h₂, hb₂, hp₂⟩ := ih (intentStep w e) hb₁
    refine ⟨ids₁ ++ ids₂, h₁.trans h₂, hb₂, ?_⟩
    rw [List.foldl_cons, List.append_assoc, List.flatMap_cons, idsOf_append]
    refine (hp₂.append_left ids₁).trans ?_
    rw [← List.append_assoc, ← List.append_assoc]
    exact hp₁.append_right _

/-- The groups a bucket leaves open are stored. -/
theorem backed_bucketStep (newPk : Option ℕ) (rest : List TxnRow) {w : Pass × InMemoryStore}
    {b : OpenGroup × List ActivityRow} (hb : Backed w.2 w.1.openGroups)
    (hbacked : (w.2.getTradeGroupById b.1.pk).isSome = true) :
    Backed w.2 (bucketStep newPk rest w b).1.openGroups := by
  unfold bucketStep
  simp only []
  generalize (if sameUnderlying (b.2.map ActivityRow.toTxnRow) rest = true then newPk
    else none) = rolledTo
  split
  · exact hb.removeGroup _
  · refine hb.replaceGroup ?_
    unfold exitResult
    split <;> exact hbacked

theorem attaches_buckets (newPk : Option ℕ) (rest : List TxnRow)
    (buckets : List (OpenGroup × List ActivityRow)) (w : Pass × InMemoryStore)
    (hb : Backed w.2 w.1.openGroups) (hbuckets : Backed w.2 (buckets.map Prod.fst)) :
    Attaches (idsOf (buckets.flatMap Prod.snd)) w.2 (buckets.foldl (bucketStep newPk rest) w).2 ∧
      Backed (buckets.foldl (bucketStep newPk rest) w).2
        (buckets.foldl (bucketStep newPk rest) w).1.openGroups := by
  induction buckets generalizing w with
  | nil => exact ⟨.nil rfl fun _ h => h, hb⟩
  | cons b buckets ih =>
    have hbacked : (w.2.getTradeGroupById b.1.pk).isSome = true := hbuckets b.1 (by simp)
    have hone : Attaches (idsOf b.2) w.2 (bucketStep newPk rest w b).2 := by
      unfold bucketStep
      rw [← idsOf_eq]
      exact attaches_exitState _ hbacked _ _
    have hb₁ : Backed (bucketStep newPk rest w b).2 (bucketStep newPk rest w b).1.openGroups :=
      (backed_bucketStep newPk rest hb hbacked).mono hone.keeps
    have hrest : Backed (bucketStep newPk rest w b).2 (buckets.map Prod.fst) :=
      Backed.mono (fun g hg => hbuckets g (by simp only [List.map_cons]; exact .tail _ hg))
        hone.keeps
    obtain ⟨h₂, hb₂⟩ := ih (bucketStep newPk rest w b) hb₁ hrest
    rw [List.foldl_cons, List.flatMap_cons, idsOf_append]
    exact ⟨hone.trans h₂, hb₂⟩

/-- The pre-attributed rows of a cluster are attached, or stay to be routed. -/
theorem attaches_intentRows (openGroups : List OpenGroup) (cluster : List ActivityRow)
    (hb : Backed s openGroups) :
    ∃ ids, Attaches ids s (intentRows s openGroups cluster false).2 ∧
      Backed (intentRows s openGroups cluster false).2
        (intentRows s openGroups cluster false).1.1 ∧
      (ids ++ idsOf (intentRows s openGroups cluster false).1.2).Perm (idsOf cluster) := by
  obtain ⟨ids, hintent, hb₁, hp⟩ := attaches_intentSteps (intentOf cluster).entries
    ((openGroups, unattributed cluster), s) hb
  refine ⟨ids, hintent, hb₁, hp.trans (List.perm_append_comm.trans ?_)⟩
  rw [← idsOf_append]
  exact (intentOf_perm cluster).map _

/-- What a cluster has left after its pre-attributed rows is attached. -/
theorem attaches_leftRows (account : String) (w : Pass × InMemoryStore)
    (cluster : List ActivityRow)
    (hb₁ : Backed (intentRows w.2 w.1.openGroups cluster false).2
      (intentRows w.2 w.1.openGroups cluster false).1.1) :
    Attaches (idsOf (intentRows w.2 w.1.openGroups cluster false).1.2)
        (intentRows w.2 w.1.openGroups cluster false).2
        (clusterStep account false w cluster).2 ∧
      Backed (clusterStep account false w cluster).2
        (clusterStep account false w cluster).1.openGroups := by
  unfold clusterStep
  simp only [Bool.false_eq_true, if_false]
  generalize intentRows w.2 w.1.openGroups cluster false = intent at *
  obtain ⟨⟨openGroups, left⟩, s₁⟩ := intent
  simp only [] at *
  split
  · rename_i hempty
    rw [List.isEmpty_iff.mp hempty]
    exact ⟨.nil rfl fun _ h => h, hb₁⟩
  · -- the rest opens a group, then the buckets are applied
    have hopened : Attaches (idsOf (routeCluster openGroups left).rest) s₁
          (restStep s₁ account false { w.1 with openGroups }
            ((routeCluster openGroups left).rest.map ActivityRow.toTxnRow)).2 ∧
        Backed (restStep s₁ account false { w.1 with openGroups }
            ((routeCluster openGroups left).rest.map ActivityRow.toTxnRow)).2
          (restStep s₁ account false { w.1 with openGroups }
            ((routeCluster openGroups left).rest.map ActivityRow.toTxnRow)).1.2.openGroups := by
      rw [← idsOf_eq]
      unfold restStep
      split
      · rename_i hnil
        rw [List.isEmpty_iff.mp hnil]
        exact ⟨.nil rfl fun _ h => h, hb₁⟩
      · simp only [Bool.false_eq_true, if_false]
        exact ⟨attaches_createState s₁ account _,
          (hb₁.mono (keeps_createState s₁ account _)).append (backed_newPk s₁ account _)⟩
    obtain ⟨hrest, hb₂⟩ := hopened
    obtain ⟨hbuckets, hb₃⟩ := attaches_buckets
      (restStep s₁ account false { w.1 with openGroups }
        ((routeCluster openGroups left).rest.map ActivityRow.toTxnRow)).1.1
      ((routeCluster openGroups left).rest.map ActivityRow.toTxnRow)
      (routeCluster openGroups left).buckets
      ((restStep s₁ account false { w.1 with openGroups }
        ((routeCluster openGroups left).rest.map ActivityRow.toTxnRow)).1.2,
        (restStep s₁ account false { w.1 with openGroups }
          ((routeCluster openGroups left).rest.map ActivityRow.toTxnRow)).2)
      hb₂ (Backed.mono (fun g hg => by
        obtain ⟨b, hbmem, rfl⟩ := List.mem_map.mp hg
        exact hb₁ _ (mem_of_mem_buckets openGroups left hbmem)) hrest.keeps)
    refine ⟨(hrest.trans hbuckets).perm ?_, hb₃⟩
    rw [← idsOf_append]
    exact (List.perm_append_comm.trans (routeCluster_perm openGroups left)).map _

/-- A step of the cluster loop attaches the rows of its cluster. -/
theorem attaches_clusterStep (account : String) (w : Pass × InMemoryStore)
    (cluster : List ActivityRow) (hb : Backed w.2 w.1.openGroups) :
    Attaches (idsOf cluster) w.2 (clusterStep account false w cluster).2 ∧
      Backed (clusterStep account false w cluster).2
        (clusterStep account false w cluster).1.openGroups := by
  obtain ⟨ids, hintent, hb₁, hp⟩ := attaches_intentRows w.1.openGroups cluster hb
  obtain ⟨hleft, hb₂⟩ := attaches_leftRows account w cluster hb₁
  exact ⟨(hintent.trans hleft).perm hp, hb₂⟩

theorem attaches_clusterSteps (account : String) (clusters : List (List ActivityRow))
    (w : Pass × InMemoryStore) (hb : Backed w.2 w.1.openGroups) :
    Attaches (idsOf clusters.flatten) w.2 (clusters.foldl (clusterStep account false) w).2 := by
  induction clusters generalizing w with
  | nil => exact .nil rfl fun _ h => h
  | cons cluster clusters ih =>
    obtain ⟨h₁, hb₁⟩ := attaches_clusterStep account w cluster hb
    rw [List.foldl_cons, List.flatten_cons, idsOf_append]
    exact h₁.trans (ih _ hb₁)

variable (s)

/-- **The cluster loop attaches its candidates, and nothing else.** -/
theorem attaches_routeLoop (account : String) (args : ReconcileArgs) (hdry : args.dryRun = false) :
    Attaches (idsOf (candidatesOf s account args)) s (routeLoop s account args).2 := by
  unfold routeLoop
  rw [hdry]
  have hloop := attaches_clusterSteps account (clusterByTime (candidatesOf s account args))
    ({ openGroups := openGroupsOf s account }, s) (backed_openGroupsOf s account)
  refine hloop.perm ?_
  exact (clusterByTime_perm _).map _

end Loop

end TtLedger
