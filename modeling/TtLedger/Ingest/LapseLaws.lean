import TtLedger.Ingest.LinkLaws

/-!
# Laws of lapse synthesis

A settlement is `Due` for an open group and a security the group holds, when the security is past
its gate and its value resolves; `lapseSettlements` returns exactly the rows due
(`mem_lapseSettlements`), each under an identifier of its own (`lapseId_inj`,
`nodup_lapseSettlements`). Writing them puts each row under its identifier with its group
(`txn_upsertTransactions_of_mem`, `values_upsertTransactions_perm`), and applying them attaches
them to the groups they are in already.
-/

namespace TtLedger

variable (s : InMemoryStore)

/-! ## Identifiers -/

/-- The identifier of a settlement row tells its group and its security. -/
theorem lapseId_inj {account : String} {pk pk' : ℕ} {sid sid' : String}
    (h : lapseId account pk sid = lapseId account pk' sid') : pk = pk' ∧ sid = sid' := by
  have hlist : Nat.toDigits 10 pk ++ '-' :: sid.toList =
      Nat.toDigits 10 pk' ++ '-' :: sid'.toList := by
    have h' := congrArg String.toList h
    simpa [lapseId, Nat.toString_eq_repr, Nat.toList_repr] using h'
  have hdigits : ∀ n : ℕ, '-' ∉ Nat.toDigits 10 n := by
    intro n hmem
    have := Nat.isDigit_of_mem_toDigits (by omega) (by omega) hmem
    exact absurd this (by decide)
  obtain ⟨hpk, hsid⟩ := Text.append_sep_inj (hdigits pk) (hdigits pk') hlist
  refine ⟨?_, String.toList_inj.mp hsid⟩
  rw [← @Nat.ofDigitChars_ten_toDigits pk, hpk, Nat.ofDigitChars_ten_toDigits]

/-! ## The rows due -/

theorem nodup_openGroupsOf (account : String) :
    ((openGroupsOf s account).map OpenGroup.pk).Nodup := by
  have hkeys : (s.tradeGroups.values.map TradeGroupRow.groupId).Nodup := by
    have h := s.tradeGroups.keys_nodup
    have heq : (s.tradeGroups.rows.filterMap fun p => TradeGroupRow.key p.2) =
        s.tradeGroups.values.map TradeGroupRow.groupId := by
      simp [Table.values, TradeGroupRow.key, List.map_map]
    rwa [heq] at h
  have hpks : ((s.unifiedTrades { account := some account, status := some .open }).map
      TradeGroupRow.groupId).Nodup := (List.filter_sublist.map _).nodup hkeys
  have heq : (openGroupsOf s account).map OpenGroup.pk =
      ((s.unifiedTrades { account := some account, status := some .open }).map
        TradeGroupRow.groupId).filterMap s.getTradeGroupId := by
    rw [openGroupsOf, List.map_filterMap, List.filterMap_map]
    refine List.filterMap_congr fun tg _ => ?_
    rw [Function.comp_apply]
    cases s.getTradeGroupId tg.groupId <;> rfl
  rw [heq]
  refine List.Nodup.filterMap ?_ hpks
  -- one row cannot have two identifiers
  intro k k' pk hk hk'
  obtain ⟨r, hr, hrk⟩ := Table.idOf_eq_some.mp hk
  obtain ⟨r', hr', hrk'⟩ := Table.idOf_eq_some.mp hk'
  have hrr : r = r' := congrArg Prod.snd (Table.eq_of_mem_of_id hr hr' rfl)
  rw [hrr, hrk'] at hrk
  exact (Option.some.inj hrk).symm

theorem mem_openGroupsOf {account : String} {g : OpenGroup} :
    g ∈ openGroupsOf s account ↔
      (∃ tg, s.getTradeGroupById g.pk = some tg ∧ tg.account = account ∧ tg.status = .open) ∧
        g.rows = s.getGroupTransactions g.pk := by
  rw [openGroupsOf, List.mem_filterMap]
  constructor
  · rintro ⟨tg, htg, hg⟩
    obtain ⟨pk, hpk, rfl⟩ := Option.map_eq_some_iff.mp hg
    rw [InMemoryStore.unifiedTrades, List.mem_filter] at htg
    obtain ⟨row, hrow, hkey⟩ := Table.idOf_eq_some.mp hpk
    -- the row under the id of the key is the trade itself
    obtain ⟨i, hi⟩ := Table.mem_values.mp htg.1
    have heq : (pk, row) = (i, tg) :=
      Table.eq_of_mem_of_key hrow (Table.get_eq_some.mp hi) hkey rfl
    obtain ⟨rfl, rfl⟩ := Prod.mk.inj heq
    refine ⟨⟨row, hi, ?_⟩, rfl⟩
    have := htg.2
    simp only [Option.all_some, Option.all_none, Bool.and_eq_true, decide_eq_true_eq] at this
    exact ⟨this.1.1.2, this.1.1.1.2⟩
  · rintro ⟨⟨tg, htg, hacc, hstatus⟩, hrows⟩
    refine ⟨tg, ?_, ?_⟩
    · rw [InMemoryStore.unifiedTrades, List.mem_filter]
      refine ⟨Table.mem_values.mpr ⟨_, htg⟩, ?_⟩
      simp [hacc, hstatus]
    · have hpk : s.getTradeGroupId tg.groupId = some g.pk :=
        Table.idOf_eq_some.mpr ⟨tg, Table.get_eq_some.mp htg, rfl⟩
      rw [hpk, Option.map_some, ← hrows]

/-- The open groups by their keys. -/
theorem mem_pks_openGroupsOf {account : String} {pk : ℕ} :
    pk ∈ (openGroupsOf s account).map OpenGroup.pk ↔
      ∃ tg, s.getTradeGroupById pk = some tg ∧ tg.account = account ∧ tg.status = .open := by
  rw [List.mem_map]
  constructor
  · rintro ⟨g, hg, rfl⟩
    exact ((mem_openGroupsOf s).mp hg).1
  · intro h
    exact ⟨⟨pk, s.getGroupTransactions pk⟩, (mem_openGroupsOf s).mpr ⟨h, rfl⟩, rfl⟩

theorem mem_heldSecurities {openGroups : List OpenGroup} {sid : String} :
    sid ∈ heldSecurities openGroups ↔ ∃ g ∈ openGroups, netIn g.rows sid ≠ 0 := by
  have hnet : ∀ g : OpenGroup, (sid ∈ ((netQuantities g.rows).entries.filter
      fun e => e.2 ≠ 0).map Prod.fst) ↔ netIn g.rows sid ≠ 0 := by
    intro g
    rw [netIn]
    cases hget : (netQuantities g.rows).get? sid with
    | none =>
      simp only [Option.getD_none, ne_eq, not_true_eq_false, iff_false]
      intro hmem
      obtain ⟨e, he, rfl⟩ := List.mem_map.mp hmem
      rw [Dict.get?_eq_some.mpr (show (e.1, e.2) ∈ _ from List.mem_of_mem_filter he)] at hget
      cases hget
    | some q =>
      simp only [Option.getD_some]
      constructor
      · intro hmem
        obtain ⟨e, he, rfl⟩ := List.mem_map.mp hmem
        have hmem := (List.mem_filter.mp he).1
        rw [Dict.get?_eq_some.mpr (show (e.1, e.2) ∈ _ from hmem)] at hget
        obtain rfl := Option.some.inj hget
        simpa using (List.mem_filter.mp he).2
      · intro hq
        exact List.mem_map.mpr ⟨(sid, q),
          List.mem_filter.mpr ⟨Dict.get?_eq_some.mp hget, by simpa using hq⟩, rfl⟩
  rw [heldSecurities, mem_sortOn, List.mem_eraseDups, List.mem_flatMap]
  simp only [hnet]

theorem nodup_heldSecurities (openGroups : List OpenGroup) : (heldSecurities openGroups).Nodup :=
  (perm_sortOn _ _).nodup_iff.mpr (nodup_eraseDups _)

theorem mem_lapseRows {account sid : String} {sec : SecurityRow} {expiry : Date} {points : ℚ}
    {openGroups : List OpenGroup} {r : TxnRow} :
    r ∈ lapseRows account sid sec expiry points openGroups ↔
      ∃ g ∈ openGroups, netIn g.rows sid ≠ 0 ∧
        r = lapseRow account sid sec expiry points g.pk (netIn g.rows sid) := by
  simp only [lapseRows, List.mem_filterMap, mem_sortOn]
  constructor
  · rintro ⟨g, hg, h⟩
    split at h
    · cases h
    · rename_i hne
      exact ⟨g, hg, hne, (Option.some.inj h).symm⟩
  · rintro ⟨g, hg, hne, rfl⟩
    exact ⟨g, hg, by rw [if_neg hne]⟩

/-- A security is due at a price: it is known, past the gate, and its value resolves. -/
structure Lapses (account : String) (args : ReconcileArgs) (sid : String) (sec : SecurityRow)
    (expiry : Date) (points : ℚ) : Prop where
  security : s.getSecurity sid = some sec
  gate : ∃ last, lastActivity s account = some last ∧ lapsedExpiry args last sec = some expiry
  resolves : settlePointsOf args sec sid expiry = .ok (some points)

/-- The settlement row due for an open group in a security. -/
def Due (account : String) (args : ReconcileArgs) (g : OpenGroup) (sid : String) (r : TxnRow) :
    Prop :=
  g ∈ openGroupsOf s account ∧ netIn g.rows sid ≠ 0 ∧
    ∃ sec expiry points, Lapses s account args sid sec expiry points ∧
      r = lapseRow account sid sec expiry points g.pk (netIn g.rows sid)

/-- A security is due at one price only. -/
theorem Lapses.unique {account : String} {args : ReconcileArgs} {sid : String}
    {sec sec' : SecurityRow} {expiry expiry' : Date} {points points' : ℚ}
    (h : Lapses s account args sid sec expiry points)
    (h' : Lapses s account args sid sec' expiry' points') :
    sec = sec' ∧ expiry = expiry' ∧ points = points' := by
  obtain ⟨last, hlast, hexp⟩ := h.gate
  obtain ⟨last', hlast', hexp'⟩ := h'.gate
  obtain rfl := Option.some.inj (hlast.symm.trans hlast')
  obtain rfl := Option.some.inj (h.security.symm.trans h'.security)
  obtain rfl := Option.some.inj (hexp.symm.trans hexp')
  have hp := Except.ok.inj (h.resolves.symm.trans h'.resolves)
  exact ⟨rfl, rfl, Option.some.inj hp⟩

/-- The rows due in one security: none unless it lapses, and then one for each group holding it. -/
theorem securityLapse_ok {account : String} {args : ReconcileArgs} {last : Datetime}
    (hlast : lastActivity s account = some last) {openGroups : List OpenGroup} {sid : String}
    {rows : List TxnRow} (h : securityLapse s args account last openGroups sid = .ok rows) :
    (rows = [] ∧ ∀ sec expiry points, ¬Lapses s account args sid sec expiry points) ∨
      ∃ sec expiry points, Lapses s account args sid sec expiry points ∧
        rows = lapseRows account sid sec expiry points openGroups := by
  unfold securityLapse at h
  cases hsec : s.getSecurity sid with
  | none =>
    rw [hsec] at h
    refine Or.inl ⟨(Except.ok.inj h).symm, fun sec expiry points hl => ?_⟩
    rw [hl.security] at hsec
    cases hsec
  | some sec =>
    rw [hsec] at h
    simp only [] at h
    cases hexp : lapsedExpiry args last sec with
    | none =>
      rw [hexp] at h
      refine Or.inl ⟨(Except.ok.inj h).symm, fun sec' expiry points hl => ?_⟩
      obtain ⟨last', hlast', hexp'⟩ := hl.gate
      obtain rfl := Option.some.inj (hl.security.symm.trans hsec)
      obtain rfl := Option.some.inj (hlast'.symm.trans hlast)
      rw [hexp'] at hexp
      cases hexp
    | some expiry =>
      rw [hexp] at h
      simp only [] at h
      cases hpoints : settlePointsOf args sec sid expiry with
      | error e =>
        rw [hpoints] at h
        cases h
      | ok points =>
        rw [hpoints] at h
        cases points with
        | none =>
          refine Or.inl ⟨(Except.ok.inj h).symm, fun sec' expiry' points hl => ?_⟩
          obtain ⟨last', hlast', hexp'⟩ := hl.gate
          obtain rfl := Option.some.inj (hl.security.symm.trans hsec)
          obtain rfl := Option.some.inj (hlast'.symm.trans hlast)
          obtain rfl := Option.some.inj (hexp'.symm.trans hexp)
          have := Except.ok.inj (hl.resolves.symm.trans hpoints)
          cases this
        | some points =>
          exact Or.inr ⟨sec, expiry, points, ⟨hsec, ⟨last, hlast, hexp⟩, hpoints⟩,
            (Except.ok.inj h).symm⟩

theorem mem_securityLapse {account : String} {args : ReconcileArgs} {last : Datetime}
    (hlast : lastActivity s account = some last) {openGroups : List OpenGroup} {sid : String}
    {rows : List TxnRow} (h : securityLapse s args account last openGroups sid = .ok rows)
    {r : TxnRow} :
    r ∈ rows ↔ ∃ sec expiry points, Lapses s account args sid sec expiry points ∧
      r ∈ lapseRows account sid sec expiry points openGroups := by
  rcases securityLapse_ok s hlast h with ⟨rfl, hnone⟩ | ⟨sec, expiry, points, hl, rfl⟩
  · refine ⟨fun hr => (List.not_mem_nil hr).elim, ?_⟩
    rintro ⟨sec, expiry, points, hl, -⟩
    exact absurd hl (hnone sec expiry points)
  · refine ⟨fun hr => ⟨sec, expiry, points, hl, hr⟩, ?_⟩
    rintro ⟨sec', expiry', points', hl', hr⟩
    obtain ⟨rfl, rfl, rfl⟩ := hl.unique s hl'
    exact hr

theorem mem_securitiesLapse {account : String} {args : ReconcileArgs} {last : Datetime}
    (hlast : lastActivity s account = some last) {openGroups : List OpenGroup}
    {sids : List String} {rows : List TxnRow}
    (h : securitiesLapse s args account last openGroups sids = .ok rows) {r : TxnRow} :
    r ∈ rows ↔ ∃ sid ∈ sids, ∃ sec expiry points, Lapses s account args sid sec expiry points ∧
      r ∈ lapseRows account sid sec expiry points openGroups := by
  induction sids generalizing rows with
  | nil =>
    obtain rfl := Except.ok.inj h
    simp
  | cons sid sids ih =>
    unfold securitiesLapse at h
    cases hone : securityLapse s args account last openGroups sid with
    | error e =>
      rw [hone] at h
      cases h
    | ok first =>
      rw [hone] at h
      cases hmore : securitiesLapse s args account last openGroups sids with
      | error e =>
        rw [hmore] at h
        cases h
      | ok more =>
        rw [hmore] at h
        obtain rfl := Except.ok.inj h
        rw [List.mem_append, mem_securityLapse s hlast hone, ih hmore]
        simp

/-- **The rows the lapse step writes are the rows due.** -/
theorem mem_lapseSettlements {account : String} {args : ReconcileArgs} {rows : List TxnRow}
    (h : lapseSettlements s account args = .ok rows) {r : TxnRow} :
    r ∈ rows ↔ ∃ g sid, Due s account args g sid r := by
  unfold lapseSettlements at h
  cases hlast : lastActivity s account with
  | none =>
    rw [hlast] at h
    obtain rfl := Except.ok.inj h
    refine ⟨fun hr => (List.not_mem_nil hr).elim, ?_⟩
    rintro ⟨g, sid, -, -, sec, expiry, points, hl, -⟩
    obtain ⟨last, hlast', -⟩ := hl.gate
    rw [hlast'] at hlast
    cases hlast
  | some last =>
    rw [hlast] at h
    simp only [] at h
    rw [mem_securitiesLapse s hlast h]
    constructor
    · rintro ⟨sid, -, sec, expiry, points, hl, hr⟩
      obtain ⟨g, hg, hne, rfl⟩ := mem_lapseRows.mp hr
      exact ⟨g, sid, hg, hne, sec, expiry, points, hl, rfl⟩
    · rintro ⟨g, sid, hg, hne, sec, expiry, points, hl, rfl⟩
      exact ⟨sid, mem_heldSecurities.mpr ⟨g, hg, hne⟩, sec, expiry, points, hl,
        mem_lapseRows.mpr ⟨g, hg, hne, rfl⟩⟩

theorem nodup_lapseRows {account sid : String} {sec : SecurityRow} {expiry : Date} {points : ℚ}
    {openGroups : List OpenGroup} (hpks : (openGroups.map OpenGroup.pk).Nodup) :
    ((lapseRows account sid sec expiry points openGroups).map TxnRow.ttTransactionId).Nodup := by
  have hids : ((lapseRows account sid sec expiry points openGroups).map
      TxnRow.ttTransactionId).Sublist
      (((sortOn OpenGroup.pk openGroups).map OpenGroup.pk).map fun pk =>
        lapseId account pk sid) := by
    unfold lapseRows
    induction sortOn OpenGroup.pk openGroups with
    | nil => simp
    | cons g l ih =>
      rw [List.filterMap_cons, List.map_cons, List.map_cons]
      split
      · exact ih.cons _
      · rename_i r hr
        simp only [] at hr
        split at hr
        · cases hr
        · obtain rfl := Option.some.inj hr
          exact ih.cons_cons _
  refine hids.nodup (List.Nodup.map (fun pk pk' h => (lapseId_inj h).1) ?_)
  exact ((perm_sortOn _ _).map _).nodup_iff.mpr hpks

theorem nodup_securitiesLapse {account : String} {args : ReconcileArgs} {last : Datetime}
    (hlast : lastActivity s account = some last) {openGroups : List OpenGroup}
    (hpks : (openGroups.map OpenGroup.pk).Nodup) {sids : List String} (hsids : sids.Nodup)
    {rows : List TxnRow} (h : securitiesLapse s args account last openGroups sids = .ok rows) :
    (rows.map TxnRow.ttTransactionId).Nodup := by
  induction sids generalizing rows with
  | nil =>
    obtain rfl := Except.ok.inj h
    simp
  | cons sid sids ih =>
    obtain ⟨hsid, hsids⟩ := List.nodup_cons.mp hsids
    unfold securitiesLapse at h
    cases hone : securityLapse s args account last openGroups sid with
    | error e =>
      rw [hone] at h
      cases h
    | ok first =>
      rw [hone] at h
      cases hmore : securitiesLapse s args account last openGroups sids with
      | error e =>
        rw [hmore] at h
        cases h
      | ok more =>
        rw [hmore] at h
        obtain rfl := Except.ok.inj h
        rw [List.map_append, List.nodup_append]
        refine ⟨?_, ih hsids hmore, ?_⟩
        · -- the rows of one security differ in their groups
          rcases securityLapse_ok s hlast hone with ⟨rfl, -⟩ | ⟨sec, expiry, points, -, rfl⟩
          · simp
          · exact nodup_lapseRows hpks
        · -- rows of different securities have different identifiers
          intro id hid id' hid' heq
          obtain ⟨r, hr, rfl⟩ := List.mem_map.mp hid
          obtain ⟨r', hr', rfl⟩ := List.mem_map.mp hid'
          obtain ⟨sec, expiry, points, -, hrow⟩ := (mem_securityLapse s hlast hone).mp hr
          obtain ⟨sid', hmem, sec', expiry', points', -, hrow'⟩ :=
            (mem_securitiesLapse s hlast hmore).mp hr'
          obtain ⟨g, -, -, rfl⟩ := mem_lapseRows.mp hrow
          obtain ⟨g', -, -, rfl⟩ := mem_lapseRows.mp hrow'
          obtain ⟨-, rfl⟩ := lapseId_inj heq
          exact hsid hmem

theorem nodup_lapseSettlements {account : String} {args : ReconcileArgs} {rows : List TxnRow}
    (h : lapseSettlements s account args = .ok rows) :
    (rows.map TxnRow.ttTransactionId).Nodup := by
  unfold lapseSettlements at h
  cases hlast : lastActivity s account with
  | none =>
    rw [hlast] at h
    obtain rfl := Except.ok.inj h
    simp
  | some last =>
    rw [hlast] at h
    exact nodup_securitiesLapse s hlast (nodup_openGroupsOf s account) (nodup_heldSecurities _) h

/-! ## The links change nothing that is due -/

/-- What is due depends on the books of the open groups only. -/
theorem lapseRows_map {f : OpenGroup → OpenGroup} (hpk : ∀ g, (f g).pk = g.pk)
    (hbook : ∀ g, SameBook (f g).rows g.rows) (account sid : String) (sec : SecurityRow)
    (expiry : Date) (points : ℚ) (openGroups : List OpenGroup) :
    lapseRows account sid sec expiry points (openGroups.map f) =
      lapseRows account sid sec expiry points openGroups := by
  unfold lapseRows
  rw [sortOn_map, List.filterMap_map]
  simp only [Function.comp_def, hpk, (hbook _).netIn_eq]

theorem securitiesLapse_map {f : OpenGroup → OpenGroup} (hpk : ∀ g, (f g).pk = g.pk)
    (hbook : ∀ g, SameBook (f g).rows g.rows) (account : String) (args : ReconcileArgs)
    (last : Datetime) (openGroups : List OpenGroup) (sids : List String) :
    securitiesLapse s args account last (openGroups.map f) sids =
      securitiesLapse s args account last openGroups sids := by
  induction sids with
  | nil => rfl
  | cons sid sids ih =>
    unfold securitiesLapse
    rw [ih]
    unfold securityLapse
    simp only [lapseRows_map hpk hbook]

theorem heldSecurities_map {f : OpenGroup → OpenGroup}
    (hbook : ∀ g, SameBook (f g).rows g.rows) (openGroups : List OpenGroup) :
    heldSecurities (openGroups.map f) = heldSecurities openGroups := by
  unfold heldSecurities
  rw [List.flatMap_map]
  simp only [(hbook _).netQuantities_eq]

theorem securitiesLapse_congr {s s' : InMemoryStore} (hs : s'.securities = s.securities)
    (account : String) (args : ReconcileArgs) (last : Datetime) (openGroups : List OpenGroup)
    (sids : List String) :
    securitiesLapse s' args account last openGroups sids =
      securitiesLapse s args account last openGroups sids := by
  have hsec : ∀ sid, s'.getSecurity sid = s.getSecurity sid := fun sid => by
    rw [InMemoryStore.getSecurity, hs, InMemoryStore.getSecurity]
  induction sids with
  | nil => rfl
  | cons sid sids ih =>
    unfold securitiesLapse
    rw [ih, securityLapse, hsec, ← securityLapse]

/-- The settlement rows due after the links are those due before. -/
theorem lapseSettlements_linked (account account' : String) (args : ReconcileArgs) :
    lapseSettlements (linked s account) account' args = lapseSettlements s account' args := by
  unfold lapseSettlements
  rw [lastActivity_linked, openGroupsOf_linked]
  have hbook : ∀ g : OpenGroup,
      SameBook (⟨g.pk, g.rows.map (linkRow s account)⟩ : OpenGroup).rows g.rows :=
    fun g => sameBook_linkRow s account g.rows
  rw [@heldSecurities_map (fun g => ⟨g.pk, g.rows.map (linkRow s account)⟩) hbook]
  cases lastActivity s account' with
  | none => rfl
  | some last =>
    show securitiesLapse (linked s account) args account' last _ _ = _
    rw [@securitiesLapse_map (linked s account)
        (fun g => ⟨g.pk, g.rows.map (linkRow s account)⟩) (fun _ => rfl) hbook,
      securitiesLapse_congr (securities_linked s account)]

/-! ## Writing the rows -/

/-- What an upsert writes for a row. -/
def written (r : TxnRow) : TxnRow :=
  match s.txn r.ttTransactionId with
  | some existing => InMemoryStore.preserveTransaction existing r
  | none => r

@[simp] theorem written_id (r : TxnRow) : (written s r).ttTransactionId = r.ttTransactionId := by
  unfold written
  split <;> rfl

@[simp] theorem written_book (r : TxnRow) : (written s r).book = r.book := by
  unfold written
  split <;> rfl

theorem written_group {r : TxnRow} (h : r.tradeGroupId.isSome = true) :
    (written s r).tradeGroupId = r.tradeGroupId := by
  obtain ⟨pk, hpk⟩ := Option.isSome_iff_exists.mp h
  unfold written
  split
  · rw [InMemoryStore.preserveTransaction, hpk]
    rfl
  · rfl

theorem txn_upsertTransaction (r : TxnRow) (id : String) :
    (s.upsertTransaction r).txn id =
      if id = r.ttTransactionId then some (written s r) else s.txn id := by
  have hrow : (s.upsertTransaction r).transactions = (s.transactions.upsert (written s r)).2 := rfl
  have hkey : (written s r).key = some r.ttTransactionId := by rw [TxnRow.key, written_id]
  rw [InMemoryStore.txn, hrow, Table.getByKey_upsert _ _ hkey, InMemoryStore.txn]

theorem txn_upsertTransactions_of_notMem {rows : List TxnRow} {id : String}
    (h : id ∉ rows.map TxnRow.ttTransactionId) :
    (s.upsertTransactions rows).txn id = s.txn id := by
  unfold InMemoryStore.upsertTransactions
  induction rows generalizing s with
  | nil => rfl
  | cons r rows ih =>
    rw [List.map_cons, List.mem_cons, not_or] at h
    rw [List.foldl_cons, ih _ h.2, txn_upsertTransaction, if_neg h.1]

/-- Each row is stored under its identifier, with the links it had there. -/
theorem txn_upsertTransactions_of_mem {rows : List TxnRow}
    (hnd : (rows.map TxnRow.ttTransactionId).Nodup) {r : TxnRow} (hr : r ∈ rows) :
    (s.upsertTransactions rows).txn r.ttTransactionId = some (written s r) := by
  induction rows generalizing s with
  | nil => cases hr
  | cons r' rows ih =>
    rw [List.map_cons, List.nodup_cons] at hnd
    show ((s.upsertTransaction r').upsertTransactions rows).txn r.ttTransactionId = _
    rcases List.mem_cons.mp hr with rfl | hr
    · rw [txn_upsertTransactions_of_notMem _ hnd.1, txn_upsertTransaction, if_pos rfl]
    · have hne : r.ttTransactionId ≠ r'.ttTransactionId := fun heq =>
        hnd.1 (heq ▸ List.mem_map_of_mem hr)
      rw [ih _ hnd.2 hr]
      unfold written
      rw [txn_upsertTransaction, if_neg hne]

/-- The transactions after an upsert: those not written over, and the rows. -/
theorem values_upsertTransactions_perm {rows : List TxnRow}
    (hnd : (rows.map TxnRow.ttTransactionId).Nodup) :
    ((s.upsertTransactions rows).transactions.values.map TxnRow.book).Perm
      ((s.transactions.values.filter fun r =>
          r.ttTransactionId ∉ rows.map TxnRow.ttTransactionId).map TxnRow.book ++
        rows.map TxnRow.book) := by
  rw [← List.map_append]
  refine (List.perm_ext_iff_of_nodup ?_ ?_).mpr ?_
  · exact InMemoryStore.nodup_map_book (InMemoryStore.nodup_ids _)
  · refine InMemoryStore.nodup_map_book ?_
    rw [List.map_append, List.nodup_append]
    refine ⟨(List.filter_sublist.map _).nodup s.nodup_ids, hnd, ?_⟩
    intro id hid id' hid' heq
    obtain ⟨r, hr, rfl⟩ := List.mem_map.mp hid
    have hnot : r.ttTransactionId ∉ rows.map TxnRow.ttTransactionId := by
      simpa using (List.mem_filter.mp hr).2
    exact hnot (heq ▸ hid')
  · intro b
    simp only [List.mem_map, List.mem_append, List.mem_filter, decide_eq_true_eq]
    constructor
    · rintro ⟨m, hm, rfl⟩
      rw [InMemoryStore.mem_values_iff_txn] at hm
      by_cases hmem : m.ttTransactionId ∈ rows.map TxnRow.ttTransactionId
      · obtain ⟨r, hr, hid⟩ := List.mem_map.mp hmem
        have hw := txn_upsertTransactions_of_mem s hnd hr
        rw [hid, hm] at hw
        exact ⟨r, Or.inr hr, by rw [Option.some.inj hw, written_book]⟩
      · rw [txn_upsertTransactions_of_notMem s hmem] at hm
        exact ⟨m, Or.inl ⟨s.mem_values_iff_txn.mpr hm, by simpa using hmem⟩, rfl⟩
    · rintro ⟨r, hr | hr, rfl⟩
      · have hnot : r.ttTransactionId ∉ rows.map TxnRow.ttTransactionId := by simpa using hr.2
        refine ⟨r, (InMemoryStore.mem_values_iff_txn _).mpr ?_, rfl⟩
        rw [txn_upsertTransactions_of_notMem s hnot, s.mem_values_iff_txn.mp hr.1]
      · refine ⟨written s r, (InMemoryStore.mem_values_iff_txn _).mpr ?_, written_book s r⟩
        rw [written_id]
        exact txn_upsertTransactions_of_mem s hnd hr

/-- Rows under identifiers that nothing has yet are added at the end. -/
theorem values_upsertTransactions_of_fresh {rows : List TxnRow}
    (hnd : (rows.map TxnRow.ttTransactionId).Nodup)
    (hfresh : ∀ r ∈ rows, s.txn r.ttTransactionId = none) :
    (s.upsertTransactions rows).transactions.values = s.transactions.values ++ rows := by
  induction rows generalizing s with
  | nil => simp [InMemoryStore.upsertTransactions]
  | cons r rows ih =>
    rw [List.map_cons, List.nodup_cons] at hnd
    have hnone : s.transactions.getByKey r.ttTransactionId = none := hfresh r List.mem_cons_self
    have hnew : (TxnRow.key r).bind s.transactions.idOf = none := by
      have hid := @Table.isSome_idOf _ _ _ s.transactions _ r.ttTransactionId
      rw [hnone] at hid
      simpa [TxnRow.key] using hid
    have hhead : (s.upsertTransaction r).transactions.values = s.transactions.values ++ [r] := by
      rw [InMemoryStore.upsertTransaction, hnone]
      exact Table.values_upsert_of_new hnew
    have hrest : ∀ r' ∈ rows, (s.upsertTransaction r).txn r'.ttTransactionId = none := by
      intro r' hr'
      rw [txn_upsertTransaction, if_neg, hfresh r' (List.mem_cons_of_mem _ hr')]
      intro heq
      exact hnd.1 (heq ▸ List.mem_map_of_mem hr')
    show ((s.upsertTransaction r).upsertTransactions rows).transactions.values = _
    rw [ih _ hnd.2 hrest, hhead, List.append_assoc, List.singleton_append]

/-! ## Applying the rows -/

/-- Attaching rows to the group they are in changes nothing. -/
theorem attached_of_held {ids : List String} {pk : ℕ}
    (h : ∀ id ∈ ids, ∀ t, s.txn id = some t → t.tradeGroupId = some pk) :
    s.attached ids pk = s := by
  have hid := Table.modify_id s.transactions
    (fun txn => if txn.ttTransactionId ∈ ids then { txn with tradeGroupId := some pk } else txn)
    (fun txn => by split <;> rfl) (fun r hr => by
      split
      · rename_i hmem
        have := h _ hmem r (s.mem_values_iff_txn.mp hr)
        rw [← this]
      · rfl)
  show { s with transactions := _ } = s
  rw [hid]

/-- The rows of a list that are for a group. -/
def ownRows (rows : List TxnRow) (g : OpenGroup) : List TxnRow :=
  rows.filter fun r => r.tradeGroupId = some g.pk

/-- The settlement rows close the group: some are new to it, and with them it is fully closed. -/
def Closes (rows : List TxnRow) (g : OpenGroup) : Prop :=
  g.newRows (ownRows rows g) ≠ [] ∧ fullyClosed (g.extendUnique (ownRows rows g)).rows = true

instance (rows : List TxnRow) (g : OpenGroup) : Decidable (Closes rows g) :=
  inferInstanceAs (Decidable (_ ∧ _))

/-- The rows are stored in their groups. -/
def Stored (rows : List TxnRow) : Prop :=
  ∀ r ∈ rows, ∀ t, s.txn r.ttTransactionId = some t → t.tradeGroupId = r.tradeGroupId

theorem stored_upsertTransactions {rows : List TxnRow}
    (hnd : (rows.map TxnRow.ttTransactionId).Nodup)
    (hg : ∀ r ∈ rows, r.tradeGroupId.isSome = true) : Stored (s.upsertTransactions rows) rows := by
  intro r hr t ht
  rw [txn_upsertTransactions_of_mem s hnd hr] at ht
  obtain rfl := Option.some.inj ht
  exact written_group s (hg r hr)

section LapseStep

variable {rows : List TxnRow} (g : OpenGroup)

theorem transactions_lapseStep {s : InMemoryStore} (h : Stored s rows) :
    (lapseStep rows s g).transactions = s.transactions := by
  unfold lapseStep
  simp only []
  split
  · rfl
  · rw [transactions_exitState, attached_of_held]
    intro id hid t ht
    obtain ⟨r, hr, rfl⟩ := List.mem_map.mp hid
    have hown : r.tradeGroupId = some g.pk := by simpa using (List.mem_filter.mp hr).2
    rw [h r (List.mem_of_mem_filter hr) t ht, hown]

@[simp] theorem securities_lapseStep : (lapseStep rows s g).securities = s.securities := by
  unfold lapseStep
  simp only []
  split
  · rfl
  · exact securities_exitState _ _ _ _ _

@[simp] theorem orders_lapseStep : (lapseStep rows s g).orders = s.orders := by
  unfold lapseStep
  simp only []
  split
  · rfl
  · exact orders_exitState _ _ _ _ _

/-- The row of a group after its settlement rows are applied: stamped when they close it. -/
theorem getTradeGroupById_lapseStep (pk : ℕ) :
    (lapseStep rows s g).getTradeGroupById pk =
      if pk = g.pk ∧ Closes rows g then
        (s.getTradeGroupById pk).map fun tg =>
          stamp tg (g.extendUnique (ownRows rows g)).rows
            (lastExecutedAt (g.newRows (ownRows rows g)))
            (realizedOf s.getSecurity (g.extendUnique (ownRows rows g)).rows)
      else s.getTradeGroupById pk := by
  unfold lapseStep
  simp only []
  split
  · rename_i hempty
    have hown : ownRows rows g = [] := List.isEmpty_iff.mp hempty
    rw [if_neg]
    intro hcl
    exact hcl.2.1 (by rw [hown]; rfl)
  · rw [getTradeGroupById_exitState]
    rfl

theorem Stored.congr {s' : InMemoryStore} (h : Stored s rows)
    (ht : s'.transactions = s.transactions) : Stored s' rows := by
  intro r hr t hrt
  rw [InMemoryStore.txn, ht] at hrt
  exact h r hr t hrt

theorem transactions_lapseSteps {s : InMemoryStore} (h : Stored s rows) (groups : List OpenGroup) :
    (groups.foldl (lapseStep rows) s).transactions = s.transactions := by
  induction groups generalizing s with
  | nil => rfl
  | cons g groups ih =>
    have hone := transactions_lapseStep g h
    rw [List.foldl_cons, ih (h.congr s hone), hone]

@[simp] theorem securities_lapseSteps (groups : List OpenGroup) :
    (groups.foldl (lapseStep rows) s).securities = s.securities := by
  induction groups generalizing s with
  | nil => rfl
  | cons g groups ih => rw [List.foldl_cons, ih, securities_lapseStep]

@[simp] theorem orders_lapseSteps (groups : List OpenGroup) :
    (groups.foldl (lapseStep rows) s).orders = s.orders := by
  induction groups generalizing s with
  | nil => rfl
  | cons g groups ih => rw [List.foldl_cons, ih, orders_lapseStep]

/-- The rows of the groups after the settlement rows are applied. -/
theorem getTradeGroupById_lapseSteps {groups : List OpenGroup}
    (hpks : (groups.map OpenGroup.pk).Nodup) (pk : ℕ) :
    (∀ g ∈ groups, g.pk = pk → ¬Closes rows g) ∧
        (groups.foldl (lapseStep rows) s).getTradeGroupById pk = s.getTradeGroupById pk ∨
      ∃ g ∈ groups, g.pk = pk ∧ Closes rows g ∧
        (groups.foldl (lapseStep rows) s).getTradeGroupById pk =
          (s.getTradeGroupById pk).map fun tg =>
            stamp tg (g.extendUnique (ownRows rows g)).rows
              (lastExecutedAt (g.newRows (ownRows rows g)))
              (realizedOf s.getSecurity (g.extendUnique (ownRows rows g)).rows) := by
  induction groups generalizing s with
  | nil => exact Or.inl ⟨fun g hg => (List.not_mem_nil hg).elim, rfl⟩
  | cons g groups ih =>
    rw [List.map_cons, List.nodup_cons] at hpks
    have hsec : (lapseStep rows s g).getSecurity = s.getSecurity := by
      funext sid
      rw [InMemoryStore.getSecurity, securities_lapseStep, InMemoryStore.getSecurity]
    have hone := @getTradeGroupById_lapseStep s rows g pk
    rw [List.foldl_cons]
    by_cases hpk : pk = g.pk
    · -- no later group has this key
      have hlater : ∀ g' ∈ groups, g'.pk ≠ pk := fun g' hg' heq =>
        hpks.1 (List.mem_map.mpr ⟨g', hg', heq.trans hpk⟩)
      rcases ih (lapseStep rows s g) hpks.2 with ⟨-, heq⟩ | ⟨g', hg', heq, -⟩
      · by_cases hcl : Closes rows g
        · rw [if_pos ⟨hpk, hcl⟩] at hone
          exact Or.inr ⟨g, by simp, hpk.symm, hcl, by rw [heq, hone]⟩
        · rw [if_neg (fun h => hcl h.2)] at hone
          refine Or.inl ⟨?_, by rw [heq, hone]⟩
          intro g' hg' hg'pk
          rcases List.mem_cons.mp hg' with rfl | hg'
          · exact hcl
          · exact absurd hg'pk (hlater g' hg')
      · exact absurd heq (hlater g' hg')
    · rw [if_neg (fun h => hpk h.1)] at hone
      rcases ih (lapseStep rows s g) hpks.2 with ⟨hnone, heq⟩ | ⟨g', hg', hg'pk, hcl, heq⟩
      · refine Or.inl ⟨?_, by rw [heq, hone]⟩
        intro g' hg' hg'pk
        rcases List.mem_cons.mp hg' with rfl | hg'
        · exact absurd hg'pk.symm hpk
        · exact hnone g' hg' hg'pk
      · refine Or.inr ⟨g', .tail _ hg', hg'pk, hcl, ?_⟩
        rw [heq, hone, hsec]

end LapseStep

/-! ## The lapse step -/

theorem due_group {account : String} {args : ReconcileArgs} {g : OpenGroup} {sid : String}
    {r : TxnRow} (h : Due s account args g sid r) :
    r.tradeGroupId = some g.pk ∧ r.ttTransactionId = lapseId account g.pk sid := by
  obtain ⟨-, -, sec, expiry, points, -, rfl⟩ := h
  exact ⟨rfl, rfl⟩

theorem isSome_group_of_lapse {account : String} {args : ReconcileArgs} {rows : List TxnRow}
    (h : lapseSettlements s account args = .ok rows) :
    ∀ r ∈ rows, r.tradeGroupId.isSome = true := by
  intro r hr
  obtain ⟨g, sid, hdue⟩ := (mem_lapseSettlements s h).mp hr
  rw [(due_group s hdue).1]
  rfl

/-- **The lapse step writes the rows due and changes no other transaction.** -/
theorem transactions_lapsed {account : String} {args : ReconcileArgs} {rows : List TxnRow}
    (h : lapseSettlements s account args = .ok rows) :
    (lapsed s account false rows).transactions = (s.upsertTransactions rows).transactions := by
  unfold lapsed
  split
  · rename_i hskip
    have hnil : rows = [] := by simpa using hskip
    rw [hnil]
    rfl
  · exact transactions_lapseSteps (stored_upsertTransactions s (nodup_lapseSettlements s h)
      (isSome_group_of_lapse s h)) _

@[simp] theorem securities_lapsed (account : String) (dryRun : Bool) (rows : List TxnRow) :
    (lapsed s account dryRun rows).securities = s.securities := by
  unfold lapsed
  split
  · rfl
  · simp

@[simp] theorem orders_lapsed (account : String) (dryRun : Bool) (rows : List TxnRow) :
    (lapsed s account dryRun rows).orders = s.orders := by
  unfold lapsed
  split
  · rfl
  · simp

end TtLedger
