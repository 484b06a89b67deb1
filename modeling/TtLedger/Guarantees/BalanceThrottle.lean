import TtLedger.Ingest.Balances

/-!
# No material balance is dropped

For each account the consumer keeps the messages a throttle keeps (`FollowsThrottle`): what it
recorded are their snapshots, and what it remembers is the last of them. So the newest snapshot it
has recorded for an account always has the value of the account's last message, a message with
another value is recorded, and snapshots recorded in succession with one value are at least the
minimum interval apart (`throttledSoundly_receiveAll`).
-/

namespace TtLedger

open BalanceConsumer

/-- The instant of a message that carries one. -/
def BalanceMessage.takenAt (msg : BalanceMessage) : Datetime := msg.capturedAt.getD 0

/-- All messages carry an instant, and those of one account come in strictly increasing order. -/
structure Increasing (msgs : List BalanceMessage) : Prop where
  timed : ∀ m ∈ msgs, m.capturedAt.isSome = true
  ordered : msgs.Pairwise fun m m' => m.accountNumber = m'.accountNumber → m.takenAt < m'.takenAt

section Account

variable (cfg : BalanceConfig)

/-- Whether a message is about an account. -/
def BalanceMessage.isFor (msg : BalanceMessage) (account : String) : Bool :=
  (cfg.accounts.toNickname msg.accountNumber).toOption = some account

/-- The messages about an account that the throttle keeps. -/
def keptFor (msgs : List BalanceMessage) (account : String) : List BalanceMessage :=
  Throttle.kept BalanceMessage.takenAt BalanceMessage.netLiquidatingValue cfg.balanceMinInterval
    (msgs.filter fun m => m.isFor cfg account)

/-- The snapshot of a streamed message. -/
def BalanceMessage.snapshot (account : String) (msg : BalanceMessage) : BalanceSnapshotRow :=
  balanceSnapshot msg account "stream" msg.takenAt

/-- The throttle of a consumer that persists balances is sound over the messages it takes. -/
structure ThrottledSoundly (snapshots : Table BalanceSnapshotRow.key) (ticks : ℕ)
    (msgs : List BalanceMessage) : Prop where
  current : ∀ before m account, before ++ [m] <+: msgs →
    cfg.accounts.toNickname m.accountNumber = .ok account →
    (latestBalance (receiveAll cfg (start snapshots ticks) (before ++ [m])).recorded account).map
      BalanceSnapshotRow.netLiquidatingValue = some m.netLiquidatingValue
  material : ∀ before m account row, before ++ [m] <+: msgs →
    cfg.accounts.toNickname m.accountNumber = .ok account →
    latestBalance (receiveAll cfg (start snapshots ticks) before).recorded account = some row →
    row.netLiquidatingValue ≠ m.netLiquidatingValue →
    (receiveAll cfg (start snapshots ticks) (before ++ [m])).recorded =
      (receiveAll cfg (start snapshots ticks) before).recorded ++ [m.snapshot account]
  spaced : ∀ account, ((receiveAll cfg (start snapshots ticks) msgs).recordedFor account).IsChain
    fun row row' => row.netLiquidatingValue = row'.netLiquidatingValue →
      cfg.balanceMinInterval ≤ row'.capturedAt - row.capturedAt
  stored : ∀ row ∈ (receiveAll cfg (start snapshots ticks) msgs).recorded,
    row ∈ (receiveAll cfg (start snapshots ticks) msgs).snapshots.values

end Account

/-! ## Accounts and their numbers -/

/-- An account has one number. -/
theorem toNickname_inj {accounts : AccountMapper} {number number' account : String}
    (h : accounts.toNickname number = .ok account)
    (h' : accounts.toNickname number' = .ok account) : number = number' := by
  have hget := AccountMapper.get?_of_toNickname h
  rw [AccountMapper.get?_of_toNickname h'] at hget
  exact (Option.some.inj hget).symm

section Run

variable {cfg : BalanceConfig} {msgs : List BalanceMessage} {m : BalanceMessage}
  {account : String} {c : BalanceConsumer}

theorem isFor_iff :
    m.isFor cfg account = true ↔ cfg.accounts.toNickname m.accountNumber = .ok account := by
  unfold BalanceMessage.isFor
  cases cfg.accounts.toNickname m.accountNumber <;> simp [Except.toOption]

/-- A message about an account is not about another. -/
theorem isFor_of_ne {account' : String}
    (h : cfg.accounts.toNickname m.accountNumber = .ok account) (hne : account' ≠ account) :
    m.isFor cfg account' = false := by
  rw [Bool.eq_false_iff]
  intro h'
  rw [isFor_iff, h] at h'
  exact hne (Except.ok.inj h').symm

/-- The messages about an account, with one more about it. -/
theorem filter_isFor_concat (h : m.isFor cfg account = true) :
    ((msgs ++ [m]).filter fun m => m.isFor cfg account) =
      (msgs.filter fun m => m.isFor cfg account) ++ [m] := by
  simp [List.filter_append, h]

theorem keptFor_concat (h : m.isFor cfg account = true) :
    keptFor cfg (msgs ++ [m]) account =
      Throttle.step BalanceMessage.takenAt BalanceMessage.netLiquidatingValue
        cfg.balanceMinInterval (keptFor cfg msgs account) m := by
  rw [keptFor, filter_isFor_concat h, Throttle.kept_concat, keptFor]

theorem keptFor_concat_of_not (h : m.isFor cfg account = false) :
    keptFor cfg (msgs ++ [m]) account = keptFor cfg msgs account := by
  simp [keptFor, List.filter_append, h]

theorem mem_keptFor (h : m ∈ keptFor cfg msgs account) :
    m ∈ msgs ∧ m.isFor cfg account = true :=
  List.mem_filter.mp ((Throttle.sublist_kept _).subset h)

/-- The messages kept for an account come in increasing order. -/
theorem Increasing.pairwise_keptFor (h : Increasing msgs) (cfg : BalanceConfig)
    (account : String) :
    (keptFor cfg msgs account).Pairwise fun m m' => m.takenAt < m'.takenAt := by
  refine ((h.ordered.sublist List.filter_sublist).sublist (Throttle.sublist_kept _)).imp_of_mem ?_
  intro m m' hm hm' hlt
  exact hlt (toNickname_inj (isFor_iff.mp (mem_keptFor hm).2) (isFor_iff.mp (mem_keptFor hm').2))

theorem Increasing.of_prefix {before : List BalanceMessage} (h : Increasing msgs)
    (hpre : before <+: msgs) : Increasing before :=
  ⟨fun m hm => h.timed m (hpre.subset hm), h.ordered.sublist hpre.sublist⟩

/-! ## The invariant -/

/-- The consumer has recorded the snapshots of the messages kept and remembers the last of them. -/
structure FollowsThrottle (cfg : BalanceConfig) (msgs : List BalanceMessage) (c : BalanceConsumer) :
    Prop where
  recorded : ∀ account,
    c.recordedFor account = (keptFor cfg msgs account).map (BalanceMessage.snapshot account)
  last : ∀ account, c.balanceLast.get? account =
    (keptFor cfg msgs account).getLast?.map fun m => (m.takenAt, m.netLiquidatingValue)
  stored : ∀ row ∈ c.recorded, ∃ k, row.key = some k ∧ c.snapshots.getByKey k = some row

/-- What the consumer does with a message. -/
theorem receive_eq (hpersist : cfg.persistBalances = true) (hm : m.capturedAt.isSome = true)
    (haccount : cfg.accounts.toNickname m.accountNumber = .ok account)
    {last : Option BalanceMessage} (hlast : c.balanceLast.get? account =
      last.map fun p => (p.takenAt, p.netLiquidatingValue)) :
    c.receive cfg m =
      if Throttle.admits BalanceMessage.takenAt BalanceMessage.netLiquidatingValue
          cfg.balanceMinInterval last m then
        { c with
          snapshots := (c.snapshots.upsert (m.snapshot account)).2
          recorded := c.recorded ++ [m.snapshot account]
          balanceLast := c.balanceLast.set account (m.takenAt, m.netLiquidatingValue) }
      else c := by
  obtain ⟨t, ht⟩ := Option.isSome_iff_exists.mp hm
  have htaken : m.takenAt = t := by rw [BalanceMessage.takenAt, ht, Option.getD_some]
  have hinstant : ∀ c' : BalanceConsumer, c'.instant cfg m.capturedAt = (t, c') := by
    intro c'
    rw [ht]
    rfl
  unfold receive applyBalance record
  simp only [hpersist, if_true, haccount, hinstant, hlast, bind, Except.bind,
    BalanceMessage.snapshot, htaken]
  cases last with
  | none => simp [Throttle.admits, pure, Except.pure]
  | some p =>
    simp only [Option.map_some, Throttle.admits, htaken]
    split_ifs <;> rfl

/-- A message that is about no account changes nothing. -/
theorem receive_of_error (hpersist : cfg.persistBalances = true) {e : String}
    (h : cfg.accounts.toNickname m.accountNumber = .error e) : c.receive cfg m = c := by
  unfold receive applyBalance
  simp [hpersist, h, bind, Except.bind]

/-- A snapshot that is recorded leaves those recorded before in the store. -/
theorem stored_upsert {row : BalanceSnapshotRow}
    (hstored : ∀ r ∈ c.recorded, ∃ k, r.key = some k ∧ c.snapshots.getByKey k = some r)
    (hnew : ∀ r ∈ c.recorded, r.key ≠ row.key) :
    ∀ r ∈ c.recorded ++ [row], ∃ k, r.key = some k ∧
      (c.snapshots.upsert row).2.getByKey k = some r := by
  have hkey : row.key = some (row.account, row.capturedAt, row.source) := rfl
  intro r hr
  rcases List.mem_append.mp hr with hr | hr
  · obtain ⟨k, hk, hget⟩ := hstored r hr
    refine ⟨k, hk, ?_⟩
    rw [Table.getByKey_upsert _ _ hkey, if_neg, hget]
    rintro rfl
    exact hnew r hr (hk.trans hkey.symm)
  · obtain rfl := List.mem_singleton.mp hr
    exact ⟨_, hkey, by rw [Table.getByKey_upsert _ _ hkey, if_pos rfl]⟩

/-- A message that no throttle keeps leaves a consumer that follows it as it is. -/
theorem FollowsThrottle.of_kept_eq (h : FollowsThrottle cfg msgs c)
    (hkept : ∀ account, keptFor cfg (msgs ++ [m]) account = keptFor cfg msgs account) :
    FollowsThrottle cfg (msgs ++ [m]) c where
  recorded account := by rw [hkept, h.recorded]
  last account := by rw [hkept, h.last]
  stored := h.stored

/-- A message that is kept has a later instant than the snapshots recorded for its account. -/
theorem FollowsThrottle.key_ne (h : FollowsThrottle cfg msgs c) (hinc : Increasing (msgs ++ [m]))
    {owner : String}
    (hkept : keptFor cfg (msgs ++ [m]) owner = keptFor cfg msgs owner ++ [m]) :
    ∀ r ∈ c.recorded, r.key ≠ (m.snapshot owner).key := by
  intro r hr hkey
  obtain ⟨hacc, htime, -⟩ : r.account = owner ∧ r.capturedAt = m.takenAt ∧
      r.source = "stream" := by
    simpa [BalanceSnapshotRow.key, BalanceMessage.snapshot, balanceSnapshot] using hkey
  have hmem : r ∈ c.recordedFor owner := List.mem_filter.mpr ⟨hr, decide_eq_true hacc⟩
  rw [h.recorded] at hmem
  obtain ⟨p, hp, rfl⟩ := List.mem_map.mp hmem
  have hlt := hinc.pairwise_keptFor cfg owner
  rw [hkept] at hlt
  exact absurd htime ((List.pairwise_append.mp hlt).2.2 p hp m (by simp)).ne

theorem FollowsThrottle.step (h : FollowsThrottle cfg msgs c)
    (hpersist : cfg.persistBalances = true) (hinc : Increasing (msgs ++ [m])) :
    FollowsThrottle cfg (msgs ++ [m]) (c.receive cfg m) := by
  cases haccount : cfg.accounts.toNickname m.accountNumber with
  | error e =>
    have hnot : ∀ account, m.isFor cfg account = false := by
      intro account
      rw [Bool.eq_false_iff, Ne, isFor_iff, haccount]
      simp
    rw [receive_of_error hpersist haccount]
    exact h.of_kept_eq fun account => keptFor_concat_of_not (hnot account)
  | ok owner =>
    have hfor := isFor_iff.mpr haccount
    have hother : ∀ account, account ≠ owner →
        keptFor cfg (msgs ++ [m]) account = keptFor cfg msgs account :=
      fun account hne => keptFor_concat_of_not (isFor_of_ne haccount hne)
    rw [receive_eq hpersist (hinc.timed m (by simp)) haccount (h.last owner)]
    split_ifs with hadm
    · -- the message is kept, and its snapshot recorded
      have hkept : keptFor cfg (msgs ++ [m]) owner = keptFor cfg msgs owner ++ [m] := by
        rw [keptFor_concat hfor, Throttle.step, if_pos hadm]
      refine ⟨fun account => ?_, fun account => ?_, stored_upsert h.stored (h.key_ne hinc hkept)⟩
      · rw [recordedFor, List.filter_append]
        have hrecorded := h.recorded account
        rw [recordedFor] at hrecorded
        rw [hrecorded]
        by_cases hacc : account = owner
        · subst hacc
          rw [hkept, List.map_append]
          simp [BalanceMessage.snapshot, balanceSnapshot]
        · rw [hother account hacc]
          simp [BalanceMessage.snapshot, balanceSnapshot, Ne.symm hacc]
      · rw [Dict.get?_set]
        by_cases hacc : account = owner
        · subst hacc
          rw [if_pos rfl, hkept, List.getLast?_concat, Option.map_some]
        · rw [if_neg hacc, hother account hacc, h.last]
    · -- the message is skipped
      refine h.of_kept_eq fun account => ?_
      by_cases hacc : account = owner
      · subst hacc
        rw [keptFor_concat hfor, Throttle.step, if_neg hadm]
      · exact hother account hacc

/-- The consumer follows the throttle over every run. -/
theorem follows_receiveAll (hpersist : cfg.persistBalances = true)
    (snapshots : Table BalanceSnapshotRow.key) (ticks : ℕ) (hinc : Increasing msgs) :
    FollowsThrottle cfg msgs (receiveAll cfg (start snapshots ticks) msgs) := by
  induction msgs using List.reverseRecOn with
  | nil => exact ⟨fun _ => rfl, fun _ => rfl, by simp [receiveAll, start]⟩
  | append_singleton msgs m ih =>
    rw [receiveAll, List.foldl_append]
    exact (ih (hinc.of_prefix (List.prefix_append _ _))).step hpersist hinc

/-! ## What it has recorded -/

/-- The newest snapshot recorded is that of the last message kept. -/
theorem FollowsThrottle.latestBalance_eq (h : FollowsThrottle cfg msgs c) (hinc : Increasing msgs)
    (account : String) :
    latestBalance c.recorded account =
      (keptFor cfg msgs account).getLast?.map (BalanceMessage.snapshot account) := by
  have hrecorded := h.recorded account
  rw [recordedFor] at hrecorded
  rw [latestBalance, hrecorded]
  have hlt := hinc.pairwise_keptFor cfg account
  induction hkept : keptFor cfg msgs account using List.reverseRecOn with
  | nil => rfl
  | append_singleton kept p _ =>
    rw [hkept] at hlt
    have hafter := (List.pairwise_append.mp hlt).2.2
    rw [List.getLast?_concat, List.map_append, List.map_singleton, List.argmax_concat]
    generalize hmax : @List.argmax _ _ _ _ BalanceSnapshotRow.capturedAt (kept.map _) = newest
    cases newest with
    | none => rfl
    | some row =>
      obtain ⟨q, hq, rfl⟩ := List.mem_map.mp (List.argmax_mem hmax)
      exact if_pos (hafter q hq p (by simp))

end Run

/-- **No material balance is dropped.** For every sequence of balance messages with per-account
strictly increasing instants: after each message the newest snapshot recorded for its account has
its value, a message with another value than that is recorded, and snapshots recorded in
succession for one account with one value are at least the interval apart. -/
theorem throttledSoundly_receiveAll (cfg : BalanceConfig) (hpersist : cfg.persistBalances = true)
    (snapshots : Table BalanceSnapshotRow.key) (ticks : ℕ) (msgs : List BalanceMessage)
    (hinc : Increasing msgs) : ThrottledSoundly cfg snapshots ticks msgs := by
  have hfollows : ∀ before, before <+: msgs →
      FollowsThrottle cfg before (receiveAll cfg (start snapshots ticks) before) :=
    fun before hpre => follows_receiveAll hpersist snapshots ticks (hinc.of_prefix hpre)
  refine ⟨fun before m account hpre haccount => ?_, fun before m account row hpre haccount hrow
    hne => ?_, fun account => ?_, fun row hrow => ?_⟩
  · have hinc' := hinc.of_prefix hpre
    rw [(hfollows _ hpre).latestBalance_eq hinc', Option.map_map]
    have hvalue : (keptFor cfg (before ++ [m]) account).getLast?.map
        BalanceMessage.netLiquidatingValue = some m.netLiquidatingValue := by
      rw [keptFor, Throttle.map_getLast?_kept, filter_isFor_concat (isFor_iff.mpr haccount),
        List.getLast?_concat, Option.map_some]
    rw [← hvalue]
    rfl
  · have hbefore := (List.prefix_append before [m]).trans hpre
    have hf := hfollows _ hbefore
    rw [hf.latestBalance_eq (hinc.of_prefix hbefore)] at hrow
    obtain ⟨p, hp, rfl⟩ := Option.map_eq_some_iff.mp hrow
    have hadm : Throttle.admits BalanceMessage.takenAt BalanceMessage.netLiquidatingValue
        cfg.balanceMinInterval (keptFor cfg before account).getLast? m = true := by
      refine Throttle.admits_of_ne fun heq => hne ?_
      rw [hp] at heq
      exact Option.some.inj heq
    rw [receiveAll, List.foldl_append]
    change (receive cfg (receiveAll cfg (start snapshots ticks) before) m).recorded = _
    rw [receive_eq hpersist (hinc.timed m (hpre.subset (by simp))) haccount (hf.last account),
      if_pos hadm]
  · rw [(hfollows msgs List.prefix_rfl).recorded, List.isChain_map]
    exact Throttle.isChain_kept _
  · obtain ⟨k, -, hget⟩ := (hfollows msgs List.prefix_rfl).stored row hrow
    obtain ⟨⟨i, hi⟩, -⟩ := Table.getByKey_eq_some.mp hget
    exact List.mem_map.mpr ⟨(i, row), hi, rfl⟩

/-- A message of account 5WX01. -/
private def reading (value : ℚ) (seconds : Datetime) : BalanceMessage where
  accountNumber := "5WX01"
  raw := []
  netLiquidatingValue := some value
  capturedAt := some (seconds * second)

/-- The account main, under the number 5WX01. -/
private def oneAccount : BalanceConfig where
  accounts := ⟨⟨[("main", "5WX01")], by simp⟩⟩
  clock := fun _ => 0

/-- Four readings, of which the second repeats the value of the first within the interval. -/
theorem throttledSoundly_receiveAll_oneAccount :
    ThrottledSoundly oneAccount (Table.empty _) 0
      [reading 50000 0, reading 50000 10, reading 50250 20, reading 50250 90] :=
  throttledSoundly_receiveAll oneAccount rfl (Table.empty _) 0 _
    ⟨by decide, by simp [reading, BalanceMessage.takenAt, second]⟩

end TtLedger
