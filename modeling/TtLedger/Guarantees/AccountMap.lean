import TtLedger.Identity.Accounts

/-!
# When the account map is a bijection

The mapper keeps the last account listed under each nickname. Tables that share a nickname are
rejected, so a nickname has one login; but one table may list two accounts under one nickname, and
two tables one account under two. The map is a bijection on what is listed exactly when the
accounts kept have distinct numbers, every listed number is one of theirs, and an account listed
under a nickname has the environment of the one that is kept (`bijective_fromToml_iff`).
-/

namespace TtLedger

/-! ## What is listed -/

/-- An account as it is listed in a login table. -/
structure Listing where
  login : String
  number : String
  nickname : String
  env : String

/-- The account a table lists. -/
def listing (name : String) (account : String × AccountInfo) : Option Listing :=
  account.2.nickname.map fun nickname => ⟨name, account.1, nickname, account.2.env.getD "live"⟩

/-- The accounts of one loaded table. -/
def listingsOf (entry : String × TomlValue) : List Listing :=
  match entry.2 with
  | .table login => login.accountEntries.filterMap (listing entry.1)
  | .scalar => []

/-- The accounts of the tables that are loaded. -/
def listings (configPath : String) (data : Dict String TomlValue) (login : Option String) :
    List Listing :=
  match loadedSections configPath data login with
  | .ok sections => sections.flatMap listingsOf
  | .error _ => []

/-- The map between numbers and nicknames is a bijection on what is listed, and gives each
nickname the login and the environment it was listed under. -/
structure BijectiveOn (m : LoadedAccountMapper) (listed : List Listing) : Prop where
  numbers : ∀ l ∈ listed, ∃ nickname, m.toNickname l.number = .ok nickname ∧
    m.toAccountNumber (.str nickname) = .ok l.number
  nicknames : ∀ l ∈ listed, ∃ number, m.toAccountNumber (.str l.nickname) = .ok number ∧
    m.toNickname number = .ok l.nickname
  listedUnder : ∀ l ∈ listed, m.loginFor l.nickname = some l.login ∧ m.envFor l.nickname = l.env

/-- The last account listed under a nickname. -/
def lastListing (listed : List Listing) (nickname : String) : Option Listing :=
  Dict.lastUnder (listed.map fun l => (l.nickname, l)) nickname

/-- No later account is listed under the nickname. -/
def Kept (listed : List Listing) (l : Listing) : Prop := lastListing listed l.nickname = some l

/-- The accounts kept have distinct numbers, which are all that are listed, and the environments
of all that are listed. -/
structure Unambiguous (listed : List Listing) : Prop where
  distinct : ∀ l l', Kept listed l → Kept listed l' → l.number = l'.number →
    l.nickname = l'.nickname
  covered : ∀ l ∈ listed, ∃ l', Kept listed l' ∧ l'.number = l.number
  sameEnv : ∀ l ∈ listed, ∀ l', Kept listed l' → l'.nickname = l.nickname → l'.env = l.env

section Last

variable {listed listed' : List Listing} {l : Listing} {nickname : String}

theorem lastListing_append :
    lastListing (listed ++ listed') nickname =
      (lastListing listed' nickname).or (lastListing listed nickname) := by
  rw [lastListing, List.map_append, Dict.lastUnder_append, lastListing, lastListing]

theorem lastListing_singleton (l : Listing) (nickname : String) :
    lastListing [l] nickname = if nickname = l.nickname then some l else none := by
  by_cases h : l.nickname = nickname <;> simp [lastListing, Dict.lastUnder, h, eq_comm]

theorem lastListing_eq_some (h : lastListing listed nickname = some l) :
    l ∈ listed ∧ l.nickname = nickname := by
  obtain ⟨e, he, rfl⟩ := Option.map_eq_some_iff.mp h
  obtain ⟨l, hl, rfl⟩ := List.mem_map.mp (List.mem_reverse.mp (List.mem_of_find?_eq_some he))
  exact ⟨hl, by simpa using List.find?_some he⟩

theorem exists_lastListing (h : l ∈ listed) :
    ∃ l', lastListing listed l.nickname = some l' ∧ Kept listed l' ∧ l' ∈ listed ∧
      l'.nickname = l.nickname := by
  cases hlast : lastListing listed l.nickname with
  | none =>
    rw [lastListing, Dict.lastUnder, Option.map_eq_none_iff, List.find?_eq_none] at hlast
    have := hlast (l.nickname, l) (List.mem_reverse.mpr (List.mem_map_of_mem h))
    simp at this
  | some l' =>
    obtain ⟨hmem, hname⟩ := lastListing_eq_some hlast
    exact ⟨l', rfl, by rw [Kept, hname, hlast], hmem, hname⟩

theorem Kept.mem (h : Kept listed l) : l ∈ listed := (lastListing_eq_some h).1

end Last

/-! ## What is loaded -/

/-- What is read is the last account under each nickname. -/
structure ReadsLast (read : Nicknames) (listed : List Listing) : Prop where
  n2num : ∀ n, read.n2num.get? n = (lastListing listed n).map Listing.number
  n2env : ∀ n, read.n2env.get? n = (lastListing listed n).map Listing.env

/-- What every step of a loading loop keeps of the entries listed so far holds of them all. -/
theorem foldlM_lists {σ α β ε : Type} {f : σ → α → Except ε σ} {lists : α → List β}
    {P : σ → List β → Prop}
    (hstep : ∀ {s s' : σ} {l : List β}, P s l → ∀ {a : α}, f s a = .ok s' → P s' (l ++ lists a))
    (items : List α) {s s' : σ} {l : List β} (h : P s l) (hrun : items.foldlM f s = .ok s') :
    P s' (l ++ items.flatMap lists) := by
  induction items generalizing s l with
  | nil =>
    obtain rfl := Except.ok.inj hrun
    rwa [List.flatMap_nil, List.append_nil]
  | cons item items ih =>
    rw [List.foldlM_cons] at hrun
    cases hone : f s item with
    | error e =>
      rw [hone] at hrun
      cases hrun
    | ok next =>
      rw [hone] at hrun
      have hall := ih (hstep h hone) hrun
      rwa [List.append_assoc, ← List.flatMap_cons] at hall

section Reading

variable {name configPath : String} {read read' : Nicknames} {merged merged' : Merged}
  {listed : List Listing}

theorem ReadsLast.step (h : ReadsLast read listed) {account : String × AccountInfo}
    (hread : readAccount name read account = .ok read') :
    ReadsLast read' (listed ++ (listing name account).toList) := by
  unfold readAccount at hread
  cases hnickname : account.2.nickname with
  | none =>
    rw [hnickname] at hread
    cases hread
  | some nickname =>
    rw [hnickname] at hread
    simp only [] at hread
    split at hread
    · cases hread
    · obtain rfl := Except.ok.inj hread
      have hlisting : (listing name account).toList =
          [⟨name, account.1, nickname, account.2.env.getD "live"⟩] := by
        rw [listing, hnickname]
        rfl
      rw [hlisting]
      refine ⟨fun n => ?_, fun n => ?_⟩
      · rw [lastListing_append, lastListing_singleton, Dict.get?_set, h.n2num]
        split_ifs <;> rfl
      · rw [lastListing_append, lastListing_singleton, Dict.get?_set, h.n2env]
        split_ifs <;> rfl

theorem ReadsLast.foldlM (accounts : List (String × AccountInfo)) (h : ReadsLast read listed)
    (hread : accounts.foldlM (readAccount name) read = .ok read') :
    ReadsLast read' (listed ++ accounts.filterMap (listing name)) := by
  rw [List.filterMap_eq_flatMap_toList]
  exact foldlM_lists ReadsLast.step accounts h hread

theorem readsLast_empty : ReadsLast {} [] := ⟨fun _ => rfl, fun _ => rfl⟩

/-- A nickname is a key of what is read when an account is listed under it. -/
theorem ReadsLast.mem_keys (h : ReadsLast read listed) (n : String) :
    n ∈ read.n2num.keys ↔ (lastListing listed n).isSome = true := by
  have hget := h.n2num n
  rw [← not_iff_not, ← Dict.get?_eq_none, hget, Option.map_eq_none_iff, Bool.not_eq_true,
    Option.isSome_eq_false_iff, Option.isNone_iff_eq_none]

/-- What is merged is the last account under each nickname, and a nickname has one login. -/
structure MergesLast (merged : Merged) (listed : List Listing) : Prop where
  names : ReadsLast merged.names listed
  n2login : ∀ n, merged.n2login.get? n = (lastListing listed n).map Listing.login
  oneLogin : ∀ l ∈ listed, ∀ l' ∈ listed, l.nickname = l'.nickname → l.login = l'.login

theorem login_of_mem_listingsOf {entry : String × TomlValue} {l : Listing}
    (h : l ∈ listingsOf entry) : l.login = entry.1 := by
  unfold listingsOf at h
  split at h
  · obtain ⟨account, -, haccount⟩ := List.mem_filterMap.mp h
    obtain ⟨nickname, -, rfl⟩ := Option.map_eq_some_iff.mp haccount
    rfl
  · cases h

/-- The logins set for the nicknames of a table. -/
theorem lastUnder_keys (h : ReadsLast read listed) (name n : String) (hname : ∀ l ∈ listed,
    l.login = name) :
    Dict.lastUnder (read.n2num.keys.map fun n => (n, name)) n =
      (lastListing listed n).map Listing.login := by
  cases hlast : lastListing listed n with
  | none =>
    rw [Option.map_none, Dict.lastUnder, Option.map_eq_none_iff, List.find?_eq_none]
    intro e he
    obtain ⟨k, hk, rfl⟩ := List.mem_map.mp (List.mem_reverse.mp he)
    have hne : k ≠ n := by
      rintro rfl
      rw [h.mem_keys, hlast] at hk
      cases hk
    simpa using hne
  | some l =>
    have hkey : n ∈ read.n2num.keys := (h.mem_keys n).mpr (by rw [hlast]; rfl)
    rw [Option.map_some, hname l (lastListing_eq_some hlast).1]
    cases hfind : Dict.lastUnder (read.n2num.keys.map fun n => (n, name)) n with
    | none =>
      rw [Dict.lastUnder, Option.map_eq_none_iff, List.find?_eq_none] at hfind
      have := hfind (n, name) (List.mem_reverse.mpr (List.mem_map_of_mem hkey))
      simp at this
    | some login =>
      obtain ⟨e, he, rfl⟩ := Option.map_eq_some_iff.mp hfind
      obtain ⟨k, -, rfl⟩ := List.mem_map.mp (List.mem_reverse.mp (List.mem_of_find?_eq_some he))
      rfl

/-- A table that is merged was read, and shares no nickname with those before. -/
theorem exists_of_mergeSection_eq_ok {entry : String × TomlValue}
    (h : mergeSection configPath merged entry = .ok merged') :
    ∃ (read : Nicknames) (default : Option String), ReadsLast read (listingsOf entry) ∧
      (∀ n ∈ merged.names.n2num.keys, n ∉ read.n2num.keys) ∧
      merged' = {
        names := ⟨merged.names.n2num.update read.n2num, merged.names.n2env.update read.n2env⟩
        n2login := merged.n2login.setAll (read.n2num.keys.map fun n => (n, entry.1))
        defaultAccount := default } := by
  unfold mergeSection at h
  cases hentry : entry.2 with
  | scalar =>
    rw [hentry] at h
    cases h
  | table login =>
    rw [hentry] at h
    simp only [parseLoginSection] at h
    cases hread : login.accountEntries.foldlM (readAccount entry.1) {} with
    | error e =>
      rw [hread] at h
      cases h
    | ok read =>
      have hnew : ReadsLast read (listingsOf entry) := by
        have hall := readsLast_empty.foldlM _ hread
        rw [List.nil_append] at hall
        simpa only [listingsOf, hentry] using hall
      rw [hread] at h
      simp only [bind, Except.bind, pure, Except.pure] at h
      split at h
      · rename_i hoverlap
        refine ⟨read, _, hnew, fun n hn hn' => ?_, (Except.ok.inj h).symm⟩
        have hmem : n ∈ merged.names.n2num.keys.filter (· ∈ read.n2num.keys) :=
          List.mem_filter.mpr ⟨hn, decide_eq_true hn'⟩
        rw [List.isEmpty_iff.mp hoverlap] at hmem
        cases hmem
      · cases h

theorem MergesLast.step (h : MergesLast merged listed) {entry : String × TomlValue}
    (hmerge : mergeSection configPath merged entry = .ok merged') :
    MergesLast merged' (listed ++ listingsOf entry) := by
  obtain ⟨read, default, hnew, hdisjoint, rfl⟩ := exists_of_mergeSection_eq_ok hmerge
  have hlogin : ∀ l ∈ listingsOf entry, l.login = entry.1 := fun l => login_of_mem_listingsOf
  have hnone : ∀ l ∈ listed, ∀ l' ∈ listingsOf entry, l.nickname ≠ l'.nickname := by
    intro l hl l' hl' heq
    obtain ⟨_, hlast, -⟩ := exists_lastListing hl
    obtain ⟨_, hlast', -⟩ := exists_lastListing hl'
    exact hdisjoint l.nickname ((h.names.mem_keys l.nickname).mpr (by rw [hlast]; rfl))
      ((hnew.mem_keys l.nickname).mpr (by rw [heq, hlast']; rfl))
  refine ⟨⟨fun n => ?_, fun n => ?_⟩, fun n => ?_, fun l hl l' hl' heq => ?_⟩
  · rw [Dict.get?_update, hnew.n2num, h.names.n2num, lastListing_append, Option.map_or]
  · rw [Dict.get?_update, hnew.n2env, h.names.n2env, lastListing_append, Option.map_or]
  · rw [Dict.get?_setAll, lastUnder_keys hnew entry.1 n hlogin, h.n2login, lastListing_append,
      Option.map_or]
  · rcases List.mem_append.mp hl with hl | hl <;> rcases List.mem_append.mp hl' with hl' | hl'
    · exact h.oneLogin l hl l' hl' heq
    · exact absurd heq (hnone l hl l' hl')
    · exact absurd heq.symm (hnone l' hl' l hl)
    · rw [hlogin l hl, hlogin l' hl']

theorem MergesLast.foldlM (sections : List (String × TomlValue)) (h : MergesLast merged listed)
    (hmerge : sections.foldlM (mergeSection configPath) merged = .ok merged') :
    MergesLast merged' (listed ++ sections.flatMap listingsOf) :=
  foldlM_lists MergesLast.step sections h hmerge

end Reading

/-- A loaded mapper holds the last account under each nickname. -/
structure HoldsLast (m : LoadedAccountMapper) (listed : List Listing) : Prop where
  n2num : ∀ n, m.n2num.get? n = (lastListing listed n).map Listing.number
  n2env : ∀ n, m.n2env.get? n = (lastListing listed n).map Listing.env
  n2login : ∀ n, m.n2login.get? n = (lastListing listed n).map Listing.login
  oneLogin : ∀ l ∈ listed, ∀ l' ∈ listed, l.nickname = l'.nickname → l.login = l'.login

/-- The constructor keeps what was merged: where it sets a default there is no nickname. -/
theorem MergesLast.holdsLast {merged : Merged} {listed : List Listing}
    (h : MergesLast merged listed) (defaultAccount login : Option String) :
    HoldsLast (.init merged.names.n2num defaultAccount login merged.names.n2env merged.n2login)
      listed := by
  have hempty : ∀ {d : Dict String String} {f : Listing → String},
      (∀ n, d.get? n = (lastListing listed n).map f) → d.entries = [] →
      merged.names.n2num.keys = [] ∧ ∀ n, lastListing listed n = none := by
    intro d f hd hnil
    have hnone : ∀ n, lastListing listed n = none := by
      intro n
      have := hd n
      rw [Dict.entries_eq_nil_iff.mp hnil n] at this
      exact Option.map_eq_none_iff.mp this.symm
    have hentries : merged.names.n2num.entries = [] :=
      Dict.entries_eq_nil_iff.mpr fun n => by rw [h.names.n2num, hnone n, Option.map_none]
    exact ⟨by rw [Dict.keys, hentries, List.map_nil], hnone⟩
  refine ⟨h.names.n2num, fun n => ?_, fun n => ?_, h.oneLogin⟩
  · unfold LoadedAccountMapper.init
    simp only []
    split_ifs with hnil
    · obtain ⟨hkeys, hnone⟩ := hempty h.names.n2env (List.isEmpty_iff.mp hnil)
      rw [hkeys, hnone n]
      rfl
    · exact h.names.n2env n
  · unfold LoadedAccountMapper.init
    simp only []
    split_ifs with hnil
    · obtain ⟨hkeys, hnone⟩ := hempty h.n2login (List.isEmpty_iff.mp hnil)
      rw [hkeys, hnone n]
      cases login <;> rfl
    · exact h.n2login n

/-- **What `from_toml` loads.** -/
theorem holdsLast_fromToml {configPath : String} {data : Dict String TomlValue}
    {login : Option String} {m : LoadedAccountMapper}
    (h : fromToml configPath data login = .ok m) :
    HoldsLast m (listings configPath data login) := by
  unfold fromToml at h
  cases hsections : loadedSections configPath data login with
  | error e =>
    rw [hsections] at h
    cases h
  | ok sections =>
    rw [hsections] at h
    simp only [bind, Except.bind, pure, Except.pure] at h
    split at h
    · cases h
    · rename_i merged hmerge
      obtain rfl := Except.ok.inj h
      have hempty : MergesLast {} [] := ⟨readsLast_empty, fun _ => rfl, by simp⟩
      have hlisted : listings configPath data login = [] ++ sections.flatMap listingsOf := by
        rw [listings, hsections, List.nil_append]
      rw [hlisted]
      exact (hempty.foldlM sections hmerge).holdsLast _ _

/-! ## The two directions of the map -/

section Map

variable {m : LoadedAccountMapper} {listed : List Listing} {l : Listing}

theorem toAccountNumber_eq_ok {accounts : AccountMapper} {nickname number : String} :
    accounts.toAccountNumber (.str nickname) = .ok number ↔
      accounts.n2num.get? nickname = some number := by
  unfold AccountMapper.toAccountNumber
  cases h : accounts.n2num.get? nickname <;> simp [Json.hashable, h]

theorem HoldsLast.number_of_kept (h : HoldsLast m listed) (hl : Kept listed l) :
    m.n2num.get? l.nickname = some l.number := by
  rw [h.n2num, hl, Option.map_some]

/-- The nickname of a number is that of an account that is kept. -/
theorem HoldsLast.exists_kept (h : HoldsLast m listed) {number nickname : String}
    (hname : m.toNickname number = .ok nickname) :
    ∃ l, Kept listed l ∧ l.number = number ∧ l.nickname = nickname := by
  have hget := AccountMapper.get?_of_toNickname hname
  rw [h.n2num] at hget
  obtain ⟨l, hl, hnumber⟩ := Option.map_eq_some_iff.mp hget
  obtain rfl := (lastListing_eq_some hl).2
  exact ⟨l, hl, hnumber, rfl⟩

theorem HoldsLast.unambiguous (h : HoldsLast m listed) (hb : BijectiveOn m listed) :
    Unambiguous listed := by
  refine ⟨fun l l' hl hl' hnumber => ?_, fun l hl => ?_, fun l hl l' hl' hname => ?_⟩
  · -- both are the nickname of the one number
    obtain ⟨n, hn, hback⟩ := hb.nicknames l hl.mem
    obtain ⟨n', hn', hback'⟩ := hb.nicknames l' hl'.mem
    rw [toAccountNumber_eq_ok, h.number_of_kept hl] at hn
    rw [toAccountNumber_eq_ok, h.number_of_kept hl'] at hn'
    obtain rfl := Option.some.inj hn
    obtain rfl := Option.some.inj hn'
    rw [hnumber, hback'] at hback
    exact (Except.ok.inj hback).symm
  · obtain ⟨nickname, hname, -⟩ := hb.numbers l hl
    obtain ⟨l', hkept, hnumber, -⟩ := h.exists_kept hname
    exact ⟨l', hkept, hnumber⟩
  · have henv := (hb.listedUnder l hl).2
    rw [LoadedAccountMapper.envFor, h.n2env, ← hname, hl', Option.map_some,
      Option.getD_some] at henv
    exact henv

theorem HoldsLast.bijectiveOn (h : HoldsLast m listed) (hu : Unambiguous listed) :
    BijectiveOn m listed := by
  refine ⟨fun l hl => ?_, fun l hl => ?_, fun l hl => ?_⟩
  · obtain ⟨l', hkept, hnumber⟩ := hu.covered l hl
    have hget := h.number_of_kept hkept
    rw [hnumber] at hget
    obtain ⟨nickname, hname⟩ := AccountMapper.exists_toNickname hget
    exact ⟨nickname, hname, toAccountNumber_eq_ok.mpr (AccountMapper.get?_of_toNickname hname)⟩
  · obtain ⟨l', -, hkept, -, hname⟩ := exists_lastListing hl
    have hget := h.number_of_kept hkept
    obtain ⟨nickname, hback⟩ := AccountMapper.exists_toNickname hget
    obtain ⟨l'', hkept', hnumber, rfl⟩ := h.exists_kept hback
    rw [← hname]
    refine ⟨l'.number, toAccountNumber_eq_ok.mpr hget, ?_⟩
    rw [hback, hu.distinct l'' l' hkept' hkept hnumber]
  · obtain ⟨l', hlast, hkept, hmem, hname⟩ := exists_lastListing hl
    constructor
    · rw [LoadedAccountMapper.loginFor, h.n2login, hlast, Option.map_some,
        h.oneLogin l' hmem l hl hname]
    · rw [LoadedAccountMapper.envFor, h.n2env, hlast, Option.map_some, Option.getD_some]
      exact hu.sameEnv l hl l' hkept hname

theorem HoldsLast.bijectiveOn_iff (h : HoldsLast m listed) :
    BijectiveOn m listed ↔ Unambiguous listed :=
  ⟨h.unambiguous, h.bijectiveOn⟩

/-- **When the account map is a bijection.** A mapper that `from_toml` returns is a bijection on
the listed numbers and nicknames, with the login and the environment each was listed under, if and
only if the accounts kept (the last under each nickname) have distinct numbers, which are all that
are listed, and the environments of all that are listed. -/
theorem bijective_fromToml_iff {configPath : String} {data : Dict String TomlValue}
    {login : Option String} (h : fromToml configPath data login = .ok m) :
    BijectiveOn m (listings configPath data login) ↔
      Unambiguous (listings configPath data login) :=
  (holdsLast_fromToml h).bijectiveOn_iff

end Map

/-! ## Two accounts under one nickname -/

/-- One login with two accounts under one nickname. -/
private def sharedNickname : Dict String TomlValue :=
  ⟨[("trader1", .table
    { accounts := some ⟨[("ACCT0001", { nickname := some "main" }),
        ("ACCT0002", { nickname := some "main" })], by simp⟩ })], by simp⟩

private def sharedMapper : LoadedAccountMapper :=
  .init ⟨[("main", "ACCT0002")], by simp⟩ none (some "trader1") ⟨[("main", "live")], by simp⟩
    ⟨[("main", "trader1")], by simp⟩

theorem bijective_fromToml_iff_sharedNickname :
    BijectiveOn sharedMapper (listings "accounts.toml" sharedNickname none) ↔
      Unambiguous (listings "accounts.toml" sharedNickname none) :=
  bijective_fromToml_iff rfl

/-- The account listed first has no nickname. -/
theorem not_bijective_fromToml :
    ¬∀ configPath data login m, fromToml configPath data login = .ok m →
      BijectiveOn m (listings configPath data login) := by
  intro h
  have hb := h "accounts.toml" sharedNickname none sharedMapper rfl
  obtain ⟨nickname, hname, -⟩ := hb.numbers ⟨"trader1", "ACCT0001", "main", "live"⟩
    (List.mem_cons_self)
  exact absurd hname (by simp [AccountMapper.toNickname, sharedMapper, LoadedAccountMapper.init])

end TtLedger
