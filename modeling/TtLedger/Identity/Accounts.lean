import TtLedger.Ingest.Remap
import TtLedger.Ingest.StreamApply

/-!
# Nicknames and account numbers

`AccountMapper.from_toml` (`identity/accounts.py`) loads the accounts of one login, or of every
login table of `accounts.toml`, into one map between nicknames and account numbers. Each table is
read account by account into dictionaries keyed by nickname (`parseLoginSection`); the tables are
merged unless they share a nickname (`mergeSection`). The other keys of a table, which only
`LoginConfig` reads, are left out, and `repr` quotes a text without quotes or escapes.
-/

namespace TtLedger

/-! ## The configuration -/

/-- The table of one account. -/
structure AccountInfo where
  nickname : Option String := none
  env : Option String := none

/-- One `[login]` table. -/
structure LoginSection where
  accounts : Option (Dict String AccountInfo) := none
  default : Option String := none

/-- A top-level value of `accounts.toml`. -/
inductive TomlValue
  | table (login : LoginSection)
  | scalar

/-- What loading raises. -/
inductive AccountsError
  | attributeError
  | keyError (text : String)
  | valueError (text : String)
  deriving DecidableEq

/-! ## The mapper -/

/-- An account mapper with the environment and the login of each nickname. -/
structure LoadedAccountMapper extends AccountMapper where
  defaultAccount : Option String
  login : Option String
  n2env : Dict String String
  n2login : Dict String String

namespace LoadedAccountMapper

/-- The constructor; without environments every account is live, without logins each belongs to
the one login given. -/
def init (n2num : Dict String String) (defaultAccount login : Option String)
    (n2env n2login : Dict String String) : LoadedAccountMapper where
  n2num
  defaultAccount
  login
  n2env := if n2env.entries.isEmpty then Dict.empty.setAll (n2num.keys.map fun n => (n, "live"))
    else n2env
  n2login := if n2login.entries.isEmpty then
      match login with
      | some login => Dict.empty.setAll (n2num.keys.map fun n => (n, login))
      | none => Dict.empty
    else n2login

variable (m : LoadedAccountMapper)

def envFor (nickname : String) : String := (m.n2env.get? nickname).getD "live"

def loginFor (nickname : String) : Option String := m.n2login.get? nickname

def defaultNickname : Option String :=
  match m.defaultAccount with
  | some number => if number = "" then none else (m.toNickname number).toOption
  | none => none

end LoadedAccountMapper

/-! ## Loading -/

/-- What is read from login tables: two dictionaries keyed by nickname. -/
structure Nicknames where
  n2num : Dict String String := .empty
  n2env : Dict String String := .empty

/-- Read one account. -/
def readAccount (login : String) (read : Nicknames) (account : String × AccountInfo) :
    Except AccountsError Nicknames :=
  match account.2.nickname with
  | none => throw (.keyError "nickname")
  | some nickname =>
    let env := account.2.env.getD "live"
    if env = "paper" && !Text.contains (Text.lower nickname.toList) "paper".toList then
      throw (.valueError (quoted login ++ ".accounts[" ++ quoted account.1 ++
        "]: paper account nickname " ++ quoted nickname ++ " must contain 'paper'"))
    else
      pure ⟨read.n2num.set nickname account.1, read.n2env.set nickname env⟩

/-- The accounts of a table; a table without any has none. -/
def LoginSection.accountEntries (login : LoginSection) : List (String × AccountInfo) :=
  (login.accounts.map Dict.entries).getD []

/-- Read one login table. -/
def parseLoginSection (name : String) (login : LoginSection) :
    Except AccountsError (Nicknames × Option String) := do
  let read ← login.accountEntries.foldlM (readAccount name) {}
  pure (read, login.default)

/-- What is merged so far. -/
structure Merged where
  names : Nicknames := {}
  n2login : Dict String String := .empty
  defaultAccount : Option String := none

/-- Merge one login table. -/
def mergeSection (configPath : String) (merged : Merged) (entry : String × TomlValue) :
    Except AccountsError Merged :=
  match entry.2 with
  | .scalar => throw .attributeError
  | .table login => do
    let (read, default) ← parseLoginSection entry.1 login
    let overlap := merged.names.n2num.keys.filter (· ∈ read.n2num.keys)
    if overlap.isEmpty then
      pure {
        names := ⟨merged.names.n2num.update read.n2num, merged.names.n2env.update read.n2env⟩
        n2login := merged.n2login.setAll (read.n2num.keys.map fun n => (n, entry.1))
        defaultAccount := merged.defaultAccount <|> default }
    else
      throw (.valueError ("duplicate nickname(s) across logins in " ++ configPath ++ ": [" ++
        ", ".intercalate ((sortOn id overlap).map quoted) ++ "]"))

/-- A login table with accounts. -/
def TomlValue.hasAccounts : TomlValue → Bool
  | table login => login.accounts.isSome
  | scalar => false

/-- The tables that are loaded: the one of a login, or every one with accounts. -/
def loadedSections (configPath : String) (data : Dict String TomlValue) (login : Option String) :
    Except AccountsError (List (String × TomlValue)) :=
  match login with
  | some login =>
    match data.get? login with
    | some entry => pure [(login, entry)]
    | none => throw (.keyError ("login " ++ quoted login ++ " not found in " ++ configPath))
  | none => pure (data.entries.filter fun e => e.2.hasAccounts)

/-- The login a mapper is for: the one asked for, or the only one loaded. -/
def resolvedLogin (login : Option String) (sections : List (String × TomlValue)) :
    Option String :=
  match login, sections with
  | some login, _ => some login
  | none, [entry] => some entry.1
  | none, _ => none

/-- `AccountMapper.from_toml` over a parsed configuration. -/
def fromToml (configPath : String) (data : Dict String TomlValue) (login : Option String) :
    Except AccountsError LoadedAccountMapper := do
  let sections ← loadedSections configPath data login
  let merged ← sections.foldlM (mergeSection configPath) {}
  pure (.init merged.names.n2num merged.defaultAccount (resolvedLogin login sections)
    merged.names.n2env merged.n2login)

end TtLedger
