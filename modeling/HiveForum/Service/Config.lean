import HiveForum.Operation.Settings
import HiveForum.Service.Address
import HiveForum.Service.Seeds

/-!
# Configuration of the service

The service is configured by variables of its environment. Each has a default; a variable that is
set must be valid, and the first one that is not is reported.

## Main definitions

* `Variable`, `Environment`: the variables and what they are set to.
* `Config`: what the service runs with.
* `Config.ofEnvironment`: the configuration that an environment stands for.
* `ConfigError`: why there is none, each with its text.
-/

namespace HiveForum

/-- The variables that configure the service. -/
inductive Variable where
  | listenAddress
  | storageBackend
  | databaseUrl
  /-- The page size of a listing that asks for none. -/
  | defaultLimit
  /-- The number of items asked of the store at once. -/
  | storePageSize
  /-- The number of units of a deletion that run at once. -/
  | cascadeConcurrency
  /-- The least delay of the backoff ladder, in milliseconds. -/
  | backoffMin
  /-- The largest delay of the backoff ladder, in milliseconds. -/
  | backoffMax
  | backoffAttempts
  /-- The longest time for one call to the store, in milliseconds. -/
  | callTimeout
  | seedHives
deriving DecidableEq

/-- The name of a variable. -/
def Variable.name : Variable → String
  | .listenAddress => "LISTEN_ADDR"
  | .storageBackend => "STORAGE_BACKEND"
  | .databaseUrl => "DATABASE_URL"
  | .defaultLimit => "LIST_DEFAULT_LIMIT"
  | .storePageSize => "STORE_PAGE_SIZE"
  | .cascadeConcurrency => "CASCADE_CONCURRENCY"
  | .backoffMin => "BACKOFF_MIN_MS"
  | .backoffMax => "BACKOFF_MAX_MS"
  | .backoffAttempts => "BACKOFF_MAX_ATTEMPTS"
  | .callTimeout => "STORE_CALL_TIMEOUT_MS"
  | .seedHives => "SEED_HIVES"

/-- What the variables are set to; none for a variable that is not set. -/
abbrev Environment : Type := Variable → Option String

/-- Where content is stored. -/
inductive Backend where
  | memory
  | postgres (databaseUrl : String)
deriving DecidableEq

/-- The address of the database, if content is stored in one. -/
def Backend.databaseUrl? : Backend → Option String
  | .memory => none
  | .postgres databaseUrl => some databaseUrl

/-- Why an environment stands for no configuration. -/
inductive ConfigError where
  | badAddress
  | unknownBackend (backend : String)
  | missingDatabaseUrl
  | notPositive (which : Variable) (text : String)
  /-- The least delay is larger than the largest one. -/
  | invertedBackoff
  | badSeed (error : SeedError)
deriving DecidableEq

/-- The text of the error, with the reason why a text is no identifier if it is given. -/
def ConfigError.message (error : ConfigError) (reason : Option String := none) : String :=
  match error with
  | .badAddress => "invalid socket address syntax"
  | .unknownBackend backend =>
    s!"invalid STORAGE_BACKEND {Quoted.quote backend}: expected \"memory\" or \"postgres\""
  | .missingDatabaseUrl => "DATABASE_URL is required when STORAGE_BACKEND=postgres"
  | .notPositive which text =>
    s!"invalid {which.name} {Quoted.quote text}: expected a positive integer"
  | .invertedBackoff => "BACKOFF_MIN_MS must not exceed BACKOFF_MAX_MS"
  | .badSeed error => error.message reason

/-- What the service runs with. -/
structure Config where
  listenAt : SocketAddress
  backend : Backend
  settings : Settings
  seeds : List Seed
deriving DecidableEq

namespace Config

/-- The address to listen at when none is set. -/
def defaultAddress : String := "0.0.0.0:5380"

/-- The address to listen at. -/
def listenAddress (env : Environment) : Except ConfigError SocketAddress :=
  match SocketAddress.parse? ((env .listenAddress).getD defaultAddress) with
  | some address => .ok address
  | none => .error .badAddress

/-- The address of the database without the blanks around it, unless there is nothing else. -/
def databaseUrl? (env : Environment) : Option String :=
  ((env .databaseUrl).map fun url => String.ofList (Blank.trim url.toList)).filter (· ≠ "")

/-- The name of the storage: by default a database if it has an address, and else memory. -/
def backendName (env : Environment) : String :=
  (env .storageBackend).getD (if (databaseUrl? env).isSome then "postgres" else "memory")

/-- Where content is stored. -/
def backendOf (env : Environment) : Except ConfigError Backend :=
  if backendName env = "memory" then .ok .memory
  else if backendName env = "postgres" then
    match databaseUrl? env with
    | some url => .ok (.postgres url)
    | none => .error .missingDatabaseUrl
  else .error (.unknownBackend (backendName env))

/-- The positive number, at most `largest`, that a variable is set to, blanks around it ignored. -/
def positive (env : Environment) (which : Variable) (largest default : Nat) :
    Except ConfigError Nat :=
  match env which with
  | none => .ok default
  | some text =>
    match Numeral.parse? largest (Blank.trim text.toList) with
    | none | some 0 => .error (.notPositive which text)
    | some n => .ok n

/-- The largest 64-bit number. -/
def largest64 : Nat := 18446744073709551615

/-- The largest 32-bit number. -/
def largest32 : Nat := 4294967295

/-- The positive number of milliseconds that a variable is set to. -/
def millis (env : Environment) (which : Variable) (default : UInt64) :
    Except ConfigError UInt64 :=
  (positive env which largest64 default.toNat).map UInt64.ofNat

/-- The backoff ladder. -/
def backoffOf (env : Environment) (defaults : BackoffSettings) :
    Except ConfigError BackoffSettings := do
  let minDelay ← millis env .backoffMin defaults.minDelay
  let maxDelay ← millis env .backoffMax defaults.maxDelay
  let maxAttempts ← positive env .backoffAttempts largest32 defaults.maxAttempts
  if maxDelay < minDelay then .error .invertedBackoff
  else .ok { minDelay, maxDelay, maxAttempts }

/-- The settings of operations. -/
def settingsOf (env : Environment) (defaults : Settings) : Except ConfigError Settings := do
  let backoff ← backoffOf env defaults.backoff
  let defaultLimit ← positive env .defaultLimit largest64 defaults.defaultLimit
  let storePageSize ← positive env .storePageSize largest64 defaults.storePageSize
  let cascadeConcurrency ← positive env .cascadeConcurrency largest64 defaults.cascadeConcurrency
  let callTimeout ← millis env .callTimeout defaults.callTimeout
  .ok { defaults with defaultLimit, storePageSize, cascadeConcurrency, backoff, callTimeout }

/-- The hives known from the start; none if the variable is not set. -/
def seedsOf (env : Environment) : Except ConfigError (List Seed) :=
  match env .seedHives with
  | none => .ok []
  | some text =>
    match Seed.listOf text with
    | .ok seeds => .ok seeds
    | .error error => .error (.badSeed error)

/-- The configuration that an environment stands for. -/
def ofEnvironment (env : Environment) : Except ConfigError Config := do
  let listenAt ← listenAddress env
  let backend ← backendOf env
  let settings ← settingsOf env {}
  let seeds ← seedsOf env
  .ok { listenAt, backend, settings, seeds }

end Config

end HiveForum
