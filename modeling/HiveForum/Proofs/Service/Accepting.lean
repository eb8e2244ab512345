import HiveForum.Proofs.Service.Values

/-!
# Environments that are accepted

An environment is accepted exactly if it fulfils the conditions on its variables. The configuration
then has the address, the storage, the numbers and the hives that the variables stand for. Otherwise
the first condition that is violated, in the order in which they are checked, is reported.

## Main definitions

* `Config.Condition`, `Config.conditions`: the conditions on an environment, in order.
* `Config.Holds`, `Config.Violates`: whether a condition is fulfilled, and what is reported if not.
* `Config.Reports`: what is reported of the first condition that is violated.
* `Config.Accepts`: the configuration that an environment stands for.

## Main results

* `Config.checks_ofEnvironment`: the conditions are checked in order.
* `Config.ofEnvironment_eq_ok_iff`: the configuration that is read.
* `Config.accepted_exactly`: what is accepted, as what, and what is reported otherwise.
-/

namespace HiveForum.Config

/-! ### Conditions -/

/-- The variables that are set to numbers. -/
def numbers : List Variable :=
  [.backoffMin, .backoffMax, .backoffAttempts, .defaultLimit, .storePageSize, .cascadeConcurrency,
    .callTimeout]

/-- The largest number that a variable may be set to. -/
def largestOf : Variable → Nat
  | .backoffAttempts => largest32
  | _ => largest64

/-- The number that settings have for a variable; zero for a variable that is set to none. -/
def knob (settings : Settings) : Variable → Nat
  | .backoffMin => settings.backoff.minDelay.toNat
  | .backoffMax => settings.backoff.maxDelay.toNat
  | .backoffAttempts => settings.backoff.maxAttempts
  | .defaultLimit => settings.defaultLimit
  | .storePageSize => settings.storePageSize
  | .cascadeConcurrency => settings.cascadeConcurrency
  | .callTimeout => settings.callTimeout.toNat
  | _ => 0

/-- The variable stands for the number, by default for the one of the settings at the start. -/
def Gives (env : Environment) (which : Variable) (n : Nat) : Prop :=
  StandsFor env which (largestOf which) (knob {} which) n

/-- A condition on an environment. -/
inductive Condition where
  | address
  | storage
  | number (which : Variable)
  /-- The least delay does not exceed the largest one. -/
  | ladder
  | seeds

/-- The conditions, in the order in which they are checked. -/
def conditions : List Condition :=
  [.address, .storage, .number .backoffMin, .number .backoffMax, .number .backoffAttempts, .ladder,
    .number .defaultLimit, .number .storePageSize, .number .cascadeConcurrency,
    .number .callTimeout, .seeds]

/-- The environment fulfils the condition. -/
def Holds (env : Environment) : Condition → Prop
  | .address =>
    ∃ address, SocketAddress.parse? ((env .listenAddress).getD defaultAddress) = some address
  | .storage =>
    env .storageBackend = none ∨ env .storageBackend = some "memory" ∨
      env .storageBackend = some "postgres" ∧ UrlGiven env
  | .number which => ∀ text, env which = some text → ∃ n, Writes (largestOf which) text n
  | .ladder =>
    ∀ least largest, Gives env .backoffMin least → Gives env .backoffMax largest → least ≤ largest
  | .seeds => ∀ text, env .seedHives = some text → ∃ seeds, Seed.listOf text = .ok seeds

/-- The environment violates the condition, and the error says so. -/
def Violates (env : Environment) : Condition → ConfigError → Prop
  | .address, error =>
    (∀ address, SocketAddress.parse? ((env .listenAddress).getD defaultAddress) ≠ some address) ∧
      error = .badAddress
  | .storage, error =>
    (∃ name, env .storageBackend = some name ∧ name ≠ "memory" ∧ name ≠ "postgres" ∧
      error = .unknownBackend name) ∨
    env .storageBackend = some "postgres" ∧ ¬UrlGiven env ∧ error = .missingDatabaseUrl
  | .number which, error =>
    ∃ text, env which = some text ∧ (∀ n, ¬Writes (largestOf which) text n) ∧
      error = .notPositive which text
  | .ladder, error =>
    (∃ least largest, Gives env .backoffMin least ∧ Gives env .backoffMax largest ∧
      largest < least) ∧ error = .invertedBackoff
  | .seeds, error =>
    ∃ text reason, env .seedHives = some text ∧ Seed.listOf text = .error reason ∧
      error = .badSeed reason

/-- The error is the one of the first of the conditions that is violated. -/
inductive Reports (env : Environment) : List Condition → ConfigError → Prop
  | violated {condition : Condition} {rest : List Condition} {error : ConfigError}
    (h : Violates env condition error) : Reports env (condition :: rest) error
  | passed {condition : Condition} {rest : List Condition} {error : ConfigError}
    (h : Holds env condition) (hrest : Reports env rest error) :
    Reports env (condition :: rest) error

variable {env : Environment} {condition : Condition} {checked others : List Condition}
  {error other : ConfigError}

theorem Violates.not_holds (h : Violates env condition error) : ¬Holds env condition := by
  intro hholds
  cases condition with
  | address =>
    obtain ⟨address, haddress⟩ := hholds
    exact h.1 address haddress
  | storage =>
    rcases h with ⟨name, hset, hmemory, hpostgres, -⟩ | ⟨hset, hurl, -⟩
    · simp_all [Holds]
    · simp_all [Holds]
  | number which =>
    obtain ⟨text, hset, hnone, -⟩ := h
    obtain ⟨n, hn⟩ := hholds text hset
    exact hnone n hn
  | ladder =>
    obtain ⟨⟨least, largest, hleast, hlargest, hlt⟩, -⟩ := h
    exact absurd (hholds least largest hleast hlargest) (Nat.not_le_of_lt hlt)
  | seeds =>
    obtain ⟨text, reason, hset, hread, -⟩ := h
    obtain ⟨seeds, hseeds⟩ := hholds text hset
    rw [hread] at hseeds
    cases hseeds

theorem Violates.unique (h : Violates env condition error) (hother : Violates env condition other) :
    error = other := by
  cases condition with
  | address => exact (decides_listenAddress env).error_unique h hother
  | storage => exact (decides_backendOf env).error_unique h hother
  | number which => exact (decides_positive env which (largestOf which) 0).error_unique h hother
  | ladder => exact h.2.trans hother.2.symm
  | seeds => exact (decides_seedsOf env).error_unique h hother

theorem Reports.not_holds (h : Reports env checked error) : ¬∀ c ∈ checked, Holds env c := by
  induction h with
  | violated h => exact fun hall => h.not_holds (List.forall_mem_cons.1 hall).1
  | passed _ _ ih => exact fun hall => ih (List.forall_mem_cons.1 hall).2

theorem Reports.unique (h : Reports env checked error) (hother : Reports env checked other) :
    error = other := by
  induction h with
  | violated h =>
    cases hother with
    | violated hother => exact h.unique hother
    | passed hholds _ => exact absurd hholds h.not_holds
  | passed hholds _ ih =>
    cases hother with
    | violated hother => exact absurd hholds hother.not_holds
    | passed _ hother => exact ih hother

theorem Reports.append (h : Reports env checked error) (others : List Condition) :
    Reports env (checked ++ others) error := by
  induction h with
  | violated h => exact .violated h
  | passed hholds _ ih => exact .passed hholds ih

theorem Reports.append_of_holds (hchecked : ∀ c ∈ checked, Holds env c)
    (h : Reports env others error) : Reports env (checked ++ others) error := by
  induction checked with
  | nil => exact h
  | cons c checked ih =>
    obtain ⟨hc, hchecked⟩ := List.forall_mem_cons.1 hchecked
    exact .passed hc (ih hchecked)

/-! ### Checking in order -/

/-- The conditions are checked in order: they hold if something is read, and the first that is
violated is reported otherwise. -/
structure Checks {α : Type} (env : Environment) (checked : List Condition)
    (read : Except ConfigError α) : Prop where
  /-- If something is read, the conditions hold. -/
  ok : ∀ a, read = .ok a → ∀ c ∈ checked, Holds env c
  /-- An error is that of the first condition that is violated. -/
  error : ∀ error, read = .error error → Reports env checked error

variable {α β : Type} {read : Except ConfigError α} {next : α → Except ConfigError β}

theorem Checks.pure (env : Environment) (a : α) : Checks env [] (.ok a) where
  ok := by simp
  error := by rintro _ ⟨⟩

theorem Checks.of_decides {reads : α → Prop} (h : Decides read reads (Violates env condition))
    (hholds : ∀ a, reads a → Holds env condition) : Checks env [condition] read where
  ok := fun a ha => List.forall_mem_singleton.2 (hholds a ((h.ok_iff a).1 ha))
  error := fun error herror => .violated ((h.error_iff error).1 herror)

/-- What is read next is checked after what was read. -/
theorem Checks.bind (h : Checks env checked read)
    (hnext : ∀ a, read = .ok a → Checks env others (next a)) :
    Checks env (checked ++ others) (read >>= next) := by
  cases read with
  | error error =>
    -- An error ends the checks: the conditions after it are not looked at.
    refine ⟨fun b hb => ?_, fun other hother => ?_⟩
    · cases hb
    · cases hother
      exact (h.error error rfl).append others
  | ok a =>
    have hnext := hnext a rfl
    have hheld := h.ok a rfl
    exact ⟨fun b hb => List.forall_mem_append.2 ⟨hheld, hnext.ok b hb⟩,
      fun other hother => .append_of_holds hheld (hnext.error other hother)⟩

theorem Checks.map (h : Checks env checked read) (f : α → β) : Checks env checked (read.map f) := by
  have hbind := h.bind fun a _ => .pure env (f a)
  rw [List.append_nil] at hbind
  cases read <;> exact hbind

theorem checks_listenAddress (env : Environment) : Checks env [.address] (listenAddress env) :=
  .of_decides (decides_listenAddress env) fun address h => ⟨address, h⟩

theorem checks_backendOf (env : Environment) : Checks env [.storage] (backendOf env) := by
  refine .of_decides (decides_backendOf env) fun backend hstores => ?_
  cases hstores with
  | memory h => exact .inr (.inl h)
  | memoryByDefault h => exact .inl h
  | postgres h hurl => exact .inr (.inr ⟨h, exists_hasUrl_iff.1 ⟨_, hurl⟩⟩)
  | postgresByDefault h => exact .inl h

theorem checks_positive (env : Environment) (which : Variable) (default : Nat) :
    Checks env [.number which] (positive env which (largestOf which) default) := by
  refine .of_decides (decides_positive env which (largestOf which) default) fun n h text hset => ?_
  rw [StandsFor, hset] at h
  exact ⟨n, h⟩

theorem checks_ladder {backoff : BackoffSettings}
    (hmin : Gives env .backoffMin backoff.minDelay.toNat)
    (hmax : Gives env .backoffMax backoff.maxDelay.toNat) :
    Checks env [.ladder] (if backoff.maxDelay < backoff.minDelay then
      .error .invertedBackoff else .ok backoff : Except ConfigError BackoffSettings) := by
  have hgiven : ∀ least largest, Gives env .backoffMin least → Gives env .backoffMax largest →
      least = backoff.minDelay.toNat ∧ largest = backoff.maxDelay.toNat :=
    fun least largest hleast hlargest => ⟨(decides_positive _ _ _ _).value_unique hleast hmin,
      (decides_positive _ _ _ _).value_unique hlargest hmax⟩
  split
  · rename_i hlt
    refine ⟨by rintro _ ⟨⟩, fun error herror => ?_⟩
    cases herror
    exact .violated ⟨⟨_, _, hmin, hmax, UInt64.lt_iff_toNat_lt.1 hlt⟩, rfl⟩
  · rename_i hle
    refine ⟨fun _ _ => List.forall_mem_singleton.2 fun least largest hleast hlargest => ?_, by
      rintro _ ⟨⟩⟩
    obtain ⟨rfl, rfl⟩ := hgiven least largest hleast hlargest
    exact UInt64.le_iff_toNat_le.1 (UInt64.not_lt.1 hle)

theorem checks_seedsOf (env : Environment) : Checks env [.seeds] (seedsOf env) := by
  refine .of_decides (decides_seedsOf env) fun seeds h text hset => ?_
  rw [Lists, hset] at h
  exact ⟨seeds, h⟩

theorem checks_backoffOf (env : Environment) :
    Checks env [.number .backoffMin, .number .backoffMax, .number .backoffAttempts, .ladder]
      (backoffOf env ({} : Settings).backoff) := by
  refine ((checks_positive env .backoffMin _).map _).bind fun minDelay hmin => ?_
  refine ((checks_positive env .backoffMax _).map _).bind fun maxDelay hmax => ?_
  refine (checks_positive env .backoffAttempts _).bind fun maxAttempts _ => ?_
  -- The two delays are compared as they are given, one or both of them by default.
  have hladder : Checks env [.ladder] _ :=
    @checks_ladder env ⟨minDelay, maxDelay, maxAttempts⟩ (millis_eq_ok_iff.1 hmin)
      (millis_eq_ok_iff.1 hmax)
  exact hladder

theorem checks_settingsOf (env : Environment) :
    Checks env
      [.number .backoffMin, .number .backoffMax, .number .backoffAttempts, .ladder,
        .number .defaultLimit, .number .storePageSize, .number .cascadeConcurrency,
        .number .callTimeout]
      (settingsOf env {}) := by
  refine (checks_backoffOf env).bind fun backoff _ => ?_
  refine (checks_positive env .defaultLimit _).bind fun defaultLimit _ => ?_
  refine (checks_positive env .storePageSize _).bind fun storePageSize _ => ?_
  refine (checks_positive env .cascadeConcurrency _).bind fun cascadeConcurrency _ => ?_
  exact ((checks_positive env .callTimeout _).map _).bind fun callTimeout _ => .pure env _

/-- The conditions on an environment are checked in order. -/
theorem checks_ofEnvironment (env : Environment) : Checks env conditions (ofEnvironment env) := by
  refine (checks_listenAddress env).bind fun listenAt _ => ?_
  refine (checks_backendOf env).bind fun backend _ => ?_
  refine (checks_settingsOf env).bind fun settings _ => ?_
  exact (checks_seedsOf env).bind fun seeds _ => .pure env _

/-! ### The configuration -/

/-- The configuration has what the variables of the environment stand for. -/
structure Accepts (env : Environment) (config : Config) : Prop where
  listenAt :
    SocketAddress.parse? ((env .listenAddress).getD defaultAddress) = some config.listenAt
  backend : Stores env config.backend
  /-- The numbers are the written ones or their defaults. -/
  numbers : ∀ which ∈ numbers, Gives env which (knob config.settings which)
  /-- The least delay does not exceed the largest one. -/
  ladder : config.settings.backoff.minDelay ≤ config.settings.backoff.maxDelay
  conflictRetries : config.settings.conflictRetries = ({} : Settings).conflictRetries
  seeds : Lists env config.seeds

theorem backoffOf_eq_ok_iff {defaults backoff : BackoffSettings} :
    backoffOf env defaults = .ok backoff ↔
      StandsFor env .backoffMin largest64 defaults.minDelay.toNat backoff.minDelay.toNat ∧
      StandsFor env .backoffMax largest64 defaults.maxDelay.toNat backoff.maxDelay.toNat ∧
      StandsFor env .backoffAttempts largest32 defaults.maxAttempts backoff.maxAttempts ∧
      backoff.minDelay ≤ backoff.maxDelay := by
  simp only [backoffOf, Except.bind_eq_ok_iff, millis_eq_ok_iff, (decides_positive _ _ _ _).ok_iff]
  constructor
  · rintro ⟨minDelay, hmin, maxDelay, hmax, maxAttempts, hattempts, h⟩
    split at h
    · cases h
    · rename_i hle
      cases h
      exact ⟨hmin, hmax, hattempts, UInt64.not_lt.1 hle⟩
  · rintro ⟨hmin, hmax, hattempts, hle⟩
    exact ⟨_, hmin, _, hmax, _, hattempts, if_neg (UInt64.not_lt.2 hle)⟩

theorem settingsOf_eq_ok_iff {settings : Settings} :
    settingsOf env {} = .ok settings ↔
      (∀ which ∈ numbers, Gives env which (knob settings which)) ∧
      settings.backoff.minDelay ≤ settings.backoff.maxDelay ∧
      settings.conflictRetries = ({} : Settings).conflictRetries := by
  simp only [settingsOf, Except.bind_eq_ok_iff, backoffOf_eq_ok_iff, millis_eq_ok_iff,
    (decides_positive _ _ _ _).ok_iff, numbers, List.forall_mem_cons, List.not_mem_nil,
    false_imp_iff, implies_true, and_true]
  constructor
  · rintro ⟨backoff, ⟨hmin, hmax, hattempts, hle⟩, defaultLimit, hlimit, storePageSize, hpage,
      cascadeConcurrency, hcascade, callTimeout, htimeout, h⟩
    cases h
    exact ⟨⟨hmin, hmax, hattempts, hlimit, hpage, hcascade, htimeout⟩, hle, rfl⟩
  · rintro ⟨⟨hmin, hmax, hattempts, hlimit, hpage, hcascade, htimeout⟩, hle, hretries⟩
    refine ⟨_, ⟨hmin, hmax, hattempts, hle⟩, _, hlimit, _, hpage, _, hcascade, _, htimeout, ?_⟩
    rw [← hretries]
    rfl

/-- The configuration that is read has what the variables stand for. -/
theorem ofEnvironment_eq_ok_iff {config : Config} :
    ofEnvironment env = .ok config ↔ Accepts env config := by
  simp only [ofEnvironment, Except.bind_eq_ok_iff, (decides_listenAddress _).ok_iff,
    (decides_backendOf _).ok_iff,
    settingsOf_eq_ok_iff, (decides_seedsOf _).ok_iff]
  constructor
  · rintro ⟨listenAt, hlisten, backend, hbackend, settings, ⟨hnumbers, hladder, hretries⟩, seeds,
      hseeds, h⟩
    cases h
    exact ⟨hlisten, hbackend, hnumbers, hladder, hretries, hseeds⟩
  · rintro ⟨hlisten, hbackend, hnumbers, hladder, hretries, hseeds⟩
    exact ⟨_, hlisten, _, hbackend, _, ⟨hnumbers, hladder, hretries⟩, _, hseeds, rfl⟩

theorem Accepts.one_le {config : Config} (h : Accepts env config) :
    ∀ which ∈ Config.numbers, 1 ≤ knob config.settings which := by
  have hdefaults : ∀ which ∈ Config.numbers, 0 < knob {} which := by decide
  exact fun which hwhich => (h.numbers which hwhich).pos (hdefaults which hwhich)

/-- An environment is accepted exactly if it fulfils all conditions: the address can be read, the
storage is memory or a database that has an address, each number that is set is positive and fits,
the least delay does not exceed the largest one, whether these are set or not, and the hives can be
read. The configuration then has exactly what is written or the defaults, so that its numbers are
positive and its delays in order. Otherwise the error is that of the first condition violated. -/
theorem accepted_exactly (env : Environment) :
    ((∃ config, ofEnvironment env = .ok config) ↔ ∀ condition ∈ conditions, Holds env condition) ∧
    (∀ config, ofEnvironment env = .ok config ↔ Accepts env config) ∧
    (∀ config, ofEnvironment env = .ok config →
      (∀ which ∈ numbers, 1 ≤ knob config.settings which) ∧
        config.settings.backoff.minDelay ≤ config.settings.backoff.maxDelay) ∧
    ∀ error, ofEnvironment env = .error error ↔ Reports env conditions error := by
  have hchecks := checks_ofEnvironment env
  refine ⟨⟨?_, fun hall => ?_⟩, fun _ => ofEnvironment_eq_ok_iff, fun config h => ?_, fun error =>
    ⟨hchecks.error error, fun herror => ?_⟩⟩
  · rintro ⟨config, h⟩
    exact hchecks.ok config h
  · cases hread : ofEnvironment env with
    | error error => exact absurd hall (hchecks.error error hread).not_holds
    | ok config => exact ⟨config, rfl⟩
  · have haccepts := ofEnvironment_eq_ok_iff.1 h
    exact ⟨haccepts.one_le, haccepts.ladder⟩
  · cases hread : ofEnvironment env with
    | error other => rw [herror.unique (hchecks.error other hread)]
    | ok config => exact absurd (hchecks.ok config hread) herror.not_holds

end HiveForum.Config

namespace HiveForum.Sample

/-- A database by default, a delay with a sign and blanks, and a hive. -/
def writtenEnvironment : Environment
  | .listenAddress => some "127.0.0.1:8080"
  | .databaseUrl => some "\tpostgres://db \n"
  | .backoffMin => some " +0200\n"
  | .storePageSize => some "7"
  | .seedHives => some "00000000000000000000000000000001:ann"
  | _ => none

/-- The configuration that is written there. -/
def writtenConfig : Config where
  listenAt := .v4 ⟨127, 0, 0, 1⟩ 8080
  backend := .postgres "postgres://db"
  settings := { storePageSize := 7, backoff := { minDelay := 200 } }
  seeds := [⟨⟨.ofNat 1⟩, ⟨"ann"⟩⟩]

/-- The environment is accepted as the configuration, of which it has the numbers. -/
theorem accepted_written :
    Config.Accepts writtenEnvironment writtenConfig ∧
    (∀ which ∈ Config.numbers, 1 ≤ Config.knob writtenConfig.settings which) ∧
    writtenConfig.settings.backoff.minDelay ≤ writtenConfig.settings.backoff.maxDelay := by
  obtain ⟨-, haccepts, hpositive, -⟩ := Config.accepted_exactly writtenEnvironment
  have hread : Config.ofEnvironment writtenEnvironment = .ok writtenConfig := by
    decide +kernel
  exact ⟨(haccepts _).1 hread, hpositive _ hread⟩

end HiveForum.Sample
