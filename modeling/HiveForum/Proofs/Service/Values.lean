import HiveForum.Proofs.Service.Verdicts
import HiveForum.Proofs.Text.Blanks
import HiveForum.Proofs.Text.Digits
import HiveForum.Service.Config

/-!
# What the variables stand for

A variable that is set to a number stands for the number that is written there, and for its default
if it is not set. The address of the database is what its variable is set to, without the blanks
around it, unless there is nothing else. What is read of each variable is told from its text alone,
and so is what is reported of it.

## Main definitions

* `Config.Writes`: the texts of a positive number.
* `Config.StandsFor`: the number that a variable stands for.
* `Config.HasUrl`: the address of the database.
* `Config.Stores`: where content is stored.
* `Config.Lists`: the hives known from the start.

## Main results

* `Config.decides_positive`: what is read of a variable that is set to a number.
* `Config.decides_backendOf`: what is read of the variables of the storage.
* `Config.decides_listenAddress`, `Config.decides_seedsOf`: what is read of the address and of the
  hives.
-/

namespace HiveForum.Config

variable {env : Environment} {which : Variable} {largest default n : Nat} {text url : String}
  {error : ConfigError} {backend : Backend}

/-! ### Numbers -/

/-- The text writes the positive number, which is not too large: a plus sign or none, and one or
more decimal digits, with blanks around them. -/
def Writes (largest : Nat) (text : String) (n : Nat) : Prop :=
  ∃ sign digits, Blank.Framed (sign ++ digits) text.toList ∧ (sign = [] ∨ sign = ['+']) ∧
    digits ≠ [] ∧ (∀ c ∈ digits, c.isDigit = true) ∧ Nat.ofDigitChars 10 digits 0 = n ∧
    0 < n ∧ n ≤ largest

/-- The variable stands for the number: it is set to it, or not set and this is the default. -/
def StandsFor (env : Environment) (which : Variable) (largest default n : Nat) : Prop :=
  match env which with
  | none => n = default
  | some text => Writes largest text n

theorem isBlank_of_isDigit {c : Char} (h : c.isDigit = true) : Blank.isBlank c = false := by
  simp only [Char.isDigit, Bool.and_eq_true, decide_eq_true_eq, ge_iff_le,
    UInt32.le_iff_toNat_le] at h
  have hrange : 48 ≤ c.toNat ∧ c.toNat ≤ 57 := h
  exact Blank.isBlank_of_lt_of_lt (by omega) (by omega)

/-- A number is read from the texts that write it. -/
theorem writes_iff :
    Writes largest text n ↔ Numeral.parse? largest (Blank.trim text.toList) = some n ∧ 0 < n := by
  rw [Numeral.parse?_eq_some_iff]
  constructor
  · rintro ⟨sign, digits, hframed, hsign, hne, hdigits, hvalue, hpos, hle⟩
    have hbare : ∀ c ∈ sign ++ digits, Blank.isBlank c = false := by
      intro c hc
      rcases List.mem_append.1 hc with hc | hc
      · rcases hsign with rfl | rfl
        · cases hc
        · rw [List.mem_singleton.1 hc]
          decide
      · exact isBlank_of_isDigit (hdigits c hc)
    refine ⟨⟨digits, ?_, hne, hdigits, hvalue, hle⟩, hpos⟩
    rw [Blank.trim_eq_iff.2 ⟨hframed, Blank.bare_of_forall hbare⟩]
    rcases hsign with rfl | rfl
    · exact .inl rfl
    · exact .inr rfl
  · rintro ⟨⟨digits, htrim, hne, hdigits, hvalue, hle⟩, hpos⟩
    have hframed := (Blank.framed_trim text.toList).1
    rcases htrim with htrim | htrim
    · rw [htrim] at hframed
      exact ⟨[], digits, hframed, .inl rfl, hne, hdigits, hvalue, hpos, hle⟩
    · rw [htrim] at hframed
      exact ⟨['+'], digits, hframed, .inr rfl, hne, hdigits, hvalue, hpos, hle⟩

theorem StandsFor.pos (h : StandsFor env which largest default n) (hdefault : 0 < default) :
    0 < n := by
  unfold StandsFor at h
  split at h
  · rwa [h]
  · exact (writes_iff.1 h).2

theorem StandsFor.le (h : StandsFor env which largest default n) (hdefault : default ≤ largest) :
    n ≤ largest := by
  unfold StandsFor at h
  split at h
  · rwa [h]
  · exact Numeral.parse?_le (writes_iff.1 h).1

theorem positive_of_standsFor (h : StandsFor env which largest default n) :
    positive env which largest default = .ok n := by
  unfold StandsFor at h
  unfold positive
  cases hset : env which with
  | none =>
    rw [hset] at h
    rw [h]
  | some text =>
    rw [hset] at h
    obtain ⟨hparse, hpos⟩ := writes_iff.1 h
    obtain ⟨m, rfl⟩ := Nat.exists_eq_add_one_of_ne_zero (Nat.ne_of_gt hpos)
    simp only [hparse]

theorem positive_of_not_writes (hset : env which = some text) (h : ∀ n, ¬Writes largest text n) :
    positive env which largest default = .error (.notPositive which text) := by
  unfold positive
  rw [hset]
  cases hparse : Numeral.parse? largest (Blank.trim text.toList) with
  | none => simp only [hparse]
  | some n =>
    cases n with
    | zero => simp only [hparse]
    | succ n => exact absurd (writes_iff.2 ⟨hparse, n.succ_pos⟩) (h _)

theorem standsFor_or_not_writes (env : Environment) (which : Variable) (largest default : Nat) :
    (∃ n, StandsFor env which largest default n) ∨
      ∃ text, env which = some text ∧ ∀ n, ¬Writes largest text n := by
  unfold StandsFor
  cases env which with
  | none => exact .inl ⟨default, rfl⟩
  | some text =>
    by_cases h : ∃ n, Writes largest text n
    · exact .inl h
    · exact .inr ⟨text, rfl, not_exists.1 h⟩

/-- The number that a variable stands for is read, and a text that is no such number is
reported. -/
theorem decides_positive (env : Environment) (which : Variable) (largest default : Nat) :
    Decides (positive env which largest default) (StandsFor env which largest default)
      fun error => ∃ text, env which = some text ∧ (∀ n, ¬Writes largest text n) ∧
        error = .notPositive which text := by
  refine .of_cover (fun n => positive_of_standsFor) ?_ ?_
  · rintro _ ⟨text, hset, hnone, rfl⟩
    exact positive_of_not_writes hset hnone
  · rcases standsFor_or_not_writes env which largest default with hn | ⟨text, hset, hnone⟩
    · exact .inl hn
    · exact .inr ⟨_, text, hset, hnone, rfl⟩

/-- The same for a number of milliseconds. -/
theorem millis_eq_ok_iff {default delay : UInt64} :
    millis env which default = .ok delay ↔
      StandsFor env which largest64 default.toNat delay.toNat := by
  have hmax : ∀ word : UInt64, word.toNat ≤ largest64 := fun word => Nat.le_of_lt_succ word.toNat_lt
  unfold millis
  rw [← (decides_positive _ _ _ _).ok_iff]
  cases hread : positive env which largest64 default.toNat with
  | error error => simp [Except.map]
  | ok n =>
    -- The number fits a word, whether it is written or the default.
    have hle : n < UInt64.size :=
      Nat.lt_succ_of_le ((((decides_positive _ _ _ _).ok_iff n).1 hread).le (hmax default))
    simp only [Except.map, Except.ok.injEq]
    constructor
    · rintro rfl
      rw [UInt64.toNat_ofNat_of_lt' hle]
    · rintro rfl
      rw [UInt64.ofNat_toNat]

/-! ### Storage -/

/-- The database has the address: what its variable is set to, without the blanks around it. -/
def HasUrl (env : Environment) (url : String) : Prop :=
  ∃ text, env .databaseUrl = some text ∧ Blank.Framed url.toList text.toList ∧
    Blank.Bare url.toList ∧ url ≠ ""

/-- The address of the database is set to a text that is not blank. -/
def UrlGiven (env : Environment) : Prop :=
  ∃ text, env .databaseUrl = some text ∧ ∃ c ∈ text.toList, Blank.isBlank c = false

/-- Where content is stored: as the variable says, and by default in a database exactly if this has
an address. -/
inductive Stores (env : Environment) : Backend → Prop
  | memory (h : env .storageBackend = some "memory") : Stores env .memory
  /-- In memory by default. -/
  | memoryByDefault (h : env .storageBackend = none) (hurl : ¬UrlGiven env) : Stores env .memory
  | postgres {url : String} (h : env .storageBackend = some "postgres") (hurl : HasUrl env url) :
    Stores env (.postgres url)
  /-- In a database by default. -/
  | postgresByDefault {url : String} (h : env .storageBackend = none) (hurl : HasUrl env url) :
    Stores env (.postgres url)

theorem databaseUrl?_eq_some_iff : databaseUrl? env = some url ↔ HasUrl env url := by
  rw [databaseUrl?, Option.filter_eq_some_iff, Option.map_eq_some_iff]
  constructor
  · rintro ⟨⟨text, hset, rfl⟩, hne⟩
    obtain ⟨hframed, hbare⟩ := Blank.framed_trim text.toList
    refine ⟨text, hset, ?_, ?_, of_decide_eq_true hne⟩
    · rwa [String.toList_ofList]
    · rwa [String.toList_ofList]
  · rintro ⟨text, hset, hframed, hbare, hne⟩
    refine ⟨⟨text, hset, ?_⟩, decide_eq_true hne⟩
    rw [Blank.trim_eq_iff.2 ⟨hframed, hbare⟩, String.ofList_toList]

/-- The database has an address if its variable is set to a text that is not blank. -/
theorem exists_hasUrl_iff : (∃ url, HasUrl env url) ↔ UrlGiven env := by
  constructor
  · rintro ⟨url, text, hset, ⟨lead, trail, -, -, htext⟩, hbare, hne⟩
    have hurl : url.toList ≠ [] := by simpa using hne
    obtain ⟨c, rest, hurl⟩ := List.exists_cons_of_ne_nil hurl
    refine ⟨text, hset, c, ?_, hbare.1 c (by rw [hurl, List.head?_cons])⟩
    rw [htext, hurl]
    simp
  · rintro ⟨text, hset, c, hc, hblank⟩
    obtain ⟨hframed, hbare⟩ := Blank.framed_trim text.toList
    refine ⟨String.ofList (Blank.trim text.toList), text, hset, ?_, ?_, fun hempty => ?_⟩
    · rwa [String.toList_ofList]
    · rwa [String.toList_ofList]
    · have hnone : Blank.trim text.toList = [] := by simpa using hempty
      have hall := Blank.trim_eq_nil_iff.1 hnone c hc
      rw [hblank] at hall
      cases hall

theorem isSome_databaseUrl?_iff : (databaseUrl? env).isSome = true ↔ UrlGiven env := by
  rw [Option.isSome_iff_exists, ← exists_hasUrl_iff]
  simp only [databaseUrl?_eq_some_iff]

theorem databaseUrl?_eq_none_iff : databaseUrl? env = none ↔ ¬UrlGiven env := by
  rw [← isSome_databaseUrl?_iff, Option.not_isSome_iff_eq_none]

theorem backendName_of_some {name : String} (h : env .storageBackend = some name) :
    backendName env = name := by
  rw [backendName, h, Option.getD_some]

theorem Stores.backendOf (h : Stores env backend) : backendOf env = .ok backend := by
  cases h with
  | memory h => rw [Config.backendOf, backendName_of_some h, if_pos rfl]
  | memoryByDefault h hurl =>
    have hname : backendName env = "memory" := by
      rw [backendName, h, Option.getD_none, if_neg (isSome_databaseUrl?_iff.not.2 hurl)]
    rw [Config.backendOf, if_pos hname]
  | postgres h hurl =>
    rw [Config.backendOf, backendName_of_some h, if_neg (by decide), if_pos rfl,
      databaseUrl?_eq_some_iff.2 hurl]
  | postgresByDefault h hurl =>
    have hurl := databaseUrl?_eq_some_iff.2 hurl
    have hname : backendName env = "postgres" := by
      rw [backendName, h, hurl]
      rfl
    rw [Config.backendOf, hname, if_neg (by decide), if_pos rfl, hurl]

theorem backendOf_of_unknown {name : String} (h : env .storageBackend = some name)
    (hmemory : name ≠ "memory") (hpostgres : name ≠ "postgres") :
    backendOf env = .error (.unknownBackend name) := by
  rw [backendOf, backendName_of_some h, if_neg hmemory, if_neg hpostgres]

theorem backendOf_of_not_urlGiven (h : env .storageBackend = some "postgres")
    (hurl : ¬UrlGiven env) : backendOf env = .error .missingDatabaseUrl := by
  rw [backendOf, backendName_of_some h, if_neg (by decide), if_pos rfl,
    databaseUrl?_eq_none_iff.2 hurl]

/-- Content is stored somewhere, or the storage is unknown, or its database has no address. -/
theorem stores_or (env : Environment) :
    (∃ backend, Stores env backend) ∨
      (∃ name, env .storageBackend = some name ∧ name ≠ "memory" ∧ name ≠ "postgres") ∨
      (env .storageBackend = some "postgres" ∧ ¬UrlGiven env) := by
  cases hset : env .storageBackend with
  | none =>
    by_cases hurl : UrlGiven env
    · obtain ⟨url, hurl⟩ := exists_hasUrl_iff.2 hurl
      exact .inl ⟨_, .postgresByDefault hset hurl⟩
    · exact .inl ⟨_, .memoryByDefault hset hurl⟩
  | some name =>
    by_cases hmemory : name = "memory"
    · exact .inl ⟨_, .memory (hset.trans (congrArg some hmemory))⟩
    · by_cases hpostgres : name = "postgres"
      · by_cases hurl : UrlGiven env
        · obtain ⟨url, hurl⟩ := exists_hasUrl_iff.2 hurl
          exact .inl ⟨_, .postgres (hset.trans (congrArg some hpostgres)) hurl⟩
        · exact .inr (.inr ⟨congrArg some hpostgres, hurl⟩)
      · exact .inr (.inl ⟨name, rfl, hmemory, hpostgres⟩)

/-- Where content is stored is read, and an unknown storage and a database without address are
reported. -/
theorem decides_backendOf (env : Environment) :
    Decides (backendOf env) (Stores env) fun error =>
      (∃ name, env .storageBackend = some name ∧ name ≠ "memory" ∧ name ≠ "postgres" ∧
        error = .unknownBackend name) ∨
      env .storageBackend = some "postgres" ∧ ¬UrlGiven env ∧ error = .missingDatabaseUrl := by
  refine .of_cover (fun backend => Stores.backendOf) ?_ ?_
  · rintro _ (⟨name, hset, hmemory, hpostgres, rfl⟩ | ⟨hset, hurl, rfl⟩)
    · exact backendOf_of_unknown hset hmemory hpostgres
    · exact backendOf_of_not_urlGiven hset hurl
  · rcases stores_or env with hstores | ⟨name, hset, hmemory, hpostgres⟩ | ⟨hset, hurl⟩
    · exact .inl hstores
    · exact .inr ⟨_, .inl ⟨name, hset, hmemory, hpostgres, rfl⟩⟩
    · exact .inr ⟨_, .inr ⟨hset, hurl, rfl⟩⟩

/-! ### Address and hives -/

/-- The address to listen at is read, and one that cannot be read is reported. -/
theorem decides_listenAddress (env : Environment) :
    Decides (listenAddress env)
      (fun address =>
        SocketAddress.parse? ((env .listenAddress).getD defaultAddress) = some address)
      fun error =>
        (∀ address,
          SocketAddress.parse? ((env .listenAddress).getD defaultAddress) ≠ some address) ∧
        error = .badAddress := by
  unfold listenAddress
  cases SocketAddress.parse? ((env .listenAddress).getD defaultAddress) with
  | none => exact ⟨by simp, by simp [eq_comm]⟩
  | some address => exact ⟨by simp, by simp⟩

/-- The hives known from the start: those that the variable lists, or none if it is not set. -/
def Lists (env : Environment) (seeds : List Seed) : Prop :=
  match env .seedHives with
  | none => seeds = []
  | some text => Seed.listOf text = .ok seeds

/-- The hives are read, and a text that does not list hives is reported. -/
theorem decides_seedsOf (env : Environment) :
    Decides (seedsOf env) (Lists env) fun error =>
      ∃ text reason, env .seedHives = some text ∧ Seed.listOf text = .error reason ∧
        error = .badSeed reason := by
  unfold seedsOf Lists
  cases env .seedHives with
  | none => exact ⟨by simp [eq_comm], by simp⟩
  | some text =>
    cases hread : Seed.listOf text with
    | error reason => exact ⟨by simp [hread], by simp [hread, eq_comm]⟩
    | ok seeds => exact ⟨by simp [hread], by simp [hread]⟩

end HiveForum.Config
