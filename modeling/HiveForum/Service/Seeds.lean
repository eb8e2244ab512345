import HiveForum.Access.Directory
import HiveForum.Text.Blank
import HiveForum.Text.Quoted

/-!
# Hives known from the start

A text lists the hives that the directory knows from the start, each with its owner: the identifier
of the hive, a colon, and the name of the owner. Blanks stand between the entries.

## Main definitions

* `Seed`: a hive with its owner.
* `Seed.ofEntry`, `Seed.listOf`: reading an entry, and a text of entries.
* `Directory.ofSeeds`: the directory at the start.

## Main results

* `Seed.listOf_eq_ok_iff`: a text is read exactly if each of its words is.
-/

namespace HiveForum

/-- A hive with its owner. -/
structure Seed where
  hive : ScopeId
  owner : UserId
deriving DecidableEq, Inhabited

/-- Why an entry cannot be read. -/
inductive SeedError where
  | malformed (entry : String)
  | badHive (hive : String)
deriving DecidableEq

/-- The text of the error. It ends with the reason why a text is no identifier, in the words of what
reads identifiers, if they are given. -/
def SeedError.message (error : SeedError) (reason : Option String := none) : String :=
  match error with
  | .malformed entry =>
    s!"invalid SEED_HIVES entry {Quoted.quote entry}: expected <hive-id>:<owner>"
  | .badHive hive =>
    let text := s!"invalid SEED_HIVES hive id {Quoted.quote hive}"
    match reason with
    | none => text
    | some reason => s!"{text}: {reason}"

namespace Seed

/-- The characters before the first colon and those after it. -/
def splitAtColon? : List Char → Option (List Char × List Char)
  | [] => none
  | c :: rest =>
    if c = ':' then some ([], rest)
    else (splitAtColon? rest).map fun (before, after) => (c :: before, after)

/-- Reads an entry. -/
def ofEntry (entry : List Char) : Except SeedError Seed :=
  match splitAtColon? entry with
  | none | some (_, []) => .error (.malformed (String.ofList entry))
  | some (hive, owner) =>
    match Uuid.parseChars? hive with
    | none => .error (.badHive (String.ofList hive))
    | some id => .ok ⟨⟨id⟩, ⟨String.ofList owner⟩⟩

/-- Reads entries in order, up to the first that cannot be read. -/
def ofEntries : List (List Char) → Except SeedError (List Seed)
  | [] => .ok []
  | entry :: rest =>
    match ofEntry entry with
    | .error error => .error error
    | .ok seed =>
      match ofEntries rest with
      | .error error => .error error
      | .ok seeds => .ok (seed :: seeds)

/-- Reads a text of entries with blanks between them. -/
def listOf (text : String) : Except SeedError (List Seed) := ofEntries (Blank.words text.toList)

/-- Entries are read exactly if each of them is. -/
theorem ofEntries_eq_ok_iff {entries : List (List Char)} {seeds : List Seed} :
    ofEntries entries = .ok seeds ↔ entries.map ofEntry = seeds.map .ok := by
  induction entries generalizing seeds with
  | nil => cases seeds <;> simp [ofEntries]
  | cons entry rest ih =>
    cases h : ofEntry entry with
    | error error => cases seeds <;> simp [ofEntries, h]
    | ok seed =>
      cases hrest : ofEntries rest with
      | error error =>
        cases seeds with
        | nil => simp [ofEntries, h, hrest]
        | cons first others =>
          have hne : ¬ rest.map ofEntry = others.map .ok := fun hmap => by
            rw [← ih, hrest] at hmap
            cases hmap
          simp [ofEntries, h, hrest, hne]
      | ok tail =>
        cases seeds with
        | nil => simp [ofEntries, h, hrest]
        | cons first others => simp [ofEntries, h, hrest, ← ih]

/-- A text is read exactly if each of its words is. -/
theorem listOf_eq_ok_iff {text : String} {seeds : List Seed} :
    listOf text = .ok seeds ↔ (Blank.words text.toList).map ofEntry = seeds.map .ok :=
  ofEntries_eq_ok_iff

end Seed

/-- The directory that knows the given hives and their owners. -/
def Directory.ofSeeds (seeds : List Seed) : Directory :=
  seeds.foldl (fun directory seed => directory.createHive seed.hive seed.owner) .empty

end HiveForum
