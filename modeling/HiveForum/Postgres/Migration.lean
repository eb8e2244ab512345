import HiveForum.Sql.Connection

/-!
# Setting up the database

The relations are made by scripts that are run in order, each once and in a transaction of its own.

## Main definitions

* `Postgres.Migration`: a script with its number.
* `Postgres.migrations`: the scripts.
* `Postgres.migrate`: runs the scripts that have not been run.
-/

namespace HiveForum.Postgres

open Sql

/-- A script that sets up a part of the database. -/
structure Migration where
  /-- The number of the script; scripts are run by increasing number. -/
  number : Nat
  script : String
deriving DecidableEq

/-- The lines as one text with single blanks. -/
def joinLines (lines : List String) : String := " ".intercalate lines

/-- Makes the relation of items and its indexes: one for each order of listings, and one for
tags. -/
def createContentItems : Migration where
  number := 1
  script := joinLines
    ["CREATE TABLE content_items (",
      "scope_id UUID NOT NULL,",
      "content_id UUID NOT NULL,",
      "hive_id UUID NOT NULL,",
      "kind TEXT NOT NULL CHECK (kind IN ('post', 'comment')),",
      "author_id TEXT NOT NULL,",
      "body TEXT NOT NULL,",
      "created_at_us BIGINT NOT NULL,",
      "last_activity_at_us BIGINT NOT NULL,",
      "up_vote_count BIGINT NOT NULL DEFAULT 0 CHECK (up_vote_count >= 0),",
      "down_vote_count BIGINT NOT NULL DEFAULT 0 CHECK (down_vote_count >= 0),",
      "comment_count BIGINT NOT NULL DEFAULT 0 CHECK (comment_count >= 0),",
      "reported_count BIGINT NOT NULL DEFAULT 0 CHECK (reported_count >= 0),",
      "obfuscated BOOLEAN NOT NULL DEFAULT FALSE,",
      "reviewed BOOLEAN NOT NULL DEFAULT FALSE,",
      "pinned BOOLEAN NOT NULL DEFAULT FALSE,",
      "tag_ids UUID[] NOT NULL DEFAULT '\x7b\x7d',",
      "PRIMARY KEY (scope_id, content_id)",
      ");",
      "CREATE INDEX content_items_by_created",
      "ON content_items (scope_id, created_at_us, content_id);",
      "CREATE INDEX content_items_by_activity",
      "ON content_items (scope_id, last_activity_at_us, content_id);",
      "CREATE INDEX content_items_tags",
      "ON content_items USING GIN (tag_ids);"]

/-- Makes the relation of engagement records, and its index by item. -/
def createEngagementRecords : Migration where
  number := 2
  script := joinLines
    ["CREATE TABLE engagement_records (",
      "user_id TEXT NOT NULL,",
      "content_id UUID NOT NULL,",
      "scope_id UUID NOT NULL,",
      "hive_id UUID NOT NULL,",
      "up_voted BOOLEAN NOT NULL DEFAULT FALSE,",
      "down_voted BOOLEAN NOT NULL DEFAULT FALSE,",
      "saved BOOLEAN NOT NULL DEFAULT FALSE,",
      "reported BOOLEAN NOT NULL DEFAULT FALSE,",
      "voted_at_us BIGINT,",
      "reported_reason TEXT,",
      "version BIGINT NOT NULL,",
      "PRIMARY KEY (user_id, content_id),",
      "CHECK (NOT (up_voted AND down_voted))",
      ");",
      "CREATE INDEX engagement_records_by_content",
      "ON engagement_records (content_id, user_id);"]

/-- The scripts, in the order in which they are run. -/
def migrations : List Migration := [createContentItems, createEngagementRecords]

/-- Which scripts a database has run. -/
structure Applied where
  numbers : List Nat := []
deriving DecidableEq, Inhabited

namespace Applied

/-- Whether a script is still to be run. -/
def lacks (applied : Applied) (migration : Migration) : Bool :=
  !applied.numbers.contains migration.number

/-- Notes that a script has been run. -/
def add (applied : Applied) (migration : Migration) : Applied :=
  ⟨migration.number :: applied.numbers⟩

end Applied

/-- The error of a script that cannot be run. -/
def Failure.migrationError (migration : Migration) (failure : Failure) : StoreError :=
  .migration s!"while executing migration {migration.number}: {failure.storeError.message}"

variable {σ : Type}

/-- Sends commands as long as they succeed. Gives the ones sent and the first failure. -/
def sendAll (peer : Peer σ) : List Command → σ → Transcript (Option Failure) × σ
  | [], state => (⟨none, []⟩, state)
  | command :: rest, state =>
    match peer.reply command state with
    | (.error failure, state) => (⟨some failure, [command]⟩, state)
    | (.ok _, state) =>
      let (transcript, state) := sendAll peer rest state
      (⟨transcript.value, command :: transcript.sent⟩, state)

/-- Runs the given scripts in order, up to the first failure. A script counts as applied from the
moment that its text has run without error. -/
def applyScripts (peer : Peer σ) : List Migration → Applied → σ →
    Transcript (Except StoreError Unit) × Applied × σ
  | [], applied, state => (⟨.ok (), []⟩, applied, state)
  | migration :: rest, applied, state =>
    let (ran, state) := sendAll peer [.begin, .script migration.script] state
    match ran.value with
    | some failure =>
      (⟨.error (Failure.migrationError migration failure), ran.sent⟩, applied, state)
    | none =>
      let applied := applied.add migration
      match peer.reply .commit state with
      | (.error failure, state) =>
        (⟨.error (Failure.migrationError migration failure), ran.sent ++ [.commit]⟩, applied, state)
      | (.ok _, state) =>
        let (transcript, applied, state) := applyScripts peer rest applied state
        (⟨transcript.value, ran.sent ++ .commit :: transcript.sent⟩, applied, state)

/-- Runs the scripts that a database has not run yet; without a database there is nothing to do but
to fail. -/
def migrate (configured : Bool) (peer : Peer σ) (applied : Applied) (state : σ) :
    Transcript (Except StoreError Unit) × Applied × σ :=
  if configured then applyScripts peer (migrations.filter applied.lacks) applied state
  else (⟨.error .missingDatabaseUrl, []⟩, applied, state)

end HiveForum.Postgres
