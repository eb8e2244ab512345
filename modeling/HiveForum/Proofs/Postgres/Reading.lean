import HiveForum.Postgres.Rows
import HiveForum.Sql.Database

/-!
# What rows stand for

A row is read as an item or as a record by the values of its columns. It is read as before when
columns that nobody reads are left out, and as a changed item or record when columns are set.

## Main definitions

* `Sql.Row.ShowsItem`, `Sql.Row.ShowsRecord`: a row has the values of an item, or of a record.

## Main results

* `ContentItem.ofRow_eq_ok_iff`, `EngagementRecord.ofRow_eq_ok_iff`: a row is read as what it shows.
* `Sql.Row.ShowsItem.project`, `Sql.Row.ShowsRecord.project`: the relation's columns are enough.
* `Sql.Row.ShowsItem.of_params`, `Sql.Row.ShowsRecord.of_params`: what is sent is read back.
* `Sql.Row.ShowsItem.admits_iff`, `Sql.Row.ShowsRecord.admits_iff`: the items and records whose rows
  are admitted.
-/

namespace HiveForum

open Sql

namespace Sql.Row

variable {row : Row} {column : Column}

/-! ### Columns -/

theorem read_eq_ok_iff {α : Type} {reader : Value → Option α} {result : α} :
    row.read reader column = .ok result ↔
      ∃ value, row.value? column = some value ∧ reader value = some result := by
  rw [read, ← Option.bind_eq_some_iff]
  cases (row.value? column).bind reader <;> simp

theorem boolean_eq_ok_iff {b : Bool} :
    row.boolean column = .ok b ↔ row.value? column = some (.boolean b) := by
  rw [boolean, read_eq_ok_iff]
  constructor
  · rintro ⟨value, hvalue, hread⟩
    cases value <;> cases hread
    exact hvalue
  · exact fun hvalue => ⟨_, hvalue, rfl⟩

theorem bigint_eq_ok_iff {n : Int64} :
    row.bigint column = .ok n ↔ row.value? column = some (.bigint n) := by
  rw [bigint, read_eq_ok_iff]
  constructor
  · rintro ⟨value, hvalue, hread⟩
    cases value <;> cases hread
    exact hvalue
  · exact fun hvalue => ⟨_, hvalue, rfl⟩

theorem bigint?_eq_ok_iff {n : Option Int64} :
    row.bigint? column = .ok n ↔ row.value? column = some (.ofBigint? n) := by
  rw [bigint?, read_eq_ok_iff]
  constructor
  · rintro ⟨value, hvalue, hread⟩
    cases value <;> cases hread <;> exact hvalue
  · intro hvalue
    refine ⟨_, hvalue, ?_⟩
    cases n <;> rfl

theorem text_eq_ok_iff {s : String} :
    row.text column = .ok s ↔ row.value? column = some (.text s) := by
  rw [text, read_eq_ok_iff]
  constructor
  · rintro ⟨value, hvalue, hread⟩
    cases value <;> cases hread
    exact hvalue
  · exact fun hvalue => ⟨_, hvalue, rfl⟩

theorem text?_eq_ok_iff {s : Option String} :
    row.text? column = .ok s ↔ row.value? column = some (.ofText? s) := by
  rw [text?, read_eq_ok_iff]
  constructor
  · rintro ⟨value, hvalue, hread⟩
    cases value <;> cases hread <;> exact hvalue
  · intro hvalue
    refine ⟨_, hvalue, ?_⟩
    cases s <;> rfl

theorem uuid_eq_ok_iff {id : Uuid} :
    row.uuid column = .ok id ↔ row.value? column = some (.uuid id) := by
  rw [uuid, read_eq_ok_iff]
  constructor
  · rintro ⟨value, hvalue, hread⟩
    cases value <;> cases hread
    exact hvalue
  · exact fun hvalue => ⟨_, hvalue, rfl⟩

theorem uuids_eq_ok_iff {ids : List Uuid} :
    row.uuids column = .ok ids ↔ row.value? column = some (.uuids ids) := by
  rw [uuids, read_eq_ok_iff]
  constructor
  · rintro ⟨value, hvalue, hread⟩
    cases value <;> cases hread
    exact hvalue
  · exact fun hvalue => ⟨_, hvalue, rfl⟩

theorem value?_cons (c : Column) (value : Value) (row : Row) :
    value? ((c, value) :: row) column = if column = c then some value else row.value? column := by
  rw [value?, List.lookup_cons]
  by_cases hc : column = c
  · simp [hc]
  · simp [value?, hc, beq_false_of_ne hc]

/-- A column that is kept has its value. -/
theorem value?_project {columns : List Column} {value : Value} (mem : column ∈ columns)
    (h : row.value? column = some value) : (row.project columns).value? column = some value := by
  induction columns with
  | nil => cases mem
  | cons c columns ih =>
    rw [project, List.map_cons, value?_cons]
    split
    · rename_i heq
      rw [← heq, h]
      rfl
    · rename_i hne
      exact ih ((List.mem_cons.1 mem).resolve_left hne)

/-- A column that is set has the new value, and no other column is affected. -/
theorem value?_set (row : Row) (column column' : Column) (value : Value) :
    (row.set column value).value? column' =
      if column' = column then (row.value? column').map fun _ => value
      else row.value? column' := by
  induction row with
  | nil => split <;> rfl
  | cons entry row ih =>
    obtain ⟨c, v⟩ := entry
    have hcons : set ((c, v) :: row) column value =
        (c, if c = column then value else v) :: Row.set row column value := by
      by_cases hset : c = column <;> simp [set, hset]
    rw [hcons, value?_cons, value?_cons, ih]
    by_cases hc : column' = c
    · subst hc
      by_cases hset : column' = column <;> simp [hset]
    · simp [hc]

end Sql.Row

/-! ### Items -/

/-- A row has the values of an item. -/
structure Sql.Row.ShowsItem (row : Row) (item : ContentItem) : Prop where
  scope : row.value? .scopeId = some (.uuid item.scope.uuid)
  id : row.value? .contentId = some (.uuid item.id.uuid)
  hive : row.value? .hiveId = some (.uuid item.hive.uuid)
  kind : row.value? .kind = some (.text item.kind.name)
  author : row.value? .authorId = some (.text item.author.name)
  body : row.value? .body = some (.text item.body)
  createdAt : row.value? .createdAt = some (.bigint item.createdAt)
  lastActivityAt : row.value? .lastActivityAt = some (.bigint item.lastActivityAt)
  upVotes : row.value? .upVoteCount = some (.bigint item.upVotes)
  downVotes : row.value? .downVoteCount = some (.bigint item.downVotes)
  comments : row.value? .commentCount = some (.bigint item.comments)
  reports : row.value? .reportedCount = some (.bigint item.reports)
  obfuscated : row.value? .obfuscated = some (.boolean item.obfuscated)
  reviewed : row.value? .reviewed = some (.boolean item.reviewed)
  pinned : row.value? .pinned = some (.boolean item.pinned)
  tags : ∃ ids, row.value? .tagIds = some (.uuids ids) ∧ .ofList (ids.map TagId.mk) = item.tags

theorem ContentKind.ofName?_eq_some_iff {name : String} {kind : ContentKind} :
    ofName? name = some kind ↔ name = kind.name := by
  constructor
  · unfold ofName?
    split <;> rintro ⟨⟩ <;> rfl
  · rintro rfl
    exact ofName?_name kind

theorem Except.exists_of_bind_eq_ok {ε α β : Type} {first : Except ε α} {next : α → Except ε β}
    {result : β} (h : first >>= next = .ok result) :
    ∃ value, first = .ok value ∧ next value = .ok result := by
  cases first with
  | error error => cases h
  | ok value => exact ⟨value, rfl, h⟩

namespace ContentItem

variable {row : Row} {item : ContentItem}

/-- A row is read as the item that it shows. -/
theorem ofRow_eq_ok_iff : ofRow row = .ok item ↔ row.ShowsItem item := by
  constructor
  · intro h
    obtain ⟨scope, hscope, h⟩ := Except.exists_of_bind_eq_ok h
    obtain ⟨id, hid, h⟩ := Except.exists_of_bind_eq_ok h
    obtain ⟨hive, hhive, h⟩ := Except.exists_of_bind_eq_ok h
    obtain ⟨kindName, hkindName, h⟩ := Except.exists_of_bind_eq_ok h
    obtain ⟨author, hauthor, h⟩ := Except.exists_of_bind_eq_ok h
    obtain ⟨body, hbody, h⟩ := Except.exists_of_bind_eq_ok h
    obtain ⟨createdAt, hcreatedAt, h⟩ := Except.exists_of_bind_eq_ok h
    obtain ⟨lastActivityAt, hlastActivityAt, h⟩ := Except.exists_of_bind_eq_ok h
    obtain ⟨upVotes, hupVotes, h⟩ := Except.exists_of_bind_eq_ok h
    obtain ⟨downVotes, hdownVotes, h⟩ := Except.exists_of_bind_eq_ok h
    obtain ⟨comments, hcomments, h⟩ := Except.exists_of_bind_eq_ok h
    obtain ⟨reports, hreports, h⟩ := Except.exists_of_bind_eq_ok h
    obtain ⟨obfuscated, hobfuscated, h⟩ := Except.exists_of_bind_eq_ok h
    obtain ⟨reviewed, hreviewed, h⟩ := Except.exists_of_bind_eq_ok h
    obtain ⟨pinned, hpinned, h⟩ := Except.exists_of_bind_eq_ok h
    obtain ⟨tags, htags, h⟩ := Except.exists_of_bind_eq_ok h
    split at h
    · cases h
    · rename_i kind hkind
      cases h
      rw [ContentKind.ofName?_eq_some_iff] at hkind
      subst hkind
      rw [Row.uuid_eq_ok_iff] at hscope hid hhive
      rw [Row.text_eq_ok_iff] at hkindName hauthor hbody
      rw [Row.bigint_eq_ok_iff] at hcreatedAt hlastActivityAt hupVotes hdownVotes hcomments hreports
      rw [Row.boolean_eq_ok_iff] at hobfuscated hreviewed hpinned
      rw [Row.uuids_eq_ok_iff] at htags
      exact ⟨hscope, hid, hhive, hkindName, hauthor, hbody, hcreatedAt, hlastActivityAt, hupVotes,
        hdownVotes, hcomments, hreports, hobfuscated, hreviewed, hpinned, tags, htags, rfl⟩
  · intro h
    obtain ⟨ids, hids, htags⟩ := h.tags
    rw [ofRow, Row.uuid_eq_ok_iff.2 h.scope, Row.uuid_eq_ok_iff.2 h.id, Row.uuid_eq_ok_iff.2 h.hive,
      Row.text_eq_ok_iff.2 h.kind, Row.text_eq_ok_iff.2 h.author, Row.text_eq_ok_iff.2 h.body,
      Row.bigint_eq_ok_iff.2 h.createdAt, Row.bigint_eq_ok_iff.2 h.lastActivityAt,
      Row.bigint_eq_ok_iff.2 h.upVotes, Row.bigint_eq_ok_iff.2 h.downVotes,
      Row.bigint_eq_ok_iff.2 h.comments, Row.bigint_eq_ok_iff.2 h.reports,
      Row.boolean_eq_ok_iff.2 h.obfuscated, Row.boolean_eq_ok_iff.2 h.reviewed,
      Row.boolean_eq_ok_iff.2 h.pinned, Row.uuids_eq_ok_iff.2 hids]
    dsimp only [bind, Except.bind]
    rw [ContentKind.ofName?_name]
    dsimp only
    rw [htags]

end ContentItem

namespace Sql.Row.ShowsItem

variable {row : Row} {item : ContentItem}

/-- The columns of items are enough. -/
theorem project (h : row.ShowsItem item) :
    (row.project Relation.contentItems.columns).ShowsItem item where
  scope := value?_project (by decide) h.scope
  id := value?_project (by decide) h.id
  hive := value?_project (by decide) h.hive
  kind := value?_project (by decide) h.kind
  author := value?_project (by decide) h.author
  body := value?_project (by decide) h.body
  createdAt := value?_project (by decide) h.createdAt
  lastActivityAt := value?_project (by decide) h.lastActivityAt
  upVotes := value?_project (by decide) h.upVotes
  downVotes := value?_project (by decide) h.downVotes
  comments := value?_project (by decide) h.comments
  reports := value?_project (by decide) h.reports
  obfuscated := value?_project (by decide) h.obfuscated
  reviewed := value?_project (by decide) h.reviewed
  pinned := value?_project (by decide) h.pinned
  tags := h.tags.imp fun _ hids => ⟨value?_project (by decide) hids.1, hids.2⟩

/-- The row that is added for an item shows it. -/
theorem of_params (item : ContentItem) :
    ShowsItem (Relation.contentItems.columns.zip item.params) item where
  scope := rfl
  id := rfl
  hive := rfl
  kind := rfl
  author := rfl
  body := rfl
  createdAt := rfl
  lastActivityAt := rfl
  upVotes := rfl
  downVotes := rfl
  comments := rfl
  reports := rfl
  obfuscated := rfl
  reviewed := rfl
  pinned := rfl
  tags := by
    have hmap : (item.tags.toList.map TagId.uuid).map TagId.mk = item.tags.toList := by
      rw [List.map_map]
      exact List.map_id' _
    refine ⟨item.tags.toList.map TagId.uuid, rfl, ?_⟩
    rw [hmap, SortedSet.ofList_toList]

/-- The row of an item is admitted if and only if none of its counts is negative. -/
theorem admits_iff (h : row.ShowsItem item) :
    Relation.contentItems.admits row = true ↔
      0 ≤ item.upVotes ∧ 0 ≤ item.downVotes ∧ 0 ≤ item.comments ∧ 0 ≤ item.reports := by
  have hkind : item.kind.name = "post" ∨ item.kind.name = "comment" := by
    cases item.kind
    · exact .inl rfl
    · exact .inr rfl
  simp [Relation.admits, isCount, h.kind, h.upVotes, h.downVotes, h.comments, h.reports, hkind]

end Sql.Row.ShowsItem

/-! ### Records -/

/-- A row has the values of a record. -/
structure Sql.Row.ShowsRecord (row : Row) (record : EngagementRecord) : Prop where
  user : row.value? .userId = some (.text record.user.name)
  content : row.value? .contentId = some (.uuid record.content.uuid)
  scope : row.value? .scopeId = some (.uuid record.scope.uuid)
  hive : row.value? .hiveId = some (.uuid record.hive.uuid)
  upVoted : row.value? .upVoted = some (.boolean record.upVoted)
  downVoted : row.value? .downVoted = some (.boolean record.downVoted)
  saved : row.value? .saved = some (.boolean record.saved)
  reported : row.value? .reported = some (.boolean record.reported)
  votedAt : row.value? .votedAt = some (.ofBigint? record.votedAt)
  reason : row.value? .reportedReason = some (.ofText? record.reason)
  version : row.value? .version = some (.bigint record.version)

namespace EngagementRecord

variable {row : Row} {record : EngagementRecord}

/-- A row is read as the record that it shows. -/
theorem ofRow_eq_ok_iff : ofRow row = .ok record ↔ row.ShowsRecord record := by
  constructor
  · intro h
    obtain ⟨user, huser, h⟩ := Except.exists_of_bind_eq_ok h
    obtain ⟨content, hcontent, h⟩ := Except.exists_of_bind_eq_ok h
    obtain ⟨scope, hscope, h⟩ := Except.exists_of_bind_eq_ok h
    obtain ⟨hive, hhive, h⟩ := Except.exists_of_bind_eq_ok h
    obtain ⟨upVoted, hupVoted, h⟩ := Except.exists_of_bind_eq_ok h
    obtain ⟨downVoted, hdownVoted, h⟩ := Except.exists_of_bind_eq_ok h
    obtain ⟨saved, hsaved, h⟩ := Except.exists_of_bind_eq_ok h
    obtain ⟨reported, hreported, h⟩ := Except.exists_of_bind_eq_ok h
    obtain ⟨votedAt, hvotedAt, h⟩ := Except.exists_of_bind_eq_ok h
    obtain ⟨reason, hreason, h⟩ := Except.exists_of_bind_eq_ok h
    obtain ⟨version, hversion, h⟩ := Except.exists_of_bind_eq_ok h
    cases h
    rw [Row.text_eq_ok_iff] at huser
    rw [Row.uuid_eq_ok_iff] at hcontent hscope hhive
    rw [Row.boolean_eq_ok_iff] at hupVoted hdownVoted hsaved hreported
    rw [Row.bigint?_eq_ok_iff] at hvotedAt
    rw [Row.text?_eq_ok_iff] at hreason
    rw [Row.bigint_eq_ok_iff] at hversion
    exact ⟨huser, hcontent, hscope, hhive, hupVoted, hdownVoted, hsaved, hreported, hvotedAt,
      hreason, hversion⟩
  · intro h
    rw [ofRow, Row.text_eq_ok_iff.2 h.user, Row.uuid_eq_ok_iff.2 h.content,
      Row.uuid_eq_ok_iff.2 h.scope, Row.uuid_eq_ok_iff.2 h.hive, Row.boolean_eq_ok_iff.2 h.upVoted,
      Row.boolean_eq_ok_iff.2 h.downVoted, Row.boolean_eq_ok_iff.2 h.saved,
      Row.boolean_eq_ok_iff.2 h.reported, Row.bigint?_eq_ok_iff.2 h.votedAt,
      Row.text?_eq_ok_iff.2 h.reason, Row.bigint_eq_ok_iff.2 h.version]
    rfl

end EngagementRecord

namespace Sql.Row.ShowsRecord

variable {row : Row} {record : EngagementRecord}

/-- The columns of records are enough. -/
theorem project (h : row.ShowsRecord record) :
    (row.project Relation.engagementRecords.columns).ShowsRecord record where
  user := value?_project (by decide) h.user
  content := value?_project (by decide) h.content
  scope := value?_project (by decide) h.scope
  hive := value?_project (by decide) h.hive
  upVoted := value?_project (by decide) h.upVoted
  downVoted := value?_project (by decide) h.downVoted
  saved := value?_project (by decide) h.saved
  reported := value?_project (by decide) h.reported
  votedAt := value?_project (by decide) h.votedAt
  reason := value?_project (by decide) h.reason
  version := value?_project (by decide) h.version

/-- The row that is added for a record shows it. -/
theorem of_params (record : EngagementRecord) :
    ShowsRecord (Relation.engagementRecords.columns.zip record.params) record where
  user := rfl
  content := rfl
  scope := rfl
  hive := rfl
  upVoted := rfl
  downVoted := rfl
  saved := rfl
  reported := rfl
  votedAt := rfl
  reason := rfl
  version := rfl

/-- The row of a record is admitted if and only if the record is no vote for and against. -/
theorem admits_iff (h : row.ShowsRecord record) :
    Relation.engagementRecords.admits row = true ↔
      ¬(record.upVoted = true ∧ record.downVoted = true) := by
  rw [Relation.admits, h.upVoted, h.downVoted]
  cases record.upVoted <;> cases record.downVoted <;> decide

end Sql.Row.ShowsRecord

end HiveForum
