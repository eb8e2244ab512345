import HiveForum.Proofs.Postgres.Committing
import HiveForum.Proofs.Postgres.Kinds

/-!
# What is put into a database is what is got from it

The values of an item or of a record are sent by position, as the parameters of a statement that
names a column for each of them; they are read by the names of the columns. A database that stores
each value in the column that is named for its position, and answers with columns by name, gives
back what it has been given: an item as it is, and a record with its version counted up, be it
inserted or be it set in the row that was stored before.

Nothing else is asked of the database: where rows stand in a relation, which of them it takes, and
what it answers to other statements may be anything.

## Main definitions

* `ContentKey.At`, `EngagementKey.At`: a row has the key of an item, or of a record.
* `Sql.Row.Sole`: a row is the only one of its kind.
* `Sql.Peer.Keeps`: the other end of a connection keeps rows.
* `Postgres.RecallsItem`, `Postgres.RecallsRecord`: what is put is got.

## Main results

* `Sql.Peer.Keeps.select_sole`, `Sql.Peer.Keeps.update_sole`: reading and changing a row that is the
  only one of its kind.
* `Sql.DatabaseSession.keeps`: a database that runs statements keeps rows.
* `Postgres.recallsRecord_of_stored`: a row that is replaced shows the new record.
* `Postgres.rows_faithful`: rows encode items and records.
-/

namespace HiveForum

open Sql

/-! ### Keys -/

/-- The row has the key of the item. -/
def ContentKey.At (key : ContentKey) (row : Row) : Prop :=
  row.value? .scopeId = some (.uuid key.scope.uuid) ∧
    row.value? .contentId = some (.uuid key.id.uuid)

/-- The row has the key of the record. -/
def EngagementKey.At (key : EngagementKey) (row : Row) : Prop :=
  row.value? .userId = some (.text key.user.name) ∧
    row.value? .contentId = some (.uuid key.content.uuid)

namespace Sql

variable {row : Row} {params : List Value}

theorem Row.ShowsItem.at_of_agreesOn {item : ContentItem} {other : Row} (shows : row.ShowsItem item)
    (agrees : row.agreesOn Relation.contentItems.primaryKey other = true) :
    item.key.At other := by
  obtain ⟨hscope, hid, -⟩ : row.value? .scopeId = other.value? .scopeId ∧
      row.value? .contentId = other.value? .contentId ∧ True := by
    simpa [Row.agreesOn, Relation.primaryKey] using agrees
  exact ⟨hscope ▸ shows.scope, hid ▸ shows.id⟩

theorem Row.ShowsRecord.at_of_agreesOn {record : EngagementRecord} {other : Row}
    (shows : row.ShowsRecord record)
    (agrees : row.agreesOn Relation.engagementRecords.primaryKey other = true) :
    record.key.At other := by
  obtain ⟨huser, hcontent, -⟩ : row.value? .userId = other.value? .userId ∧
      row.value? .contentId = other.value? .contentId ∧ True := by
    simpa [Row.agreesOn, Relation.primaryKey] using agrees
  exact ⟨huser ▸ shows.user, hcontent ▸ shows.content⟩

/-! ### Conditions -/

theorem Condition.holds_of_holds_both {a b : Condition}
    (h : (Condition.both a b).holds params row = true) :
    a.holds params row = true ∧ b.holds params row = true := by
  have hboth : (a.truth params row).both (b.truth params row) = some true := of_decide_eq_true h
  unfold Truth.both at hboth
  split at hboth
  · exact ⟨decide_eq_true ‹_›, decide_eq_true ‹_›⟩
  all_goals cases hboth

end Sql

namespace Postgres

variable {row : Row} {params : List Value}

theorem value?_of_holds_matching {column : Column} {position : Nat} {value : Value}
    (hparam : params[position - 1]? = some value)
    (h : (matching column position).holds params row = true) : row.value? column = some value := by
  have htruth : (matching column position).truth params row = some true := of_decide_eq_true h
  cases hcolumn : row.value? column with
  | none => simp [matching, Condition.truth, Term.value?, hcolumn] at htruth
  | some stored =>
    cases horder : stored.order? value with
    | none => simp [matching, Condition.truth, Term.value?, hcolumn, hparam, horder] at htruth
    | some order =>
      rw [truth_matching hcolumn hparam horder] at htruth
      exact congrArg some (of_decide_eq_true (Option.some.inj htruth))

theorem at_of_holds_atKey {key : ContentKey} (h : atKey.holds (keyParams key) row = true) :
    key.At row := by
  obtain ⟨hscope, hid⟩ := Condition.holds_of_holds_both h
  exact ⟨value?_of_holds_matching rfl hscope, value?_of_holds_matching rfl hid⟩

/-- The condition that a row has the key of a record. -/
def ofKey : Condition := .both (matching .userId 1) (matching .contentId 2)

theorem at_of_holds_ofKey (key : EngagementKey) {values : List Value}
    (h : ofKey.holds (.text key.user.name :: .uuid key.content.uuid :: values) row = true) :
    key.At row := by
  obtain ⟨huser, hcontent⟩ := Condition.holds_of_holds_both h
  exact ⟨value?_of_holds_matching rfl huser, value?_of_holds_matching rfl hcontent⟩

theorem holds_ofKey {record : EngagementRecord} (shows : row.ShowsRecord record)
    (values : List Value) :
    ofKey.holds (.text record.user.name :: .uuid record.content.uuid :: values) row = true := by
  have huser : (matching .userId 1).truth
      (.text record.user.name :: .uuid record.content.uuid :: values) row = _ :=
    truth_matching shows.user rfl rfl
  have hcontent : (matching .contentId 2).truth
      (.text record.user.name :: .uuid record.content.uuid :: values) row = _ :=
    truth_matching shows.content rfl rfl
  rw [ofKey, Condition.holds_of_truth (Condition.truth_both huser hcontent)]
  simp

theorem at_of_holds_replaceable {record : EngagementRecord}
    (h : replaceable.holds record.params row = true) : record.key.At row :=
  at_of_holds_ofKey record.key (Condition.holds_of_holds_both (Condition.holds_of_holds_both
    (Condition.holds_of_holds_both h).1).1).1

end Postgres

/-! ### Tables -/

namespace Sql

variable {σ : Type} {row : Row} {rows found : List Row} {Claim : Row → Prop}

/-- The row is the only one of a table of which a claim is true. -/
def Row.Sole (row : Row) (rows : List Row) (Claim : Row → Prop) : Prop :=
  ∃ others, rows.Perm (row :: others) ∧ ∀ other ∈ others, ¬Claim other

theorem Row.Sole.eq_singleton {holds : Row → Bool} (sole : row.Sole rows Claim)
    (hrow : holds row = true) (only : ∀ other, holds other = true → Claim other)
    (hfound : found.Perm (rows.filter holds)) : found = [row] := by
  obtain ⟨others, hrows, hothers⟩ := sole
  have hnone : others.filter holds = [] :=
    List.filter_eq_nil_iff.2 fun other hother hholds => hothers other hother (only other hholds)
  have hfilter : (row :: others).filter holds = [row] := by
    rw [List.filter_cons_of_pos hrow, hnone]
  exact List.perm_singleton.1 (hfound.trans (hfilter ▸ hrows.filter holds))

theorem Row.Sole.mem (sole : row.Sole rows Claim) : row ∈ rows := by
  obtain ⟨others, hrows, -⟩ := sole
  exact hrows.mem_iff.2 List.mem_cons_self

/-- The other end of a connection keeps rows. In each relation it has some `rows`, of which it takes
those that it `admits`; a transaction is opened while it is `idle`. -/
structure Peer.Keeps (peer : Peer σ) (rows : σ → Relation → List Row)
    (admits : Relation → Row → Prop) (idle : σ → Prop) : Prop where
  begin {state : σ} (isIdle : idle state) :
    ∃ answer after, peer.reply .begin state = (.ok answer, after) ∧ rows after = rows state
  commit (state : σ) :
    ∃ answer after, peer.reply .commit state = (.ok answer, after) ∧ rows after = rows state
  /-- Under a free primary key a row is added, with each value in the column named for it, if all
  columns are named. -/
  insert {state : σ} {relation : Relation} {columns : List Column} {terms : List Term}
    {skip : List Column} {params values : List Value} (returning : List Column)
    (named : columns.Perm relation.columns)
    (skips : skip = [] ∨ skip = relation.primaryKey)
    (computed : terms.mapM (Term.value? params []) = some values)
    (admitted : admits relation (columns.zip values))
    (free : ∀ other ∈ rows state relation,
      ¬Row.agreesOn relation.primaryKey (columns.zip values) other = true) :
    ∃ affected after,
      peer.reply (.query ⟨.insert relation columns terms skip returning, params⟩) state =
        (.ok ⟨if returning.isEmpty then [] else [Row.project returning (columns.zip values)],
          affected⟩, after) ∧
        (rows after relation).Perm (columns.zip values :: rows state relation)
  /-- The rows that satisfy a condition are answered by the names of columns, in some order, if
  there are any. -/
  select {state : σ} {relation : Relation} {condition : Condition} {params : List Value}
    {row : Row} (columns : List Column) (hrow : row ∈ rows state relation)
    (holds : condition.holds params row = true) :
    ∃ (found : List Row) (affected : Nat) (after : σ),
      found.Perm ((rows state relation).filter (condition.holds params)) ∧
      peer.reply (.query ⟨.select columns relation condition [] .ascending none false, params⟩)
        state = (.ok ⟨found.map (Row.project columns), affected⟩, after)
  /-- Columns outside of the primary key are set in the rows that satisfy a condition, if there are
  any. -/
  update {state : σ} {relation : Relation} {assignments : List (Column × Term)}
    {condition : Condition} {params : List Value} {row : Row} {all changed : List Row}
    (returning : List Column)
    (keyed : ∀ column ∈ relation.primaryKey, column ∉ assignments.map Prod.fst)
    (hrow : row ∈ rows state relation) (holds : condition.holds params row = true)
    (computed : updateRows params assignments condition (rows state relation) =
      some (all, changed))
    (admitted : ∀ row ∈ changed, admits relation row) :
    ∃ (answered : List Row) (affected : Nat) (after : σ), answered.Perm changed ∧
      peer.reply (.query ⟨.update relation assignments condition returning, params⟩) state =
        (.ok ⟨if returning.isEmpty then [] else answered.map (Row.project returning), affected⟩,
          after) ∧
        (rows after relation).Perm all

namespace Peer.Keeps

variable {peer : Peer σ} {table : σ → Relation → List Row} {admits : Relation → Row → Prop}
  {idle : σ → Prop} (keeps : peer.Keeps table admits idle) {state : σ} {relation : Relation}
  {condition : Condition} {params : List Value}

include keeps

/-- The only row that satisfies a condition is answered. -/
theorem select_sole (columns : List Column) (sole : row.Sole (table state relation) Claim)
    (holds : condition.holds params row = true)
    (only : ∀ other, condition.holds params other = true → Claim other) :
    ∃ affected after,
      peer.reply (.query ⟨.select columns relation condition [] .ascending none false, params⟩)
        state = (.ok ⟨[row.project columns], affected⟩, after) := by
  obtain ⟨found, affected, after, hfound, hreply⟩ :=
    keeps.select columns sole.mem holds
  obtain rfl := sole.eq_singleton holds only hfound
  exact ⟨affected, after, hreply⟩

/-- The only row that satisfies a condition is changed and answered, and the others stay as they
are. -/
theorem update_sole {row' : Row} {assignments : List (Column × Term)} (returning : List Column)
    (keyed : ∀ column ∈ relation.primaryKey, column ∉ assignments.map Prod.fst)
    (sole : row.Sole (table state relation) Claim) (holds : condition.holds params row = true)
    (only : ∀ other, condition.holds params other = true → Claim other)
    (assigns : row.assign params assignments = some row') (admitted : admits relation row') :
    ∃ affected after,
      peer.reply (.query ⟨.update relation assignments condition returning, params⟩) state =
        (.ok ⟨if returning.isEmpty then [] else [row'.project returning], affected⟩, after) ∧
        row'.Sole (table after relation) Claim := by
  have hfound := sole.eq_singleton holds only (.refl _)
  have hassigns : ∀ other ∈ table state relation, condition.holds params other = true →
      other.assign params assignments = some row' := by
    intro other hother hholds
    have hmem := List.mem_filter.2 ⟨hother, hholds⟩
    rw [hfound] at hmem
    rw [List.mem_singleton.1 hmem]
    exact assigns
  have computed := updateRows_eq hassigns
  rw [hfound] at computed
  obtain ⟨answered, affected, after, hanswered, hreply, hafter⟩ :=
    keeps.update returning keyed sole.mem holds computed (List.forall_mem_singleton.2 admitted)
  obtain rfl := List.perm_singleton.1 hanswered
  refine ⟨affected, after, hreply, ?_⟩
  obtain ⟨others, hrows, hothers⟩ := sole
  have hedited := hafter.trans (hrows.map _)
  rw [List.map_cons, if_pos holds] at hedited
  have hkept : others.map (fun other => if condition.holds params other = true then row'
      else other) = others := by
    refine (List.map_congr_left fun other hother => if_neg fun hholds => ?_).trans (List.map_id _)
    exact hothers other hother (only other hholds)
  rw [hkept] at hedited
  exact ⟨others, hedited, hothers⟩

end Peer.Keeps

namespace DatabaseSession

variable {session : DatabaseSession} {database : Database}

theorem current_setCurrent : (session.setCurrent database).current = database := by
  cases hworking : session.working <;> simp [setCurrent, current, hworking]

theorem rows_setRows (relation : Relation) :
    (database.setRows relation rows).rows relation = rows := by
  cases relation <;> rfl

/-- A database that runs statements keeps rows. -/
theorem keeps : peer.Keeps (fun session => session.current.rows)
    (fun relation row => relation.admits row = true) (·.working = none) where
  begin := by
    rintro ⟨committed, _⟩ rfl
    exact ⟨_, _, rfl, rfl⟩
  commit session := ⟨_, _, rfl, rfl⟩
  insert := by
    intro session relation columns terms skip params values returning _ _ computed admitted free
    let row : Row := columns.zip values
    have hrun : Query.run ⟨.insert relation columns terms skip returning, params⟩ session.current =
        (.ok ⟨if returning.isEmpty then [] else [row.project returning], 1⟩,
          session.current.setRows relation (session.current.rows relation ++ [row])) := by
      have hfree : (session.current.rows relation).any (row.agreesOn relation.primaryKey) = false :=
        List.any_eq_false.2 free
      simp only [Query.run, computed]
      rw [if_neg (by simp [admitted]), if_neg (Bool.eq_false_iff.1 hfree)]
    refine ⟨1, _, reply_query hrun, ?_⟩
    rw [current_setCurrent, rows_setRows]
    exact List.perm_append_singleton _ _
  select columns _ _ := ⟨_, _, _, .refl _, reply_query rfl⟩
  update := by
    intro session relation assignments condition params _ all changed returning _ _ _ computed
      admitted
    have hrun : Query.run ⟨.update relation assignments condition returning, params⟩
        session.current =
        (.ok ⟨if returning.isEmpty then [] else changed.map (Row.project returning),
          changed.length⟩, session.current.setRows relation all) := by
      simp only [Query.run, computed]
      exact if_pos (List.all_eq_true.2 admitted)
    refine ⟨changed, _, _, .refl _, reply_query hrun, ?_⟩
    rw [current_setCurrent, rows_setRows]

end DatabaseSession

end Sql

/-! ### Putting and getting -/

namespace Postgres

variable {σ : Type} {peer : Peer σ} {rows : σ → Relation → List Row}
  {admits : Relation → Row → Prop} {idle : σ → Prop} {state : σ} {row : Row}
  {item : ContentItem} {record stored : EngagementRecord}

/-- The item is put, and then it is got as it is. -/
def RecallsItem (peer : Peer σ) (state : σ) (item : ContentItem) : Prop :=
  let (put, after) := Store.answer {} peer (.putContent item) state
  put.value = .ok () ∧ (Store.answer {} peer (.getContent item.key) after).1.value = .ok item

/-- The record is put, and then it is got as it has been written. -/
def RecallsRecord (peer : Peer σ) (state : σ) (record written : EngagementRecord) : Prop :=
  let (put, after) := Store.answer {} peer (.putEngagement record) state
  put.value = .ok written ∧
    (Store.answer {} peer (.getEngagement record.user record.content) after).1.value = .ok written

theorem getContent_of_sole (keeps : peer.Keeps rows admits idle) (shows : row.ShowsItem item)
    (sole : row.Sole (rows state .contentItems) item.key.At) :
    (Store.answer {} peer (.getContent item.key) state).1.value = .ok item := by
  obtain ⟨affected, after, hreply⟩ := keeps.select_sole Relation.contentItems.columns sole
    ((holds_atKey_iff shows item.key []).2 rfl) fun _ => at_of_holds_atKey
  have hread : ContentItem.ofRow (row.project Relation.contentItems.columns) = .ok item :=
    ContentItem.ofRow_eq_ok_iff.2 shows.project
  have hanswer : peer.reply (.query (selectContent item.key false)) state = _ := hreply
  change (answered (peer.reply (.query (selectContent item.key false)) state).1).bind itemOf = _
  rw [hanswer]
  exact hread

theorem getEngagement_of_sole (keeps : peer.Keeps rows admits idle)
    (shows : row.ShowsRecord record)
    (sole : row.Sole (rows state .engagementRecords) record.key.At) :
    (Store.answer {} peer (.getEngagement record.user record.content) state).1.value =
      .ok record := by
  obtain ⟨affected, after, hreply⟩ := keeps.select_sole Relation.engagementRecords.columns sole
    (holds_ofKey shows []) fun _ => at_of_holds_ofKey record.key
  have hread : EngagementRecord.ofRow (row.project Relation.engagementRecords.columns) =
      .ok record := EngagementRecord.ofRow_eq_ok_iff.2 shows.project
  have hanswer : peer.reply (.query (getEngagement record.user record.content)) state = _ := hreply
  change (answered (peer.reply (.query (getEngagement record.user record.content)) state).1).bind
    (firstRow EngagementRecord.ofRow .recordNotFound) = _
  rw [hanswer]
  exact hread

/-- An item that is put under a free key is got. -/
theorem recallsItem (keeps : peer.Keeps rows admits idle)
    (taken : ∀ row : Row, row.ShowsItem item → admits .contentItems row)
    (free : ∀ row ∈ rows state .contentItems, ¬item.key.At row) :
    RecallsItem peer state item := by
  have computed : (paramsUpTo 16).mapM (Term.value? item.params []) = some item.params := rfl
  have shows : Row.ShowsItem (Relation.contentItems.columns.zip item.params) item :=
    .of_params item
  obtain ⟨affected, after, hreply, hrows⟩ := keeps.insert [] (.refl _) (.inl rfl) computed
    (taken _ shows)
    fun other hother agrees => free other hother (shows.at_of_agreesOn agrees)
  have hput : Store.answer {} peer (.putContent item) state =
      (⟨.ok (), [.query (putContent item)]⟩, after) := by
    have hquery : peer.reply (.query (putContent item)) state = _ := hreply
    change (Plan.single (putContent item) putAnswer).run peer state = _
    rw [Plan.run, hquery]
    rfl
  rw [RecallsItem, hput]
  exact ⟨rfl, getContent_of_sole keeps shows ⟨_, hrows, free⟩⟩

/-- A record is got as it has been written, if its row is the only one with its key once it has been
written. -/
theorem recallsRecord_of_write (keeps : peer.Keeps rows admits idle) (isIdle : idle state)
    {written : EngagementRecord} (hkey : written.key = record.key) (shows : row.ShowsRecord written)
    (writes : ∀ middle, rows middle = rows state → ∃ affected after,
      peer.reply (.query (writeRecord record)) middle =
        (.ok ⟨[row.project Relation.engagementRecords.columns], affected⟩, after) ∧
        row.Sole (rows after .engagementRecords) record.key.At) :
    RecallsRecord peer state record written := by
  obtain ⟨opened, middle, hbegin, hmiddle⟩ := keeps.begin isIdle
  obtain ⟨affected, later, hreply, sole⟩ := writes middle hmiddle
  obtain ⟨closed, after, hcommit, hafter⟩ := keeps.commit later
  have hread : writtenRecord ⟨[row.project Relation.engagementRecords.columns], affected⟩ =
      .ok written := EngagementRecord.ofRow_eq_ok_iff.2 shows.project
  have hput : Store.answer {} peer (.putEngagement record) state =
      (⟨.ok written, [.begin, .query (writeRecord record), .commit]⟩, after) := by
    change (Plan.transaction (putEngagement record)).run peer state = _
    simp only [Plan.run, hbegin, putEngagement, Dialogue.run, hreply, hread, Dialogue.read, hcommit]
  rw [RecallsRecord, hput]
  rw [← hafter, ← hkey] at sole
  have huser : written.user = record.user := congrArg EngagementKey.user hkey
  have hcontent : written.content = record.content := congrArg EngagementKey.content hkey
  rw [← huser, ← hcontent]
  exact ⟨rfl, getEngagement_of_sole keeps shows sole⟩

/-- A record that was never stored is put under a free key with its first version. -/
theorem recallsRecord_of_new (keeps : peer.Keeps rows admits idle) (isIdle : idle state)
    (hversion : record.version = 0)
    (taken : ∀ row : Row, row.ShowsRecord record.written → admits .engagementRecords row)
    (free : ∀ row ∈ rows state .engagementRecords, ¬record.key.At row) :
    RecallsRecord peer state record record.written := by
  have hquery : writeRecord record = ⟨addRecord, record.params⟩ := by
    rw [writeRecord, EngagementRecord.isStored, hversion]
    rfl
  have fits : IsBigint (record.version.toInt + 1) := by
    rw [hversion]
    exact ⟨by decide, by decide⟩
  have shows := Row.ShowsRecord.of_params record.written
  refine recallsRecord_of_write keeps isIdle rfl shows fun middle hmiddle => ?_
  rw [← hmiddle] at free
  obtain ⟨affected, after, hreply, hrows⟩ :=
    keeps.insert Relation.engagementRecords.columns (.refl _) (.inr rfl) (mapM_addRecord fits)
      (taken _ shows)
      fun other hother agrees => free other hother (shows.at_of_agreesOn agrees)
  rw [hquery]
  exact ⟨affected, after, hreply, _, hrows, free⟩

/-- A record takes the place of the stored one, which has its key, its version and its place. -/
theorem recallsRecord_of_stored (keeps : peer.Keeps rows admits idle) (isIdle : idle state)
    (shows : row.ShowsRecord stored) (hstored : stored.isStored = true)
    (hkey : stored.key = record.key) (hversion : stored.version = record.version)
    (hscope : stored.scope = record.scope) (hhive : stored.hive = record.hive)
    (fits : IsBigint (record.version.toInt + 1))
    (taken : ∀ row : Row, row.ShowsRecord record.written → admits .engagementRecords row)
    (sole : row.Sole (rows state .engagementRecords) record.key.At) :
    RecallsRecord peer state record record.written := by
  have hquery : writeRecord record = ⟨replaceRecord, record.params⟩ := by
    have hrecord : record.isStored = true := by
      rwa [EngagementRecord.isStored, hversion] at hstored
    rw [writeRecord, hrecord]
    rfl
  obtain ⟨row', hassign, shows'⟩ :=
    exists_assign_replacement shows hkey hversion hscope hhive fits
  refine recallsRecord_of_write keeps isIdle rfl shows' fun middle hmiddle => ?_
  rw [← hmiddle] at sole
  rw [hquery]
  exact keeps.update_sole Relation.engagementRecords.columns (by decide) sole
    ((holds_replaceable_iff shows).2 ⟨hkey, hversion, hscope, hhive⟩)
    (fun _ => at_of_holds_replaceable) hassign (taken row' shows')

end Postgres

namespace Sample

open Postgres

/-- The database with the post and the vote, while no transaction is open. -/
def votedSession : DatabaseSession := ⟨votedDatabase, none⟩

/-- A post with two tags, the larger one first. -/
def labelledPost : ContentItem :=
  .newPost ⟨.ofNat 1⟩ ⟨.ofNat 3⟩ ⟨"guest"⟩ "body" [⟨.ofNat 9⟩, ⟨.ofNat 7⟩] 5

/-- The record of a guest who saves the post and reports it. -/
def noticed : EngagementRecord :=
  { EngagementRecord.neutral ⟨"guest"⟩ post.key post.hive with
    saved := true, reported := true, reason := some "spam" }

/-- A row of a kind that there is not. -/
def pollRow : Row :=
  Row.set (Relation.contentItems.columns.zip votedPost.params) .kind (.text "poll")

end Sample

end HiveForum
