import HiveForum.Postgres.Plan
import HiveForum.Proofs.Postgres.Holding

/-!
# What statements do to the contents of a store

A database that holds the contents of a store answers each statement as the store in memory would,
and holds the contents of that store afterwards.

## Main definitions

* `Sql.Query.Realizes`: a query answers, and changes the rows, as a change of a store says.

## Main results

* `Sql.Row.exists_assign`: what setting columns does to a row.
* `Sql.Query.run_update`: what an update does if the columns can be set.
* `Sql.Query.run_update_key`: what an update of the row of one key does to a table.
* `Sql.Query.run_insert`: what adding a row does.
* `Postgres.realizes_selectContent`, `Postgres.realizes_adjustCounts`: reading an item, and changing
  its counts.
-/

namespace HiveForum

open Sql

namespace Sql

/-- An integer that a column can hold. -/
def IsBigint (n : Int) : Prop := -9223372036854775808 ≤ n ∧ n ≤ 9223372036854775807

/-! ### Values and conditions -/

namespace Value

theorem order?_beq {a b : Value} {order : Ordering} (h : a.order? b = some order) :
    (order == .eq) = decide (a = b) := by
  cases a <;> cases b <;> cases h <;> rw [Bool.eq_iff_iff, beq_iff_eq, decide_eq_true_iff]
  · rw [Std.LawfulEqOrd.compare_eq_iff_eq, bigint.injEq]
  · rw [Std.LawfulEqOrd.compare_eq_iff_eq, text.injEq]
  · rw [Std.LawfulEqOrd.compare_eq_iff_eq, uuid.injEq]

theorem add?_bigint {a b : Int64} (fits : IsBigint (a.toInt + b.toInt)) :
    (Value.bigint a).add? (.bigint b) = some (.bigint (Saturating.add a b)) := by
  obtain ⟨hlow, hhigh⟩ := fits
  rw [add?, if_pos]
  unfold Saturating.clamp
  omega

theorem add?_of_not_isBigint {a b : Int64} (overflow : ¬IsBigint (a.toInt + b.toInt)) :
    (Value.bigint a).add? (.bigint b) = none := by
  rw [add?, if_neg]
  intro hclamp
  unfold Saturating.clamp at hclamp
  exact overflow ⟨by omega, by omega⟩

end Value

namespace Condition

variable {params : List Value} {row : Row}

theorem truth_both {a b : Condition} {x y : Bool} (ha : a.truth params row = some x)
    (hb : b.truth params row = some y) : (Condition.both a b).truth params row = some (x && y) := by
  rw [truth, ha, hb]
  cases x <;> cases y <;> rfl

theorem truth_either {a b : Condition} {x y : Bool} (ha : a.truth params row = some x)
    (hb : b.truth params row = some y) :
    (Condition.either a b).truth params row = some (x || y) := by
  rw [truth, ha, hb]
  cases x <;> cases y <;> rfl

theorem holds_of_truth {condition : Condition} {b : Bool}
    (h : condition.truth params row = some b) : condition.holds params row = b := by
  rw [holds, h]
  cases b <;> rfl

end Condition

/-! ### Setting columns -/

/-- Columns that are set have the values of their terms on the row as it was, and no other column is
affected. -/
theorem Row.exists_assign (params : List Value) (row : Row) (assignments : List (Column × Term))
    (hvalues : ∀ entry ∈ assignments, (entry.2.value? params row).isSome)
    (hnodup : (assignments.map (·.1)).Nodup) :
    ∃ row', row.assign params assignments = some row' ∧
      (∀ column, column ∉ assignments.map (·.1) → row'.value? column = row.value? column) ∧
      ∀ column term, (column, term) ∈ assignments → (row.value? column).isSome →
        row'.value? column = term.value? params row := by
  -- columns have been set already when the next one is
  suffices general : ∀ changed : Row, ∃ row', assignments.foldlM
      (fun changed entry => (entry.2.value? params row).map (changed.set entry.1)) changed =
        some row' ∧
      (∀ column, column ∉ assignments.map (·.1) → row'.value? column = changed.value? column) ∧
      ∀ column term, (column, term) ∈ assignments → (changed.value? column).isSome →
        row'.value? column = term.value? params row from general row
  induction assignments with
  | nil => exact fun changed => ⟨changed, rfl, fun _ _ => rfl, fun _ _ h => by cases h⟩
  | cons entry assignments ih =>
    intro changed
    obtain ⟨column, term⟩ := entry
    obtain ⟨hfirst, hvalues⟩ := List.forall_mem_cons.1 hvalues
    obtain ⟨hfresh, hnodup⟩ := List.nodup_cons.1 hnodup
    obtain ⟨value, hvalue : term.value? params row = some value⟩ :=
      Option.isSome_iff_exists.1 hfirst
    obtain ⟨row', hrow', hkept, hset⟩ := ih hvalues hnodup (changed.set column value)
    refine ⟨row', ?_, fun column' hcolumn' => ?_, fun column' term' hmem hsome => ?_⟩
    · change ((term.value? params row).map (changed.set column)).bind _ = _
      rw [hvalue]
      exact hrow'
    · obtain ⟨hne, hrest⟩ := not_or.1 (mt List.mem_cons.2 hcolumn')
      rw [hkept column' hrest, value?_set, if_neg hne]
    · rcases List.mem_cons.1 hmem with heq | hlater
      · cases heq
        obtain ⟨old, hold⟩ := Option.isSome_iff_exists.1 hsome
        rw [hkept column hfresh, value?_set, if_pos rfl, hold, hvalue]
        rfl
      · have hne : column' ≠ column := by
          rintro rfl
          exact hfresh (List.mem_map.2 ⟨_, hlater, rfl⟩)
        refine hset column' term' hlater ?_
        rw [value?_set, if_neg hne]
        exact hsome

/-! ### Statements -/

theorem updateRows_eq {params : List Value} {assignments : List (Column × Term)}
    {condition : Condition} {rows : List Row} {edit : Row → Row}
    (assigns : ∀ row ∈ rows, condition.holds params row = true →
      row.assign params assignments = some (edit row)) :
    updateRows params assignments condition rows =
      some (rows.map fun row => if condition.holds params row then edit row else row,
        (rows.filter (condition.holds params)).map edit) := by
  induction rows with
  | nil => rfl
  | cons row rows ih =>
    obtain ⟨hrow, hrows⟩ := List.forall_mem_cons.1 assigns
    rw [updateRows, ih hrows]
    by_cases hholds : condition.holds params row = true
    · simp [hholds, hrow hholds]
    · simp [hholds]

/-- An update changes nothing if a column of one row cannot be set. -/
theorem updateRows_eq_none {params : List Value} {assignments : List (Column × Term)}
    {condition : Condition} {rows : List Row} {row : Row} (hrow : row ∈ rows)
    (hholds : condition.holds params row = true) (hassign : row.assign params assignments = none) :
    updateRows params assignments condition rows = none := by
  induction rows with
  | nil => cases hrow
  | cons first rows ih =>
    rw [updateRows]
    rcases List.mem_cons.1 hrow with rfl | hrow
    · cases updateRows params assignments condition rows with
      | none => rfl
      | some result => simp [hholds, hassign]
    · rw [ih hrow]
      rfl

namespace Query

variable {database : Database} (relation : Relation) (assignments : List (Column × Term))
  (condition : Condition) (returning : List Column) (params : List Value)

/-- An update whose columns can be set, and whose rows are admitted, is carried out. -/
theorem run_update (edit : Row → Row)
    (assigns : ∀ row ∈ database.rows relation, condition.holds params row = true →
      row.assign params assignments = some (edit row))
    (admits : ∀ row ∈ database.rows relation, condition.holds params row = true →
      relation.admits (edit row) = true) :
    Query.run ⟨.update relation assignments condition returning, params⟩ database =
      (.ok ⟨if returning.isEmpty then [] else
          ((database.rows relation).filter (condition.holds params)).map fun row =>
            (edit row).project returning,
          ((database.rows relation).filter (condition.holds params)).length⟩,
        database.setRows relation ((database.rows relation).map fun row =>
          if condition.holds params row then edit row else row)) := by
  have hadmits : (((database.rows relation).filter (condition.holds params)).map edit).all
      relation.admits = true := by
    refine List.all_eq_true.2 (List.forall_mem_map.2 fun row hrow => ?_)
    exact admits row (List.mem_filter.1 hrow).1 (List.mem_filter.1 hrow).2
  simp only [run, updateRows_eq assigns, hadmits, if_true, List.length_map, List.map_map]
  rfl

/-- An update that picks the row of one key changes the entry of this key, and answers with the
changed row if it is asked for columns. -/
theorem run_update_key {κ ρ : Type} [DecidableEq κ] {read : Row → Except StoreError ρ}
    {keyOf : ρ → κ} {lookup lookup' : κ → Option ρ} {key : κ} (change : ρ → ρ)
    (table : Tabulates read keyOf (database.rows relation) lookup)
    (admitted : ∀ row ∈ database.rows relation, relation.admits row = true)
    (picks : ∀ row ∈ database.rows relation, ∀ entry, read row = .ok entry →
      (condition.holds params row = true ↔ keyOf entry = key))
    (assigns : ∀ row ∈ database.rows relation, ∀ entry, read row = .ok entry → keyOf entry = key →
      ∃ row' : Row, row.assign params assignments = some row' ∧ relation.admits row' = true ∧
        read row' = .ok (change entry) ∧ keyOf (change entry) = key)
    (hlookup : ∀ key', lookup' key' = if key' = key then (lookup key).map change else lookup key') :
    ∃ answer rows, Query.run ⟨.update relation assignments condition returning, params⟩ database =
        (.ok answer, database.setRows relation rows) ∧
      Tabulates read keyOf rows lookup' ∧ (∀ row ∈ rows, relation.admits row = true) ∧
      (lookup key = none → answer.rows = []) ∧
      ∀ entry, lookup key = some entry → returning.isEmpty = false →
        ∃ row' : Row, read row' = .ok (change entry) ∧ answer.rows = [row'.project returning] := by
  let edit : Row → Row := fun row => (row.assign params assignments).getD row
  have hedit : ∀ row ∈ database.rows relation, ∀ entry, read row = .ok entry → keyOf entry = key →
      row.assign params assignments = some (edit row) ∧ relation.admits (edit row) = true ∧
        read (edit row) = .ok (change entry) ∧ keyOf (change entry) = key := by
    intro row hrow entry hread hkey
    obtain ⟨row', hassign, h⟩ := assigns row hrow entry hread hkey
    have hrow' : edit row = row' := by
      change (row.assign params assignments).getD row = row'
      rw [hassign]
      rfl
    rw [hrow']
    exact ⟨hassign, h⟩
  have hpicked : ∀ row ∈ database.rows relation, condition.holds params row = true →
      row.assign params assignments = some (edit row) ∧ relation.admits (edit row) = true := by
    intro row hrow hholds
    obtain ⟨entry, hread, -⟩ := table.sound row hrow
    have hkey := (picks row hrow entry hread).1 hholds
    obtain ⟨hassign, hadmits, -⟩ := hedit row hrow entry hread hkey
    exact ⟨hassign, hadmits⟩
  refine ⟨_, _, run_update relation assignments condition returning params edit
    (fun row hrow hholds => (hpicked row hrow hholds).1)
    (fun row hrow hholds => (hpicked row hrow hholds).2),
    table.update edit change picks (fun row hrow entry hread hkey =>
      (hedit row hrow entry hread hkey).2.2) hlookup,
    List.forall_mem_map.2 fun row hrow => ?_, fun hnone => ?_, fun entry hsome hreturning => ?_⟩
  · split
    · rename_i hholds
      exact (hpicked row hrow hholds).2
    · exact admitted row hrow
  · rw [table.filter_of_none picks hnone]
    exact ite_self []
  · obtain ⟨row, hrow, hread, hfilter⟩ := table.filter_of_some picks hsome
    have hkey := (table.complete key entry hsome).1
    rw [hfilter, hreturning]
    exact ⟨edit row, (hedit row hrow entry hread hkey).2.2.1, rfl⟩

/-- A row that is admitted is inserted, unless there is one with its primary key. -/
theorem run_insert (database : Database) {columns : List Column} {terms : List Term}
    {values : List Value}
    (hvalues : terms.mapM (Term.value? params []) = some values)
    (hadmits : relation.admits (columns.zip values) = true) :
    Query.run ⟨.insert relation columns terms relation.primaryKey returning, params⟩ database =
      if (database.rows relation).any
          (Row.agreesOn relation.primaryKey (columns.zip values)) = true then
        (.ok ⟨[], 0⟩, database)
      else
        (.ok ⟨if returning.isEmpty then [] else [Row.project returning (columns.zip values)], 1⟩,
          database.setRows relation (database.rows relation ++ [columns.zip values])) := by
  simp only [run, hvalues, hadmits, Bool.not_true, Bool.false_eq_true, if_false, if_true]

/-- A query is answered, and changes the rows, as a change of a store says: the answer is read as
the result, and where this is a value the database holds the contents of the store after the
change. -/
def Realizes {α : Type} (query : Query) (read : Answered → Except StoreError α)
    (database : Database) (result : Except StoreError (α × StoreState)) : Prop :=
  ∃ answer after, query.run database = (.ok answer, after) ∧
    read answer = result.map (·.1) ∧
    ∀ value store, result = .ok (value, store) → after.Holds store

end Query

end Sql

/-- A change of an item's counts that leaves the range of no column. -/
structure CountChange.Fits (change : CountChange) (item : ContentItem) : Prop where
  upVotes : IsBigint (item.upVotes.toInt + change.upVotes.toInt)
  downVotes : IsBigint (item.downVotes.toInt + change.downVotes.toInt)
  comments : IsBigint (item.comments.toInt + change.comments.toInt)
  reports : IsBigint (item.reports.toInt + change.reports.toInt)

namespace Postgres

variable {database : Database} {store : StoreState} {row : Row}

/-! ### Items -/

theorem truth_matching {column : Column} {position : Nat} {params : List Value} {a b : Value}
    {order : Ordering} (hcolumn : row.value? column = some a)
    (hparam : params[position - 1]? = some b) (horder : a.order? b = some order) :
    (matching column position).truth params row = some (decide (a = b)) := by
  rw [← Value.order?_beq horder]
  simp [matching, Condition.truth, Term.value?, hcolumn, hparam, horder]

theorem holds_atKey_iff {item : ContentItem} (shows : row.ShowsItem item) (key : ContentKey)
    (values : List Value) :
    atKey.holds (keyParams key ++ values) row = true ↔ item.key = key := by
  have hscope : (matching .scopeId 1).truth (keyParams key ++ values) row = _ :=
    truth_matching shows.scope rfl rfl
  have hid : (matching .contentId 2).truth (keyParams key ++ values) row = _ :=
    truth_matching shows.id rfl rfl
  rw [atKey, Condition.holds_of_truth (Condition.truth_both hscope hid)]
  obtain ⟨⟨scope⟩, ⟨id⟩⟩ := key
  obtain ⟨⟨scope'⟩, ⟨id'⟩, _⟩ := item
  simp [ContentItem.key]

/-- Reading an item. -/
theorem realizes_selectContent (holds : database.Holds store) (key : ContentKey) (lock : Bool) :
    (selectContent key lock).Realizes itemOf database
      (match store.item? key with
        | none => .error .contentNotFound
        | some item => .ok (item, store)) := by
  have picks : ∀ row ∈ database.contentItems, ∀ item, ContentItem.ofRow row = .ok item →
      (atKey.holds (keyParams key) row = true ↔ item.key = key) := fun row _ item hread =>
    holds_atKey_iff (ContentItem.ofRow_eq_ok_iff.1 hread) key []
  have hrun : (selectContent key lock).run database =
      (.ok ⟨(database.contentItems.filter (atKey.holds (keyParams key))).map
        (Row.project Relation.contentItems.columns), _⟩, database) := rfl
  refine ⟨_, database, hrun, ?_⟩
  cases hitem : store.item? key with
  | none =>
    rw [itemOf, firstRow, holds.items.filter_of_none picks hitem]
    exact ⟨rfl, fun _ _ h => by cases h⟩
  | some item =>
    obtain ⟨row, -, hread, hfilter⟩ := holds.items.filter_of_some picks hitem
    have hshows := (ContentItem.ofRow_eq_ok_iff.1 hread).project
    rw [itemOf, firstRow, hfilter]
    exact ⟨ContentItem.ofRow_eq_ok_iff.2 hshows, fun _ _ h => by cases h; exact holds⟩

/-- Changing an item by setting columns of its row. -/
theorem run_updateContent {assignments : List (Column × Term)} {key : ContentKey}
    {values : List Value} {change : ContentItem → ContentItem} (returning : Bool)
    (holds : database.Holds store)
    (assigns : ∀ (row : Row) item, row.ShowsItem item → Relation.contentItems.admits row = true →
      store.item? key = some item →
      ∃ row' : Row, row.assign (keyParams key ++ values) assignments = some row' ∧
        row'.ShowsItem (change item) ∧ Relation.contentItems.admits row' = true)
    (keeps : ∀ item, (change item).key = item.key) :
    ∃ answer after, (updateContent assignments key values returning).run database =
        (.ok answer, after) ∧
      (returning = true → itemOf answer = (store.updateItem key change).map (·.1)) ∧
      ∀ item store', store.updateItem key change = .ok (item, store') → after.Holds store' := by
  have hlookup : ∀ key', ((store.item? key).elim store fun item =>
      store.putItem key (change item)).item? key' =
        if key' = key then (store.item? key).map change else store.item? key' := by
    intro key'
    cases hitem : store.item? key with
    | some item => exact StoreState.item?_putItem _ _ _ _
    | none =>
      split
      · rename_i heq
        rw [heq]
        exact hitem
      · rfl
  obtain ⟨answer, rows, hrun, htable, hadmitted, hnone, hsome⟩ :=
    Query.run_update_key .contentItems assignments atKey
      (if returning then Relation.contentItems.columns else []) (keyParams key ++ values) change
      holds.items (holds.admitted .contentItems)
      (fun row _ item hread => holds_atKey_iff (ContentItem.ofRow_eq_ok_iff.1 hread) key values)
      (fun row hrow item hread hkey => by
        obtain ⟨row', hassign, hshows, hadmits⟩ := assigns row item
          (ContentItem.ofRow_eq_ok_iff.1 hread) (holds.admitted .contentItems row hrow)
          (hkey ▸ holds.items.found hrow hread)
        exact ⟨row', hassign, hadmits, ContentItem.ofRow_eq_ok_iff.2 hshows,
          (keeps item).trans hkey⟩)
      hlookup
  refine ⟨answer, _, hrun, ?_, ?_⟩
  · rintro rfl
    rw [StoreState.updateItem, itemOf, firstRow]
    cases hitem : store.item? key with
    | none =>
      rw [hnone hitem]
      rfl
    | some item =>
      obtain ⟨row', hread, hrows⟩ := hsome item hitem rfl
      rw [hrows]
      exact ContentItem.ofRow_eq_ok_iff.2 (ContentItem.ofRow_eq_ok_iff.1 hread).project
  · intro item store' hupdate
    rw [StoreState.updateItem] at hupdate
    split at hupdate
    · cases hupdate
    · rename_i old hold
      cases hupdate
      rw [hold] at htable
      refine ⟨htable, holds.records, ?_⟩
      rintro (_ | _)
      · exact hadmitted
      · exact holds.admitted .engagementRecords

theorem max_zero_left (n : Int64) : max 0 n = max n 0 := by
  have hleft : max 0 n = if 0 ≤ n then n else 0 := rfl
  have hright : max n 0 = if n ≤ 0 then 0 else n := rfl
  rw [hleft, hright]
  by_cases hle : n ≤ 0
  · by_cases hge : 0 ≤ n
    · rw [if_pos hle, if_pos hge, Int64.le_antisymm hle hge]
    · rw [if_pos hle, if_neg hge]
  · rw [if_neg hle, if_pos ((Int64.le_total 0 n).resolve_right hle)]

theorem value?_movedCount {column : Column} {position : Nat} {params : List Value}
    {count delta : Int64} (hcolumn : row.value? column = some (.bigint count))
    (hparam : params[position - 1]? = some (.bigint delta))
    (fits : IsBigint (count.toInt + delta.toInt)) :
    (movedCount column position).2.value? params row =
      some (.bigint (CountChange.floorAdd count delta)) := by
  have hsum : (Term.add (.column column) (.param position)).value? params row =
      some (.bigint (Saturating.add count delta)) := by
    rw [Term.value?, Term.value?, Term.value?, hcolumn, hparam]
    exact Value.add?_bigint fits
  rw [movedCount, Term.value?, hsum, CountChange.floorAdd, ← max_zero_left]
  rfl

theorem floorAdd_nonneg (count delta : Int64) : 0 ≤ CountChange.floorAdd count delta := by
  rw [Int64.le_iff_toInt_le, CountChange.toInt_floorAdd]
  exact Int.le_max_left 0 _

/-- Changing the counts of an item. -/
theorem realizes_adjustCounts {key : ContentKey} {change : CountChange}
    (holds : database.Holds store)
    (fits : ∀ item, store.item? key = some item → change.Fits item) :
    (adjustCounts key change).Realizes itemOf database (store.updateItem key change.applyTo) := by
  let params := (adjustCounts key change).params
  let assignments := [movedCount .upVoteCount 3, movedCount .downVoteCount 4,
    movedCount .commentCount 5, movedCount .reportedCount 6]
  have assigns : ∀ (row : Row) item, row.ShowsItem item →
      Relation.contentItems.admits row = true → store.item? key = some item →
      ∃ row' : Row, row.assign params assignments = some row' ∧
        row'.ShowsItem (change.applyTo item) ∧ Relation.contentItems.admits row' = true := by
    intro row item shows _ hitem
    obtain ⟨hup, hdown, hcomments, hreports⟩ := fits item hitem
    have hup : (movedCount .upVoteCount 3).2.value? params row = _ :=
      value?_movedCount shows.upVotes rfl hup
    have hdown : (movedCount .downVoteCount 4).2.value? params row = _ :=
      value?_movedCount shows.downVotes rfl hdown
    have hcomments : (movedCount .commentCount 5).2.value? params row = _ :=
      value?_movedCount shows.comments rfl hcomments
    have hreports : (movedCount .reportedCount 6).2.value? params row = _ :=
      value?_movedCount shows.reports rfl hreports
    obtain ⟨row', hassign, hkept, hset⟩ := Row.exists_assign params row assignments
      (by simp [assignments, hup, hdown, hcomments, hreports]) (by decide)
    have hshows : row'.ShowsItem (change.applyTo item) := {
      scope := (hkept _ (by decide)).trans shows.scope
      id := (hkept _ (by decide)).trans shows.id
      hive := (hkept _ (by decide)).trans shows.hive
      kind := (hkept _ (by decide)).trans shows.kind
      author := (hkept _ (by decide)).trans shows.author
      body := (hkept _ (by decide)).trans shows.body
      createdAt := (hkept _ (by decide)).trans shows.createdAt
      lastActivityAt := (hkept _ (by decide)).trans shows.lastActivityAt
      upVotes := (hset .upVoteCount _ (by decide) (by rw [shows.upVotes]; rfl)).trans hup
      downVotes := (hset .downVoteCount _ (by decide) (by rw [shows.downVotes]; rfl)).trans hdown
      comments := (hset .commentCount _ (by decide) (by rw [shows.comments]; rfl)).trans hcomments
      reports := (hset .reportedCount _ (by decide) (by rw [shows.reports]; rfl)).trans hreports
      obfuscated := (hkept _ (by decide)).trans shows.obfuscated
      reviewed := (hkept _ (by decide)).trans shows.reviewed
      pinned := (hkept _ (by decide)).trans shows.pinned
      tags := by rw [hkept _ (by decide)]; exact shows.tags }
    refine ⟨row', hassign, hshows, hshows.admits_iff.2 ?_⟩
    exact ⟨floorAdd_nonneg _ _, floorAdd_nonneg _ _, floorAdd_nonneg _ _, floorAdd_nonneg _ _⟩
  obtain ⟨answer, after, hrun, hread, hholds⟩ :=
    run_updateContent true holds assigns fun _ => rfl
  exact ⟨answer, after, hrun, hread rfl, hholds⟩

/-- Setting the count of reports of an item, and whether it is hidden. -/
theorem run_setReports {key : ContentKey} {item : ContentItem} {reports : Int64}
    (obfuscated : Bool) (holds : database.Holds store) (hitem : store.item? key = some item)
    (nonneg : 0 ≤ reports) :
    ∃ answer after, (setReports key reports obfuscated).run database = (.ok answer, after) ∧
      after.Holds (store.putItem key { item with reports, obfuscated }) := by
  let params := (setReports key reports obfuscated).params
  let assignments : List (Column × Term) := [(.reportedCount, .param 3), (.obfuscated, .param 4)]
  let change : ContentItem → ContentItem := fun item => { item with reports, obfuscated }
  have assigns : ∀ (row : Row) item, row.ShowsItem item →
      Relation.contentItems.admits row = true → store.item? key = some item →
      ∃ row' : Row, row.assign params assignments = some row' ∧
        row'.ShowsItem (change item) ∧ Relation.contentItems.admits row' = true := by
    intro row item shows hadmits _
    obtain ⟨row', hassign, hkept, hset⟩ := Row.exists_assign params row assignments
      (List.forall_mem_cons.2 ⟨rfl, List.forall_mem_singleton.2 rfl⟩) (by decide)
    have hshows : row'.ShowsItem (change item) := {
      scope := (hkept _ (by decide)).trans shows.scope
      id := (hkept _ (by decide)).trans shows.id
      hive := (hkept _ (by decide)).trans shows.hive
      kind := (hkept _ (by decide)).trans shows.kind
      author := (hkept _ (by decide)).trans shows.author
      body := (hkept _ (by decide)).trans shows.body
      createdAt := (hkept _ (by decide)).trans shows.createdAt
      lastActivityAt := (hkept _ (by decide)).trans shows.lastActivityAt
      upVotes := (hkept _ (by decide)).trans shows.upVotes
      downVotes := (hkept _ (by decide)).trans shows.downVotes
      comments := (hkept _ (by decide)).trans shows.comments
      reports := hset .reportedCount (.param 3) (by decide) (by rw [shows.reports]; rfl)
      obfuscated := hset .obfuscated (.param 4) (by decide) (by rw [shows.obfuscated]; rfl)
      reviewed := (hkept _ (by decide)).trans shows.reviewed
      pinned := (hkept _ (by decide)).trans shows.pinned
      tags := by rw [hkept _ (by decide)]; exact shows.tags }
    obtain ⟨hup, hdown, hcomments, -⟩ := shows.admits_iff.1 hadmits
    exact ⟨row', hassign, hshows, hshows.admits_iff.2 ⟨hup, hdown, hcomments, nonneg⟩⟩
  obtain ⟨answer, after, hrun, -, hholds⟩ :=
    run_updateContent false holds assigns fun _ => rfl
  refine ⟨answer, after, hrun, hholds (change item) _ ?_⟩
  rw [StoreState.updateItem, hitem]

end Postgres

end HiveForum
