import HiveForum.Numeric.Saturating
import HiveForum.Sql.Connection

/-!
# A database that runs statements

What statements mean: rows are found by conditions of three-valued logic, ordered, cut, added,
changed and removed. A row that is added or changed has to be one that its relation admits. A
statement that cannot be carried out changes nothing. The changes of a transaction last once it is
committed.

## Main definitions

* `Sql.Term.value?`, `Sql.Condition.truth`: terms and conditions on a row.
* `Sql.Relation.admits`: the rows that a relation admits.
* `Sql.Database`: the rows of each relation.
* `Sql.Query.run`: the answer to a statement, and the database after it.
* `Sql.Database.peer`: a database as the other end of a connection.
-/

namespace HiveForum.Sql

/-! ### Terms and conditions -/

/-- Compares two values of one type. -/
def Value.order? : Value → Value → Option Ordering
  | .bigint a, .bigint b => some (compare a b)
  | .text a, .text b => some (compare a b)
  | .uuid a, .uuid b => some (compare a b)
  | _, _ => none

/-- Compares two lists of values, the first difference deciding. -/
def Value.orderLines? : List Value → List Value → Option Ordering
  | [], [] => some .eq
  | a :: as, b :: bs =>
    match a.order? b with
    | some .eq => orderLines? as bs
    | decided => decided
  | _, _ => none

/-- The elements of an array. -/
def Value.elements? : Value → Option (List Value)
  | .texts xs => some (xs.map .text)
  | .uuids ids => some (ids.map .uuid)
  | _ => none

/-- The sum of two integers; none if it is out of range. -/
def Value.add? : Value → Value → Option Value
  | .bigint a, .bigint b =>
    if Saturating.clamp (a.toInt + b.toInt) = a.toInt + b.toInt then
      some (.bigint (Saturating.add a b))
    else none
  | _, _ => none

/-- The larger of two integers. -/
def Value.greatest? : Value → Value → Option Value
  | .bigint a, .bigint b => some (.bigint (max a b))
  | _, _ => none

/-- The value of a term, if it can be computed. -/
def Term.value? (params : List Value) (row : Row) : Term → Option Value
  | .column c => row.value? c
  | .param position => params[position - 1]?
  | .typed term _ => term.value? params row
  | .integer n => some (.bigint (Int64.ofNat n))
  | .boolean b => some (.boolean b)
  | .add a b => do (← a.value? params row).add? (← b.value? params row)
  | .greatest a b => do (← a.value? params row).greatest? (← b.value? params row)
  | .cardinality array => do
    some (.bigint (Saturating.int64 (← (← array.value? params row).elements?).length))

/-- A truth value, or none if it is unknown. -/
abbrev Truth : Type := Option Bool

namespace Truth

/-- Whether both hold. -/
def both : Truth → Truth → Truth
  | some true, some true => some true
  | some false, _ => some false
  | _, some false => some false
  | _, _ => none

/-- Whether one of them holds. -/
def either : Truth → Truth → Truth
  | some false, some false => some false
  | some true, _ => some true
  | _, some true => some true
  | _, _ => none

end Truth

/-- The ordering that a comparison asks for. -/
def Comparison.wanted : Comparison → Ordering
  | .less => .lt
  | .greater => .gt

/-- The truth of a condition on a row. -/
def Condition.truth (params : List Value) (row : Row) : Condition → Truth
  | .equal a b => do
    some ((← (← a.value? params row).order? (← b.value? params row)) == .eq)
  | .isNull term => (term.value? params row).map (· == .null)
  | .compare comparison left right => do
    let left ← left.mapM (·.value? params row)
    let right ← right.mapM (·.value? params row)
    some ((← Value.orderLines? left right) == comparison.wanted)
  | .overlaps a b => do
    let a ← (← a.value? params row).elements?
    let b ← (← b.value? params row).elements?
    some (a.any b.contains)
  | .equalAny term array => do
    let value ← term.value? params row
    let elements ← (← array.value? params row).elements?
    some (elements.contains value)
  | .inUnnest terms arrays => do
    let values ← terms.mapM (·.value? params row)
    let columns ← arrays.mapM fun array => do (← array.value? params row).elements?
    let lines := (List.range ((columns.head?.map List.length).getD 0)).map fun line =>
      columns.filterMap (·[line]?)
    some (lines.contains values)
  | .both a b => (a.truth params row).both (b.truth params row)
  | .either a b => (a.truth params row).either (b.truth params row)

/-- Whether a condition holds for a row; an unknown one does not. -/
def Condition.holds (condition : Condition) (params : List Value) (row : Row) : Bool :=
  condition.truth params row = some true

/-! ### Rows -/

namespace Row

/-- The values of some columns; null for a column that the row lacks. -/
def project (columns : List Column) (row : Row) : Row :=
  columns.map fun column => (column, (row.value? column).getD .null)

/-- The row with another value of a column. -/
def set (row : Row) (column : Column) (value : Value) : Row :=
  row.map fun entry => if entry.1 = column then (column, value) else entry

/-- Whether two rows have the same values of some columns. -/
def agreesOn (columns : List Column) (a b : Row) : Bool :=
  columns.all fun column => a.value? column = b.value? column

/-- The row with its columns set; all terms are computed from the row as it was. -/
def assign (params : List Value) (assignments : List (Column × Term)) (row : Row) : Option Row :=
  assignments.foldlM
    (fun changed (column, term) => (term.value? params row).map (changed.set column)) row

/-- Whether one row comes no later than another one in the order of some columns. -/
def precedes (columns : List Column) (direction : Direction) (a b : Row) : Bool :=
  let order := Value.orderLines? (columns.map fun column => (a.value? column).getD .null)
    (columns.map fun column => (b.value? column).getD .null)
  match direction with
  | .ascending => order != some .gt
  | .descending => order != some .lt

end Row

/-- Whether a count is not negative; one that is not known may be anything. -/
def Row.isCount (row : Row) (column : Column) : Bool :=
  match row.value? column with
  | some (.bigint n) => decide (0 ≤ n)
  | _ => true

/-- Whether a relation admits a row: the kind of an item is known and none of its counts is
negative, and no record is a vote for and against. -/
def Relation.admits (relation : Relation) (row : Row) : Bool :=
  match relation with
  | .contentItems =>
    (row.value? .kind == some (.text "post") || row.value? .kind == some (.text "comment")) &&
      [.upVoteCount, .downVoteCount, .commentCount, .reportedCount].all row.isCount
  | .engagementRecords =>
    !(row.value? .upVoted == some (.boolean true) && row.value? .downVoted == some (.boolean true))

/-! ### Statements -/

/-- The rows of each relation. -/
structure Database where
  contentItems : List Row := []
  engagementRecords : List Row := []
deriving DecidableEq, Inhabited

namespace Database

/-- The rows of a relation. -/
def rows (database : Database) : Relation → List Row
  | .contentItems => database.contentItems
  | .engagementRecords => database.engagementRecords

/-- The database with other rows of a relation. -/
def setRows (database : Database) (relation : Relation) (rows : List Row) : Database :=
  match relation with
  | .contentItems => { database with contentItems := rows }
  | .engagementRecords => { database with engagementRecords := rows }

end Database

/-- Two rows would agree on their primary key. -/
def Refusal.duplicateKey : Refusal := ⟨"23505", "duplicate key value violates unique constraint"⟩

/-- A row is none that its relation admits. -/
def Refusal.checkViolation : Refusal := ⟨"23514", "new row violates check constraint"⟩

/-- A number is out of range, or a term has no value. -/
def Refusal.noValue : Refusal := ⟨"22003", "bigint out of range"⟩

/-- The rows that a number of rows cuts off; all of them without one. -/
def cut (params : List Value) (limit : Option Term) (rows : List Row) : List Row :=
  match limit.bind (·.value? params []) with
  | some (.bigint n) => rows.take n.toInt.toNat
  | _ => rows

/-- Changes the rows that satisfy a condition. Gives all rows, and those that were changed. -/
def updateRows (params : List Value) (assignments : List (Column × Term)) (condition : Condition) :
    List Row → Option (List Row × List Row)
  | [] => some ([], [])
  | row :: rest => do
    let (all, changed) ← updateRows params assignments condition rest
    if condition.holds params row then
      let row ← row.assign params assignments
      some (row :: all, row :: changed)
    else some (row :: all, changed)

/-- The answer to a statement, and the database after it. -/
def Query.run (query : Query) (database : Database) : Except Refusal Answered × Database :=
  match query.statement with
  | .probe => (.ok ⟨[[]], 1⟩, database)
  | .insert relation columns values skip returning =>
    match values.mapM (·.value? query.params []) with
    | none => (.error .noValue, database)
    | some values =>
      let row : Row := columns.zip values
      let rows := database.rows relation
      if !relation.admits row then (.error .checkViolation, database)
      else if rows.any (row.agreesOn relation.primaryKey) then
        if skip = relation.primaryKey then (.ok ⟨[], 0⟩, database)
        else (.error .duplicateKey, database)
      else
        let answer := if returning.isEmpty then [] else [row.project returning]
        (.ok ⟨answer, 1⟩, database.setRows relation (rows ++ [row]))
  | .select columns relation condition order direction limit _ =>
    let found := (database.rows relation).filter (condition.holds query.params)
    let ordered := if order.isEmpty then found else found.mergeSort (Row.precedes order direction)
    let answer := (cut query.params limit ordered).map (Row.project columns)
    (.ok ⟨answer, answer.length⟩, database)
  | .update relation assignments condition returning =>
    match updateRows query.params assignments condition (database.rows relation) with
    | none => (.error .noValue, database)
    | some (rows, changed) =>
      if changed.all relation.admits then
        let answer := if returning.isEmpty then [] else changed.map (Row.project returning)
        (.ok ⟨answer, changed.length⟩, database.setRows relation rows)
      else (.error .checkViolation, database)
  | .delete relation condition =>
    let rows := database.rows relation
    let kept := rows.filter fun row => !condition.holds query.params row
    (.ok ⟨[], rows.length - kept.length⟩, database.setRows relation kept)

/-! ### Transactions -/

/-- A database with the changes of the transaction that is open, if one is. -/
structure DatabaseSession where
  committed : Database := {}
  working : Option Database := none
deriving DecidableEq, Inhabited

namespace DatabaseSession

/-- The rows that a statement sees. -/
def current (session : DatabaseSession) : Database := session.working.getD session.committed

/-- The session with other rows; they last at once unless a transaction is open. -/
def setCurrent (session : DatabaseSession) (database : Database) : DatabaseSession :=
  match session.working with
  | none => { session with committed := database }
  | some _ => { session with working := some database }

/-- The reply to a statement. -/
def runQuery (session : DatabaseSession) (query : Query) : Reply × DatabaseSession :=
  match query.run session.current with
  | (.ok answer, database) => (.ok answer, session.setCurrent database)
  | (.error refusal, _) => (.error (.refused refusal), session)

/-- How a database replies to commands. -/
def peer : Peer DatabaseSession where
  reply
    | .begin, session => (.ok ⟨[], 0⟩, { session with working := some session.committed })
    | .commit, session => (.ok ⟨[], 0⟩, ⟨session.current, none⟩)
    | .rollback, session => (.ok ⟨[], 0⟩, { session with working := none })
    | .query q, session => session.runQuery q
    | .script _, session => (.ok ⟨[], 0⟩, session)

end DatabaseSession

end HiveForum.Sql
