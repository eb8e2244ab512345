import HiveForum.Sql.Statement

/-!
# The text of statements

Statements are written on one line with single blanks.

## Main definitions

* `Sql.Statement.text`: the text of a statement.
-/

namespace HiveForum.Sql

/-- The texts with commas between them. -/
def commaSeparated (texts : List String) : String := ", ".intercalate texts

/-- The text of a term. -/
def Term.text : Term → String
  | .column c => c.name
  | .param position => s!"${position}"
  | .typed term kind => s!"{term.text}::{kind.name}"
  | .integer n => toString n
  | .boolean true => "TRUE"
  | .boolean false => "FALSE"
  | .add a b => s!"{a.text} + {b.text}"
  | .greatest a b => s!"GREATEST({a.text}, {b.text})"
  | .cardinality array => s!"cardinality({array.text})"

/-- The text of a list of terms: a single term as it is, several ones in parentheses. -/
def Term.lineText : List Term → String
  | [term] => term.text
  | terms => s!"({commaSeparated (terms.map Term.text)})"

/-- The sign of a comparison. -/
def Comparison.sign : Comparison → String
  | .less => "<"
  | .greater => ">"

/-- The text of a condition; an alternative stands in parentheses. -/
def Condition.text : Condition → String
  | .equal a b => s!"{a.text} = {b.text}"
  | .isNull term => s!"{term.text} IS NULL"
  | .compare comparison left right =>
    s!"{Term.lineText left} {comparison.sign} {Term.lineText right}"
  | .overlaps a b => s!"{a.text} && {b.text}"
  | .equalAny term array => s!"{term.text} = ANY({array.text})"
  | .inUnnest terms arrays =>
    s!"{Term.lineText terms} IN ( SELECT * FROM UNNEST({commaSeparated (arrays.map Term.text)}) )"
  | .both a b => s!"{a.text} AND {b.text}"
  | .either a b => s!"({a.text} OR {b.text})"

/-- The names of columns with commas between them. -/
def Column.names (columns : List Column) : String := commaSeparated (columns.map Column.name)

/-- The word for a direction. -/
def directionWord : Direction → String
  | .ascending => "ASC"
  | .descending => "DESC"

namespace Statement

/-- The clause that asks for columns of the changed rows. -/
def returningText : List Column → String
  | [] => ""
  | columns => s!" RETURNING {Column.names columns}"

/-- The clause that skips rows which are there already. -/
def skipText : List Column → String
  | [] => ""
  | columns => s!" ON CONFLICT ({Column.names columns}) DO NOTHING"

/-- The clause that orders rows. -/
def orderText (direction : Direction) : List Column → String
  | [] => ""
  | columns =>
    " ORDER BY " ++
      commaSeparated (columns.map fun column => s!"{column.name} {directionWord direction}")

/-- The clause that cuts the answer. -/
def limitText : Option Term → String
  | none => ""
  | some limit => s!" LIMIT {limit.text}"

/-- The text of a statement. -/
def text : Statement → String
  | .probe => "SELECT 1"
  | .insert relation columns values skip returning =>
    s!"INSERT INTO {relation.name} ( {Column.names columns} ) " ++
      s!"VALUES ({commaSeparated (values.map Term.text)})" ++ skipText skip ++
      returningText returning
  | .select columns relation condition order direction limit lock =>
    s!"SELECT {Column.names columns} FROM {relation.name} WHERE {condition.text}" ++
      orderText direction order ++ limitText limit ++ (if lock then " FOR UPDATE" else "")
  | .update relation assignments condition returning =>
    let sets := assignments.map fun (column, value) => s!"{column.name} = {value.text}"
    s!"UPDATE {relation.name} SET {commaSeparated sets} WHERE {condition.text}" ++
      returningText returning
  | .delete relation condition => s!"DELETE FROM {relation.name} WHERE {condition.text}"

end Statement

end HiveForum.Sql
