import HiveForum.Content.Order
import HiveForum.Sql.Schema

/-!
# Statements

The statements that are sent to the database, as data. Values are never part of a statement: it
refers to parameters by position, counted from one.

## Main definitions

* `Sql.Term`, `Sql.Condition`: what a statement computes and tests for each row.
* `Sql.Statement`: the statements.
* `Sql.Query`: a statement with the values of its parameters.
-/

namespace HiveForum.Sql

/-- What is computed from a row and the parameters. -/
inductive Term where
  | column (column : Column)
  | param (position : Nat)
  | typed (term : Term) (kind : Kind)
  | integer (n : Nat)
  | boolean (b : Bool)
  | add (a b : Term)
  | greatest (a b : Term)
  | cardinality (array : Term)
deriving DecidableEq

/-- How two lists of values are compared. -/
inductive Comparison where
  | less
  | greater
deriving DecidableEq

/-- What is tested for a row. -/
inductive Condition where
  | equal (a b : Term)
  | isNull (term : Term)
  /-- Two lists of terms compare as wanted, the first difference deciding. -/
  | compare (comparison : Comparison) (left right : List Term)
  | overlaps (a b : Term)
  | equalAny (term array : Term)
  /-- A list of terms stands in one line of arrays that are written side by side. -/
  | inUnnest (terms arrays : List Term)
  | both (a b : Condition)
  | either (a b : Condition)
deriving DecidableEq

/-- A statement. -/
inductive Statement where
  /-- Asks for an answer of any kind. -/
  | probe
  /-- Adds a row with the given values of columns. Where `skip` lists columns, nothing is added if
  there is a row with the same values of these. The columns `returning` of the row are answered. -/
  | insert (relation : Relation) (columns : List Column) (values : List Term) (skip : List Column)
      (returning : List Column)
  /-- Answers columns of the rows that satisfy a condition, in the order of some columns in one
  direction, cut at a limit, and locked for an update in the same transaction if wanted. -/
  | select (columns : List Column) (relation : Relation) (condition : Condition)
      (order : List Column) (direction : Direction) (limit : Option Term) (lock : Bool)
  | update (relation : Relation) (assignments : List (Column × Term)) (condition : Condition)
      (returning : List Column)
  | delete (relation : Relation) (condition : Condition)
deriving DecidableEq

/-- A statement with the values of its parameters. -/
structure Query where
  statement : Statement
  params : List Value := []
deriving DecidableEq

end HiveForum.Sql
