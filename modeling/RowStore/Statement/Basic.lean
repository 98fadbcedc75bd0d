import RowStore.Schema

/-!
# Statements

What can be asked of the store: to create, fill, query, thin out and drop tables.
-/

namespace RowStore

/-- The rows in which a column has a value. -/
structure Condition where
  column : String
  value : Value
  deriving DecidableEq

/-- A row without the column meets no condition on it. -/
def Condition.holds (c : Condition) (row : Row) : Bool :=
  match row.get? c.column with
  | some v => v.equals c.value
  | none => false

/-- The values of a new row, by column or in the order of the declaration. -/
inductive NewRow where
  | named (values : Row)
  | positional (values : List Value)
  deriving DecidableEq

inductive Statement where
  | create (schema : Schema)
  /-- No columns stand for all of them. -/
  | select (table : String) (columns : List String) (filter : Option Condition)
  | insert (table : String) (values : NewRow)
  | delete (table : String) (filter : Condition)
  | drop (table : String)
  deriving DecidableEq

namespace Statement

def table : Statement → String
  | create schema => schema.name
  | select table _ _ => table
  | insert table _ => table
  | delete table _ => table
  | drop table => table

/-- Every statement but a query may change the store. -/
def isWrite : Statement → Bool
  | select .. => false
  | _ => true

end Statement

end RowStore
