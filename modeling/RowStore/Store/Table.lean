import RowStore.Encoding.Value
import RowStore.Statement.Basic

/-!
# Tables

A table is a schema and rows. A row lies under the binary form of its primary-key value, and rows
come in the order of these keys as lists of bytes.
-/

namespace RowStore

structure Table where
  schema : Schema
  rows : SortedMap (List UInt8) Row
  deriving DecidableEq

namespace Schema

/-- The values of a new row by column: positional ones belong to the columns in order. -/
def supplied (s : Schema) : NewRow → Except Error Row
  | .named values => .ok values
  | .positional values =>
    if values.length ≠ s.columns.length then
      .error (.valueCountMismatch s.name s.columns.length values.length)
    else .ok (SortedMap.ofList (s.columnNames.zip values))

/-- The row without values. -/
def blankRow (s : Schema) : Row := SortedMap.ofList (s.columnNames.map fun c => (c, .unset))

/-- The row with the given values, which must fit and give the primary key; the other columns stay
unset. -/
def complete (s : Schema) (values : Row) : Except Error Row := do
  let _ ← s.keyOf values
  values.entries.forM fun e => s.checkValue e.1 e.2
  return s.blankRow.insertMany values.entries

/-- The columns of a query: those it names, or all if it names none. -/
def requested (s : Schema) (columns : List String) : Except Error (List String) :=
  if columns = [] then .ok s.columnNames
  else do
    columns.forM fun c => discard (s.kind c)
    return columns

end Schema

/-- The columns of a query with their values in a row. -/
def Row.project (columns : List String) (row : Row) : Row :=
  SortedMap.ofList (columns.map fun c => (c, (row.get? c).getD .unset))

namespace Table

/-- A table without rows. -/
def ofSchema (s : Schema) : Except Error Table := do
  s.check
  return ⟨s, .empty⟩

def rowCount (t : Table) : Nat := t.rows.size

/-- Whether a row with this primary-key value is there. -/
def holdsKey (t : Table) (key : Value) : Bool := t.rows.contains (encode key)

/-- A row replaces the one with its primary-key value. -/
def put (t : Table) (key : Value) (row : Row) : Table :=
  { t with rows := t.rows.insert (encode key) row }

/-- The rows that meet a condition, if there is one. -/
def matching (t : Table) (filter : Option Condition) : List Row :=
  t.rows.values.filter fun row => filter.all fun c => c.holds row

/-- The table without the rows that meet a condition. -/
def without (t : Table) (filter : Condition) : Table :=
  { t with rows := t.rows.filter fun _ row => !filter.holds row }

end Table

end RowStore
