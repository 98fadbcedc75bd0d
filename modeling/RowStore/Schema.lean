import RowStore.Error

/-!
# Schemas

The columns of a table in the order of their declaration, and the column whose value identifies a
row.
-/

namespace RowStore

structure Column where
  name : String
  kind : Kind
  deriving DecidableEq, Repr

structure Schema where
  name : String
  columns : List Column
  primaryKey : String
  deriving DecidableEq, Repr

/-- The first member of a list that occurred before it. -/
def firstRepeated? {α : Type} [DecidableEq α] (seen : List α) : List α → Option α
  | [] => none
  | x :: xs => if x ∈ seen then some x else firstRepeated? (x :: seen) xs

theorem firstRepeated?_eq_none {α : Type} [DecidableEq α] {seen xs : List α} :
    firstRepeated? seen xs = none ↔ xs.Nodup ∧ ∀ x ∈ xs, x ∉ seen := by
  fun_induction firstRepeated? seen xs with
  | case1 => simp
  | case2 seen x xs h => simp [h]
  | case3 seen x xs h ih =>
    rw [ih]
    grind

namespace Schema

def columnNames (s : Schema) : List String := s.columns.map Column.name

/-- The kind of the first column of a name. -/
def kind? (s : Schema) (column : String) : Option Kind :=
  (s.columns.find? fun c => c.name = column).map Column.kind

def kind (s : Schema) (column : String) : Except Error Kind :=
  match s.kind? column with
  | some k => .ok k
  | none => .error (.unknownColumn s.name column)

/-- The primary key is a column, and no two columns share a name. -/
def check (s : Schema) : Except Error Unit :=
  if s.primaryKey ∉ s.columnNames then .error (.primaryKeyNotDefined s.name)
  else
    match firstRepeated? [] s.columnNames with
    | some column => .error (.duplicateColumn column)
    | none => .ok ()

/-- A column can hold what is unset or of its kind. -/
def checkValue (s : Schema) (column : String) (v : Value) : Except Error Unit := do
  let expected ← s.kind column
  match v.kind? with
  | some found =>
    if found = expected then return ()
    else throw (.typeMismatch column expected (some found))
  | none => return ()

/-- A column can be compared with values of its kind only. -/
def checkComparison (s : Schema) (column : String) (v : Value) : Except Error Unit := do
  let expected ← s.kind column
  if v.kind? = some expected then return ()
  else throw (.typeMismatch column expected v.kind?)

/-- The value that identifies a row. -/
def keyOf (s : Schema) (row : Row) : Except Error Value :=
  match row.get? s.primaryKey with
  | some v => if v.isUnset then .error (.missingPrimaryKey s.primaryKey) else .ok v
  | none => .error (.missingPrimaryKey s.primaryKey)

end Schema

end RowStore
