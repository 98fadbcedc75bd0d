import RowStore.Answer
import RowStore.Statement.Basic
import RowStore.Store.Action

/-!
# Execution

What each statement does to a store, step by step in the order of the steps.
-/

namespace RowStore.Action

def createTable (s : Schema) : Action Answer := do
  if s.primaryKey ∉ s.columnNames then throw (.primaryKeyNotDefined s.name)
  if ← ask fun c => c.contains s.name then throw (.tableAlreadyExists s.name)
  let t ← ofExcept (Table.ofSchema s)
  addTable t
  report (.tableCreated s.name)
  return .tableCreated s.name

def dropTable (name : String) : Action Answer := do
  let t ← removeTable name
  report (.tableDropped name t.rowCount)
  return .tableDropped name

def insertRow (name : String) (values : NewRow) : Action Answer := do
  let t ← table name
  let given ← ofExcept (t.schema.supplied values)
  let row ← ofExcept (t.schema.complete given)
  let key ← ofExcept (t.schema.keyOf row)
  change fun c => c.insert name (t.put key row)
  if t.holdsKey key then report (.rowReplaced t.schema.name key)
  report (.rowInserted t.schema.name key)
  return .inserted 1

def deleteRows (name : String) (filter : Condition) : Action Answer := do
  let t ← table name
  ofExcept (t.schema.checkComparison filter.column filter.value)
  let t' := t.without filter
  change fun c => c.insert name t'
  let count := t.rowCount - t'.rowCount
  report (.rowsDeleted t.schema.name count)
  return .deleted count

def selectRows (name : String) (columns : List String) (filter : Option Condition) :
    Action Answer := do
  let t ← table name
  let columns ← ofExcept (t.schema.requested columns)
  ofExcept (filter.forM fun f => t.schema.checkComparison f.column f.value)
  let rows := (t.matching filter).map (Row.project columns)
  report (.rowsSelected t.schema.name rows.length)
  return .scan columns rows

def apply : Statement → Action Answer
  | .create schema => createTable schema
  | .select table columns filter => selectRows table columns filter
  | .insert table values => insertRow table values
  | .delete table filter => deleteRows table filter
  | .drop table => dropTable table

def interpret (s : Statement) : Action Answer := do
  report (.interpreting s.table s.isWrite)
  apply s

end RowStore.Action
