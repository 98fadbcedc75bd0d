import RowStore.Text.Case

/-!
# Keywords

The reserved words, recognized in any spelling whose upper case they are.
-/

namespace RowStore

inductive Keyword where
  | create
  | select
  | insert
  | delete
  | drop
  | into
  | «from»
  | table
  | «where»
  | primary
  | key
  deriving DecidableEq, Repr

namespace Keyword

def all : List Keyword :=
  [.create, .select, .insert, .delete, .drop, .into, .from, .table, .where, .primary, .key]

def name : Keyword → String
  | .create => "CREATE"
  | .select => "SELECT"
  | .insert => "INSERT"
  | .delete => "DELETE"
  | .drop => "DROP"
  | .into => "INTO"
  | .from => "FROM"
  | .table => "TABLE"
  | .where => "WHERE"
  | .primary => "PRIMARY"
  | .key => "KEY"

/-- The keyword that a word is once it is put into upper case. -/
def ofWord? (word : String) : Option Keyword :=
  let upper := Text.upper word
  all.find? fun k => k.name = upper

theorem mem_all (k : Keyword) : k ∈ all := by
  cases k <;> decide

theorem ofWord?_name (k : Keyword) : ofWord? k.name = some k := by
  cases k <;> decide +kernel

end Keyword

end RowStore
