import RowStore.Text.Case

/-!
# Kinds

The four kinds of values that a column can be declared to hold.
-/

namespace RowStore

inductive Kind where
  | integer
  | float
  | string
  | boolean
  deriving DecidableEq, Repr

namespace Kind

def all : List Kind := [.integer, .float, .string, .boolean]

def name : Kind → String
  | .integer => "integer"
  | .float => "float"
  | .string => "string"
  | .boolean => "boolean"

/-- The kind whose name a word is once it is put into lower case. -/
def ofName? (word : String) : Option Kind :=
  let lower := Text.lower word
  all.find? fun k => k.name = lower

theorem mem_all (k : Kind) : k ∈ all := by
  cases k <;> decide

theorem ofName?_name (k : Kind) : ofName? k.name = some k := by
  cases k <;> decide +kernel

end Kind

end RowStore
