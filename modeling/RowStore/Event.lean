import RowStore.Error

/-!
# Events

What a store reports while it works, each event with a level, a message and named fields.
-/

namespace RowStore

inductive EventLevel where
  | trace
  | debug
  | warn
  deriving DecidableEq, Repr

inductive Event where
  /-- The text ended inside quotation, in the given word. -/
  | textClosed (word : String)
  | tokenized (count : Nat)
  | parsed (table : String)
  | interpreting (table : String) (write : Bool)
  | tableCreated (table : String)
  | tableDropped (table : String) (rows : Nat)
  | rowReplaced (table : String) (key : Value)
  | rowInserted (table : String) (key : Value)
  | rowsDeleted (table : String) (count : Nat)
  | rowsSelected (table : String) (rows : Nat)
  | failed (error : Error)
  deriving DecidableEq, Repr

namespace Event

def level : Event → EventLevel
  | textClosed .. | rowReplaced .. => .warn
  | tokenized .. | parsed .. => .trace
  | _ => .debug

def message : Event → String
  | textClosed .. => "unterminated string literal closed at end of input"
  | tokenized .. => "tokenized statement"
  | parsed .. => "parsed statement"
  | interpreting .. => "interpreting statement"
  | tableCreated .. => "table created"
  | tableDropped .. => "table dropped"
  | rowReplaced .. => "insert replaced an existing row"
  | rowInserted .. => "row inserted"
  | rowsDeleted .. => "rows deleted"
  | rowsSelected .. => "rows selected"
  | failed .. => "statement failed"

/-- A number as text. -/
def countText (n : Nat) : String := String.ofList (Numeral.digits n)

def fields : Event → List (String × String)
  | textClosed word => [("word", word)]
  | tokenized count => [("count", countText count)]
  | parsed table => [("table", table)]
  | interpreting table write => [("table", table), ("write", if write then "true" else "false")]
  | tableCreated table => [("table", table)]
  | tableDropped table rows => [("table", table), ("rows", countText rows)]
  | rowReplaced table key => [("table", table), ("key", key.text)]
  | rowInserted table key => [("table", table), ("key", key.text)]
  | rowsDeleted table count => [("table", table), ("count", countText count)]
  | rowsSelected table rows => [("table", table), ("rows", countText rows)]
  | failed error => [("error", error.message)]

end Event

end RowStore
