import RowStore.Encoding.Basic
import RowStore.Token.Lexer
import RowStore.Value

/-!
# Errors

Why a text, a list of tokens, a statement or a binary form is refused. An error names its cause; its
category and its message are functions of the cause.
-/

namespace RowStore

/-- What could have stood in the place of a token. -/
inductive Expectation where
  | statement
  | identifier
  | literal
  | values
  | token (t : Token)
  deriving DecidableEq, Repr

def Expectation.text : Expectation → String
  | .statement => "one of CREATE, SELECT, INSERT, DELETE, DROP"
  | .identifier => "identifier"
  | .literal => "literal"
  | .values => "VALUES"
  | .token t => t.text

/-- Why a statement cannot go on at a position. -/
inductive GrammarFault where
  /-- Another token, or the end, stands where something was expected. -/
  | unexpected (expected : Expectation) (found : Option Token)
  /-- The statement was complete. -/
  | trailing (found : Token)
  deriving DecidableEq, Repr

def GrammarFault.message : GrammarFault → String
  | .unexpected expected (some found) => s!"expected {expected.text}, got {found.text}"
  | .unexpected expected none => s!"expected {expected.text}, got end of input"
  | .trailing found => s!"unexpected token {found.text} after end of statement"

inductive ErrorCategory where
  | lexical
  | grammatical
  | schema
  | storage
  | internal
  deriving DecidableEq, Repr

inductive Error where
  | lexical (fault : NumeralFault)
  /-- The tokens before `position` begin a statement. -/
  | malformed (position : Nat) (fault : GrammarFault)
  | primaryKeyNotDefined (table : String)
  | duplicatePrimaryKey (first second : String)
  | duplicateColumn (column : String)
  | unknownKind (name : String)
  /-- An insertion lists columns and values of different number. -/
  | columnCountMismatch (columns values : Nat)
  /-- An insertion without a list of columns has not as many values as the table has columns. -/
  | valueCountMismatch (table : String) (columns values : Nat)
  | tableAlreadyExists (table : String)
  | unknownTable (table : String)
  | unknownColumn (table column : String)
  | missingPrimaryKey (column : String)
  | typeMismatch (column : String) (expected : Kind) (found : Option Kind)
  | undecodable (fault : DecodeFault)
  deriving DecidableEq, Repr

namespace Error

def category : Error → ErrorCategory
  | lexical .. => .lexical
  | malformed .. | duplicatePrimaryKey .. | duplicateColumn .. | unknownKind ..
  | columnCountMismatch .. => .grammatical
  | primaryKeyNotDefined .. | tableAlreadyExists .. | unknownTable .. | unknownColumn ..
  | valueCountMismatch .. => .schema
  | missingPrimaryKey .. | typeMismatch .. => .storage
  | undecodable .. => .internal

def message : Error → String
  | lexical fault => s!"lexical error: {fault.message}"
  | malformed position fault => s!"syntax error at token {position}: {fault.message}"
  | primaryKeyNotDefined table => s!"primary key not defined for table {table}"
  | duplicatePrimaryKey first second => s!"duplicate primary key: {first} and {second}"
  | duplicateColumn column => s!"column {column} is given more than once"
  | unknownKind name => s!"unsupported kind {name}"
  | columnCountMismatch columns values =>
    s!"number of columns ({columns}) not equal to number of values ({values})"
  | valueCountMismatch table columns values =>
    s!"table {table} has {columns} columns but {values} values were given"
  | tableAlreadyExists table => s!"table {table} already exists"
  | unknownTable table => s!"table {table} does not exist"
  | unknownColumn table column => s!"column {column} does not exist in table {table}"
  | missingPrimaryKey column => s!"primary key {column} is not given"
  | typeMismatch column expected found =>
    s!"invalid type for column {column}: expected {expected.name}, got {kindName found}"
  | undecodable fault => s!"internal error {fault.message}"

end Error

end RowStore
