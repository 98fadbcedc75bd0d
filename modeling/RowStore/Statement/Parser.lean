import RowStore.Statement.Basic

/-!
# From tokens to statements

A parser reads tokens from a cursor and takes a token only if it fits, so that a statement is
refused at the first token that cannot continue it. Nothing but an optional semicolon may follow a
statement.
-/

namespace RowStore

/-- The tokens still to be read, and how many came before them. -/
structure Cursor where
  position : Nat
  rest : List Token

abbrev Parser := StateT Cursor (Except Error)

namespace Token

def ident? : Token → Option String
  | .ident name => some name
  | _ => none

def literal? : Token → Option Value
  | .string s => some (.string s)
  | .integer n => some (.integer n)
  | .float x => some (.float x)
  | .boolean b => some (.boolean b)
  | _ => none

/-- The word before the values of a new row is not reserved. -/
def isValues : Token → Bool
  | .ident name => Text.equalUpToLetterCase name "VALUES"
  | _ => false

end Token

namespace Parser

/-- Take the next token if it has a reading. -/
def next {α : Type} (expected : Expectation) (read? : Token → Option α) : Parser α := fun c =>
  match c.rest with
  | [] => .error (.malformed c.position (.unexpected expected none))
  | t :: rest =>
    match read? t with
    | some x => .ok (x, ⟨c.position + 1, rest⟩)
    | none => .error (.malformed c.position (.unexpected expected (some t)))

def ident : Parser String := next .identifier Token.ident?

def literal : Parser Value := next .literal Token.literal?

def values : Parser Unit := next .values fun t => if t.isValues then some () else none

def expect (t : Token) : Parser Unit := next (.token t) fun u => if u = t then some () else none

/-- Take the next token if it is the given one. -/
def accept (t : Token) : Parser Bool := fun c =>
  match c.rest with
  | [] => .ok (false, c)
  | u :: rest => if u = t then .ok (true, ⟨c.position + 1, rest⟩) else .ok (false, c)

/-- Items each behind a comma, at most `n`. An item may depend on those before it, which come the
latest first. -/
def moreItems {α : Type} (item : List α → Parser α) (earlier : List α) : Nat → Parser (List α)
  | 0 => return earlier.reverse
  | n + 1 => do
    if ← accept .comma then
      let x ← item earlier
      moreItems item (x :: earlier) n
    else return earlier.reverse

/-- One or more items with commas between them. -/
def commaSeparated {α : Type} (item : List α → Parser α) : Parser (List α) := do
  let first ← item []
  moreItems item [first] (← get).rest.length

/-- A column in a declaration, and whether it is marked as the primary key. -/
structure Field where
  column : Column
  isKey : Bool

/-- A name, a kind, and the mark of the primary key. -/
def field (earlier : List Field) : Parser Field := do
  let name ← ident
  let kindWord ← ident
  match Kind.ofName? kindWord with
  | none => throw (.unknownKind kindWord)
  | some kind =>
    let isKey ← accept (.keyword .primary)
    if isKey then expect (.keyword .key)
    if earlier.any fun f => f.column.name = name then throw (.duplicateColumn name)
    match earlier.find? Field.isKey with
    | some first =>
      if isKey then throw (.duplicatePrimaryKey first.column.name name)
      else return ⟨⟨name, kind⟩, false⟩
    | none => return ⟨⟨name, kind⟩, isKey⟩

def create : Parser Statement := do
  expect (.keyword .table)
  let name ← ident
  expect .openParen
  let fields ← commaSeparated field
  expect .closeParen
  match fields.find? Field.isKey with
  | some key => return .create ⟨name, fields.map Field.column, key.column.name⟩
  | none => throw (.primaryKeyNotDefined name)

def condition : Parser Condition := do
  let column ← ident
  expect .equal
  let value ← literal
  return ⟨column, value⟩

def names : Parser (List String) := commaSeparated fun _ => ident

def select : Parser Statement := do
  let columns ← if ← accept .asterisk then pure [] else names
  expect (.keyword .from)
  let table ← ident
  let filter ← if ← accept (.keyword .where) then some <$> condition else pure none
  return .select table columns filter

/-- Pair the columns of a list with as many values. -/
def pairUp (columns : List String) (values : List Value) : Except Error Row :=
  if columns.length ≠ values.length then
    .error (.columnCountMismatch columns.length values.length)
  else
    match firstRepeated? [] columns with
    | some column => .error (.duplicateColumn column)
    | none => .ok (SortedMap.ofList (columns.zip values))

def insert : Parser Statement := do
  expect (.keyword .into)
  let table ← ident
  let columns ←
    if ← accept .openParen then
      let columns ← names
      expect .closeParen
      pure (some columns)
    else pure none
  values
  expect .openParen
  let literals ← commaSeparated fun _ => literal
  expect .closeParen
  match columns with
  | none => return .insert table (.positional literals)
  | some columns => return .insert table (.named (← pairUp columns literals))

def delete : Parser Statement := do
  expect (.keyword .from)
  let table ← ident
  expect (.keyword .where)
  let filter ← condition
  return .delete table filter

def drop : Parser Statement := do
  expect (.keyword .table)
  let table ← ident
  return .drop table

/-- What follows the first word of a statement. -/
def afterVerb? : Token → Option (Parser Statement)
  | .keyword .create => some create
  | .keyword .select => some select
  | .keyword .insert => some insert
  | .keyword .delete => some delete
  | .keyword .drop => some drop
  | _ => none

def statement : Parser Statement := do
  let remainder ← next .statement afterVerb?
  remainder

/-- Nothing follows but a semicolon. -/
def ending : Parser Unit := do
  let _ ← accept .semicolon
  let c ← get
  match c.rest with
  | [] => return ()
  | t :: _ => throw (.malformed c.position (.trailing t))

def complete : Parser Statement := do
  let s ← statement
  ending
  return s

end Parser

namespace Statement

/-- The statement that a list of tokens is. -/
def ofTokens (tokens : List Token) : Except Error Statement := Parser.complete.run' ⟨0, tokens⟩

/-- The statement that a text is. -/
def ofText (text : String) : Except Error Statement :=
  match Token.ofText text with
  | .ok tokens => ofTokens tokens
  | .error fault => .error (.lexical fault)

end Statement

end RowStore
