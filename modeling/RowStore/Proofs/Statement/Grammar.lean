import Mathlib.Data.List.Forall2
import RowStore.Statement.Parser

/-!
# The grammar of statements

What a list of tokens must be to be a statement, without a parser. `IsForm` relates the tokens of
each form to its `Shape`, which holds the names, kind words and literals as they were written;
`Sentence` allows one semicolon behind a form. `Shape.Denotes` adds the conditions that go beyond
the form, and the statement that the shape then stands for.
-/

namespace RowStore

/-! ## Parts of a statement -/

/-- The tokens that can stand for a value. -/
inductive Literal where
  | string (s : String)
  | integer (n : Int64)
  | float (x : Binary64)
  | boolean (b : Bool)

namespace Literal

def token : Literal → Token
  | .string s => .string s
  | .integer n => .integer n
  | .float x => .float x
  | .boolean b => .boolean b

def value : Literal → Value
  | .string s => .string s
  | .integer n => .integer n
  | .float x => .float x
  | .boolean b => .boolean b

end Literal

/-- A column of a new table as it is written: its kind is still a word. -/
structure FieldText where
  name : String
  kind : String
  isKey : Bool

namespace FieldText

def tokens (f : FieldText) : List Token :=
  .ident f.name :: .ident f.kind ::
    if f.isKey then [.keyword .primary, .keyword .key] else []

/-- The kind word names the kind of the column. -/
def Declares (f : FieldText) (c : Column) : Prop :=
  c.name = f.name ∧ Kind.ofName? f.kind = some c.kind

end FieldText

/-- A column and the literal that its value is compared with. -/
structure ConditionText where
  column : String
  literal : Literal

namespace ConditionText

def tokens (c : ConditionText) : List Token := [.ident c.column, .equal, c.literal.token]

def condition (c : ConditionText) : Condition := ⟨c.column, c.literal.value⟩

end ConditionText

def whereTokens : Option ConditionText → List Token
  | none => []
  | some c => .keyword .where :: c.tokens

/-- One item, and each further item behind a comma. -/
def separated {α : Type} (tokens : α → List Token) : List α → List Token
  | [] => []
  | x :: xs => tokens x ++ xs.flatMap fun y => .comma :: tokens y

def nameTokens (names : List String) : List Token := separated (fun name => [.ident name]) names

def literalTokens (literals : List Literal) : List Token := separated (fun l => [l.token]) literals

def fieldTokens (fields : List FieldText) : List Token := separated FieldText.tokens fields

/-- The word before the values of a new row, each letter in either case. -/
def IsValuesWord (word : String) : Prop :=
  List.Forall₂ (fun c letter => c = letter ∨ c = letter.toLower) word.toList "VALUES".toList

/-! ## Forms -/

/-- What is written in a statement. -/
inductive Shape where
  | create (table : String) (fields : List FieldText)
  /-- No columns stand for all of them. -/
  | select (table : String) (columns : List String) (filter : Option ConditionText)
  | insert (table : String) (columns : Option (List String)) (values : List Literal)
  | delete (table : String) (filter : ConditionText)
  | drop (table : String)

/-- The tokens of each form of a statement. -/
inductive IsForm : List Token → Shape → Prop
  | create {table fields} (nonempty : fields ≠ []) :
      IsForm ([.keyword .create, .keyword .table, .ident table, .openParen] ++
        fieldTokens fields ++ [.closeParen]) (.create table fields)
  | selectAll {table filter} :
      IsForm ([.keyword .select, .asterisk, .keyword .from, .ident table] ++ whereTokens filter)
        (.select table [] filter)
  | select {table columns filter} (nonempty : columns ≠ []) :
      IsForm ([.keyword .select] ++ nameTokens columns ++ [.keyword .from, .ident table] ++
        whereTokens filter) (.select table columns filter)
  | insert {table word values} (isValues : IsValuesWord word) (nonempty : values ≠ []) :
      IsForm ([.keyword .insert, .keyword .into, .ident table, .ident word, .openParen] ++
        literalTokens values ++ [.closeParen]) (.insert table none values)
  | insertColumns {table columns word values} (columns_nonempty : columns ≠ [])
      (isValues : IsValuesWord word) (nonempty : values ≠ []) :
      IsForm ([.keyword .insert, .keyword .into, .ident table, .openParen] ++
        nameTokens columns ++ [.closeParen, .ident word, .openParen] ++
        literalTokens values ++ [.closeParen]) (.insert table (some columns) values)
  | delete {table filter} :
      IsForm ([.keyword .delete, .keyword .from, .ident table, .keyword .where] ++ filter.tokens)
        (.delete table filter)
  | drop {table} : IsForm [.keyword .drop, .keyword .table, .ident table] (.drop table)

/-- One form, and nothing or one semicolon behind it. -/
def Sentence (tokens : List Token) (shape : Shape) : Prop :=
  ∃ form, IsForm form shape ∧ (tokens = form ∨ tokens = form ++ [.semicolon])

/-! ## Meaning -/

/-- The statement that a shape stands for, where its kinds, names and counts fit. -/
inductive Shape.Denotes : Shape → Statement → Prop
  | create {table fields columns key} (kinds : List.Forall₂ FieldText.Declares fields columns)
      (distinct : (fields.map FieldText.name).Nodup)
      (oneKey : fields.filter FieldText.isKey = [key]) :
      Denotes (.create table fields) (.create ⟨table, columns, key.name⟩)
  | select {table columns filter} :
      Denotes (.select table columns filter)
        (.select table columns (filter.map ConditionText.condition))
  | insert {table values} :
      Denotes (.insert table none values) (.insert table (.positional (values.map Literal.value)))
  | insertColumns {table columns values row} (distinct : columns.Nodup)
      (length_eq : columns.length = values.length)
      (pairs : ∀ column v, SortedMap.get? row column = some v ↔
        (column, v) ∈ columns.zip (values.map Literal.value)) :
      Denotes (.insert table (some columns) values) (.insert table (.named row))
  | delete {table filter} : Denotes (.delete table filter) (.delete table filter.condition)
  | drop {table} : Denotes (.drop table) (.drop table)

end RowStore
