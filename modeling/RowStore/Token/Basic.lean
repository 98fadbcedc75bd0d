import RowStore.Number.FloatText
import RowStore.Token.Keyword

/-!
# Tokens

The words and marks of a statement, and how each is written.
-/

namespace RowStore

inductive Token where
  | keyword (k : Keyword)
  | ident (name : String)
  | integer (n : Int64)
  | float (x : Binary64)
  | boolean (b : Bool)
  /-- Quoted text, without its quotes. -/
  | string (s : String)
  | openParen
  | closeParen
  | comma
  | semicolon
  | asterisk
  | equal
  deriving DecidableEq, Repr

namespace Token

/-- Doubles are written with a digit after the point while they have at most 16 digits before it
and at most three zeros behind it, and with an exponent otherwise. -/
def floatStyle : FloatStyle := ⟨true, some (⟨1, -4⟩, ⟨1, 16⟩)⟩

def text : Token → String
  | .keyword k => k.name
  | .ident name => name
  | .integer n => Numeral.writeInteger n
  | .float x => x.write floatStyle
  | .boolean b => if b then "true" else "false"
  | .string s => "'" ++ s ++ "'"
  | .openParen => "("
  | .closeParen => ")"
  | .comma => ","
  | .semicolon => ";"
  | .asterisk => "*"
  | .equal => "="

/-- The marks that end a word before them. -/
def ofMark? (c : Char) : Option Token :=
  if c = '(' then some .openParen
  else if c = ')' then some .closeParen
  else if c = ',' then some .comma
  else if c = ';' then some .semicolon
  else none

end Token

end RowStore
