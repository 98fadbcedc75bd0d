import RowStore.Text.Blank
import RowStore.Token.Basic

/-!
# From text to tokens

Text is cut into words and marks first, and then each word is given its token. A quote stays in the
word and switches quotation on or off; inside quotation blanks and marks are ordinary characters.
Text that ends inside quotation has an unclosed last word, which is taken as if it were closed.
-/

namespace RowStore

def quote : Char := '\x27'

inductive Lexeme where
  | mark (token : Token)
  | word (chars : List Char)
  /-- A word that ends with the text inside quotation. -/
  | unclosed (chars : List Char)
  deriving DecidableEq, Repr

namespace Lexeme

/-- The word of the characters read since the last one, the latest first. -/
def ofPending (pending : List Char) : List Lexeme :=
  if pending = [] then [] else [.word pending.reverse]

def scan (quoted : Bool) (pending : List Char) : List Char → List Lexeme
  | [] => if quoted then [.unclosed pending.reverse] else ofPending pending
  | c :: cs =>
    if c = quote then scan (!quoted) (c :: pending) cs
    else if quoted then scan true (c :: pending) cs
    else if Text.isBlank c then ofPending pending ++ scan false [] cs
    else
      match Token.ofMark? c with
      | some token => ofPending pending ++ .mark token :: scan false [] cs
      | none => scan false (c :: pending) cs

def ofText (text : String) : List Lexeme := scan false [] text.toList

end Lexeme

namespace Token

def ofReserved? (word : List Char) : Option Token :=
  if word = ['*'] then some .asterisk
  else if word = ['='] then some .equal
  else (Keyword.ofWord? (String.ofList word)).map .keyword

def ofTruth? (word : List Char) : Option Token :=
  if word = "true".toList then some (.boolean true)
  else if word = "false".toList then some (.boolean false)
  else none

/-- Digits are an integer; digits on both sides of a point are a float; other words are neither. -/
def ofNumber? (word : List Char) : Except NumeralFault (Option Token) :=
  let whole := word.takeWhile Char.isDigit
  if whole = [] then .ok none
  else
    match word.dropWhile Char.isDigit with
    | [] =>
      match Numeral.readInteger whole with
      | .ok n => .ok (some (.integer n))
      | .error fault => .error (.integer fault)
    | c :: fraction =>
      if c = '.' ∧ fraction ≠ [] ∧ fraction.all Char.isDigit then
        .ok (some (.float (Binary64.ofDecimal false (Decimal.ofParts whole fraction))))
      else .ok none

/-- A word inside its first and last quote is text. -/
def ofQuoted? : List Char → Option Token
  | [] => none
  | c :: rest =>
    if c = quote ∧ rest.getLast? = some quote then some (.string (String.ofList rest.dropLast))
    else none

/-- The token of a word: the first reading that fits, and a name if none does. -/
def ofWord (word : List Char) : Except NumeralFault Token :=
  match ofReserved? word with
  | some token => .ok token
  | none =>
    match ofTruth? word with
    | some token => .ok token
    | none =>
      match ofNumber? word with
      | .error fault => .error fault
      | .ok (some token) => .ok token
      | .ok none => .ok ((ofQuoted? word).getD (.ident (String.ofList word)))

/-- An unclosed word that starts with its quote is the text after it. -/
def ofUnclosed : List Char → Except NumeralFault Token
  | [] => ofWord []
  | c :: rest => if c = quote then .ok (.string (String.ofList rest)) else ofWord (c :: rest)

def ofLexeme : Lexeme → Except NumeralFault Token
  | .mark token => .ok token
  | .word chars => ofWord chars
  | .unclosed chars => ofUnclosed chars

/-- The tokens of a text. -/
def ofText (text : String) : Except NumeralFault (List Token) :=
  (Lexeme.ofText text).mapM ofLexeme

/-- The last word of a text that ends inside quotation. -/
def unclosedWord? (text : String) : Option String :=
  match (Lexeme.ofText text).getLast? with
  | some (.unclosed chars) => some (String.ofList chars)
  | _ => none

end Token

end RowStore
