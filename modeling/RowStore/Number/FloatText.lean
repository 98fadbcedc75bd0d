import RowStore.Number.Shortest

/-!
# Text of floating-point numbers

Reading takes decimal and exponent notation and the names of infinity and of what is no number.
Printing gives the shortest digits that read back, in the notation that a `FloatStyle` asks for.
-/

namespace RowStore

/-- Why text is no floating-point number. -/
inductive FloatFault where
  | empty
  | invalid
  deriving DecidableEq, Repr

def FloatFault.message : FloatFault → String
  | .empty => "cannot parse float from empty string"
  | .invalid => "invalid float literal"

/-- Why text is no number of the kind that was asked for. -/
inductive NumeralFault where
  | integer (fault : IntegerFault)
  | float (fault : FloatFault)
  deriving DecidableEq, Repr

def NumeralFault.message : NumeralFault → String
  | .integer fault => fault.message
  | .float fault => fault.message

namespace Numeral

/-- The value of an exponent's digits. Digits count only while the value has at most 16 bits, as
longer exponents are far past the range of doubles. -/
def readExponentDigits (cs : List Char) : Nat :=
  cs.foldl (fun n c => if n < 0x10000 then 10 * n + digitValue c else n) 0

/-- What follows the digits of a number: nothing, or an exponent. -/
def readExponent? : List Char → Option Int
  | [] => some 0
  | c :: cs =>
    if c = 'e' ∨ c = 'E' then
      let (negative, ds) :=
        match cs with
        | '+' :: ds => (false, ds)
        | '-' :: ds => (true, ds)
        | ds => (false, ds)
      if ds ≠ [] ∧ ds.all Char.isDigit then
        some (if negative then -readExponentDigits ds else readExponentDigits ds)
      else none
    else none

/-- Digits with an optional point, at least one digit in all, and an optional exponent. -/
def readDecimal? (cs : List Char) : Option Decimal :=
  let whole := cs.takeWhile Char.isDigit
  let (fraction, rest) :=
    match cs.dropWhile Char.isDigit with
    | '.' :: rest => (rest.takeWhile Char.isDigit, rest.dropWhile Char.isDigit)
    | rest => ([], rest)
  if whole = [] ∧ fraction = [] then none
  else
    (readExponent? rest).map fun e =>
      let d := Decimal.ofParts whole fraction
      ⟨d.coefficient, d.exponent + e⟩

/-- The magnitude of a numeral without its sign. -/
def readMagnitude? (cs : List Char) : Option Nat :=
  let word := cs.map Char.toLower
  if word = "inf".toList ∨ word = "infinity".toList then some Binary64.infinite
  else if word = "nan".toList then some Binary64.notANumber
  else (readDecimal? cs).map Binary64.nearestTo

def readFloat (cs : List Char) : Except FloatFault Binary64 :=
  let (negative, body) :=
    match cs with
    | '+' :: body => (false, body)
    | '-' :: body => (true, body)
    | body => (false, body)
  match readMagnitude? body with
  | some m => .ok (Binary64.ofMagnitude negative m)
  | none => .error (if cs = [] then .empty else .invalid)

end Numeral

/-- How finite numbers are written. -/
structure FloatStyle where
  /-- A whole number has a digit after the point. -/
  pointed : Bool
  /-- Magnitudes from the first to before the second are written positionally, the other ones but
  zero with an exponent. Without bounds all are written positionally. -/
  bounds : Option (Decimal × Decimal)

/-- Whether a finite magnitude is written positionally. -/
def FloatStyle.isPositional (style : FloatStyle) (magnitude : Nat) : Bool :=
  match style.bounds with
  | none => true
  | some (low, high) =>
    magnitude = 0 ||
      Binary64.nearestTo low ≤ magnitude && magnitude < Binary64.nearestTo high

def Binary64.write (style : FloatStyle) (x : Binary64) : String :=
  if x.isNaN then "NaN"
  else
    let sign := if x.negative then ['-'] else []
    let body :=
      if x.isInfinite then "inf".toList
      else if style.isPositional x.magnitude then
        (if x.isZero then ⟨0, 0⟩ else Binary64.shortest x.magnitude).positional style.pointed
      else (Binary64.shortest x.magnitude).scientific
    String.ofList (sign ++ body)

end RowStore
