/-!
# Integer numerals

Reading and writing 64-bit integers in base ten. A numeral is read from the left, and the first
character at which it cannot be completed decides the fault.
-/

namespace RowStore

/-- Why text is no 64-bit integer. -/
inductive IntegerFault where
  | empty
  | invalidDigit
  | tooLarge
  | tooSmall
  deriving DecidableEq, Repr

def IntegerFault.message : IntegerFault → String
  | .empty => "cannot parse integer from empty string"
  | .invalidDigit => "invalid digit found in string"
  | .tooLarge => "number too large to fit in target type"
  | .tooSmall => "number too small to fit in target type"

namespace Numeral

/-- The largest 64-bit integer. -/
def largest : Nat := 0x7FFFFFFFFFFFFFFF

def digitValue (c : Char) : Nat := c.toNat - '0'.toNat

/-- Append digits to the value `n` of those before them; a value above `limit` is the fault
`past`. -/
def readDigits (limit : Nat) (past : IntegerFault) : Nat → List Char → Except IntegerFault Nat
  | n, [] => .ok n
  | n, c :: cs =>
    if c.isDigit then
      let m := 10 * n + digitValue c
      if limit < m then .error past else readDigits limit past m cs
    else .error .invalidDigit

/-- Digits after an optional sign. -/
def readInteger : List Char → Except IntegerFault Int64
  | [] => .error .empty
  | ['+'] => .error .invalidDigit
  | ['-'] => .error .invalidDigit
  | '+' :: cs => Int64.ofNat <$> readDigits largest .tooLarge 0 cs
  | '-' :: cs => (fun n => Int64.ofInt (-n)) <$> readDigits (largest + 1) .tooSmall 0 cs
  | cs => Int64.ofNat <$> readDigits largest .tooLarge 0 cs

/-- Digits in base ten, without leading zeros. -/
def digits (n : Nat) : List Char := Nat.toDigits 10 n

def writeInteger (n : Int64) : String :=
  String.ofList (if n.toInt < 0 then '-' :: digits n.toInt.natAbs else digits n.toInt.natAbs)

end Numeral

end RowStore
