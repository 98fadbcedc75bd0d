import RowStore.Number.Decimal

/-!
# Binary floating point

A `Binary64` is an IEEE 754 double held as its bits. The magnitude bits of finite numbers count
upwards through all doubles, so rounding a quotient to the nearest one is arithmetic on natural
numbers: the quotient is measured in units of the least positive double, and its binary logarithm
gives the spacing of the doubles around it.
-/

namespace RowStore

/-- A double; two doubles are equal if their bits are. -/
structure Binary64 where
  bits : UInt64
  deriving DecidableEq, Repr

namespace Binary64

/-- The sign bit. -/
def signBit : Nat := 0x8000000000000000

/-- The lowest bit of the exponent: between a power of two and the next lie that many doubles. -/
def exponentUnit : Nat := 0x10000000000000

/-- The magnitude bits of infinity; above them is no number. -/
def infinite : Nat := 0x7FF0000000000000

/-- The magnitude bits that stand for the result of an undefined operation. -/
def notANumber : Nat := 0x7FF8000000000000

/-- All bits but the sign. -/
def magnitude (x : Binary64) : Nat := x.bits.toNat % signBit

def negative (x : Binary64) : Bool := signBit ≤ x.bits.toNat

def isNaN (x : Binary64) : Bool := infinite < x.magnitude

def isInfinite (x : Binary64) : Bool := x.magnitude = infinite

def isZero (x : Binary64) : Bool := x.magnitude = 0

/-- Equality of numbers: zeros of either sign are equal, and what is no number equals nothing. -/
def equals (x y : Binary64) : Bool :=
  !x.isNaN && !y.isNaN && (x.bits = y.bits || x.isZero && y.isZero)

/-- A finite magnitude as a multiple of the least positive double, the power of two to -1074. -/
def units (magnitude : Nat) : Nat :=
  let exponent := magnitude / exponentUnit
  let fraction := magnitude % exponentUnit
  if exponent = 0 then fraction else (exponentUnit + fraction) <<< (exponent - 1)

/-- The quotient to the nearest natural number, a half to the even one. -/
def divideToEven (num den : Nat) : Nat :=
  let q := num / den
  let r := num % den
  if den < 2 * r ∨ den = 2 * r ∧ q % 2 = 1 then q + 1 else q

/-- The magnitude bits of the double nearest to `num / den` units. The spacing of the doubles there
is the power of two that leaves 53 binary digits, but at least one unit. A quotient rounded up to
the next power of two carries into the exponent, and past the largest double lies infinity. -/
def nearest (num den : Nat) : Nat :=
  let shift := (num / den).log2 - 52
  min (shift * exponentUnit + divideToEven num (den <<< shift)) infinite

def ofMagnitude (negative : Bool) (magnitude : Nat) : Binary64 :=
  ⟨UInt64.ofNat (if negative then signBit + magnitude else magnitude)⟩

/-- The magnitude bits of the double nearest to a decimal. -/
def nearestTo (d : Decimal) : Nat := nearest (d.ratio.1 <<< 1074) d.ratio.2

def ofDecimal (negative : Bool) (d : Decimal) : Binary64 := ofMagnitude negative (nearestTo d)

end Binary64

end RowStore
