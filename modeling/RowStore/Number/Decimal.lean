import RowStore.Number.Integer

/-!
# Decimals

A `Decimal` is a natural number of units of a power of ten. Its two ways to be written, with a
point at the place of the units or with an exponent, are here; which one is used, and for what, is
decided where numbers are printed.
-/

namespace RowStore

/-- The number `coefficient * 10 ^ exponent`. -/
structure Decimal where
  coefficient : Nat
  exponent : Int
  deriving DecidableEq, Repr

namespace Decimal

/-- Numerator and denominator of the value. -/
def ratio (d : Decimal) : Nat × Nat :=
  (d.coefficient * Nat.pow 10 d.exponent.toNat, Nat.pow 10 (-d.exponent).toNat)

/-- The digits before and after a point. -/
def ofParts (whole fraction : List Char) : Decimal where
  coefficient := (whole ++ fraction).foldl (fun n c => 10 * n + Numeral.digitValue c) 0
  exponent := -fraction.length

/-- The same number with no zero at the end of its digits. -/
def trim (d : Decimal) : Decimal :=
  if d.coefficient ≠ 0 ∧ d.coefficient % 10 = 0 then
    trim ⟨d.coefficient / 10, d.exponent + 1⟩
  else d
termination_by d.coefficient
decreasing_by omega

/-- The digits with a point at the place of the units; `pointed` adds one digit after the point to
a whole number. -/
def positional (pointed : Bool) (d : Decimal) : List Char :=
  let ds := Numeral.digits d.coefficient
  if 0 ≤ d.exponent then
    ds ++ List.replicate d.exponent.toNat '0' ++ if pointed then ['.', '0'] else []
  else
    let places := (-d.exponent).toNat
    let padded := List.replicate (places + 1 - ds.length) '0' ++ ds
    padded.take (padded.length - places) ++ '.' :: padded.drop (padded.length - places)

/-- One digit, the others behind a point, and the power of ten of the first. -/
def scientific (d : Decimal) : List Char :=
  match Numeral.digits d.coefficient with
  | [] => []
  | c :: cs =>
    let power := d.exponent + cs.length
    let sign := if power < 0 then ['-'] else []
    c :: (if cs = [] then [] else '.' :: cs) ++ 'e' :: sign ++ Numeral.digits power.natAbs

end Decimal

end RowStore
