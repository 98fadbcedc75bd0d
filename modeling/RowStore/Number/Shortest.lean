import RowStore.Number.Binary64

/-!
# Shortest decimals

Of the decimals that read back as a double, `Binary64.shortest` takes one with the fewest digits,
and of those the nearest. On the grid of the decimals with a given number of leading digits only
the two neighbours of the double can be it, so the grids are tried one after the other.
-/

namespace RowStore.Binary64

/-- Every positive double is at least 17 powers of ten above the power of ten to `-scale`, so the
grids of up to 17 digits are all coarser than that. -/
def scale : Nat := 341

/-- The decimals of a grid on both sides of a number, the lower of which may be equal to it. -/
structure Neighbours where
  below : Decimal
  above : Decimal
  lowerIsNearer : Bool

/-- The neighbours of a number of units on the grid of `n` leading digits. -/
def neighbours (units n : Nat) : Neighbours :=
  let scaled := units * Nat.pow 10 scale
  let whole := scaled >>> 1074
  let dropped := (Numeral.digits whole).length - n
  let below := whole / Nat.pow 10 dropped
  let exponent : Int := dropped - scale
  { below := ⟨below, exponent⟩
    above := ⟨below + 1, exponent⟩
    lowerIsNearer := 2 * scaled < ((2 * below + 1) * Nat.pow 10 dropped) <<< 1074 }

/-- The neighbour with `n` digits that reads back; of two the nearer, or the upper at a tie. -/
def readsBack? (magnitude n : Nat) : Option Decimal :=
  let ns := neighbours (units magnitude) n
  if nearestTo ns.below = magnitude then
    some (if nearestTo ns.above = magnitude ∧ ¬ns.lowerIsNearer then ns.above else ns.below)
  else if nearestTo ns.above = magnitude then some ns.above
  else none

/-- The decimal equal to a double. -/
def exact (magnitude : Nat) : Decimal := ⟨units magnitude * Nat.pow 5 1074, -1074⟩

/-- The shortest decimal of a finite magnitude; 17 digits always suffice. -/
def shortest (magnitude : Nat) : Decimal :=
  (((List.range 17).findSome? fun i => readsBack? magnitude (i + 1)).getD (exact magnitude)).trim

end RowStore.Binary64
