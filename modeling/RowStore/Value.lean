import RowStore.Kind
import RowStore.Number.FloatText
import RowStore.SortedMap.Basic

/-!
# Values and rows

A value is unset or of one kind, and a row gives a value to each of its columns. Two equalities
meet here. `a = b` is identity, down to the bits of a double. `a.equals b` is the equality of the
query language, in which doubles are compared as numbers.
-/

namespace RowStore

inductive Value where
  /-- No value was given. -/
  | unset
  | integer (n : Int64)
  | float (x : Binary64)
  | string (s : String)
  | boolean (b : Bool)
  deriving DecidableEq, Repr

namespace Value

def kind? : Value → Option Kind
  | .unset => none
  | .integer _ => some .integer
  | .float _ => some .float
  | .string _ => some .string
  | .boolean _ => some .boolean

def isUnset (v : Value) : Bool := v = .unset

/-- Equality of the query language: of one kind, and equal as numbers, texts or truth values. -/
def equals : Value → Value → Bool
  | .unset, .unset => true
  | .integer m, .integer n => m = n
  | .float x, .float y => x.equals y
  | .string s, .string t => s = t
  | .boolean a, .boolean b => a = b
  | _, _ => false

/-- Doubles are printed with all their digits before and after the point, and whole numbers without
a point. -/
def floatStyle : FloatStyle := ⟨false, none⟩

def text : Value → String
  | .unset => "NULL"
  | .integer n => Numeral.writeInteger n
  | .float x => x.write floatStyle
  | .string s => s
  | .boolean true => "TRUE"
  | .boolean false => "FALSE"

end Value

/-- The name of a kind, or of its absence. -/
def kindName : Option Kind → String
  | some k => k.name
  | none => "unset"

/-- Values by column name. -/
abbrev Row := SortedMap String Value

end RowStore
