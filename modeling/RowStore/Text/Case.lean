import RowStore.Text.CaseTable

/-!
# Upper and lower case

Unicode's full case mappings, applied character by character: the image of a character may have
several characters. Capital sigma takes its medial small form everywhere, as the mapping looks at
one character only.
-/

namespace RowStore.Text

/-- The image of a code point, if the run holds it. -/
def CaseRun.image? (r : CaseRun) (n : Nat) : Option Nat :=
  if r.first ≤ n ∧ n ≤ r.last ∧ (n - r.first) % r.step = 0 then some (r.image + (n - r.first))
  else none

/-- A character outside the table is its own image. -/
def CaseTable.map (t : CaseTable) (c : Char) : List Char :=
  match t.runs.findSome? (·.image? c.toNat) with
  | some n => [Char.ofNat n]
  | none =>
    match t.expansions.lookup c.toNat with
    | some ns => ns.map Char.ofNat
    | none => [c]

def upper (s : String) : String := String.ofList (s.toList.flatMap upperTable.map)

def lower (s : String) : String := String.ofList (s.toList.flatMap lowerTable.map)

/-- Equality up to the case of the 26 unaccented letters. -/
def equalUpToLetterCase (s t : String) : Bool :=
  s.toList.map Char.toLower == t.toList.map Char.toLower

end RowStore.Text
