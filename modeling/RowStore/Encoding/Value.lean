import RowStore.Encoding.Basic
import RowStore.Value

/-!
# Encoding of values and rows

A row is its entries in the order of their column names.
-/

namespace RowStore

instance : Encoding Kind where
  encode
    | .integer => encodeVariant 0 []
    | .float => encodeVariant 1 []
    | .string => encodeVariant 2 []
    | .boolean => encodeVariant 3 []
  decode := .variant [pure .integer, pure .float, pure .string, pure .boolean]

instance : Encoding Value where
  encode
    | .unset => encodeVariant 0 []
    | .integer n => encodeVariant 1 (encode n)
    | .float x => encodeVariant 2 (encode x)
    | .string s => encodeVariant 3 (encode s)
    | .boolean b => encodeVariant 4 (encode b)
  decode := .variant
    [pure .unset, .integer <$> decode, .float <$> decode, .string <$> decode, .boolean <$> decode]

/-- Of the entries with one name the last counts. -/
instance : Encoding Row where
  encode row := encode row.entries
  decode := do return SortedMap.ofList (← decode)

end RowStore
