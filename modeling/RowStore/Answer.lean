import RowStore.Encoding.Value
import RowStore.Schema

/-!
# Answers

What a statement gives back: an acknowledgement, or the columns and rows of a query.
-/

namespace RowStore

inductive Answer where
  | tableCreated (table : String)
  | tableDropped (table : String)
  | inserted (count : Nat)
  | deleted (count : Nat)
  /-- Every row holds the listed columns, each once. -/
  | scan (columns : List String) (rows : List Row)
  deriving DecidableEq

/-- The acknowledgement of a change. -/
def Answer.message? : Answer → Option String
  | tableCreated _ => some "TABLE CREATED"
  | tableDropped _ => some "TABLE DROPPED"
  | inserted count => some (if count = 1 then "1 ROW INSERTED" else s!"{count} ROWS INSERTED")
  | deleted count => some s!"{count} ROWS DELETED"
  | scan _ _ => none

instance : Encoding Column where
  encode c := encode c.name ++ encode c.kind
  decode := do
    let name ← decode
    let kind ← decode
    return ⟨name, kind⟩

instance : Encoding Answer where
  encode
    | .tableCreated table => encodeVariant 0 (encode table)
    | .tableDropped table => encodeVariant 1 (encode table)
    | .inserted count => encodeVariant 2 (encode count)
    | .deleted count => encodeVariant 3 (encode count)
    | .scan columns rows => encodeVariant 4 (encode columns ++ encode rows)
  decode := .variant
    [.tableCreated <$> decode, .tableDropped <$> decode, .inserted <$> decode,
      .deleted <$> decode, do
        let columns ← decode
        let rows ← decode
        return .scan columns rows]

end RowStore
