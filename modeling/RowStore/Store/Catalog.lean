import RowStore.Store.Table

/-!
# Catalogs

The tables of a store by name, in the order of their names.
-/

namespace RowStore

abbrev Catalog := SortedMap String Table

namespace Catalog

/-- The catalog that every store starts with. -/
abbrev empty : Catalog := SortedMap.empty

def table (c : Catalog) (name : String) : Except Error Table :=
  match c.get? name with
  | some t => .ok t
  | none => .error (.unknownTable name)

def names (c : Catalog) : List String := c.keys

end Catalog

end RowStore
