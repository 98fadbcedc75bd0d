import RowStore.Event
import RowStore.Store.Catalog

/-!
# Actions

An action works on a store in place. One that fails leaves the store as the failure finds it: what
was changed or reported before is not taken back.
-/

namespace RowStore

/-- A catalog, and what has been reported of the work on it. -/
structure Store where
  catalog : Catalog
  events : List Event

abbrev Action := EStateM Error Store

namespace Action

def report (event : Event) : Action Unit :=
  modify fun s => { s with events := s.events ++ [event] }

def ask {α : Type} (f : Catalog → α) : Action α := do return f (← get).catalog

def change (f : Catalog → Catalog) : Action Unit :=
  modify fun s => { s with catalog := f s.catalog }

def table (name : String) : Action Table := do ofExcept (← ask fun c => c.table name)

/-- Add a table under its name, which must be free. -/
def addTable (t : Table) : Action Unit := do
  if ← ask fun c => c.contains t.schema.name then throw (.tableAlreadyExists t.schema.name)
  change fun c => c.insert t.schema.name t

/-- Take a table out. It is taken before it is known that there was one. -/
def removeTable (name : String) : Action Table := do
  let taken ← ask fun c => c.get? name
  change fun c => c.erase name
  match taken with
  | some t => return t
  | none => throw (.unknownTable name)

/-- What an action gives back and makes of a catalog that is held as a value, if it succeeds. -/
def on {α : Type} (a : Action α) (c : Catalog) : Except Error (α × Catalog) :=
  match a.run ⟨c, []⟩ with
  | .ok x s => .ok (x, s.catalog)
  | .error e _ => .error e

end Action

namespace Catalog

def add (c : Catalog) (t : Table) : Except Error Catalog :=
  Prod.snd <$> (Action.addTable t).on c

def remove (c : Catalog) (name : String) : Except Error (Table × Catalog) :=
  (Action.removeTable name).on c

end Catalog

end RowStore
