import RowStore.Statement.Parser
import RowStore.Store.Execution

/-!
# Sessions

A session sends requests to one catalog, each as a statement, as tokens or as text, and gets a
response with the catalog that the next request meets.
-/

namespace RowStore

inductive Request where
  | statement (s : Statement)
  | tokens (ts : List Token)
  | text (text : String)

structure Response where
  outcome : Except Error Answer
  catalog : Catalog
  events : List Event

/-- The response at the end of an action: the catalog and the events are those that it left, whether
it succeeded or failed. -/
def Response.ofResult : EStateM.Result Error Store Answer → Response
  | .ok answer s => ⟨.ok answer, s.catalog, s.events⟩
  | .error e s => ⟨.error e, s.catalog, s.events⟩

namespace Action

/-- The statement that tokens are read as. -/
def parse (ts : List Token) : Action Statement := do
  let s ← ofExcept (Statement.ofTokens ts)
  report (.parsed s.table)
  return s

/-- The statement that a text is read as. -/
def parseText (text : String) : Action Statement := do
  let ts ← ofExcept ((Token.ofText text).mapError .lexical)
  (Token.unclosedWord? text).forM fun word => report (.textClosed word)
  report (.tokenized ts.length)
  parse ts

/-- Report when an action fails. -/
def logFailure (a : Action Answer) : Action Answer := do
  try a
  catch e =>
    report (.failed e)
    throw e

def executeText (text : String) : Action Answer := do logFailure (interpret (← parseText text))

/-- The response of an action that starts on a catalog. -/
def respond (a : Action Answer) (c : Catalog) : Response := .ofResult (a.run ⟨c, []⟩)

end Action

namespace Catalog

def execute (c : Catalog) (s : Statement) : Response := (Action.interpret s).respond c

def executeTokens (c : Catalog) (ts : List Token) : Response :=
  (Action.parse ts >>= Action.interpret).respond c

def executeText (c : Catalog) (text : String) : Response := (Action.executeText text).respond c

def respond (c : Catalog) : Request → Response
  | .statement s => c.execute s
  | .tokens ts => c.executeTokens ts
  | .text text => c.executeText text

end Catalog

end RowStore
