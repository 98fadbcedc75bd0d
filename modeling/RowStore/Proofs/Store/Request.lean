import RowStore.Proofs.Store.Run

/-!
# Requests

A request is answered like the statement that it is read as, or refused with the error of the
reading, before the catalog is touched. A response carries the catalog as the request left it, also
when it failed halfway. Still only a statement that succeeds and is no query moves the catalog: all
other requests can be taken out of what a session sends, and those that stay get the same responses
(`Catalog.transcript_changes`).
-/

namespace RowStore

/-! ## What is asked -/

namespace Request

/-- The statement that a request is read as. -/
def read : Request → Except Error Statement
  | .statement s => .ok s
  | .tokens ts => Statement.ofTokens ts
  | .text written => Statement.ofText written

def isQuery (q : Request) : Bool :=
  match q.read with
  | .ok s => !s.isWrite
  | .error _ => false

end Request

/-! ## What is reported of a request -/

/-- What is reported of tokens. -/
def Statement.parseEvents (ts : List Token) : List Event :=
  match Statement.ofTokens ts with
  | .ok s => [.parsed s.table]
  | .error _ => []

/-- What is reported of a text. -/
def Statement.textEvents (text : String) : List Event :=
  match Token.ofText text with
  | .ok ts =>
    (Token.unclosedWord? text).toList.map Event.textClosed ++ .tokenized ts.length :: parseEvents ts
  | .error _ => []

def failureEvents : Except Error Answer → List Event
  | .ok _ => []
  | .error e => [.failed e]

namespace Request

/-- What a request reports before its statement is executed. -/
def preface : Request → List Event
  | .statement _ => []
  | .tokens ts => Statement.parseEvents ts
  | .text written => Statement.textEvents written

/-- What a request reports after its statement is executed: a text reports a failure. -/
def closing : Request → Except Error Answer → List Event
  | .text _, outcome => failureEvents outcome
  | _, _ => []

end Request

/-! ## Actions that read -/

/-- The end of an action that changes nothing and reports some events. -/
def Store.reporting {α : Type} (s : Store) (events : List Event) :
    Except Error α → EStateM.Result Error Store α
  | .ok a => .ok a { s with events := s.events ++ events }
  | .error e => .error e { s with events := s.events ++ events }

theorem Store.reporting_append {α : Type} (s : Store) (before events : List Event)
    (x : Except Error α) : { s with events := s.events ++ before : Store }.reporting events x =
      s.reporting (before ++ events) x := by
  cases x <;> simp [reporting]

namespace Action

theorem run_parse (ts : List Token) (s : Store) :
    (parse ts).run s = s.reporting (Statement.parseEvents ts) (Statement.ofTokens ts) := by
  rw [parse, Statement.parseEvents]
  cases Statement.ofTokens ts with
  | ok statement => rfl
  | error e => simp [Store.reporting, EStateM.run_bind]

theorem run_parseText (text : String) (s : Store) :
    (parseText text).run s = s.reporting (Statement.textEvents text) (Statement.ofText text) := by
  have hclosed : ((Token.unclosedWord? text).forM fun word => report (.textClosed word)).run s =
      .ok () { s with
        events := s.events ++ (Token.unclosedWord? text).toList.map Event.textClosed } := by
    cases Token.unclosedWord? text <;> simp [Option.forM]
  rw [parseText, Statement.textEvents, Statement.ofText]
  cases Token.ofText text with
  | ok ts =>
    rw [Except.mapError, run_bind_of_ok (run_ofExcept_ok ts s), run_bind_of_ok hclosed,
      run_bind_of_ok (run_report _ _), run_parse, Store.reporting_append, Store.reporting_append]
    rfl
  | error fault => simp [Store.reporting, EStateM.run_bind, Except.mapError]

theorem ofResult_logFailure (a : Action Answer) (s : Store) :
    Response.ofResult ((logFailure a).run s) =
      let r := Response.ofResult (a.run s)
      { r with events := r.events ++ failureEvents r.outcome } := by
  rw [logFailure]
  -- Catching takes nothing back: the handler starts on the store that the failure left.
  simp only [EStateM.run, tryCatch, tryCatchThe, MonadExceptOf.tryCatch, EStateM.tryCatch]
  cases a s with
  | ok answer s' => simp [Response.ofResult, failureEvents]
  | error e s' => rfl

/-- Events that were reported before a statement do not matter to it. -/
theorem ofResult_interpret (statement : Statement) (c : Catalog) (events : List Event) :
    Response.ofResult ((interpret statement).run ⟨c, events⟩) =
      let r := c.execute statement
      { r with events := events ++ r.events } := by
  rw [Catalog.execute, respond, run_interpret, run_interpret]
  cases c.effect statement <;> simp [Store.commit, Response.ofResult]

end Action

/-! ## Responses -/

namespace Catalog

variable {c : Catalog} {q : Request} {s : Statement} {e : Error}

/-- The statement is answered in the same way, among what its reading reports. -/
theorem respond_eq_of_read (c : Catalog) (h : q.read = .ok s) :
    c.respond q =
      let r := c.execute s
      { r with events := q.preface ++ r.events ++ q.closing r.outcome } := by
  cases q with
  | statement s' =>
    cases h
    simp [respond, Request.preface, Request.closing]
  | tokens ts =>
    rw [Request.read] at h
    have hparse : (Action.parse ts).run ⟨c, []⟩ = .ok s ⟨c, Statement.parseEvents ts⟩ := by
      rw [Action.run_parse, h]
      rfl
    rw [respond, executeTokens, Action.respond, Action.run_bind_of_ok hparse,
      Action.ofResult_interpret]
    simp [Request.preface, Request.closing]
  | text text =>
    rw [Request.read] at h
    have hparse : (Action.parseText text).run ⟨c, []⟩ = .ok s ⟨c, Statement.textEvents text⟩ := by
      rw [Action.run_parseText, h]
      rfl
    rw [respond, executeText, Action.respond, Action.executeText, Action.run_bind_of_ok hparse,
      Action.ofResult_logFailure, Action.ofResult_interpret]
    rfl

theorem respond_eq_of_read_error (c : Catalog) (h : q.read = .error e) :
    c.respond q = ⟨.error e, c, q.preface⟩ := by
  cases q with
  | statement s => cases h
  | tokens ts =>
    rw [Request.read] at h
    rw [respond, executeTokens, Action.respond, EStateM.run_bind, Action.run_parse, h]
    rfl
  | text text =>
    rw [Request.read] at h
    rw [respond, executeText, Action.respond, Action.executeText, EStateM.run_bind,
      Action.run_parseText, h]
    rfl

theorem respond_of_read (c : Catalog) (h : q.read = .ok s) :
    (c.respond q).outcome = (c.execute s).outcome ∧
      (c.respond q).catalog = (c.execute s).catalog := by
  rw [respond_eq_of_read c h]
  exact ⟨rfl, rfl⟩

/-! ## Requests without effect -/

theorem execute_of_outcome (h : (c.execute s).outcome = .error e) :
    (c.execute s).catalog = c := by
  rw [execute_of_error (outcome_eq_error.1 h)]

theorem execute_of_not_isWrite (c : Catalog) (h : s.isWrite = false) :
    (c.execute s).catalog = c := by
  cases s with
  | select table columns filter =>
    cases hr : c.effect (.select table columns filter) with
    | ok r =>
      obtain ⟨_, _, -, -, -, rfl⟩ := selectRows_eq_ok.1 hr
      rw [execute_of_effect hr]
    | error e => rw [execute_of_error hr]
  | _ => cases h

/-- A request that is refused and a query leave the catalog as it is. -/
theorem respond_catalog (h : (∃ e, (c.respond q).outcome = .error e) ∨ q.isQuery) :
    (c.respond q).catalog = c := by
  cases hread : q.read with
  | error e => rw [respond_eq_of_read_error c hread]
  | ok s =>
    rw [respond_eq_of_read c hread] at h ⊢
    obtain ⟨e, he⟩ | hquery := h
    · exact execute_of_outcome he
    · rw [Request.isQuery, hread, Bool.not_eq_true'] at hquery
      exact execute_of_not_isWrite c hquery

/-! ## Requests one after the other -/

/-- The catalog after requests one after the other. -/
def serve (c : Catalog) (requests : List Request) : Catalog :=
  requests.foldl (fun c q => (c.respond q).catalog) c

@[simp] theorem serve_nil (c : Catalog) : c.serve [] = c := rfl

@[simp] theorem serve_cons (c : Catalog) (q : Request) (requests : List Request) :
    c.serve (q :: requests) = (c.respond q).catalog.serve requests := rfl

/-- Requests leave what the statements leave that they are read as. -/
theorem serve_eq_run (c : Catalog) (requests : List Request) :
    c.serve requests = c.run (requests.filterMap fun q => q.read.toOption) := by
  induction requests generalizing c with
  | nil => rfl
  | cons q requests ih =>
    rw [serve_cons, ih, List.filterMap_cons]
    cases hread : q.read with
    | ok s => rw [respond_eq_of_read c hread, Except.toOption, run_cons]
    | error e => rw [respond_eq_of_read_error c hread, Except.toOption]

end Catalog

/-- A request with its response. -/
structure Exchange where
  request : Request
  response : Response

/-- A request that succeeded and is no query. -/
def Exchange.isChange (x : Exchange) : Bool :=
  x.response.outcome.isOk && !x.request.isQuery

namespace Catalog

/-- Requests one after the other, each with the response that it gets. -/
def transcript (c : Catalog) : List Request → List Exchange
  | [] => []
  | q :: requests => ⟨q, c.respond q⟩ :: transcript (c.respond q).catalog requests

theorem respond_of_not_isChange {c : Catalog} {q : Request}
    (h : ¬Exchange.isChange ⟨q, c.respond q⟩) : (c.respond q).catalog = c := by
  apply respond_catalog
  cases houtcome : (c.respond q).outcome with
  | error e => exact .inl ⟨e, rfl⟩
  | ok answer =>
    right
    simpa [Exchange.isChange, houtcome, Except.isOk, Except.toBool] using h

/-- Requests that are refused and queries are invisible: each leaves the catalog as it is, and when
all of them are taken out of a list of requests, the others get the same responses as before and
leave the same catalog. -/
theorem transcript_changes (c : Catalog) :
    (∀ q, (∃ e, (c.respond q).outcome = .error e) ∨ q.isQuery → (c.respond q).catalog = c) ∧
    ∀ requests,
      let changes := (c.transcript requests).filter Exchange.isChange
      c.transcript (changes.map Exchange.request) = changes ∧
        c.serve (changes.map Exchange.request) = c.serve requests := by
  refine ⟨fun q => respond_catalog, fun requests => ?_⟩
  induction requests generalizing c with
  | nil => exact ⟨rfl, rfl⟩
  | cons q requests ih =>
    obtain ⟨htranscript, hserve⟩ := ih (c.respond q).catalog
    by_cases hchange : Exchange.isChange ⟨q, c.respond q⟩
    · simp only [transcript, List.filter_cons_of_pos hchange, List.map_cons, serve_cons]
      exact ⟨congrArg _ htranscript, hserve⟩
    · rw [respond_of_not_isChange hchange] at htranscript hserve
      simp only [transcript, List.filter_cons_of_neg hchange, serve_cons,
        respond_of_not_isChange hchange]
      exact ⟨htranscript, hserve⟩

/-- Changes, a query, statements that are refused at several checks and a text that is none. -/
def sampleRequests : List Request := [
  .text "drop table notes",
  .text "create table notes (id integer primary key)",
  .text "insert into notes values (1",
  .statement (.insert "notes" (.positional [.integer 1])),
  .text "create table notes (name string primary key)",
  .text "insert into notes values (1, 2)",
  .text "insert into notes values (true)",
  .statement (.select "notes" [] none)]

/-- Two of the eight requests are changes. -/
theorem transcript_changes_sampleRequests :
    (∃ e, (empty.respond (.text "drop table notes")).outcome = .error e) ∧
    (empty.respond (.text "drop table notes")).catalog = empty ∧
    let changes := (empty.transcript sampleRequests).filter Exchange.isChange
    changes.length = 2 ∧ empty.transcript (changes.map Exchange.request) = changes ∧
      empty.serve (changes.map Exchange.request) = empty.serve sampleRequests := by
  have hrefused : (empty.respond (.text "drop table notes")).outcome =
      .error (.unknownTable "notes") := by decide +kernel
  obtain ⟨hinvisible, hchanges⟩ := transcript_changes empty
  refine ⟨⟨_, hrefused⟩, hinvisible _ (.inl ⟨_, hrefused⟩), ?_, hchanges sampleRequests⟩
  decide +kernel

end Catalog

end RowStore
