import Mathlib.Algebra.Ring.Nat
import RowStore.Proofs.Store.Query
import RowStore.Proofs.Store.Request

/-!
# The log balances with the rows

What a session reports tells how many rows each table holds: since the table was last created, the
rows that were inserted less those that were replaced and those that were deleted. Every accepted
statement keeps the balance of its own table and leaves the others alone, and what else is reported
on the way tells of no rows (`Catalog.log_balances`).
-/

namespace RowStore

/-! ## The balance of a log -/

namespace Event

/-- The table on which something was done, for the events that report an effect. -/
def effectOn? : Event → Option String
  | .tableCreated table | .tableDropped table _ | .rowReplaced table _ | .rowInserted table _
  | .rowsDeleted table _ | .rowsSelected table _ => some table
  | _ => none

def inserted (name : String) (log : List Event) : Nat :=
  log.countP fun
    | .rowInserted table _ => table = name
    | _ => false

def replaced (name : String) (log : List Event) : Nat :=
  log.countP fun
    | .rowReplaced table _ => table = name
    | _ => false

def deleted (name : String) (log : List Event) : Nat :=
  (log.map fun
    | .rowsDeleted table count => if table = name then count else 0
    | _ => 0).sum

/-- The rows that came into a table less those that went. -/
def balance (name : String) (log : List Event) : Int :=
  inserted name log - replaced name log - deleted name log

variable {name : String} {log es : List Event} {rows m n : Nat}

theorem balance_append (name : String) (log es : List Event) :
    balance name (log ++ es) = balance name log + balance name es := by
  simp only [balance, inserted, replaced, deleted, List.countP_append, List.map_append,
    List.sum_append]
  omega

theorem balance_rowsDeleted (name : String) (count : Nat) :
    balance name [.rowsDeleted name count] = -count := by
  simp [balance, inserted, replaced, deleted]

theorem balance_eq_zero (h : ∀ e ∈ es, e.effectOn? ≠ some name) : balance name es = 0 := by
  induction es with
  | nil => rfl
  | cons e es ih =>
    obtain ⟨he, hes⟩ := List.forall_mem_cons.1 h
    rw [← List.singleton_append, balance_append, ih hes]
    cases e <;> simp_all [effectOn?, balance, inserted, replaced, deleted]

/-- The log tells that the table holds so many rows: that is its balance since it was last
created. -/
def Tallies (log : List Event) (name : String) (rows : Nat) : Prop :=
  ∃ before since, log = before ++ .tableCreated name :: since ∧ .tableCreated name ∉ since ∧
    rows = balance name since

theorem tallies_created (log : List Event) (name : String) :
    Tallies (log ++ [.tableCreated name]) name 0 :=
  ⟨log, [], rfl, List.not_mem_nil, rfl⟩

theorem Tallies.append (h : Tallies log name m) (hes : .tableCreated name ∉ es)
    (hn : n = m + balance name es) : Tallies (log ++ es) name n := by
  obtain ⟨before, since, rfl, hsince, hm⟩ := h
  refine ⟨before, since ++ es, by simp, ?_, ?_⟩
  · rw [List.mem_append, not_or]
    exact ⟨hsince, hes⟩
  · rw [balance_append, ← hm, hn]

/-- Reports on other tables do not count. -/
theorem Tallies.other (h : Tallies log name rows) (hes : ∀ e ∈ es, e.effectOn? ≠ some name) :
    Tallies (log ++ es) name rows := by
  refine h.append (fun hmem => hes _ hmem rfl) ?_
  rw [balance_eq_zero hes, Int.add_zero]

/-- Every drop in the log reports the rows that the log before it tells of. -/
def Settled (log : List Event) : Prop :=
  ∀ before name rows after, log = before ++ .tableDropped name rows :: after →
    Tallies before name rows

theorem settled_nil : Settled [] := by
  intro before name rows after h
  simp at h

theorem settled_concat {e : Event} : Settled (log ++ [e]) ↔
    Settled log ∧ ∀ name rows, e = .tableDropped name rows → Tallies log name rows := by
  constructor
  · intro h
    refine ⟨?_, ?_⟩
    · rintro before name rows after rfl
      exact h before name rows (after ++ [e]) (by simp)
    · rintro name rows rfl
      exact h log name rows [] rfl
  · rintro ⟨hlog, hlast⟩ before name rows after h
    obtain ⟨rfl, rfl, -⟩ | ⟨after', -, hsplit⟩ := concat_eq_append_cons.1 h
    · exact hlast name rows rfl
    · exact hlog before name rows after' hsplit

theorem Settled.append (h : Settled log) (hes : ∀ name rows, .tableDropped name rows ∉ es) :
    Settled (log ++ es) := by
  induction es generalizing log with
  | nil => rwa [List.append_nil]
  | cons e es ih =>
    rw [← List.singleton_append, ← List.append_assoc]
    refine ih (settled_concat.2 ⟨h, ?_⟩) fun name rows hmem => ?_
    · rintro name rows rfl
      exact absurd List.mem_cons_self (hes name rows)
    · exact hes name rows (List.mem_cons_of_mem _ hmem)

end Event

/-! ## Reports of a request -/

namespace Catalog

open Event

variable {c : Catalog} {log es : List Event} {name : String} {t : Table}

/-- An accepted statement reports on its own table. -/
theorem effectOn?_of_effect (hsound : c.Sound) {s : Statement} {r : Effect}
    (hr : c.effect s = .ok r) : ∀ e ∈ r.events, e.effectOn? = some s.table := by
  cases s with
  | create schema =>
    obtain ⟨-, -, rfl⟩ := createTable_eq_ok.1 hr
    simp [effectOn?, Statement.table]
  | select table columns filter =>
    obtain ⟨t, _, ht, -, -, rfl⟩ := selectRows_eq_ok.1 hr
    simp [effectOn?, Statement.table, hsound.names table t ht]
  | insert table values =>
    obtain ⟨t, _, _, key, ht, -, -, -, rfl⟩ := insertRow_eq_ok.1 hr
    simp only [insertEvents, hsound.names table t ht]
    split <;> simp [effectOn?, Statement.table]
  | delete table filter =>
    obtain ⟨t, ht, -, rfl⟩ := deleteRows_eq_ok.1 hr
    simp [effectOn?, Statement.table, hsound.names table t ht]
  | drop table =>
    obtain ⟨_, -, rfl⟩ := dropTable_eq_ok.1 hr
    simp [effectOn?, Statement.table]

/-- A response either reports no effect and leaves the catalog as it is, or it reports the effect of
a statement among events of no effect. -/
inductive Reports (c : Catalog) (x : Response) : Prop
  | refused (e : Error) (outcome : x.outcome = .error e) (catalog : x.catalog = c)
      (quiet : ∀ event ∈ x.events, event.effectOn? = none)
  | done (s : Statement) (r : Effect) (before after : List Event) (effect : c.effect s = .ok r)
      (outcome : x.outcome = .ok r.answer) (catalog : x.catalog = r.catalog)
      (events : x.events = before ++ r.events ++ after)
      (quiet : ∀ event ∈ before ++ after, event.effectOn? = none)

theorem Reports.between {x : Response} (h : c.Reports x) {front back : List Event}
    (hquiet : ∀ event ∈ front ++ back, event.effectOn? = none) :
    c.Reports { x with events := front ++ x.events ++ back } := by
  simp only [List.forall_mem_append] at hquiet
  cases h with
  | refused e outcome catalog quiet =>
    refine .refused e outcome catalog ?_
    simp only [List.forall_mem_append]
    exact ⟨⟨hquiet.1, quiet⟩, hquiet.2⟩
  | done s r before after effect outcome catalog events quiet =>
    refine .done s r (front ++ before) (after ++ back) effect outcome catalog (by simp [events]) ?_
    simp only [List.forall_mem_append] at quiet ⊢
    exact ⟨⟨hquiet.1, quiet.1⟩, quiet.2, hquiet.2⟩

theorem reports_execute (c : Catalog) (s : Statement) : c.Reports (c.execute s) := by
  cases hr : c.effect s with
  | ok r =>
    rw [execute_of_effect hr]
    exact .done s r [.interpreting s.table s.isWrite] [] hr rfl rfl (by simp) (by simp [effectOn?])
  | error e =>
    rw [execute_of_error hr]
    exact .refused e rfl rfl (by simp [effectOn?])

theorem effectOn?_preface (q : Request) : ∀ event ∈ q.preface, event.effectOn? = none := by
  have hparse (ts : List Token) : ∀ event ∈ Statement.parseEvents ts, event.effectOn? = none := by
    unfold Statement.parseEvents
    split <;> simp [effectOn?]
  cases q with
  | statement s => exact List.forall_mem_nil _
  | tokens ts => exact hparse ts
  | text text =>
    simp only [Request.preface, Statement.textEvents]
    split
    · next ts _ =>
      simp only [List.forall_mem_append, List.forall_mem_map, List.forall_mem_cons]
      exact ⟨fun _ _ => rfl, rfl, hparse ts⟩
    · exact List.forall_mem_nil _

theorem effectOn?_closing (q : Request) (outcome : Except Error Answer) :
    ∀ event ∈ q.closing outcome, event.effectOn? = none := by
  cases q <;> cases outcome <;> simp [Request.closing, failureEvents, effectOn?]

theorem reports_respond (c : Catalog) (q : Request) : c.Reports (c.respond q) := by
  cases hread : q.read with
  | ok s =>
    rw [respond_eq_of_read c hread]
    refine (c.reports_execute s).between ?_
    rw [List.forall_mem_append]
    exact ⟨effectOn?_preface q, effectOn?_closing q _⟩
  | error e =>
    rw [respond_eq_of_read_error c hread]
    exact .refused e rfl rfl (effectOn?_preface q)

/-! ## Balanced catalogs -/

/-- The log tells the rows of every table, and of every table that was dropped. -/
structure Balanced (c : Catalog) (log : List Event) : Prop where
  tables : ∀ name t, c.get? name = some t → Tallies log name t.rowCount
  drops : Settled log

theorem balanced_empty : Balanced empty [] := ⟨by simp, settled_nil⟩

theorem Balanced.quiet (h : c.Balanced log) (hes : ∀ e ∈ es, e.effectOn? = none) :
    c.Balanced (log ++ es) where
  tables name t ht := (h.tables name t ht).other fun e he => by simp [hes e he]
  drops := h.drops.append fun name rows hmem => by simpa [effectOn?] using hes _ hmem

theorem balance_insertEvents (t : Table) (key : Value) :
    balance t.schema.name (insertEvents t key) = if t.holdsKey key then 0 else 1 := by
  unfold insertEvents
  split <;> simp [balance, inserted, replaced, deleted]

theorem Balanced.effect (h : c.Balanced log) (hsound : c.Sound) {s : Statement} {r : Effect}
    (hr : c.effect s = .ok r) : r.catalog.Balanced (log ++ r.events) := by
  -- A table under another name is the one that was there.
  have hother {name : String} {t : Table} (hne : name ≠ s.table) (ht : c.get? name = some t) :
      Tallies (log ++ r.events) name t.rowCount := by
    refine (h.tables name t ht).other fun e he => ?_
    rw [effectOn?_of_effect hsound hr e he]
    simpa using hne.symm
  cases s with
  | create schema =>
    obtain ⟨-, -, rfl⟩ := createTable_eq_ok.1 hr
    refine ⟨fun name t ht => ?_, h.drops.append (by simp)⟩
    rw [SortedMap.get?_insert] at ht
    split at ht
    · next hname =>
      obtain rfl := Option.some.inj ht
      rw [hname]
      exact tallies_created log schema.name
    · next hne => exact hother hne ht
  | select table columns filter =>
    obtain ⟨t, _, ht, -, -, rfl⟩ := selectRows_eq_ok.1 hr
    refine ⟨fun name u hu => ?_, h.drops.append (by simp)⟩
    exact (h.tables name u hu).append (by simp) (by simp [balance, inserted, replaced, deleted])
  | insert table values =>
    obtain ⟨old, given, row, key, hold, -, -, -, rfl⟩ := insertRow_eq_ok.1 hr
    refine ⟨fun name t ht => ?_, h.drops.append (by simp [insertEvents])⟩
    rw [SortedMap.get?_insert] at ht
    split at ht
    · next hname =>
      obtain rfl := Option.some.inj ht
      rw [hname]
      refine (h.tables table old hold).append (by simp [insertEvents]) ?_
      rw [Table.rowCount_put, ← hsound.names table old hold, balance_insertEvents]
      split <;> simp
    · next hne => exact hother hne ht
  | delete table filter =>
    obtain ⟨old, hold, -, rfl⟩ := deleteRows_eq_ok.1 hr
    refine ⟨fun name t ht => ?_, h.drops.append (by simp)⟩
    rw [SortedMap.get?_insert] at ht
    split at ht
    · next hname =>
      obtain rfl := Option.some.inj ht
      rw [hname]
      refine (h.tables table old hold).append (by simp) ?_
      rw [hsound.names table old hold, balance_rowsDeleted]
      have hcount := old.rowCount_without filter
      omega
    · next hne => exact hother hne ht
  | drop table =>
    obtain ⟨old, hold, rfl⟩ := dropTable_eq_ok.1 hr
    refine ⟨fun name t ht => ?_, settled_concat.2 ⟨h.drops, ?_⟩⟩
    · rw [SortedMap.get?_erase] at ht
      split at ht
      · cases ht
      · next hne => exact hother hne ht
    · rintro name rows ⟨⟩
      exact h.tables table old hold

theorem Balanced.respond (h : c.Balanced log) (hsound : c.Sound) (q : Request) :
    (c.respond q).catalog.Balanced (log ++ (c.respond q).events) := by
  cases c.reports_respond q with
  | refused e outcome catalog quiet =>
    rw [catalog]
    exact h.quiet quiet
  | done s r before after effect outcome catalog events quiet =>
    rw [List.forall_mem_append] at quiet
    rw [catalog, events, ← List.append_assoc, ← List.append_assoc]
    exact ((h.quiet quiet.1).effect hsound effect).quiet quiet.2

theorem Sound.respond (h : c.Sound) (q : Request) : (c.respond q).catalog.Sound := by
  cases c.reports_respond q with
  | refused e outcome catalog quiet => rwa [catalog]
  | done s r before after effect outcome catalog events quiet => exact catalog ▸ h.effect effect

/-! ## The log of a session -/

/-- The events of requests one after the other. -/
def journal (c : Catalog) (requests : List Request) : List Event :=
  (c.transcript requests).flatMap fun x => x.response.events

theorem Balanced.serve (h : c.Balanced log) (hsound : c.Sound) (requests : List Request) :
    (c.serve requests).Balanced (log ++ c.journal requests) := by
  induction requests generalizing c log with
  | nil => simpa [journal, transcript] using h
  | cons q requests ih =>
    have hrest := ih (h.respond hsound q) (hsound.respond q)
    rwa [List.append_assoc] at hrest

/-- At the end of every session the log tells how many rows each table holds: since the table was
last created, those that were inserted less those that were replaced and those that were deleted.
Every drop reports as many rows as the log before it tells of, and a request that is refused reports
no effect. -/
theorem log_balances (requests : List Request) :
    (∀ name t, (empty.serve requests).get? name = some t →
      Tallies (empty.journal requests) name t.rowCount) ∧
    (∀ before name rows after, empty.journal requests = before ++ .tableDropped name rows :: after →
      Tallies before name rows) ∧
    ∀ c q e, (respond c q).outcome = .error e →
      ∀ event ∈ (respond c q).events, event.effectOn? = none := by
  have hbalanced := balanced_empty.serve sound_empty requests
  refine ⟨hbalanced.tables, hbalanced.drops, fun c q e he => ?_⟩
  cases c.reports_respond q with
  | refused _ _ _ quiet => exact quiet
  | done _ _ _ _ _ outcome => simp [outcome] at he

/-- A row that is replaced, one that is deleted, a table that is dropped and an insertion that is
refused. -/
def sampleSession : List Request := [
  .statement (.create ⟨"notes", [⟨"id", .integer⟩], "id"⟩),
  .statement (.create ⟨"drafts", [⟨"id", .integer⟩], "id"⟩),
  .statement (.insert "notes" (.positional [.integer 1])),
  .statement (.insert "drafts" (.positional [.integer 5])),
  .text "insert into notes values (1)",
  .statement (.insert "notes" (.positional [.boolean true])),
  .statement (.insert "notes" (.positional [.integer 2])),
  .statement (.delete "notes" ⟨"id", .integer 2⟩),
  .statement (.drop "drafts")]

theorem log_balances_sampleSession :
    (∃ t, (empty.serve sampleSession).get? "notes" = some t ∧
      Tallies (empty.journal sampleSession) "notes" t.rowCount) ∧
    (∃ before after, empty.journal sampleSession = before ++ .tableDropped "drafts" 1 :: after ∧
      Tallies before "drafts" 1) ∧
    ∃ e, (respond empty (.text "drop table notes")).outcome = .error e ∧
      ∀ event ∈ (respond empty (.text "drop table notes")).events, event.effectOn? = none := by
  obtain ⟨htables, hdrops, hrefused⟩ := log_balances sampleSession
  have hdrop : empty.journal sampleSession =
      (empty.journal sampleSession).dropLast ++ .tableDropped "drafts" 1 :: [] := by
    decide +kernel
  have houtcome : (respond empty (.text "drop table notes")).outcome =
      .error (.unknownTable "notes") := by decide +kernel
  refine ⟨?_, ⟨_, _, hdrop, hdrops _ _ _ _ hdrop⟩, ⟨_, houtcome, hrefused _ _ _ houtcome⟩⟩
  have hnotes : ((empty.serve sampleSession).get? "notes").isSome := by decide +kernel
  obtain ⟨t, ht⟩ := Option.isSome_iff_exists.1 hnotes
  exact ⟨t, ht, htables "notes" t ht⟩

end Catalog

end RowStore
