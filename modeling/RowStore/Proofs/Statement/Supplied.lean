import RowStore.Proofs.Statement.Acceptance
import RowStore.Proofs.Token.Unsigned

/-!
# Where the values of a new row come from

Each value that an insertion supplies stands in the tokens of the statement as a literal, so an
insertion that is read from a text supplies no value with a sign (`Statement.unsigned_ofText`).
-/

namespace RowStore

/-- The values that are given for a new row. -/
def NewRow.values : NewRow → List Value
  | .named row => SortedMap.values row
  | .positional values => values

variable {tokens form : List Token} {table name : String} {columns : Option (List String)}
  {literals : List Literal} {l : Literal} {values : NewRow} {v : Value} {s : Statement}

/-! ## Literals of an insertion -/

theorem mem_separated {α : Type} {tokens : α → List Token} {xs : List α} {x : α} {t : Token}
    (hx : x ∈ xs) (ht : t ∈ tokens x) : t ∈ separated tokens xs := by
  cases xs with
  | nil => cases hx
  | cons y ys =>
    rw [separated, List.mem_append]
    obtain rfl | hx := List.mem_cons.1 hx
    · exact .inl ht
    · exact .inr (List.mem_flatMap.2 ⟨x, hx, List.mem_cons_of_mem _ ht⟩)

theorem token_mem_of_isForm (h : IsForm form (.insert table columns literals))
    (hl : l ∈ literals) : l.token ∈ form := by
  have hmem : l.token ∈ literalTokens literals := mem_separated hl (List.mem_singleton_self _)
  cases h <;> simp [hmem]

/-- What an insertion supplies are the values of its literals. -/
theorem exists_literal_of_denotes
    (h : (Shape.insert table columns literals).Denotes (.insert name values))
    (hv : v ∈ values.values) : ∃ l ∈ literals, l.value = v := by
  cases h with
  | insert => exact List.mem_map.1 hv
  | insertColumns _ _ pairs =>
    obtain ⟨column, hcolumn⟩ := SortedMap.mem_values_iff.1 hv
    exact List.mem_map.1 (List.of_mem_zip ((pairs column v).1 hcolumn)).2

theorem Literal.unsigned_token (l : Literal) : l.token.Unsigned ↔ l.value.Unsigned := by
  cases l <;> rfl

/-! ## Statements that are read -/

namespace Statement

theorem exists_literal_of_ofTokens (h : ofTokens tokens = .ok (.insert name values))
    (hv : v ∈ values.values) : ∃ l : Literal, l.value = v ∧ l.token ∈ tokens := by
  obtain ⟨form, rest, shape, hform, hs, rfl, -⟩ := exists_form_of_ofTokens h
  have hshape : ∃ table columns literals, shape = .insert table columns literals := by
    cases hs <;> exact ⟨_, _, _, rfl⟩
  obtain ⟨table, columns, literals, rfl⟩ := hshape
  obtain ⟨l, hl, hvalue⟩ := exists_literal_of_denotes hs hv
  exact ⟨l, hvalue, List.mem_append_left _ (token_mem_of_isForm hform hl)⟩

/-- An insertion supplies no value with a sign. -/
def Unsigned : Statement → Prop
  | .insert _ values => ∀ v ∈ values.values, v.Unsigned
  | _ => True

theorem unsigned_ofText {text : String} (h : ofText text = .ok s) : s.Unsigned := by
  rw [ofText] at h
  cases htokens : Token.ofText text with
  | error fault =>
    rw [htokens] at h
    cases h
  | ok tokens =>
    rw [htokens] at h
    cases s with
    | insert name values =>
      intro v hv
      obtain ⟨l, rfl, hl⟩ := exists_literal_of_ofTokens h hv
      exact l.unsigned_token.1 (Token.unsigned_ofText htokens _ hl)
    | _ => trivial

end Statement

end RowStore
