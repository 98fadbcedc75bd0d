import Mathlib.Data.List.Forall2
import Mathlib.Tactic.Common

/-!
# Members of lists

Lists that are related member by member, images of lists in which each member has one element, and
members that are found by their name.
-/

namespace RowStore

variable {α β : Type} {R S : α → β → Prop} {xs : List α} {ys : List β}

theorem exists_of_forall₂ (h : List.Forall₂ R xs ys) {x : α} (hx : x ∈ xs) :
    ∃ y ∈ ys, R x y := by
  induction h with
  | nil => cases hx
  | cons head _ ih =>
    obtain rfl | hx := List.mem_cons.1 hx
    · exact ⟨_, List.mem_cons_self, head⟩
    · obtain ⟨y, hy, h⟩ := ih hx
      exact ⟨y, List.mem_cons_of_mem _ hy, h⟩

/-- Relations that agree beside each member of the second list. -/
theorem forall₂_congr (h : ∀ y ∈ ys, ∀ x, R x y ↔ S x y) :
    List.Forall₂ R xs ys ↔ List.Forall₂ S xs ys := by
  induction ys generalizing xs with
  | nil => simp
  | cons y ys ih =>
    obtain ⟨hy, hys⟩ := List.forall_mem_cons.1 h
    simp only [List.forall₂_cons_right_iff, hy, ih hys]

theorem forall₂_flatMap {f : α → List β} (h : ∀ x ∈ xs, ∃ y, f x = [y]) :
    List.Forall₂ (fun x y => f x = [y]) xs (xs.flatMap f) := by
  induction xs with
  | nil => exact .nil
  | cons x xs ih =>
    obtain ⟨⟨y, hy⟩, hxs⟩ := List.forall_mem_cons.1 h
    rw [List.flatMap_cons, hy, List.singleton_append]
    exact .cons hy (ih hxs)

theorem flatMap_eq_of_forall₂ {f : α → List β} (h : List.Forall₂ (fun x y => f x = [y]) xs ys) :
    xs.flatMap f = ys := by
  induction h with
  | nil => rfl
  | cons hxy _ ih => rw [List.flatMap_cons, hxy, ih, List.singleton_append]

/-- Among all members the one of a name is found, if different members have different names. -/
theorem find?_name_eq_some {all : List α} {name : α → String} (hall : ∀ a, a ∈ all)
    (hname : Function.Injective name) {a : α} {s : String} :
    (all.find? fun b => name b = s) = some a ↔ s = name a := by
  constructor
  · intro h
    have hs := List.find?_some h
    exact (of_decide_eq_true hs).symm
  · rintro rfl
    cases hfind : all.find? fun b => name b = name a with
    | none => exact absurd (decide_eq_true rfl) (List.find?_eq_none.1 hfind a (hall a))
    | some b =>
      have hb := List.find?_some hfind
      rw [hname (of_decide_eq_true hb)]

end RowStore
