/-!
# Sorted maps

A `SortedMap` is a list of entries whose keys ascend strictly. The order of the keys is part of
the type, so a map has one form only: two maps with the same look-ups are equal
(`SortedMap.ext_get?`, in the lemma module beside this one).
-/

namespace RowStore

/-- Entries with strictly ascending keys. -/
structure SortedMap (κ ν : Type) [Ord κ] where
  entries : List (κ × ν)
  ascending : entries.Pairwise fun a b => compare a.1 b.1 = .lt

namespace SortedMap

variable {κ ν : Type} [Ord κ]

instance [DecidableEq κ] [DecidableEq ν] : DecidableEq (SortedMap κ ν) :=
  fun ⟨es, _⟩ ⟨fs, _⟩ =>
    if h : es = fs then .isTrue (by subst h; rfl)
    else .isFalse fun e => h (congrArg entries e)

/-- The map without entries. -/
def empty : SortedMap κ ν := ⟨[], .nil⟩

instance : Inhabited (SortedMap κ ν) := ⟨empty⟩

/-- The value of the first entry under a key. -/
def lookup (k : κ) : List (κ × ν) → Option ν
  | [] => none
  | e :: es => if compare k e.1 = .eq then some e.2 else lookup k es

/-- Put an entry in its place, over one with the same key. -/
def insertEntry (k : κ) (v : ν) : List (κ × ν) → List (κ × ν)
  | [] => [(k, v)]
  | e :: es =>
    match compare k e.1 with
    | .lt => (k, v) :: e :: es
    | .eq => (k, v) :: es
    | .gt => e :: insertEntry k v es

theorem mem_insertEntry {k : κ} {v : ν} {a : κ × ν} {es : List (κ × ν)}
    (h : a ∈ insertEntry k v es) : a = (k, v) ∨ a ∈ es := by
  fun_induction insertEntry k v es <;> grind

variable [Std.TransOrd κ] [Std.LawfulEqOrd κ]

theorem pairwise_insertEntry (k : κ) (v : ν) {es : List (κ × ν)}
    (h : es.Pairwise fun a b => compare a.1 b.1 = .lt) :
    (insertEntry k v es).Pairwise fun a b => compare a.1 b.1 = .lt := by
  fun_induction insertEntry k v es with
  | case1 => exact .cons (by simp) .nil
  | case2 e es hlt =>
    refine .cons (fun a ha => ?_) h
    rcases List.mem_cons.1 ha with rfl | ha
    · exact hlt
    · exact Std.TransCmp.lt_trans hlt (List.rel_of_pairwise_cons h ha)
  | case3 e es heq =>
    obtain rfl := Std.LawfulEqCmp.eq_of_compare heq
    exact .cons (fun a ha => List.rel_of_pairwise_cons h ha) h.of_cons
  | case4 e es hgt ih =>
    refine .cons (fun a ha => ?_) (ih h.of_cons)
    rcases mem_insertEntry ha with rfl | ha
    · exact Std.OrientedCmp.lt_of_gt hgt
    · exact List.rel_of_pairwise_cons h ha

def get? (m : SortedMap κ ν) (k : κ) : Option ν := lookup k m.entries

def contains (m : SortedMap κ ν) (k : κ) : Bool := (m.get? k).isSome

/-- A later value under the same key replaces an earlier one. -/
def insert (m : SortedMap κ ν) (k : κ) (v : ν) : SortedMap κ ν :=
  ⟨insertEntry k v m.entries, pairwise_insertEntry k v m.ascending⟩

/-- Keep the entries whose key and value pass a test. -/
def filter (p : κ → ν → Bool) (m : SortedMap κ ν) : SortedMap κ ν :=
  ⟨m.entries.filter fun e => p e.1 e.2, m.ascending.filter _⟩

def erase (m : SortedMap κ ν) (k : κ) : SortedMap κ ν :=
  m.filter fun j _ => compare k j ≠ .eq

def size (m : SortedMap κ ν) : Nat := m.entries.length

def keys (m : SortedMap κ ν) : List κ := m.entries.map (·.1)

def values (m : SortedMap κ ν) : List ν := m.entries.map (·.2)

/-- Insert entries one after the other. -/
def insertMany (m : SortedMap κ ν) (es : List (κ × ν)) : SortedMap κ ν :=
  es.foldl (fun m e => m.insert e.1 e.2) m

/-- The map of a list of entries, of which the last under a key counts. -/
def ofList (es : List (κ × ν)) : SortedMap κ ν := empty.insertMany es

end SortedMap

end RowStore
