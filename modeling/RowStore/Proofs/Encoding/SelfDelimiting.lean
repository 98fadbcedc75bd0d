import Mathlib.Algebra.Ring.Nat
import Mathlib.Tactic.Common
import RowStore.Answer
import RowStore.Proofs.SortedMap

/-!
# Where an encoded value ends

The bytes of a value say themselves where they end: a decoder takes them off the front of whatever
follows, and refuses them when they are cut short anywhere. `Decoder.Takes` states both halves for a
decoder, and it composes along `>>=`, so each type has it from the types that it is made of
(`selfDelimiting_encode`).
-/

namespace RowStore

/-! ## Decoders that take a value -/

namespace Decoder

variable {α β : Type} {d : Decoder α} {f : α → Decoder β} {bytes bytes' : List UInt8} {x : α}
  {y : β}

/-- The decoder takes `bytes` for `x`: it leaves what follows them, and refuses them cut short. -/
structure Takes (d : Decoder α) (bytes : List UInt8) (x : α) : Prop where
  whole : ∀ rest, d (bytes ++ rest) = .ok (x, rest)
  cut : ∀ front, front <+: bytes → front ≠ bytes → ∃ fault, d front = .error fault

theorem bind_apply (d : Decoder α) (f : α → Decoder β) (input : List UInt8) :
    (d >>= f) input = d input >>= fun a => f a.1 a.2 := rfl

theorem takes_pure (x : α) : (pure x : Decoder α).Takes [] x where
  whole _ := rfl
  cut _ hfront hne := absurd (List.prefix_nil.1 hfront) hne

/-- What is cut short ends in the first part, or behind it in the second one. -/
theorem Takes.bind (hd : d.Takes bytes x) (hf : (f x).Takes bytes' y) :
    (d >>= f).Takes (bytes ++ bytes') y where
  whole rest := by
    rw [bind_apply, List.append_assoc, hd.whole]
    exact hf.whole rest
  cut front hfront hne := by
    rw [bind_apply]
    by_cases hpart : bytes <+: front
    · obtain ⟨front', rfl⟩ := hpart
      rw [hd.whole]
      exact hf.cut front' ((List.prefix_append_right_inj bytes).1 hfront) fun h => hne (h ▸ rfl)
    · have hfront' : front <+: bytes :=
        (List.prefix_or_prefix_of_prefix hfront (List.prefix_append ..)).resolve_right hpart
      obtain ⟨fault, hfault⟩ := hd.cut front hfront' fun h => hpart (h ▸ List.prefix_rfl)
      exact ⟨fault, by rw [hfault]; rfl⟩

/-- A conversion of what was taken reads no more bytes. -/
theorem Takes.bind_pure (hd : d.Takes bytes x) (hf : f x = pure y) : (d >>= f).Takes bytes y := by
  have h := hd.bind (hf ▸ takes_pure y)
  rwa [List.append_nil] at h

theorem Takes.map (hd : d.Takes bytes x) (g : α → β) : (g <$> d).Takes bytes (g x) := by
  rw [map_eq_pure_bind]
  exact hd.bind_pure rfl

theorem takes_take (bytes : List UInt8) (short : DecodeFault) :
    (take bytes.length short).Takes bytes bytes where
  whole rest := by simp [take]
  cut front hfront hne := by
    have hlt : front.length < bytes.length :=
      Nat.lt_of_le_of_ne hfront.length_le fun h => hne (hfront.eq_of_length h)
    exact ⟨short, if_neg (Nat.not_le.2 hlt)⟩

end Decoder

/-! ## Numbers -/

theorem length_littleEndian (width n : Nat) : (littleEndian width n).length = width := by
  induction width generalizing n with
  | zero => rfl
  | succ width ih => rw [littleEndian, List.length_cons, ih]

/-- The bytes of a number hold it up to their width. -/
theorem ofLittleEndian_littleEndian {width n : Nat} (h : n < 256 ^ width) :
    ofLittleEndian (littleEndian width n) = n := by
  induction width generalizing n with
  | zero =>
    have hzero : n = 0 := by simpa using h
    rw [hzero]
    rfl
  | succ width ih =>
    rw [Nat.pow_succ] at h
    have hlow : (UInt8.ofNat n).toNat = n % 256 := UInt8.toNat_ofNat'
    rw [littleEndian, ofLittleEndian, ih (Nat.div_lt_of_lt_mul (by omega)), hlow]
    exact Nat.mod_add_div n 256

namespace Decoder

theorem takes_natural {width n : Nat} (h : n < 256 ^ width) :
    (natural width).Takes (littleEndian width n) n := by
  have htake := takes_take (littleEndian width n) .endOfBytes
  rw [length_littleEndian] at htake
  exact htake.bind_pure (by rw [ofLittleEndian_littleEndian h])

theorem takes_variant {α : Type} {alternatives : List (Decoder α)} {index : Nat} {d : Decoder α}
    {payload : List UInt8} {x : α} (hindex : index < 256 ^ 4) (hd : alternatives[index]? = some d)
    (h : d.Takes payload x) : (variant alternatives).Takes (encodeVariant index payload) x := by
  refine (takes_natural hindex).bind ?_
  rwa [hd]

theorem takes_many {α : Type} {one : Decoder α} {form : α → List UInt8} {xs : List α}
    (h : ∀ x ∈ xs, one.Takes (form x) x) : (many one xs.length).Takes (xs.flatMap form) xs := by
  induction xs with
  | nil => exact takes_pure []
  | cons x xs ih =>
    obtain ⟨hx, hxs⟩ := List.forall_mem_cons.1 h
    exact hx.bind ((ih hxs).bind_pure rfl)

end Decoder

/-! ## Types whose values end where they end -/

/-- Values that fit into the widths of the layout are taken from their bytes. -/
class LawfulEncoding (α : Type) [Encoding α] where
  /-- The counts and lengths of the value are within their widths. -/
  fits : α → Bool
  takes : ∀ x, fits x → (decode : Decoder α).Takes (encode x) x

export LawfulEncoding (fits)

namespace LawfulEncoding

instance : LawfulEncoding Bool where
  fits _ := true
  takes b _ := by
    cases b with
    | false => exact (Decoder.takes_natural (n := 0) (by decide)).bind_pure rfl
    | true => exact (Decoder.takes_natural (n := 1) (by decide)).bind_pure rfl

instance : LawfulEncoding Int64 where
  fits _ := true
  takes n _ := by
    refine (Decoder.takes_natural n.toUInt64.toNat_lt).bind_pure ?_
    have hback : Int64.ofNat n.toUInt64.toNat = n := by
      change (UInt64.ofNat n.toUInt64.toNat).toInt64 = n
      rw [UInt64.ofNat_toNat, Int64.toInt64_toUInt64]
    rw [hback]

instance : LawfulEncoding Binary64 where
  fits _ := true
  takes x _ := by
    refine (Decoder.takes_natural x.bits.toNat_lt).bind_pure ?_
    rw [UInt64.ofNat_toNat]

instance : LawfulEncoding Nat where
  fits n := n < 2 ^ 64
  takes _ h := Decoder.takes_natural (of_decide_eq_true h)

instance : LawfulEncoding String where
  fits s := fits (Utf8.encode s).length
  takes s h := by
    refine (takes _ h).bind ((Decoder.takes_take _ _).bind_pure ?_)
    rw [Utf8.decode_eq_ok.2 rfl]

instance {α : Type} [Encoding α] [LawfulEncoding α] : LawfulEncoding (List α) where
  fits xs := fits xs.length && xs.all fits
  takes xs h := by
    obtain ⟨hlength, hall⟩ := (Bool.and_eq_true ..).mp h
    rw [List.all_eq_true] at hall
    exact (takes _ hlength).bind (Decoder.takes_many fun x hx => takes x (hall x hx))

instance {α β : Type} [Encoding α] [LawfulEncoding α] [Encoding β] [LawfulEncoding β] :
    LawfulEncoding (α × β) where
  fits p := fits p.1 && fits p.2
  takes p h := by
    obtain ⟨hfirst, hsecond⟩ := (Bool.and_eq_true ..).mp h
    exact (takes p.1 hfirst).bind ((takes p.2 hsecond).bind_pure rfl)

instance : LawfulEncoding Kind where
  fits _ := true
  takes k _ := by
    cases k with
    | integer => exact Decoder.takes_variant (by decide) rfl (Decoder.takes_pure _)
    | float => exact Decoder.takes_variant (by decide) rfl (Decoder.takes_pure _)
    | string => exact Decoder.takes_variant (by decide) rfl (Decoder.takes_pure _)
    | boolean => exact Decoder.takes_variant (by decide) rfl (Decoder.takes_pure _)

instance : LawfulEncoding Value where
  fits
    | .string s => fits s
    | _ => true
  takes v h := by
    cases v with
    | unset => exact Decoder.takes_variant (by decide) rfl (Decoder.takes_pure _)
    | integer n => exact Decoder.takes_variant (by decide) rfl ((takes n rfl).map _)
    | float x => exact Decoder.takes_variant (by decide) rfl ((takes x rfl).map _)
    | string s => exact Decoder.takes_variant (by decide) rfl ((takes s h).map _)
    | boolean b => exact Decoder.takes_variant (by decide) rfl ((takes b rfl).map _)

instance : LawfulEncoding Row where
  fits row := fits row.entries
  takes row h := (takes row.entries h).bind_pure (congrArg pure row.ofList_entries)

instance : LawfulEncoding Column where
  fits c := fits c.name
  takes c h := (takes c.name h).bind ((takes c.kind rfl).bind_pure rfl)

instance : LawfulEncoding Answer where
  fits
    | .tableCreated table => fits table
    | .tableDropped table => fits table
    | .inserted count => fits count
    | .deleted count => fits count
    | .scan columns rows => fits columns && fits rows
  takes a h := by
    cases a with
    | tableCreated table => exact Decoder.takes_variant (by decide) rfl ((takes table h).map _)
    | tableDropped table => exact Decoder.takes_variant (by decide) rfl ((takes table h).map _)
    | inserted count => exact Decoder.takes_variant (by decide) rfl ((takes count h).map _)
    | deleted count => exact Decoder.takes_variant (by decide) rfl ((takes count h).map _)
    | scan columns rows =>
      obtain ⟨hcolumns, hrows⟩ := (Bool.and_eq_true ..).mp h
      exact Decoder.takes_variant (by decide) rfl
        ((takes columns hcolumns).bind ((takes rows hrows).bind_pure rfl))

end LawfulEncoding

/-! ## Values, kinds, columns and answers -/

/-- The bytes of a value are read back to it whatever follows them, of which nothing is read. Any
part that they begin with, but not the whole, is refused with an internal error. -/
def SelfDelimiting {α : Type} [Encoding α] (x : α) : Prop :=
  (∀ rest, (decode : Decoder α) (encode x ++ rest) = .ok (x, rest)) ∧
    ∀ front, front <+: encode x → front ≠ encode x →
      ∃ e, ((decode : Decoder α) front).mapError Error.undecodable = .error e ∧
        e.category = .internal

theorem selfDelimiting_of_fits {α : Type} [Encoding α] [LawfulEncoding α] {x : α} (h : fits x) :
    SelfDelimiting x := by
  obtain ⟨hwhole, hcut⟩ := LawfulEncoding.takes x h
  refine ⟨hwhole, fun front hfront hne => ?_⟩
  obtain ⟨fault, hfault⟩ := hcut front hfront hne
  exact ⟨.undecodable fault, by rw [hfault]; rfl, rfl⟩

/-- Encoded values, kinds, columns and answers are read back and end where they end, as long as
their counts and lengths can be written in eight bytes. -/
theorem selfDelimiting_encode :
    (∀ v : Value, fits v → SelfDelimiting v) ∧ (∀ k : Kind, SelfDelimiting k) ∧
      (∀ c : Column, fits c → SelfDelimiting c) ∧ ∀ a : Answer, fits a → SelfDelimiting a :=
  ⟨fun _ => selfDelimiting_of_fits, fun _ => selfDelimiting_of_fits rfl,
    fun _ => selfDelimiting_of_fits, fun _ => selfDelimiting_of_fits⟩

/-- Rows with texts beyond one byte a character, and with a double that is no number. -/
def sampleAnswer : Answer :=
  .scan ["name", "score"]
    [SortedMap.ofList [("name", .string "Zoë"), ("score", .float ⟨0x7FF8000000000001⟩)],
      SortedMap.ofList [("name", .string "李"), ("score", .unset)]]

theorem selfDelimiting_sampleAnswer :
    fits (Value.string "Zoë") ∧ SelfDelimiting (Value.string "Zoë") ∧
      fits (⟨"score", .float⟩ : Column) ∧ SelfDelimiting (⟨"score", .float⟩ : Column) ∧
      fits sampleAnswer ∧ SelfDelimiting sampleAnswer := by
  have hvalue : fits (Value.string "Zoë") := by decide +kernel
  have hcolumn : fits (⟨"score", .float⟩ : Column) := by decide +kernel
  have hanswer : fits sampleAnswer := by decide +kernel
  obtain ⟨hvalues, -, hcolumns, hanswers⟩ := selfDelimiting_encode
  exact ⟨hvalue, hvalues _ hvalue, hcolumn, hcolumns _ hcolumn, hanswer, hanswers _ hanswer⟩

end RowStore
