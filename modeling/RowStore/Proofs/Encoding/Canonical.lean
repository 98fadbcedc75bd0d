import RowStore.Proofs.Encoding.SelfDelimiting
import RowStore.Proofs.Except
import RowStore.Proofs.Text.Utf8

/-!
# Which bytes decode

Decoding accepts nothing but encodings: what a decoder takes off the front of bytes are the very
bytes that the value is encoded as, so no number of an alternative is out of range, no truth value
is other than zero or one, and no text is other than UTF-8. Only rows are read more freely, with
their entries in any order. The bytes of an answer are its encoding as soon as the entries of each
row stand in the order of their columns (`decode_iff_encode`).
-/

namespace RowStore

open RowStore.Except (stateT_bind_eq_ok stateT_pure_eq_ok stateT_throw_ne_ok stateT_map_eq_ok)

/-! ## What decoders take -/

theorem ofLittleEndian_lt (bytes : List UInt8) : ofLittleEndian bytes < 256 ^ bytes.length := by
  induction bytes with
  | nil => exact Nat.one_pos
  | cons b bytes ih =>
    have hb : b.toNat < 256 := b.toNat_lt
    rw [ofLittleEndian, List.length_cons, Nat.pow_succ]
    omega

/-- Bytes are determined by the number that they hold and their width. -/
theorem littleEndian_ofLittleEndian (bytes : List UInt8) :
    littleEndian bytes.length (ofLittleEndian bytes) = bytes := by
  induction bytes with
  | nil => rfl
  | cons b bytes ih =>
    have hb : b.toNat < 256 := b.toNat_lt
    have hlow : UInt8.ofNat (b.toNat + 256 * ofLittleEndian bytes) = b := by
      rw [← UInt8.toNat_inj, UInt8.toNat_ofNat']
      omega
    have hhigh : (b.toNat + 256 * ofLittleEndian bytes) / 256 = ofLittleEndian bytes := by omega
    rw [List.length_cons, ofLittleEndian, littleEndian, hlow, hhigh, ih]

namespace Decoder

variable {α β : Type} {bytes rest : List UInt8} {x : α}

theorem take_eq_ok {n : Nat} {short : DecodeFault} {front : List UInt8} :
    take n short bytes = .ok (front, rest) ↔ front.length = n ∧ bytes = front ++ rest := by
  unfold take
  constructor
  · intro h
    split at h
    · next hlength =>
      obtain ⟨rfl, rfl⟩ := Prod.mk.inj (Except.ok.inj h)
      exact ⟨List.length_take_of_le hlength, (List.take_append_drop n bytes).symm⟩
    · cases h
  · rintro ⟨rfl, rfl⟩
    simp

theorem natural_eq_ok {width n : Nat} : natural width bytes = .ok (n, rest) ↔
    n < 256 ^ width ∧ bytes = littleEndian width n ++ rest := by
  constructor
  · intro h
    obtain ⟨front, mid, hfront, h⟩ := stateT_bind_eq_ok.1 h
    obtain ⟨rfl, rfl⟩ := stateT_pure_eq_ok.1 h
    obtain ⟨rfl, rfl⟩ := take_eq_ok.1 hfront
    exact ⟨ofLittleEndian_lt front, by rw [littleEndian_ofLittleEndian]⟩
  · rintro ⟨hn, rfl⟩
    exact (takes_natural hn).whole rest

/-- What follows the number of an alternative is read by it. -/
theorem exists_of_variant_eq_ok {alternatives : List (Decoder α)}
    (h : variant alternatives bytes = .ok (x, rest)) :
    ∃ d index payload, (d, index) ∈ alternatives.zipIdx ∧ bytes = encodeVariant index payload ∧
      d payload = .ok (x, rest) := by
  obtain ⟨index, payload, hindex, h⟩ := stateT_bind_eq_ok.1 h
  obtain ⟨-, hbytes⟩ := natural_eq_ok.1 hindex
  cases hd : alternatives[index]? with
  | none => simp [hd, stateT_throw_ne_ok] at h
  | some d =>
    rw [hd] at h
    exact ⟨d, index, payload, List.mem_zipIdx_iff_getElem?.2 hd, hbytes, h⟩

/-- What is read in a row are as many values as asked for, each from its own bytes. -/
theorem many_eq_ok {one : Decoder α} {form : α → List UInt8} {P : α → Prop} {n : Nat}
    (h : ∀ {bytes rest x}, one bytes = .ok (x, rest) → P x ∧ bytes = form x ++ rest)
    {xs : List α} (hxs : many one n bytes = .ok (xs, rest)) :
    xs.length = n ∧ (∀ x ∈ xs, P x) ∧ bytes = xs.flatMap form ++ rest := by
  induction n generalizing bytes xs with
  | zero =>
    obtain ⟨rfl, rfl⟩ := stateT_pure_eq_ok.1 hxs
    exact ⟨rfl, List.forall_mem_nil _, rfl⟩
  | succ n ih =>
    obtain ⟨x, mid, hx, hxs⟩ := stateT_bind_eq_ok.1 hxs
    obtain ⟨xs', mid', hxs', hxs⟩ := stateT_bind_eq_ok.1 hxs
    obtain ⟨rfl, rfl⟩ := stateT_pure_eq_ok.1 hxs
    obtain ⟨hPx, rfl⟩ := h hx
    obtain ⟨rfl, hP, rfl⟩ := ih hxs'
    exact ⟨rfl, List.forall_mem_cons.2 ⟨hPx, hP⟩, by simp⟩

theorem many_map (g : α → β) (one : Decoder α) (n : Nat) :
    many (g <$> one) n = List.map g <$> many one n := by
  induction n with
  | zero => rfl
  | succ n ih => simp only [many, ih, bind_map_left, map_bind, map_pure, List.map_cons]

end Decoder

/-! ## Types of which only encodings are read -/

/-- Bytes decode to a value only if they begin with its encoding and the value fits into the widths
of the layout. -/
class CanonicalEncoding (α : Type) [Encoding α] [LawfulEncoding α] : Prop where
  canonical {bytes rest : List UInt8} {x : α} :
    decode bytes = .ok (x, rest) → fits x ∧ bytes = encode x ++ rest

export CanonicalEncoding (canonical)

theorem decode_eq_ok_iff {α : Type} [Encoding α] [LawfulEncoding α] [CanonicalEncoding α]
    {bytes rest : List UInt8} {x : α} :
    decode bytes = .ok (x, rest) ↔ fits x ∧ bytes = encode x ++ rest := by
  refine ⟨canonical, ?_⟩
  rintro ⟨hfits, rfl⟩
  exact (LawfulEncoding.takes x hfits).whole rest

namespace CanonicalEncoding

open Decoder

instance : CanonicalEncoding Bool where
  canonical h := by
    obtain ⟨byte, mid, hbyte, hread⟩ := stateT_bind_eq_ok.1 h
    obtain ⟨-, rfl⟩ := natural_eq_ok.1 hbyte
    split at hread
    · next hzero =>
      obtain ⟨rfl, rfl⟩ := stateT_pure_eq_ok.1 hread
      exact ⟨rfl, by rw [hzero]; rfl⟩
    · split at hread
      · next hone =>
        obtain ⟨rfl, rfl⟩ := stateT_pure_eq_ok.1 hread
        exact ⟨rfl, by rw [hone]; rfl⟩
      · exact absurd hread stateT_throw_ne_ok

instance : CanonicalEncoding Int64 where
  canonical h := by
    obtain ⟨n, mid, hn, hread⟩ := stateT_bind_eq_ok.1 h
    obtain ⟨rfl, rfl⟩ := stateT_pure_eq_ok.1 hread
    obtain ⟨hlt, rfl⟩ := natural_eq_ok.1 hn
    have hback : (Int64.ofNat n).toUInt64.toNat = n := UInt64.toNat_ofNat_of_lt hlt
    exact ⟨rfl, congrArg (littleEndian 8 · ++ mid) hback.symm⟩

instance : CanonicalEncoding Binary64 where
  canonical h := by
    obtain ⟨n, mid, hn, hread⟩ := stateT_bind_eq_ok.1 h
    obtain ⟨rfl, rfl⟩ := stateT_pure_eq_ok.1 hread
    obtain ⟨hlt, rfl⟩ := natural_eq_ok.1 hn
    have hback : (UInt64.ofNat n).toNat = n := UInt64.toNat_ofNat_of_lt hlt
    exact ⟨rfl, congrArg (littleEndian 8 · ++ mid) hback.symm⟩

instance : CanonicalEncoding Nat where
  canonical h := by
    obtain ⟨hlt, rfl⟩ := natural_eq_ok.1 h
    exact ⟨decide_eq_true hlt, rfl⟩

instance : CanonicalEncoding String where
  canonical h := by
    obtain ⟨length, mid, hlength, hread⟩ := stateT_bind_eq_ok.1 h
    obtain ⟨front, mid', hfront, htext⟩ := stateT_bind_eq_ok.1 hread
    obtain ⟨hfits, rfl⟩ := canonical hlength
    obtain ⟨rfl, rfl⟩ := take_eq_ok.1 hfront
    cases hs : Utf8.decode front with
    | error fault => simp [hs, stateT_throw_ne_ok] at htext
    | ok s =>
      rw [hs] at htext
      obtain ⟨rfl, rfl⟩ := stateT_pure_eq_ok.1 htext
      obtain rfl := Utf8.decode_eq_ok.1 hs
      exact ⟨hfits, (List.append_assoc ..).symm⟩

instance {α : Type} [Encoding α] [LawfulEncoding α] [CanonicalEncoding α] :
    CanonicalEncoding (List α) where
  canonical h := by
    obtain ⟨length, mid, hlength, hread⟩ := stateT_bind_eq_ok.1 h
    obtain ⟨hfits, rfl⟩ := canonical hlength
    obtain ⟨rfl, hall, rfl⟩ := many_eq_ok canonical hread
    refine ⟨?_, (List.append_assoc ..).symm⟩
    exact (Bool.and_eq_true ..).mpr ⟨hfits, List.all_eq_true.2 hall⟩

instance {α β : Type} [Encoding α] [LawfulEncoding α] [CanonicalEncoding α] [Encoding β]
    [LawfulEncoding β] [CanonicalEncoding β] : CanonicalEncoding (α × β) where
  canonical h := by
    obtain ⟨a, mid, ha, hread⟩ := stateT_bind_eq_ok.1 h
    obtain ⟨b, mid', hb, hpair⟩ := stateT_bind_eq_ok.1 hread
    obtain ⟨rfl, rfl⟩ := stateT_pure_eq_ok.1 hpair
    obtain ⟨hfirst, rfl⟩ := canonical ha
    obtain ⟨hsecond, rfl⟩ := canonical hb
    exact ⟨(Bool.and_eq_true ..).mpr ⟨hfirst, hsecond⟩, (List.append_assoc ..).symm⟩

instance : CanonicalEncoding Kind where
  canonical h := by
    obtain ⟨d, index, payload, hd, rfl, hread⟩ := exists_of_variant_eq_ok h
    simp only [List.zipIdx, List.mem_cons, Prod.mk.injEq, List.not_mem_nil, or_false] at hd
    obtain ⟨rfl, rfl⟩ | ⟨rfl, rfl⟩ | ⟨rfl, rfl⟩ | ⟨rfl, rfl⟩ := hd
    all_goals
      obtain ⟨rfl, rfl⟩ := stateT_pure_eq_ok.1 hread
      exact ⟨rfl, rfl⟩

instance : CanonicalEncoding Value where
  canonical h := by
    obtain ⟨d, index, payload, hd, rfl, hread⟩ := exists_of_variant_eq_ok h
    simp only [List.zipIdx, List.mem_cons, Prod.mk.injEq, List.not_mem_nil, or_false] at hd
    obtain ⟨rfl, rfl⟩ | ⟨rfl, rfl⟩ | ⟨rfl, rfl⟩ | ⟨rfl, rfl⟩ | ⟨rfl, rfl⟩ := hd
    · obtain ⟨rfl, rfl⟩ := stateT_pure_eq_ok.1 hread
      exact ⟨rfl, rfl⟩
    all_goals
      obtain ⟨x, hx, rfl⟩ := stateT_map_eq_ok.1 hread
      obtain ⟨hfits, rfl⟩ := canonical hx
      exact ⟨hfits, (List.append_assoc ..).symm⟩

instance : CanonicalEncoding Column where
  canonical h := by
    obtain ⟨name, mid, hname, hread⟩ := stateT_bind_eq_ok.1 h
    obtain ⟨kind, mid', hkind, hcolumn⟩ := stateT_bind_eq_ok.1 hread
    obtain ⟨rfl, rfl⟩ := stateT_pure_eq_ok.1 hcolumn
    obtain ⟨hfits, rfl⟩ := canonical hname
    obtain ⟨-, rfl⟩ := canonical hkind
    exact ⟨hfits, (List.append_assoc ..).symm⟩

end CanonicalEncoding

/-! ## Rows and answers -/

/-- The entries of a row as they stand in bytes, in any order. -/
abbrev RowEntries := List (String × Value)

namespace RowEntries

/-- The columns ascend in the order of their bytes. -/
def Ascend (entries : RowEntries) : Prop :=
  entries.Pairwise fun a b => Utf8.encode a.1 < Utf8.encode b.1

theorem ascend_iff {entries : RowEntries} :
    entries.Ascend ↔ entries.Pairwise fun a b => compare a.1 b.1 = .lt := by
  simp only [Ascend, Utf8.compare_eq_lt_iff]

theorem ascend_entries (row : Row) : Ascend row.entries := ascend_iff.2 row.ascending

/-- The row of ascending entries has these entries. -/
theorem Ascend.entries_ofList {entries : RowEntries} (h : entries.Ascend) :
    (SortedMap.ofList entries).entries = entries :=
  congrArg SortedMap.entries (SortedMap.ofList_entries ⟨entries, ascend_iff.1 h⟩)

end RowEntries

namespace Answer

/-- The bytes hold the columns and rows of a query, and these are the rows with their entries in the
order in which they stand there. -/
def RowsRead (bytes : List UInt8) (read : List RowEntries) : Prop :=
  ∃ payload columns rest, bytes = encodeVariant 4 payload ∧
    decode payload = .ok (((columns : List String), read), rest)

/-- In every row that the bytes hold the columns ascend. -/
def RowsAscend (bytes : List UInt8) : Prop :=
  ∀ read, RowsRead bytes read → ∀ entries ∈ read, entries.Ascend

open Decoder

variable {a : Answer} {columns : List String} {read : List RowEntries} {bytes rest : List UInt8}

/-- Columns and rows are read like columns and lists of entries. -/
theorem decode_scan : (do
    let columns ← decode
    let rows ← decode
    return scan columns rows) = (fun p : List String × List RowEntries =>
      scan p.1 (p.2.map SortedMap.ofList)) <$> decode := by
  have hrows : (decode : Decoder (List Row)) =
      List.map SortedMap.ofList <$> (decode : Decoder (List RowEntries)) := by
    change (decode >>= many (SortedMap.ofList <$> decode)) = _
    rw [funext (many_map SortedMap.ofList decode), ← map_bind]
    rfl
  have hpair : (decode : Decoder (List String × List RowEntries)) = (do
      let columns ← decode
      let read ← decode
      return (columns, read)) := rfl
  simp only [hrows, hpair, map_bind, map_pure, bind_map_left]

theorem encode_rows (rows : List Row) :
    encode rows = encode (rows.map SortedMap.entries : List RowEntries) := by
  change encode rows.length ++ rows.flatMap encode = encode (rows.map SortedMap.entries).length ++
    (rows.map SortedMap.entries).flatMap encode
  rw [List.length_map, List.flatMap_map]
  rfl

theorem fits_rows (rows : List Row) :
    fits rows = fits (rows.map SortedMap.entries : List RowEntries) := by
  change (fits rows.length && rows.all fits) = (fits (rows.map SortedMap.entries).length &&
    (rows.map SortedMap.entries).all fits)
  rw [List.length_map, List.all_map]
  rfl

/-- The rows of ascending entries have these entries. -/
theorem map_entries_ofList (h : ∀ entries ∈ read, entries.Ascend) :
    (read.map SortedMap.ofList).map SortedMap.entries = read := by
  rw [List.map_map]
  exact (List.map_congr_left fun entries he => (h entries he).entries_ofList).trans (List.map_id _)

/-- Only the rows of a query can be read in another order than that of their encoding. -/
theorem cases_of_decode (h : decode bytes = .ok (a, rest)) :
    (fits a ∧ bytes = encode a ++ rest ∧ ∀ columns rows, a ≠ scan columns rows) ∨
      ∃ columns payload, ∃ read : List RowEntries, a = scan columns (read.map SortedMap.ofList) ∧
        bytes = encodeVariant 4 payload ∧ decode payload = .ok ((columns, read), rest) := by
  obtain ⟨d, index, payload, hd, rfl, hread⟩ := exists_of_variant_eq_ok h
  simp only [List.zipIdx, List.mem_cons, Prod.mk.injEq, List.not_mem_nil, or_false] at hd
  obtain ⟨rfl, rfl⟩ | ⟨rfl, rfl⟩ | ⟨rfl, rfl⟩ | ⟨rfl, rfl⟩ | ⟨rfl, rfl⟩ := hd
  case inr.inr.inr.inr =>
    rw [decode_scan] at hread
    obtain ⟨⟨columns, read⟩, hpayload, rfl⟩ := stateT_map_eq_ok.1 hread
    exact .inr ⟨columns, payload, read, rfl, rfl, hpayload⟩
  all_goals
    obtain ⟨x, hx, rfl⟩ := stateT_map_eq_ok.1 hread
    obtain ⟨hfits, rfl⟩ := canonical hx
    exact .inl ⟨hfits, (List.append_assoc ..).symm, nofun⟩

theorem rowsRead_of_decode {rows : List Row} (h : decode bytes = .ok (scan columns rows, rest)) :
    ∃ read, RowsRead bytes read ∧ rows = read.map SortedMap.ofList := by
  obtain ⟨-, -, hne⟩ | ⟨columns', payload, read, hscan, hbytes, hpayload⟩ := cases_of_decode h
  · exact absurd rfl (hne columns rows)
  · exact ⟨read, ⟨payload, columns', rest, hbytes, hpayload⟩, (scan.inj hscan).2⟩

theorem canonical_of_rowsAscend (h : decode bytes = .ok (a, rest)) (hascend : RowsAscend bytes) :
    fits a ∧ bytes = encode a ++ rest := by
  obtain ⟨hfits, hbytes, -⟩ | ⟨columns, payload, read, rfl, rfl, hpayload⟩ := cases_of_decode h
  · exact ⟨hfits, hbytes⟩
  · have hentries := map_entries_ofList (hascend read ⟨payload, columns, rest, rfl, hpayload⟩)
    obtain ⟨hfits, rfl⟩ := canonical hpayload
    constructor
    · change (fits columns && fits (read.map SortedMap.ofList)) = true
      rw [fits_rows, hentries]
      exact hfits
    · change _ = encodeVariant 4 (encode columns ++ encode (read.map SortedMap.ofList)) ++ rest
      rw [encode_rows, hentries]
      exact (List.append_assoc ..).symm

/-- An encoded answer holds the entries of its rows in their order. -/
theorem rowsAscend_encode (h : fits a) : RowsAscend (encode a ++ rest) := by
  rintro read ⟨payload, columns', rest', hbytes, hpayload⟩
  cases a with
  | scan columns rows =>
    have hpayload' : payload = encode (columns, rows.map SortedMap.entries) ++ rest := by
      change littleEndian 4 4 ++ (encode columns ++ encode rows) ++ rest = _ at hbytes
      rw [encode_rows, List.append_assoc] at hbytes
      exact (List.append_cancel_left hbytes).symm
    have hfits : fits (columns, (rows.map SortedMap.entries : List RowEntries)) := by
      change (fits columns && fits (rows.map SortedMap.entries : List RowEntries)) = true
      rw [← fits_rows]
      exact h
    have hread := decode_eq_ok_iff.2 ⟨hfits, hpayload'⟩
    rw [hpayload] at hread
    obtain ⟨hpair, -⟩ := Prod.mk.inj (Except.ok.inj hread)
    obtain ⟨-, rfl⟩ := Prod.mk.inj hpair
    intro entries hentries
    obtain ⟨row, -, rfl⟩ := List.mem_map.1 hentries
    exact RowEntries.ascend_entries row
  | _ => simp [encode, encodeVariant, littleEndian] at hbytes

end Answer

/-! ## Values, kinds, columns and answers -/

/-- Bytes decode to a value, a kind or a column exactly if they begin with its encoding, and to an
answer too, if the entries of the rows that they hold stand in the order of their columns. -/
theorem decode_iff_encode :
    (∀ (v : Value) (bytes rest : List UInt8),
      decode bytes = .ok (v, rest) ↔ fits v ∧ bytes = encode v ++ rest) ∧
    (∀ (k : Kind) (bytes rest : List UInt8),
      decode bytes = .ok (k, rest) ↔ bytes = encode k ++ rest) ∧
    (∀ (c : Column) (bytes rest : List UInt8),
      decode bytes = .ok (c, rest) ↔ fits c ∧ bytes = encode c ++ rest) ∧
    (∀ columns rows bytes rest, decode bytes = .ok (Answer.scan columns rows, rest) →
      ∃ read, Answer.RowsRead bytes read ∧ rows = read.map SortedMap.ofList) ∧
    ∀ (a : Answer) (bytes rest : List UInt8),
      decode bytes = .ok (a, rest) ∧ Answer.RowsAscend bytes ↔
        fits a ∧ bytes = encode a ++ rest := by
  refine ⟨fun _ _ _ => decode_eq_ok_iff, fun _ _ _ => decode_eq_ok_iff.trans (and_iff_right rfl),
    fun _ _ _ => decode_eq_ok_iff, fun _ _ _ _ => Answer.rowsRead_of_decode, fun a _ rest => ?_⟩
  constructor
  · rintro ⟨h, hascend⟩
    exact Answer.canonical_of_rowsAscend h hascend
  · rintro ⟨hfits, rfl⟩
    exact ⟨(LawfulEncoding.takes a hfits).whole rest, Answer.rowsAscend_encode hfits⟩

/-- The entries of a row in another order than that of their columns. -/
def shuffledEntries : RowEntries := [("score", .integer 3), ("name", .string "Zoë")]

def shuffledBytes : List UInt8 := encodeVariant 4 (encode ["name"] ++ encode [shuffledEntries])

/-- Shuffled entries are read, but they are not what the answer is encoded as. -/
theorem decode_shuffledBytes :
    let a := Answer.scan ["name"] [SortedMap.ofList shuffledEntries]
    decode shuffledBytes = .ok (a, []) ∧
      (∃ read, Answer.RowsRead shuffledBytes read ∧
        [SortedMap.ofList shuffledEntries] = read.map SortedMap.ofList) ∧
      ¬Answer.RowsAscend shuffledBytes ∧ shuffledBytes ≠ encode a ∧
      decode (encode a ++ [7]) = .ok (a, [7]) ∧ Answer.RowsAscend (encode a ++ [7]) := by
  intro a
  obtain ⟨-, -, -, hread, hanswer⟩ := decode_iff_encode
  have hdecode : decode shuffledBytes = .ok (a, []) := by decide +kernel
  have hne : shuffledBytes ≠ encode a := by decide +kernel
  have hfits : fits a := by decide +kernel
  refine ⟨hdecode, hread _ _ _ _ hdecode, fun hascend => ?_, hne, ?_⟩
  · obtain ⟨-, hbytes⟩ := (hanswer a shuffledBytes []).1 ⟨hdecode, hascend⟩
    exact hne (hbytes.trans (List.append_nil _))
  · exact (hanswer a (encode a ++ [7]) [7]).2 ⟨hfits, rfl⟩

end RowStore
