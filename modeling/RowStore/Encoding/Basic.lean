import RowStore.Number.Binary64
import RowStore.Text.Utf8

/-!
# Binary encoding

Values are encoded as bytes so that decoding knows from the bytes read so far how many follow:
numbers have a fixed width and their least byte first, texts and lists are preceded by their
length, and the alternatives of a type by their number. Decoding takes the bytes of one value from
the front and leaves the others.
-/

namespace RowStore

/-- Why bytes are not an encoded value. -/
inductive DecodeFault where
  /-- The bytes end inside a number. -/
  | endOfBytes
  /-- Fewer bytes follow than a text's length says. -/
  | endOfText
  | unknownVariant (index count : Nat)
  | noBoolean (byte : Nat)
  | noText (fault : Utf8Fault)
  deriving DecidableEq, Repr

def DecodeFault.message : DecodeFault → String
  | .endOfBytes => "io error: unexpected end of file"
  | .endOfText => "io error: "
  | .unknownVariant index count =>
    s!"invalid value: integer `{index}`, expected variant index 0 <= i < {count}"
  | .noBoolean byte => s!"invalid u8 while decoding bool, expected 0 or 1, found {byte}"
  | .noText fault => "string is not valid utf8: " ++ fault.message

/-- A reader of values from the front of bytes. -/
abbrev Decoder := StateT (List UInt8) (Except DecodeFault)

/-- A type with a binary form. -/
class Encoding (α : Type) where
  encode : α → List UInt8
  decode : Decoder α

export Encoding (encode decode)

/-- The low `width` bytes of a number, the least first. -/
def littleEndian : Nat → Nat → List UInt8
  | 0, _ => []
  | width + 1, n => UInt8.ofNat n :: littleEndian width (n / 256)

def ofLittleEndian : List UInt8 → Nat
  | [] => 0
  | b :: bs => b.toNat + 256 * ofLittleEndian bs

namespace Decoder

/-- The next `n` bytes. -/
def take (n : Nat) (short : DecodeFault) : Decoder (List UInt8) := fun bytes =>
  if n ≤ bytes.length then .ok (bytes.take n, bytes.drop n) else .error short

def natural (width : Nat) : Decoder Nat := do
  return ofLittleEndian (← take width .endOfBytes)

/-- Alternatives are numbered from zero in four bytes. -/
def variant {α : Type} (alternatives : List (Decoder α)) : Decoder α := do
  let index ← natural 4
  match alternatives[index]? with
  | some alternative => alternative
  | none => throw (.unknownVariant index alternatives.length)

/-- A given number of values in a row. -/
def many {α : Type} (one : Decoder α) : Nat → Decoder (List α)
  | 0 => return []
  | n + 1 => do
    let x ← one
    let xs ← many one n
    return x :: xs

end Decoder

def encodeVariant (index : Nat) (payload : List UInt8) : List UInt8 :=
  littleEndian 4 index ++ payload

instance : Encoding Bool where
  encode b := [if b then 1 else 0]
  decode := do
    let byte ← Decoder.natural 1
    if byte = 0 then return false
    else if byte = 1 then return true
    else throw (.noBoolean byte)

instance : Encoding Int64 where
  encode n := littleEndian 8 n.toUInt64.toNat
  decode := do return Int64.ofNat (← Decoder.natural 8)

instance : Encoding Binary64 where
  encode x := littleEndian 8 x.bits.toNat
  decode := do return ⟨UInt64.ofNat (← Decoder.natural 8)⟩

/-- Counts are written like lengths. -/
instance : Encoding Nat where
  encode n := littleEndian 8 n
  decode := Decoder.natural 8

instance : Encoding String where
  encode s := encode (Utf8.encode s).length ++ Utf8.encode s
  decode := do
    let length : Nat ← decode
    match Utf8.decode (← Decoder.take length .endOfText) with
    | .ok s => return s
    | .error fault => throw (.noText fault)

instance {α : Type} [Encoding α] : Encoding (List α) where
  encode xs := encode xs.length ++ xs.flatMap encode
  decode := do Decoder.many decode (← decode)

instance {α β : Type} [Encoding α] [Encoding β] : Encoding (α × β) where
  encode p := encode p.1 ++ encode p.2
  decode := do
    let a ← decode
    let b ← decode
    return (a, b)

end RowStore
