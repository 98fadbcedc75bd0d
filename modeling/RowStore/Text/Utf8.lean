/-!
# UTF-8

Text as bytes, and bytes as text. Bytes that are no text are refused with the place of the first
fault: the index at which the offending character starts, and how many of its bytes are well formed
up to the fault.
-/

namespace RowStore

/-- Why bytes are not UTF-8. -/
inductive Utf8Fault where
  /-- The `length` bytes from `start` begin no character. -/
  | invalid (length start : Nat)
  /-- The bytes end inside the character that begins at `start`. -/
  | incomplete (start : Nat)
  deriving DecidableEq, Repr

def Utf8Fault.message : Utf8Fault → String
  | .invalid length start => s!"invalid utf-8 sequence of {length} bytes from index {start}"
  | .incomplete start => s!"incomplete utf-8 byte sequence from index {start}"

namespace Utf8

/-- Bounds of a byte, both included. -/
abbrev Bounds := UInt8 × UInt8

def Bounds.admit (r : Bounds) (b : UInt8) : Bool := r.1 ≤ b && b ≤ r.2

/-- A byte that continues a character. -/
def further : Bounds := (0x80, 0xBF)

/-- What must follow a first byte: the narrower second byte excludes overlong forms, surrogates and
code points past the last one. -/
def following? (b : UInt8) : Option (List Bounds) :=
  if b < 0x80 then some []
  else if b < 0xC2 then none
  else if b < 0xE0 then some [further]
  else if b = 0xE0 then some [(0xA0, 0xBF), further]
  else if b = 0xED then some [(0x80, 0x9F), further]
  else if b < 0xF0 then some [further, further]
  else if b = 0xF0 then some [(0x90, 0xBF), further, further]
  else if b < 0xF4 then some [further, further, further]
  else if b = 0xF4 then some [(0x80, 0x8F), further, further]
  else none

/-- How many bytes meet their bounds before the first that does not. -/
def agreeing : List Bounds → List UInt8 → Nat
  | r :: rs, b :: bs => if r.admit b then agreeing rs bs + 1 else 0
  | _, _ => 0

/-- The first fault of bytes that are not UTF-8 and start at index `start`. -/
def fault (start : Nat) : List UInt8 → Utf8Fault
  | [] => .incomplete start
  | b :: bs =>
    match following? b with
    | none => .invalid 1 start
    | some rs =>
      let n := agreeing rs bs
      if n = rs.length then fault (start + n + 1) (bs.drop n)
      else if n = bs.length then .incomplete start
      else .invalid (n + 1) start
termination_by bs => bs.length
decreasing_by simp only [List.length_drop, List.length_cons]; omega

def encode (s : String) : List UInt8 := s.toByteArray.data.toList

def decode (bytes : List UInt8) : Except Utf8Fault String :=
  match String.fromUTF8? ⟨bytes.toArray⟩ with
  | some s => .ok s
  | none => .error (fault 0 bytes)

/-- Bytes decode to the text that they encode, and to no other. -/
theorem decode_eq_ok {bytes : List UInt8} {s : String} :
    decode bytes = .ok s ↔ bytes = encode s := by
  constructor
  · intro h
    unfold decode String.fromUTF8? at h
    by_cases valid : ByteArray.IsValidUTF8 ⟨bytes.toArray⟩
    · simp only [dif_pos valid, Except.ok.injEq] at h
      rw [← h]
      rfl
    · simp [dif_neg valid] at h
  · rintro rfl
    have bytes_eq : (⟨(encode s).toArray⟩ : ByteArray) = s.toByteArray := by simp [encode]
    unfold decode String.fromUTF8?
    rw [bytes_eq, dif_pos s.isValidUTF8]
    rfl

end Utf8

end RowStore
