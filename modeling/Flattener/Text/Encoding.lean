import Flattener.Text.Quoted

/-!
# Text from bytes

The encodings in which a source may be written. Bytes that are no text of an
encoding are reported by the first stretch of them that is none: in UTF-8 a byte
that begins no character, or the bytes that begin one but do not complete it.
-/

namespace Flattener.Text

/-- How characters are written as bytes. -/
inductive Encoding
  | utf8
  | latin1
  | ascii
  deriving DecidableEq, Repr

/-- The name of an encoding in messages. -/
def Encoding.name : Encoding → String
  | .utf8 => "utf-8"
  | .latin1 => "latin-1"
  | .ascii => "ascii"

/-- What is wrong with bytes. -/
inductive DecodeReason
  | invalidStart
  | invalidContinuation
  | unexpectedEnd
  | notAscii
  deriving DecidableEq, Repr

/-- The reason in the words of the message. -/
def DecodeReason.text : DecodeReason → String
  | .invalidStart => "invalid start byte"
  | .invalidContinuation => "invalid continuation byte"
  | .unexpectedEnd => "unexpected end of data"
  | .notAscii => "ordinal not in range(128)"

/-- Bytes that are no text. -/
structure DecodeError where
  encoding : Encoding
  /-- The first of the bytes. -/
  byte : UInt8
  /-- How many bytes stand before it. -/
  position : Nat
  /-- How many bytes are covered. -/
  length : Nat
  reason : DecodeReason
  deriving DecidableEq, Repr

/-- The description of an error, which shows a byte only if it is a sole one. -/
def DecodeError.text (e : DecodeError) : String :=
  let place :=
    if e.length = 1 then
      let digits := String.ofList (hexDigits e.byte.toNat 2)
      s!"byte 0x{digits} in position {e.position}"
    else s!"bytes in position {e.position}-{e.position + e.length - 1}"
  s!"'{e.encoding.name}' codec can't decode {place}: {e.reason.text}"

/-- The ranges of the bytes that have to follow a byte in UTF-8, if it begins a
    character. They leave out spellings that are too long, surrogates and
    numbers beyond the last code point. -/
def continuations? (byte : Nat) : Option (List (Nat × Nat)) :=
  let any := (0x80, 0xbf)
  if byte < 0x80 then some []
  else if byte < 0xc2 then none
  else if byte < 0xe0 then some [any]
  else if byte = 0xe0 then some [(0xa0, 0xbf), any]
  else if byte = 0xed then some [(0x80, 0x9f), any]
  else if byte < 0xf0 then some [any, any]
  else if byte = 0xf0 then some [(0x90, 0xbf), any, any]
  else if byte < 0xf4 then some [any, any, any]
  else if byte = 0xf4 then some [(0x80, 0x8f), any, any]
  else none

/-- How many bytes at the head of a list lie in the ranges, in order. -/
def countWithin : List (Nat × Nat) → List UInt8 → Nat
  | (low, high) :: ranges, byte :: bytes =>
    if low ≤ byte.toNat ∧ byte.toNat ≤ high then countWithin ranges bytes + 1 else 0
  | _, _ => 0

/-- The code point of a leading byte and its continuations. -/
def codePointOf (lead : Nat) (others : List UInt8) : Nat :=
  let bits := match others.length with
    | 0 => lead
    | 1 => lead % 0x20
    | 2 => lead % 0x10
    | _ => lead % 0x08
  others.foldl (fun value byte => value * 64 + byte.toNat % 64) bits

/-- The characters of bytes in UTF-8, the first of which has a position. -/
def decodeUtf8 (position : Nat) : List UInt8 → Except DecodeError (List Char)
  | [] => .ok []
  | byte :: bytes =>
    match continuations? byte.toNat with
    | none => .error ⟨.utf8, byte, position, 1, .invalidStart⟩
    | some ranges =>
      let count := countWithin ranges bytes
      if count = ranges.length then
        let char := Char.ofNat (codePointOf byte.toNat (bytes.take count))
        (decodeUtf8 (position + count + 1) (bytes.drop count)).map (char :: ·)
      else
        let reason := if bytes.length = count then .unexpectedEnd else .invalidContinuation
        .error ⟨.utf8, byte, position, count + 1, reason⟩
  termination_by bytes => bytes.length
  decreasing_by
    rw [List.length_drop, List.length_cons]
    exact Nat.lt_succ_of_le (Nat.sub_le _ _)

/-- The characters of bytes in ASCII, the first of which has a position. -/
def decodeAscii (position : Nat) : List UInt8 → Except DecodeError (List Char)
  | [] => .ok []
  | byte :: bytes =>
    if byte.toNat < 0x80 then
      (decodeAscii (position + 1) bytes).map (Char.ofNat byte.toNat :: ·)
    else .error ⟨.ascii, byte, position, 1, .notAscii⟩

/-- The characters of bytes in an encoding. -/
def decode (encoding : Encoding) (bytes : List UInt8) : Except DecodeError (List Char) :=
  match encoding with
  | .utf8 => decodeUtf8 0 bytes
  | .latin1 => .ok (bytes.map fun byte => Char.ofNat byte.toNat)
  | .ascii => decodeAscii 0 bytes

end Flattener.Text
