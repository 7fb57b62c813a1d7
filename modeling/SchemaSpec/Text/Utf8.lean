import SchemaSpec.Text.Basic

/-!
# Texts as bytes

* `encode`: the UTF-8 bytes of a text.  This never fails, since no character is half of a surrogate
  pair.  Words and variables from outside may hold such halves, for bytes that are no text;
  `EncodeError` is how encoding them fails.
* `decode`: the text of UTF-8 bytes.  It reads byte by byte: a leading byte fixes how many bytes
  follow and the range of the next one, so that overlong forms and surrogates are refused at
  their second byte.  A failure names the bytes from the leading one on and the reason.
* `unifyLineEnds`: each of the three line ends becomes a line feed.
-/

namespace SchemaSpec
namespace Text

/-- The bytes of a file. -/
abbrev Bytes := List UInt8

/-- The UTF-8 bytes of a character. -/
def encodeChar (c : Char) : Bytes :=
  let n := c.toNat
  if n < 0x80 then [n.toUInt8]
  else if n < 0x800 then [(0xC0 + n / 64).toUInt8, (0x80 + n % 64).toUInt8]
  else if n < 0x10000 then
    [(0xE0 + n / 4096).toUInt8, (0x80 + n / 64 % 64).toUInt8, (0x80 + n % 64).toUInt8]
  else
    [(0xF0 + n / 262144).toUInt8, (0x80 + n / 4096 % 64).toUInt8, (0x80 + n / 64 % 64).toUInt8,
      (0x80 + n % 64).toUInt8]

/-- The UTF-8 bytes of a text. -/
def encode (t : Text) : Bytes :=
  t.flatMap encodeChar

/-- Why what came from outside cannot be encoded, in the words of the encoder. -/
structure EncodeError where
  message : Text
  deriving Repr, DecidableEq

/-- Why bytes are not the UTF-8 form of a text. -/
inductive Utf8Fault
  | badStart
  | badContinuation
  | truncated
  deriving Repr, DecidableEq

/-- The words for a fault. -/
def Utf8Fault.reason : Utf8Fault → Text
  | .badStart => "invalid start byte".toList
  | .badContinuation => "invalid continuation byte".toList
  | .truncated => "unexpected end of data".toList

/-- The bytes at which decoding fails: their place, how many they are, the first of them. -/
structure Utf8Error where
  position : Nat
  count : Nat
  lead : UInt8
  fault : Utf8Fault
  deriving Repr, DecidableEq

/-- Two hexadecimal digits of a byte. -/
def hexByte (b : UInt8) : Text :=
  [Nat.digitChar (b.toNat / 16), Nat.digitChar (b.toNat % 16)]

/-- The message of a decoding failure. -/
def Utf8Error.message (e : Utf8Error) : Text :=
  (if e.count = 1 then
    "'utf-8' codec can't decode byte 0x".toList ++ hexByte e.lead ++ " in position ".toList
      ++ ofNat e.position
  else
    "'utf-8' codec can't decode bytes in position ".toList ++ ofNat e.position ++ ['-']
      ++ ofNat (e.position + e.count - 1))
    ++ ": ".toList ++ e.fault.reason

/-- A character whose bytes are partly read: where it starts, its leading byte, the bytes read and
the bytes missing, the range of the next byte, and the bits read so far. -/
structure Utf8Partial where
  position : Nat
  lead : UInt8
  read : Nat
  missing : Nat
  least : UInt8
  greatest : UInt8
  bits : Nat
  deriving Repr, DecidableEq

/-- What a leading byte says: the character itself, or one whose bytes follow. -/
def leadByte (position : Nat) (b : UInt8) : Except Utf8Error (Char ⊕ Utf8Partial) :=
  let n := b.toNat
  if n < 0x80 then .ok (.inl (Char.ofNat n))
  else if n < 0xC2 then .error ⟨position, 1, b, .badStart⟩
  else if n < 0xE0 then .ok (.inr ⟨position, b, 1, 1, 0x80, 0xBF, n - 0xC0⟩)
  else if n < 0xF0 then
    .ok (.inr ⟨position, b, 1, 2, if n = 0xE0 then 0xA0 else 0x80, if n = 0xED then 0x9F else 0xBF,
      n - 0xE0⟩)
  else if n < 0xF5 then
    .ok (.inr ⟨position, b, 1, 3, if n = 0xF0 then 0x90 else 0x80, if n = 0xF4 then 0x8F else 0xBF,
      n - 0xF0⟩)
  else .error ⟨position, 1, b, .badStart⟩

/-- Read on behind a partly read character, if there is one. -/
def decodeFrom (position : Nat) : Option Utf8Partial → Bytes → Except Utf8Error Text
  | none, [] => .ok []
  | some p, [] => .error ⟨p.position, p.read, p.lead, .truncated⟩
  | none, b :: bs =>
      match leadByte position b with
      | .error e => .error e
      | .ok (.inl c) => (decodeFrom (position + 1) none bs).map (c :: ·)
      | .ok (.inr p) => decodeFrom (position + 1) (some p) bs
  | some p, b :: bs =>
      if p.least ≤ b ∧ b ≤ p.greatest then
        let bits := p.bits * 64 + (b.toNat - 0x80)
        if p.missing ≤ 1 then
          (decodeFrom (position + 1) none bs).map (Char.ofNat bits :: ·)
        else
          decodeFrom (position + 1)
            (some ⟨p.position, p.lead, p.read + 1, p.missing - 1, 0x80, 0xBF, bits⟩) bs
      else .error ⟨p.position, p.read, p.lead, .badContinuation⟩

/-- The text of UTF-8 bytes. -/
def decode (bs : Bytes) : Except Utf8Error Text :=
  decodeFrom 0 none bs

/-- Each carriage return, with a line feed behind it or not, becomes one line feed. -/
def unifyLineEnds : Text → Text
  | [] => []
  | '\r' :: '\n' :: r => '\n' :: unifyLineEnds r
  | '\r' :: r => '\n' :: unifyLineEnds r
  | c :: r => c :: unifyLineEnds r

end Text
end SchemaSpec
