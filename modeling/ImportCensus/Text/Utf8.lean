import ImportCensus.Text.Hexadecimal

/-!
# UTF-8

Bytes read as the characters that they encode.  The first byte of a character tells how many
follow it and what the next one may be.  `decode` refuses what is no encoding and tells where:
the error spans the bytes of the character that was being read.
-/

namespace ImportCensus.Utf8

/-- Why bytes are no encoding of characters. -/
inductive Cause where
  | invalidStart
  | invalidContinuation
  | unexpectedEnd
  deriving DecidableEq, Repr

/-- The wording of a cause. -/
def Cause.message : Cause → String
  | invalidStart => "invalid start byte"
  | invalidContinuation => "invalid continuation byte"
  | unexpectedEnd => "unexpected end of data"

/-- The place of bytes that encode no character: their position, the first of them, and how many
they are. -/
structure Error where
  position : Nat
  first : UInt8
  count : Nat
  cause : Cause
  deriving DecidableEq, Repr

/-- The wording of an error. -/
def Error.message (e : Error) : String :=
  let span :=
    if e.count = 1 then
      "byte 0x" ++ (Text.hexadecimal e.first.toNat 2).toString ++ " in position "
        ++ toString e.position
    else "bytes in position " ++ toString e.position ++ "-" ++ toString (e.position + e.count - 1)
  "'utf-8' codec can't decode " ++ span ++ ": " ++ e.cause.message

/-- A character that has been begun: the first of its bytes and how many have been read, their
value, how many are still needed, and the least and the largest that the next one may be. -/
structure Begun where
  first : UInt8
  count : Nat
  value : Nat
  needed : Nat
  least : Nat
  largest : Nat

/-- The character that a first byte begins. -/
def begin? (b : UInt8) : Option Begun :=
  let n := b.toNat
  if n < 0x80 then some ⟨b, 1, n, 0, 0, 0⟩
  else if n < 0xC2 then none
  else if n < 0xE0 then some ⟨b, 1, n - 0xC0, 1, 0x80, 0xBF⟩
  else if n < 0xF0 then
    some ⟨b, 1, n - 0xE0, 2, if n = 0xE0 then 0xA0 else 0x80, if n = 0xED then 0x9F else 0xBF⟩
  else if n < 0xF5 then
    some ⟨b, 1, n - 0xF0, 3, if n = 0xF0 then 0x90 else 0x80, if n = 0xF4 then 0x8F else 0xBF⟩
  else none

/-- A character with one more byte. -/
def Begun.continue? (begun : Begun) (b : UInt8) : Option Begun :=
  if begun.least ≤ b.toNat ∧ b.toNat ≤ begun.largest then
    some {
      begun with
      count := begun.count + 1
      value := begun.value * 64 + b.toNat % 64
      needed := begun.needed - 1
      least := 0x80
      largest := 0xBF }
  else none

/-- The error in a character that has been begun before a position. -/
def Begun.error (begun : Begun) (position : Nat) (cause : Cause) : Error :=
  { position := position - begun.count, first := begun.first, count := begun.count, cause }

/-- The characters of bytes from a position on, the bytes of the first of them perhaps read in
part. -/
def decodeFrom (position : Nat) : Option Begun → List UInt8 → Except Error Text
  | none, [] => .ok []
  | some begun, [] => .error (begun.error position .unexpectedEnd)
  | none, b :: rest =>
    match begin? b with
    | none => .error { position, first := b, count := 1, cause := .invalidStart }
    | some begun =>
      if begun.needed = 0 then
        (decodeFrom (position + 1) none rest).map (Char.ofNat begun.value :: ·)
      else decodeFrom (position + 1) (some begun) rest
  | some begun, b :: rest =>
    match begun.continue? b with
    | none => .error (begun.error position .invalidContinuation)
    | some begun =>
      if begun.needed = 0 then
        (decodeFrom (position + 1) none rest).map (Char.ofNat begun.value :: ·)
      else decodeFrom (position + 1) (some begun) rest

/-- The characters that bytes encode. -/
def decode (bytes : List UInt8) : Except Error Text :=
  decodeFrom 0 none bytes

end ImportCensus.Utf8
