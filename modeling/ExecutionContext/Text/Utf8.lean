/-!
# Texts as bytes

A text is written in UTF-8. Bytes that are not UTF-8 have a lossy text all the same:
one replacement character stands for each byte that begins no character, and one for
the bytes of a character that breaks off.
-/

namespace ExecutionContext

abbrev Bytes := List UInt8

namespace Utf8

def encode (text : String) : Bytes :=
  text.toList.flatMap String.utf8EncodeChar

def replacement : Char := '\uFFFD'

/-- A character that has begun: the number of bytes still due, the bounds of the next one, and the
digits read so far. -/
structure Begun where
  due : Nat
  low : Nat := 0x80
  high : Nat := 0xbf
  code : Nat

/-- What a byte begins. The bounds of the byte after it rule out surrogates, numbers beyond the last
character, and digits that a shorter form has room for. -/
def lead (byte : Nat) : Option Begun :=
  if byte < 0x80 then some { due := 0, code := byte }
  else if byte < 0xc2 then none
  else if byte < 0xe0 then some { due := 1, code := byte - 0xc0 }
  else if byte < 0xf0 then
    some
      { due := 2
        low := if byte = 0xe0 then 0xa0 else 0x80
        high := if byte = 0xed then 0x9f else 0xbf
        code := byte - 0xe0 }
  else if byte < 0xf5 then
    some
      { due := 3
        low := if byte = 0xf0 then 0x90 else 0x80
        high := if byte = 0xf4 then 0x8f else 0xbf
        code := byte - 0xf0 }
  else none

/-- A character is written once no byte of it is due. -/
def settle (begun : Begun) : List Char × Option Begun :=
  if begun.due = 0 then ([Char.ofNat begun.code], none) else ([], some begun)

/-- Read a byte between characters. -/
def first (byte : Nat) : List Char × Option Begun :=
  match lead byte with
  | some begun => settle begun
  | none => ([replacement], none)

/-- Read a byte, perhaps inside a character; one that does not go on with it breaks it off. -/
def step (state : Option Begun) (byte : Nat) : List Char × Option Begun :=
  match state with
  | none => first byte
  | some begun =>
      if begun.low ≤ byte ∧ byte ≤ begun.high then
        settle { due := begun.due - 1, code := begun.code * 64 + (byte - 0x80) }
      else (replacement :: (first byte).1, (first byte).2)

def decodeFrom : Option Begun -> Bytes -> List Char
  | none, [] => []
  | some _, [] => [replacement]
  | state, byte :: rest =>
      (step state byte.toNat).1 ++ decodeFrom (step state byte.toNat).2 rest

/-- The text of bytes, with replacement characters for what is not UTF-8. -/
def lossy (bytes : Bytes) : String :=
  String.ofList (decodeFrom none bytes)

end Utf8

end ExecutionContext
