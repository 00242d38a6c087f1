import Scriptlet.Text.Quoted

/-!
# Reading files as text

A file is a sequence of bytes that is read as UTF-8. `decodeUtf8` gives the characters, or the place
and the cause of the first fault. `unifyNewlines` turns every kind of line end into a line feed.
-/

namespace Scriptlet.Text

/-- Why bytes are not UTF-8. -/
inductive Utf8Cause where
  | startByte
  | continuationByte
  | endOfData
deriving DecidableEq

def Utf8Cause.message : Utf8Cause → String
  | .startByte => "invalid start byte"
  | .continuationByte => "invalid continuation byte"
  | .endOfData => "unexpected end of data"

/-- A fault in a sequence of bytes: the bytes of a character that has begun, up to the byte that
cannot belong to it, and where they begin. -/
structure Utf8Fault where
  position : Nat
  bytes : List UInt8
  cause : Utf8Cause
deriving DecidableEq

/-- A byte in lower-case hexadecimal. -/
def hexOfByte (byte : UInt8) : String := String.ofList (hexDigits 2 byte.toNat)

/-- The wording of a decoding fault. -/
def Utf8Fault.message (fault : Utf8Fault) : String :=
  let place :=
    match fault.bytes with
    | [byte] => "byte 0x" ++ hexOfByte byte ++ " in position " ++ toString fault.position
    | bytes =>
      "bytes in position " ++ toString fault.position ++ "-" ++
        toString (fault.position + bytes.length - 1)
  "'utf-8' codec can't decode " ++ place ++ ": " ++ fault.cause.message

/-- How a character that begins with the byte `first` goes on: the number of bytes after it, the
bounds of the second byte, and the bits that the first byte gives. There is none for a byte that
begins no character. -/
def utf8Shape? (first : UInt8) : Option (Nat × UInt8 × UInt8 × Nat) :=
  if first < 0x80 then some (0, 0x80, 0xbf, first.toNat)
  else if first < 0xc2 then none
  else if first < 0xe0 then some (1, 0x80, 0xbf, first.toNat - 0xc0)
  else if first = 0xe0 then some (2, 0xa0, 0xbf, 0)
  else if first = 0xed then some (2, 0x80, 0x9f, 0xd)
  else if first < 0xf0 then some (2, 0x80, 0xbf, first.toNat - 0xe0)
  else if first = 0xf0 then some (3, 0x90, 0xbf, 0)
  else if first < 0xf4 then some (3, 0x80, 0xbf, first.toNat - 0xf0)
  else if first = 0xf4 then some (3, 0x80, 0x8f, 4)
  else none

/-- Reads `count` more bytes of a character whose bits so far are `bits` and whose bytes so far are
`seen`, in reverse. The next byte lies between `low` and `high`; bytes after it between `0x80` and
`0xbf`. -/
def decodeTail (position : Nat) (seen : List UInt8) (bits : Nat) :
    Nat → UInt8 → UInt8 → List UInt8 → Except Utf8Fault (Char × List UInt8)
  | 0, _, _, bytes => .ok (Char.ofNat bits, bytes)
  | _ + 1, _, _, [] => .error ⟨position, seen.reverse, .endOfData⟩
  | count + 1, low, high, byte :: bytes =>
    if low ≤ byte && byte ≤ high then
      decodeTail position (byte :: seen) (bits * 64 + (byte.toNat - 0x80)) count 0x80 0xbf bytes
    else .error ⟨position, seen.reverse, .continuationByte⟩

/-- Reads one character at the given position. -/
def decodeChar (position : Nat) (first : UInt8) (bytes : List UInt8) :
    Except Utf8Fault (Char × List UInt8) :=
  match utf8Shape? first with
  | none => .error ⟨position, [first], .startByte⟩
  | some (count, low, high, bits) => decodeTail position [first] bits count low high bytes

/-- Reads at most `n` characters, put in reverse in front of `seen`. -/
def decodeOnto (seen : List Char) : Nat → Nat → List UInt8 → Except Utf8Fault (List Char)
  | 0, _, _ => .ok seen
  | _ + 1, _, [] => .ok seen
  | n + 1, position, first :: bytes =>
    match decodeChar position first bytes with
    | .error fault => .error fault
    | .ok (c, rest) =>
      decodeOnto (c :: seen) n (position + c.utf8Size) rest

/-- The characters of a sequence of bytes. -/
def decodeUtf8 (bytes : List UInt8) : Except Utf8Fault (List Char) :=
  (decodeOnto [] bytes.length 0 bytes).map List.reverse

/-- The text with every carriage return, and every carriage return before a line feed, turned into
one line feed; in reverse in front of `seen`. -/
def unifyNewlinesOnto (seen : List Char) : List Char → List Char
  | [] => seen
  | '\r' :: '\n' :: cs => unifyNewlinesOnto ('\n' :: seen) cs
  | '\r' :: cs => unifyNewlinesOnto ('\n' :: seen) cs
  | c :: cs => unifyNewlinesOnto (c :: seen) cs

/-- The text with every line end turned into a line feed. -/
def unifyNewlines (cs : List Char) : List Char := (unifyNewlinesOnto [] cs).reverse

end Scriptlet.Text
