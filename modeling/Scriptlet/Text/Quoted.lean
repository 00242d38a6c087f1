import Scriptlet.Text.Printable

/-!
# Quoted text

A text in quotes on one line, as the field listings of tokens, nodes and values show it. The quote is
an apostrophe, or a double quote when the text has an apostrophe and no double quote. Inside, the
chosen quote and the backslash stand after a backslash, line feed, carriage return and tab are `\n`,
`\r` and `\t`, and other characters that are not printable are written by their number: two, four or
eight hexadecimal digits after `\x`, `\u` or `\U`. All other characters stand for themselves.
-/

namespace Scriptlet.Text

def apostrophe : Char := '\x27'

def quotationMark : Char := '\x22'

def backslash : Char := '\x5c'

/-- The lower-case hexadecimal digit of a number below sixteen. -/
def hexDigit (n : Nat) : Char := (Nat.toDigits 16 n).headD '0'

/-- The last `width` hexadecimal digits of a number. -/
def hexDigits : (width n : Nat) → List Char
  | 0, _ => []
  | width + 1, n => hexDigits width (n / 16) ++ [hexDigit (n % 16)]

/-- A character written by its number, with as few digits as there is a form for. -/
def numbered (c : Char) : List Char :=
  let n := c.toNat
  if n < 0x100 then backslash :: 'x' :: hexDigits 2 n
  else if n < 0x10000 then backslash :: 'u' :: hexDigits 4 n
  else backslash :: 'U' :: hexDigits 8 n

/-- The quote that needs the fewest escapes; the apostrophe when in doubt. -/
def quoteFor (cs : List Char) : Char :=
  if cs.contains apostrophe && !cs.contains quotationMark then quotationMark else apostrophe

/-- One character of a text between the given quotes. -/
def escape (quote c : Char) : List Char :=
  if c = quote || c = backslash then [backslash, c]
  else if c = '\n' then [backslash, 'n']
  else if c = '\r' then [backslash, 'r']
  else if c = '\t' then [backslash, 't']
  else if isPrintable c then [c]
  else numbered c

/-- The quoted form of a text. -/
def quotedChars (cs : List Char) : List Char :=
  let quote := quoteFor cs
  quote :: (cs.flatMap (escape quote) ++ [quote])

/-- The quoted form of a text. -/
def quoted (text : String) : String := String.ofList (quotedChars text.toList)

end Scriptlet.Text
