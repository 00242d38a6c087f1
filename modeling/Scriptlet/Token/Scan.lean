import Scriptlet.Token

/-!
# Scanning

Source text is a list of characters. `scan` takes one token off its front, and `tokenize` lists all
tokens up to the end of the input, which is a token of its own. A character that starts no token is
an illegal token by itself, so scanning never fails.

`Cursor` is the same scanner with a count of the characters passed, for callers that take the text
apart step by step.
-/

namespace Scriptlet

/-- Characters that separate tokens and are otherwise ignored. -/
def isBlank (c : Char) : Bool := c == ' ' || c == '\t' || c == '\n' || c == '\r'

/-- The characters of words: ASCII letters and the underscore. -/
def isLetter (c : Char) : Bool :=
  (decide ('a' ≤ c) && decide (c ≤ 'z')) || (decide ('A' ≤ c) && decide (c ≤ 'Z')) || c == '_'

/-- The characters of integer literals: ASCII digits. -/
def isDigit (c : Char) : Bool := decide ('0' ≤ c) && decide (c ≤ '9')

/-- Whether a character may stand inside a string. -/
def isInString (c : Char) : Bool := c != '"'

/-- The kind of the tokens that are one character long and start no longer token. -/
def TokenKind.ofChar? : Char → Option TokenKind
  | '+' => some .plus
  | '-' => some .minus
  | '*' => some .asterisk
  | '/' => some .slash
  | '<' => some .lt
  | '>' => some .gt
  | ',' => some .comma
  | ';' => some .semicolon
  | '(' => some .lparen
  | ')' => some .rparen
  | '\x7b' => some .lbrace
  | '\x7d' => some .rbrace
  | '[' => some .lbracket
  | ']' => some .rbracket
  | _ => none

/-- The token `joined` if an equals sign comes next, which it then takes, and `alone` otherwise. -/
def scanEquals (alone joined : Token) : List Char → Token × List Char
  | '=' :: cs => (joined, cs)
  | cs => (alone, cs)

/-- The string whose opening quote has just been passed. The closing quote may be missing at the end
of the input. -/
def scanString (cs : List Char) : Token × List Char :=
  (⟨.string, String.ofList (cs.takeWhile isInString)⟩, (cs.dropWhile isInString).tail)

/-- The word that starts with `c`. -/
def scanWord (c : Char) (cs : List Char) : Token × List Char :=
  let word := String.ofList (c :: cs.takeWhile isLetter)
  (⟨.ofWord word, word⟩, cs.dropWhile isLetter)

/-- The integer literal that starts with `c`. -/
def scanInteger (c : Char) (cs : List Char) : Token × List Char :=
  (⟨.int, String.ofList (c :: cs.takeWhile isDigit)⟩, cs.dropWhile isDigit)

/-- The token whose first character is `c`, and what follows it in `cs`. -/
def scanAt (c : Char) (cs : List Char) : Token × List Char :=
  if c = '=' then scanEquals ⟨.assign, "="⟩ ⟨.eq, "=="⟩ cs
  else if c = '!' then scanEquals ⟨.bang, "!"⟩ ⟨.notEq, "!="⟩ cs
  else if c = '"' then scanString cs
  else match TokenKind.ofChar? c with
    | some kind => (⟨kind, String.ofList [c]⟩, cs)
    | none =>
      if isLetter c then scanWord c cs
      else if isDigit c then scanInteger c cs
      else (⟨.illegal, String.ofList [c]⟩, cs)

/-- The next token and what follows it. At the end of the input there is always one more
`Token.endOfInput`. -/
def scan (cs : List Char) : Token × List Char :=
  match cs.dropWhile isBlank with
  | [] => (Token.endOfInput, [])
  | c :: rest => scanAt c rest

/-- At most `n` tokens of `cs`, put in reverse in front of `seen`. -/
def scanOnto (seen : List Token) : Nat → List Char → List Token
  | 0, _ => seen
  | n + 1, cs =>
    match cs.dropWhile isBlank with
    | [] => seen
    | c :: rest => scanOnto ((scanAt c rest).1 :: seen) n (scanAt c rest).2

/-- All tokens of a text in order, the end of the input included. Each token but the last takes a
character, so the number of characters bounds their number. -/
def tokensOf (cs : List Char) : List Token :=
  (Token.endOfInput :: scanOnto [] cs.length cs).reverse

/-- All tokens of a source. -/
def tokenize (source : String) : List Token := tokensOf source.toList

/-! ### Unfolding the list of tokens -/

theorem length_dropWhile_le {α : Type} (p : α → Bool) (as : List α) :
    (as.dropWhile p).length ≤ as.length :=
  (List.dropWhile_sublist p).length_le

theorem length_scanEquals_le (alone joined : Token) (cs : List Char) :
    (scanEquals alone joined cs).2.length ≤ cs.length := by
  unfold scanEquals
  split <;> simp

/-- The token that starts at `c` leaves no more than what follows `c`. -/
theorem length_scanAt_le (c : Char) (cs : List Char) : (scanAt c cs).2.length ≤ cs.length := by
  unfold scanAt
  split
  · exact length_scanEquals_le _ _ _
  split
  · exact length_scanEquals_le _ _ _
  split
  · have := length_dropWhile_le isInString cs
    simp [scanString]; omega
  split
  · simp
  split
  · exact length_dropWhile_le _ _
  split
  · exact length_dropWhile_le _ _
  · simp

theorem scanOnto_eq_append (seen : List Token) (n : Nat) (cs : List Char) :
    scanOnto seen n cs = scanOnto [] n cs ++ seen := by
  induction n generalizing seen cs with
  | zero => rfl
  | succ n ih =>
    rw [scanOnto, scanOnto]
    split
    · rfl
    · next c rest _ =>
      rw [ih ((scanAt c rest).1 :: seen), ih [(scanAt c rest).1], List.append_assoc]
      rfl

/-- A number of steps that covers the text finds all its tokens. -/
theorem scanOnto_eq_of_le {m n : Nat} {cs : List Char} (hm : cs.length ≤ m) (hn : cs.length ≤ n)
    (seen : List Token) : scanOnto seen m cs = scanOnto seen n cs := by
  induction m generalizing n cs seen with
  | zero =>
    obtain rfl := List.length_eq_zero_iff.1 (Nat.le_zero.1 hm)
    cases n <;> rfl
  | succ m ih =>
    cases n with
    | zero =>
      obtain rfl := List.length_eq_zero_iff.1 (Nat.le_zero.1 hn)
      rfl
    | succ n =>
      rw [scanOnto, scanOnto]
      split
      · rfl
      · next c rest h =>
        have h₁ := length_dropWhile_le isBlank cs
        have h₂ := length_scanAt_le c rest
        rw [h, List.length_cons] at h₁
        exact ih (by omega) (by omega) _

theorem tokensOf_of_blank {cs : List Char} (h : cs.dropWhile isBlank = []) :
    tokensOf cs = [Token.endOfInput] := by
  unfold tokensOf
  cases cs with
  | nil => rfl
  | cons c cs => rw [List.length_cons, scanOnto, h]; rfl

theorem tokensOf_of_cons {cs : List Char} {c : Char} {rest : List Char}
    (h : cs.dropWhile isBlank = c :: rest) :
    tokensOf cs = (scanAt c rest).1 :: tokensOf (scanAt c rest).2 := by
  have h₁ := length_dropWhile_le isBlank cs
  have h₂ := length_scanAt_le c rest
  rw [h, List.length_cons] at h₁
  unfold tokensOf
  rw [scanOnto_eq_of_le (n := cs.length - 1 + 1) (Nat.le_refl _) (by omega), scanOnto, h]
  simp only
  rw [scanOnto_eq_append, scanOnto_eq_of_le (m := cs.length - 1) (by omega) (Nat.le_refl _)]
  simp

/-- The tokens of a text without the end of the input, and then the end. -/
theorem tokensOf_eq_dropLast (cs : List Char) : tokensOf cs = (tokensOf cs).dropLast ++ [Token.endOfInput] := by
  simp [tokensOf]

/-! ### Cursors -/

/-- A place in a text: the characters still to come, and how many have been passed. -/
structure Cursor where
  position : Nat
  rest : List Char

namespace Cursor

/-- The start of a source. -/
def ofSource (source : String) : Cursor := ⟨0, source.toList⟩

/-- Moves on until only `rest` is to come. -/
def moveTo (cursor : Cursor) (rest : List Char) : Cursor :=
  ⟨cursor.position + (cursor.rest.length - rest.length), rest⟩

def isAtEnd (cursor : Cursor) : Bool := cursor.rest.isEmpty

/-- The next character, and U+0000 at the end. -/
def peek (cursor : Cursor) : Char := cursor.rest.headD '\x00'

/-- Passes one character; there is none at the end. -/
def advance? (cursor : Cursor) : Option (Char × Cursor) :=
  match cursor.rest with
  | [] => none
  | c :: cs => some (c, cursor.moveTo cs)

/-- Passes the next character if it is the expected one. -/
def accept (cursor : Cursor) (expected : Char) : Bool × Cursor :=
  match cursor.rest with
  | [] => (false, cursor)
  | c :: cs => if c = expected then (true, cursor.moveTo cs) else (false, cursor)

def skipBlanks (cursor : Cursor) : Cursor := cursor.moveTo (cursor.rest.dropWhile isBlank)

/-- Passes the next token. -/
def next (cursor : Cursor) : Token × Cursor :=
  let (token, rest) := scan cursor.rest
  (token, cursor.moveTo rest)

/-- Passes a string, as if its opening quote had just been passed. -/
def string (cursor : Cursor) : Token × Cursor :=
  let (token, rest) := scanString cursor.rest
  (token, cursor.moveTo rest)

/-- Passes all that is left. -/
def remaining (cursor : Cursor) : List Token × Cursor :=
  (tokensOf cursor.rest, cursor.moveTo [])

end Cursor

end Scriptlet
