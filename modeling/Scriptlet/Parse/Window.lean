import Scriptlet.Fault
import Scriptlet.SyntaxError
import Scriptlet.Parse.Rules

/-!
# The window of a parser

A parser sees the current token and the one that comes next. Where the tokens come from is left open:
a `TokenSource` shows two tokens and moves on by one. A list of tokens is one, and goes on with
end-of-input tokens after its last element; `Scriptlet.Parse.Feed` is another, which takes tokens off
a text as they are needed.

Parsers are functions of a window, which is a source together with the syntax errors met so far. A
fault ends all parsers at once.
-/

namespace Scriptlet

/-- Something that tokens are read from, one after another. -/
class TokenSource (σ : Type) where
  /-- The current token. -/
  current : σ → Token
  /-- The token after the current one. -/
  upcoming : σ → Token
  /-- Moves on by one token. -/
  advance : σ → σ

/-- A list of tokens, from the current one on. After the last there is always an end of input. -/
instance : TokenSource (List Token) where
  current tokens := tokens.headD Token.endOfInput
  upcoming tokens := tokens.tail.headD Token.endOfInput
  advance tokens := tokens.tail

/-- What a parser works on. -/
structure Window (σ : Type) where
  /-- The tokens from the current one on. -/
  source : σ
  /-- The syntax errors so far. -/
  errors : Array SyntaxError
  /-- At least as many as there are tokens left; bounds the rounds of every loop. -/
  budget : Nat

namespace Window

variable {σ : Type}

/-- A window at the start of a source with at most `budget` tokens. -/
def start (source : σ) (budget : Nat) : Window σ := ⟨source, #[], budget⟩

/-- Records a syntax error. -/
def report (window : Window σ) (error : SyntaxError) : Window σ :=
  { window with errors := window.errors.push error }

variable [TokenSource σ]

/-- The current token. -/
def current (window : Window σ) : Token := TokenSource.current window.source

/-- The token after the current one. -/
def upcoming (window : Window σ) : Token := TokenSource.upcoming window.source

/-- Moves on by one token. -/
def advance (window : Window σ) : Window σ :=
  { window with source := TokenSource.advance window.source }

end Window

/-- A parser reads something from a window and leaves the window it has moved on to. -/
abbrev Parser (σ : Type) := StateT (Window σ) (Except Fault)

namespace Parser

section

variable {σ : Type}

/-- Records a syntax error. -/
def report (error : SyntaxError) : Parser σ Unit := fun window => .ok ((), window.report error)

/-- Ends all reading. -/
def fault {α : Type} (cause : Fault) : Parser σ α := fun _ => .error cause

/-- Repeats `body` while `more` holds, at most `rounds` times. -/
def repeatAtMost {α : Type} (more : α → Window σ → Bool) (body : α → Parser σ α) :
    (rounds : Nat) → α → Parser σ α
  | 0, a => pure a
  | rounds + 1, a => fun window =>
    if more a window then
      match body a window with
      | .error cause => .error cause
      | .ok (a', window') => repeatAtMost more body rounds a' window'
    else .ok (a, window)

/-- Repeats `body` while `more` holds. Every round passes a token, so the budget of the window is never
used up. -/
def repeatWhile {α : Type} (more : α → Window σ → Bool) (body : α → Parser σ α) (a : α) :
    Parser σ α :=
  fun window => repeatAtMost more body window.budget a window

end

section

variable {σ : Type} [TokenSource σ]

/-- The current token. -/
def current : Parser σ Token := fun window => .ok (window.current, window)

/-- Moves on by one token. -/
def advance : Parser σ Unit := fun window => .ok ((), window.advance)

/-- Whether a token of the given kind comes next. -/
def comesNext (kind : TokenKind) : Parser σ Bool :=
  fun window => .ok (window.upcoming.kind == kind, window)

/-- Moves on if a token of the given kind comes next, and records an error otherwise. -/
def expectNext (kind : TokenKind) : Parser σ Bool := fun window =>
  if window.upcoming.kind = kind then .ok (true, window.advance)
  else .ok (false, window.report (.unexpected kind window.upcoming.kind))

/-- Moves on if a token of the given kind comes next. -/
def passNext (kind : TokenKind) : Parser σ Unit := fun window =>
  if window.upcoming.kind = kind then .ok ((), window.advance) else .ok ((), window)

end

end Parser

end Scriptlet
