import Scriptlet.Parse.Window
import Scriptlet.Token.Scan

/-!
# Reading tokens from text

A feed takes tokens off a text one by one, always two ahead of what is still text.
-/

namespace Scriptlet

/-- The current token, the next one, and the text after them. -/
structure Feed where
  current : Token
  upcoming : Token
  rest : List Char

namespace Feed

/-- Moves on by one token. -/
def advance (feed : Feed) : Feed :=
  let (token, rest) := scan feed.rest
  ⟨feed.upcoming, token, rest⟩

instance : TokenSource Feed where
  current := Feed.current
  upcoming := Feed.upcoming
  advance := Feed.advance

/-- The start of a text. -/
def ofChars (cs : List Char) : Feed :=
  let (first, rest) := scan cs
  let (second, rest) := scan rest
  ⟨first, second, rest⟩

/-- A window at the start of a source. There is at most one token for each character and one for the
end of the input. -/
def window (source : String) : Window Feed :=
  Window.start (ofChars source.toList) (source.length + 1)

end Feed

end Scriptlet
