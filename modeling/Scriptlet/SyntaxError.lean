import Scriptlet.Token

/-!
# Syntax errors

What can be wrong with a program text. Reading goes on after a syntax error, so a text has a list of
them.
-/

namespace Scriptlet

/-- A syntax error. -/
inductive SyntaxError where
  /-- Another kind of token should have come next. -/
  | unexpected (expected got : TokenKind)
  /-- No expression begins with a token of this kind. -/
  | noExpression (kind : TokenKind)
  /-- The literal is not an integer that fits in 64 bits. -/
  | badInteger (literal : String)
deriving DecidableEq

/-- The wording of a syntax error. -/
def SyntaxError.message : SyntaxError → String
  | .unexpected expected got =>
    "expected next token to be of type " ++ expected.symbol ++ ", got " ++ got.symbol ++ " instead"
  | .noExpression kind => "no prefix parse function for " ++ kind.symbol ++ " found"
  | .badInteger literal => "could not parse \"" ++ literal ++ "\" as integer"

end Scriptlet
