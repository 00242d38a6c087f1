import Scriptlet.Parse.Construct

/-!
# Reading expressions

An expression is what the rule for its first token reads, followed by all operators that bind tighter
than the place where it stands. `expression rules depth` reads expressions that are nested at most
`depth` deep; deeper ones are a fault.
-/

namespace Scriptlet

namespace Parser

variable {σ : Type} [TokenSource σ]

/-- Whether the token that comes next goes on with an operand that stands where only operators
tighter than `precedence` belong to it. -/
def goesOn (rules : Rules) (precedence : Precedence) (window : Window σ) : Bool :=
  let kind := window.upcoming.kind
  kind != .semicolon && decide (precedence.rank < kind.precedence.rank) &&
    (rules.following kind).isSome

/-- Moves to the next token and reads what it makes of the operand `left`. -/
def goOn (rules : Rules) (expr : Precedence → Parser σ Node) (left : Node) : Parser σ Node := do
  advance
  match rules.following (← current).kind with
  | none => return left
  | some next => continuation expr left next

/-- Reads an expression whose inner expressions are read by `expr`. -/
def climb (rules : Rules) (expr : Precedence → Parser σ Node) (precedence : Precedence) :
    Parser σ Node := do
  let kind := (← current).kind
  match rules.beginning kind with
  | none =>
    report (.noExpression kind)
    return .hole
  | some first =>
    let left ← construct expr first
    repeatWhile (fun _ window => goesOn rules precedence window) (goOn rules expr) left

/-- Reads an expression that is nested at most `depth` deep. -/
def expression (rules : Rules) : Nat → Precedence → Parser σ Node
  | 0, _ => fault .tooDeep
  | depth + 1, precedence => climb rules (expression rules depth) precedence

end Parser

/-- A program as it was read, and the syntax errors met on the way. -/
structure Parsed where
  program : Node
  errors : List SyntaxError

/-- Reads what a window shows as a program, with expressions nested at most `depth` deep. -/
def parseWindow {σ : Type} [TokenSource σ] (depth : Nat) (window : Window σ) : Except Fault Parsed :=
  match Parser.program (Parser.expression Rules.standard depth) window with
  | .error cause => .error cause
  | .ok (program, window) => .ok ⟨program, window.errors.toList⟩

/-- Reads a list of tokens as a program. -/
def parseTokens (depth : Nat) (tokens : List Token) : Except Fault Parsed :=
  parseWindow depth (Window.start tokens tokens.length)

end Scriptlet
