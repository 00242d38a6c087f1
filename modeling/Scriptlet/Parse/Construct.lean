import Scriptlet.Parse.Window
import Scriptlet.Text.Digit

/-!
# Reading constructs

One parser for every construct. Each takes the parser `expr` for the expressions inside it as an
argument, so none of them is recursive; `Scriptlet.Parse.Expression` ties the knot.

A construct that a syntax error breaks off is a hole. A statement whose expression is a hole is left
out; an operand or an element that is a hole stays in the tree as one.
-/

namespace Scriptlet

/-- The greatest integer that a literal may stand for. -/
def maxInteger : Nat := Nat.pow 2 63 - 1

namespace Parser

section

variable {σ : Type} [TokenSource σ]

/-- An identifier, whatever the current token is. -/
def identifier : Parser σ Node := do
  return .identifier (.ofToken (← current))

/-- A string, whatever the current token is. -/
def string : Parser σ Node := do
  let token ← current
  return .string token token.literal

/-- A truth value: false for every token but `true`. -/
def boolean : Parser σ Node := do
  let token ← current
  return .boolean token (token.kind == .trueWord)

/-- An integer. The decimal digits that it begins with are counted before anything else about them
matters. -/
def integer : Parser σ Node := do
  let token ← current
  let digits := token.literal.toList
  let leading := (digits.takeWhile Text.isDecimal).length
  if digits.isEmpty || !digits.all Text.isAnyDigit then
    report (.badInteger token.literal)
    return .hole
  else if maxDigits < leading then fault (.overlongInteger leading)
  else match Text.readNumeral? digits with
    | none => fault (.notDecimal token.literal)
    | some value =>
      if maxInteger < value then
        report (.badInteger token.literal)
        return .hole
      else return .integer token value

/-- The names between the current token and a closing parenthesis. -/
def parameters : Parser σ (Option (List Identifier)) := do
  if ← comesNext .rparen then
    advance
    return some []
  else if ← expectNext .ident then
    let first ← current
    let names ← repeatWhile
      (fun names window => names.isSome && window.upcoming.kind == .comma)
      (fun names => do
        advance
        if ← expectNext .ident then
          let token ← current
          return names.map (Identifier.ofToken token :: ·)
        else return none)
      (some [Identifier.ofToken first])
    match names with
    | none => return none
    | some names => if ← expectNext .rparen then return some names.reverse else return none
  else return none

variable (expr : Precedence → Parser σ Node)

/-- `let` name `=` expression. -/
def letStatement : Parser σ Node := do
  let token ← current
  if ← expectNext .ident then
    let name ← current
    if ← expectNext .assign then
      advance
      let value ← expr .lowest
      passNext .semicolon
      return if value.isHole then .hole else .letStatement token (some (.ofToken name)) value
    else return .hole
  else return .hole

/-- `return` expression. -/
def returnStatement : Parser σ Node := do
  let token ← current
  advance
  let value ← expr .lowest
  passNext .semicolon
  return if value.isHole then .hole else .returnStatement token value

/-- An expression that stands as a statement. -/
def expressionStatement : Parser σ Node := do
  let token ← current
  let expression ← expr .lowest
  passNext .semicolon
  return if expression.isHole then .hole else .expressionStatement token expression

/-- A statement, told by its first token. -/
def statement : Parser σ Node := do
  match (← current).kind with
  | .letWord => letStatement expr
  | .returnWord => returnStatement expr
  | _ => expressionStatement expr

/-- Statements up to a token at which `ends` holds. The token after each statement is passed over. -/
def statements (ends : TokenKind → Bool) : Parser σ (List Node) := do
  let seen ← repeatWhile (fun _ window => !ends window.current.kind)
    (fun seen => do
      let next ← statement expr
      advance
      return if next.isHole then seen else next :: seen)
    []
  return seen.reverse

/-- Statements to the end of the input. -/
def program : Parser σ Node := do
  return .program (← statements expr (· == .eof))

/-- Statements to a closing brace, whose absence is an error. -/
def block : Parser σ Node := do
  let token ← current
  advance
  let body ← statements expr (fun kind => kind == .rbrace || kind == .eof)
  if (← current).kind = .eof then report (.unexpected .rbrace .eof)
  return .block token body

/-- An operator before its operand. -/
def prefixOp : Parser σ Node := do
  let token ← current
  advance
  return .prefixOp token token.literal (← expr .prefixed)

/-- An expression in parentheses. -/
def grouped : Parser σ Node := do
  advance
  let inner ← expr .lowest
  if ← expectNext .rparen then return inner else return .hole

/-- `if` `(` condition `)` block, and perhaps `else` block. -/
def conditional : Parser σ Node := do
  let token ← current
  if ← expectNext .lparen then
    advance
    let condition ← expr .lowest
    if ← expectNext .rparen then
      if ← expectNext .lbrace then
        let consequence ← block expr
        if ← comesNext .elseWord then
          advance
          if ← expectNext .lbrace then
            return .conditional token condition consequence (← block expr)
          else return .hole
        else return .conditional token condition consequence .hole
      else return .hole
    else return .hole
  else return .hole

/-- `fn` `(` parameters `)` block. -/
def function : Parser σ Node := do
  let token ← current
  if ← expectNext .lparen then
    match ← parameters with
    | none => return .hole
    | some names =>
      if ← expectNext .lbrace then return .function token names (← block expr)
      else return .hole
  else return .hole

/-- Expressions between the current token and one of the kind `close`, with commas between them. -/
def expressionList (close : TokenKind) : Parser σ (Option (List Node)) := do
  if ← comesNext close then
    advance
    return some []
  else
    advance
    let first ← expr .lowest
    let elements ← repeatWhile (fun _ window => window.upcoming.kind == .comma)
      (fun elements => do
        advance
        advance
        return (← expr .lowest) :: elements)
      [first]
    if ← expectNext close then return some elements.reverse else return none

/-- `[` elements `]`. -/
def array : Parser σ Node := do
  let token ← current
  match ← expressionList expr .rbracket with
  | none => return .hole
  | some elements => return .array token elements

/-- An operator between `left` and an operand that binds tighter than it. -/
def infixOp (left : Node) : Parser σ Node := do
  let token ← current
  advance
  return .infixOp token token.literal left (← expr token.kind.precedence)

/-- `(` arguments `)` after a callee. -/
def call (callee : Node) : Parser σ Node := do
  let token ← current
  match ← expressionList expr .rparen with
  | none => return .hole
  | some arguments => return .call token callee arguments

/-- `[` subscript `]` after the expression it goes into. -/
def index (left : Node) : Parser σ Node := do
  let token ← current
  advance
  let subscript ← expr .lowest
  if ← expectNext .rbracket then return .index token left subscript else return .hole

/-- Reads the given construct at the current token. -/
def construct : Construct → Parser σ Node
  | .program => program expr
  | .statement => statement expr
  | .letStatement => letStatement expr
  | .returnStatement => returnStatement expr
  | .expressionStatement => expressionStatement expr
  | .block => block expr
  | .identifier => identifier
  | .integer => integer
  | .string => string
  | .boolean => boolean
  | .prefixOp => prefixOp expr
  | .grouped => grouped expr
  | .conditional => conditional expr
  | .function => function expr
  | .parameters => do
    match ← parameters with
    | none => return .hole
    | some names => return .parameterList names
  | .array => array expr
  | .skip => do
    advance
    return .hole

/-- Reads on after the operand `left`. -/
def continuation (left : Node) : Continuation → Parser σ Node
  | .infixOp => infixOp expr left
  | .call => call expr left
  | .index => index expr left

end

end Parser

end Scriptlet
