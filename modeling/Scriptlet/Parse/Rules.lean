import Scriptlet.Token

/-!
# Grammar rules

How tightly each operator binds, and which construct a token begins. The rules are data: a caller may
let an expression begin with any construct, or take away the meaning of an operator.
-/

namespace Scriptlet

/-- How tightly an operator binds, from loose to tight. -/
inductive Precedence where
  | lowest
  | equals
  | lessGreater
  | sum
  | product
  | prefixed
  | call
  | index
deriving DecidableEq

namespace Precedence

def rank : Precedence → Nat
  | .lowest => 1
  | .equals => 2
  | .lessGreater => 3
  | .sum => 4
  | .product => 5
  | .prefixed => 6
  | .call => 7
  | .index => 8

def all : List Precedence :=
  [.lowest, .equals, .lessGreater, .sum, .product, .prefixed, .call, .index]

def name : Precedence → String
  | .lowest => "LOWEST"
  | .equals => "EQUALS"
  | .lessGreater => "LESSGREATER"
  | .sum => "SUM"
  | .product => "PRODUCT"
  | .prefixed => "PREFIX"
  | .call => "CALL"
  | .index => "INDEX"

def ofName? (text : String) : Option Precedence :=
  all.find? fun precedence => precedence.name == text

end Precedence

/-- How tightly a token binds the operand on its left. -/
def TokenKind.precedence : TokenKind → Precedence
  | .eq | .notEq => .equals
  | .lt | .gt => .lessGreater
  | .plus | .minus => .sum
  | .asterisk | .slash => .product
  | .lparen => .call
  | .lbracket => .index
  | _ => .lowest

/-- The parts of a program that can be read at the current token. -/
inductive Construct where
  | program
  | statement
  | letStatement
  | returnStatement
  | expressionStatement
  | block
  | identifier
  | integer
  | string
  | boolean
  | prefixOp
  | grouped
  | conditional
  | function
  | parameters
  | array
  /-- Nothing: the current token is passed over. -/
  | skip
deriving DecidableEq

/-- What a token makes of the operand on its left. -/
inductive Continuation where
  | infixOp
  | call
  | index
deriving DecidableEq

/-- The rules for expressions. -/
structure Rules where
  /-- The construct that begins with a token of the given kind. -/
  beginning : TokenKind → Option Construct
  /-- What a token of the given kind does after an operand. -/
  following : TokenKind → Option Continuation

namespace Rules

/-- The rules of the language. -/
def standard : Rules where
  beginning
    | .ident => some .identifier
    | .int => some .integer
    | .string => some .string
    | .bang | .minus => some .prefixOp
    | .trueWord | .falseWord => some .boolean
    | .lparen => some .grouped
    | .ifWord => some .conditional
    | .fnWord => some .function
    | .lbracket => some .array
    | _ => none
  following
    | .plus | .minus | .slash | .asterisk | .eq | .notEq | .lt | .gt => some .infixOp
    | .lparen => some .call
    | .lbracket => some .index
    | _ => none

/-- Lets expressions begin with `construct` at tokens of the given kind. -/
def begin (rules : Rules) (kind : TokenKind) (construct : Construct) : Rules :=
  { rules with beginning := fun k => if k = kind then some construct else rules.beginning k }

/-- Takes away what tokens of the given kind do after an operand. -/
def detach (rules : Rules) (kind : TokenKind) : Rules :=
  { rules with following := fun k => if k = kind then none else rules.following k }

end Rules

end Scriptlet
