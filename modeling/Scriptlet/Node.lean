import Scriptlet.Token

/-!
# Nodes

The tree that a program is read into. There is one type for programs, statements and expressions,
because a caller may put any of them anywhere: a block in the place of an operand is a tree like any
other, and what it evaluates to is for the evaluator to say.

A child that a syntax error left out is a `Node.hole`.
-/

namespace Scriptlet

/-- A name and the token it was read from. -/
structure Identifier where
  token : Token
  name : String
deriving DecidableEq

/-- The identifier that a token spells. -/
def Identifier.ofToken (token : Token) : Identifier := ⟨token, token.literal⟩

/-- Trees without content of their own, which only a caller can build. -/
inductive Abstraction where
  | node
  | statement
  | expression
deriving DecidableEq

/-- A tree. The token of a node is the one it begins with, or, where an operand stands on its left,
the operator. -/
inductive Node where
  /-- A child that is missing. -/
  | hole
  /-- A tree that is only known to be a node, a statement or an expression. -/
  | bare (kind : Abstraction)
  /-- A literal, a function, a `let` or a `return` whose token is missing. It has a value and no text. -/
  | tokenless (node : Node)
  /-- A list of parameters that stands by itself. -/
  | parameterList (names : List Identifier)
  | program (statements : List Node)
  | identifier (id : Identifier)
  | integer (token : Token) (value : Int)
  | boolean (token : Token) (value : Bool)
  | string (token : Token) (value : String)
  | prefixOp (token : Token) (operator : String) (right : Node)
  | infixOp (token : Token) (operator : String) (left right : Node)
  | block (token : Token) (statements : List Node)
  | conditional (token : Token) (condition consequence alternative : Node)
  | function (token : Token) (parameters : List Identifier) (body : Node)
  | call (token : Token) (callee : Node) (arguments : List Node)
  | array (token : Token) (elements : List Node)
  | index (token : Token) (left subscript : Node)
  | letStatement (token : Token) (name : Option Identifier) (value : Node)
  | returnStatement (token : Token) (value : Node)
  | expressionStatement (token : Token) (expression : Node)

instance : Inhabited Node := ⟨.hole⟩

namespace Node

def isHole : Node → Bool
  | .hole => true
  | _ => false

/-- The literal of the token that a node begins with. A program begins with its first statement. -/
def tokenLiteral : Node → String
  | .hole | .bare _ | .tokenless _ | .parameterList _ => ""
  | .program [] => ""
  | .program (statement :: _) => statement.tokenLiteral
  | .identifier id => id.token.literal
  | .integer token _ | .boolean token _ | .string token _ | .prefixOp token _ _
  | .infixOp token _ _ _ | .block token _ | .conditional token _ _ _ | .function token _ _
  | .call token _ _ | .array token _ | .index token _ _ | .letStatement token _ _
  | .returnStatement token _ | .expressionStatement token _ => token.literal

/-- The nodes right below a node, from left to right. -/
def children : Node → List Node
  | .hole | .bare _ | .parameterList _ | .identifier _ | .integer _ _ | .boolean _ _
  | .string _ _ => []
  | .tokenless node => [node]
  | .program statements | .block _ statements => statements
  | .prefixOp _ _ right => [right]
  | .infixOp _ _ left right => [left, right]
  | .conditional _ condition consequence alternative => [condition, consequence, alternative]
  | .function _ _ body => [body]
  | .call _ callee arguments => callee :: arguments
  | .array _ elements => elements
  | .index _ left subscript => [left, subscript]
  | .letStatement _ _ value | .returnStatement _ value => [value]
  | .expressionStatement _ expression => [expression]

/-- Whether every way from the root to a leaf has at most `limit` nodes. -/
def fits : (limit : Nat) → Node → Bool
  | 0, _ => false
  | limit + 1, node => node.children.all (fits limit)

mutual

/-- Whether two trees are equal, tokens included. -/
def beq : Node → Node → Bool
  | .hole, .hole => true
  | .bare kind, .bare kind' => kind == kind'
  | .tokenless node, .tokenless node' => beq node node'
  | .parameterList names, .parameterList names' => names == names'
  | .program statements, .program statements' => beqAll statements statements'
  | .identifier id, .identifier id' => id == id'
  | .integer token value, .integer token' value' => token == token' && value == value'
  | .boolean token value, .boolean token' value' => token == token' && value == value'
  | .string token value, .string token' value' => token == token' && value == value'
  | .prefixOp token operator right, .prefixOp token' operator' right' =>
    token == token' && operator == operator' && beq right right'
  | .infixOp token operator left right, .infixOp token' operator' left' right' =>
    token == token' && operator == operator' && beq left left' && beq right right'
  | .block token statements, .block token' statements' =>
    token == token' && beqAll statements statements'
  | .conditional token condition consequence alternative,
      .conditional token' condition' consequence' alternative' =>
    token == token' && beq condition condition' && beq consequence consequence' &&
      beq alternative alternative'
  | .function token parameters body, .function token' parameters' body' =>
    token == token' && parameters == parameters' && beq body body'
  | .call token callee arguments, .call token' callee' arguments' =>
    token == token' && beq callee callee' && beqAll arguments arguments'
  | .array token elements, .array token' elements' => token == token' && beqAll elements elements'
  | .index token left subscript, .index token' left' subscript' =>
    token == token' && beq left left' && beq subscript subscript'
  | .letStatement token name value, .letStatement token' name' value' =>
    token == token' && name == name' && beq value value'
  | .returnStatement token value, .returnStatement token' value' =>
    token == token' && beq value value'
  | .expressionStatement token expression, .expressionStatement token' expression' =>
    token == token' && beq expression expression'
  | _, _ => false

/-- Whether two lists of trees are equal. -/
def beqAll : List Node → List Node → Bool
  | [], [] => true
  | node :: nodes, node' :: nodes' => beq node node' && beqAll nodes nodes'
  | _, _ => false

end

mutual

theorem beq_iff : ∀ a b : Node, beq a b = true ↔ a = b
  | .hole, b => by cases b <;> simp [beq]
  | .bare _, b => by cases b <;> simp [beq]
  | .tokenless node, b => by cases b <;> simp [beq, beq_iff node]
  | .parameterList _, b => by cases b <;> simp [beq]
  | .program statements, b => by cases b <;> simp [beq, beqAll_iff statements]
  | .identifier _, b => by cases b <;> simp [beq]
  | .integer _ _, b => by cases b <;> simp [beq]
  | .boolean _ _, b => by cases b <;> simp [beq]
  | .string _ _, b => by cases b <;> simp [beq]
  | .prefixOp _ _ right, b => by cases b <;> simp [beq, beq_iff right, and_assoc]
  | .infixOp _ _ left right, b => by
    cases b <;> simp [beq, beq_iff left, beq_iff right, and_assoc]
  | .block _ statements, b => by cases b <;> simp [beq, beqAll_iff statements]
  | .conditional _ condition consequence alternative, b => by
    cases b <;>
      simp [beq, beq_iff condition, beq_iff consequence, beq_iff alternative, and_assoc]
  | .function _ _ body, b => by cases b <;> simp [beq, beq_iff body, and_assoc]
  | .call _ callee arguments, b => by
    cases b <;> simp [beq, beq_iff callee, beqAll_iff arguments, and_assoc]
  | .array _ elements, b => by cases b <;> simp [beq, beqAll_iff elements]
  | .index _ left subscript, b => by
    cases b <;> simp [beq, beq_iff left, beq_iff subscript, and_assoc]
  | .letStatement _ _ value, b => by cases b <;> simp [beq, beq_iff value, and_assoc]
  | .returnStatement _ value, b => by cases b <;> simp [beq, beq_iff value]
  | .expressionStatement _ expression, b => by cases b <;> simp [beq, beq_iff expression]

theorem beqAll_iff : ∀ as bs : List Node, beqAll as bs = true ↔ as = bs
  | [], bs => by cases bs <;> simp [beqAll]
  | a :: as, bs => by cases bs <;> simp [beqAll, beq_iff a, beqAll_iff as]

end

instance : DecidableEq Node := fun a b => decidable_of_iff _ (beq_iff a b)

end Node

end Scriptlet
