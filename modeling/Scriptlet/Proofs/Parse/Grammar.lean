import Mathlib.Algebra.Group.Nat.Defs
import Scriptlet.Node

/-!
# The grammar

Which lists of tokens are a program, and which tree they stand for. Expressions come in levels, from
the loosest operators to the tightest: an operator takes an operand of its own level on the left and a
tighter one on the right. A program is a row of statements and the end of the input. The semicolon
after a statement may be left out, unless what follows would go on with its expression.

Nothing here knows of the order in which tokens are read, or of what is wrong with other tokens.
-/

namespace Scriptlet.Grammar

/-- The levels of expressions, from loose to tight. -/
inductive Level where
  | equality
  | comparison
  | sum
  | product
  | unary
  | applied
  | primary
deriving DecidableEq

/-- The next tighter level. -/
def Level.tighter : Level → Level
  | .equality => .comparison
  | .comparison => .sum
  | .sum => .product
  | .product => .unary
  | .unary => .applied
  | .applied | .primary => .primary

/-- The operators that stand between two operands on a level. -/
def Level.operators : Level → List TokenKind
  | .equality => [.eq, .notEq]
  | .comparison => [.lt, .gt]
  | .sum => [.plus, .minus]
  | .product => [.asterisk, .slash]
  | _ => []

/-- The tokens that go on with an expression. -/
def continuers : List TokenKind :=
  [.plus, .minus, .asterisk, .slash, .eq, .notEq, .lt, .gt, .lparen, .lbracket]

/-- The number that decimal digits spell. -/
def decimal (digits : List Char) : Nat :=
  digits.foldl (fun value digit => 10 * value + (digit.toNat - '0'.toNat)) 0

/-- Names with commas between them. -/
inductive Names : List Token → List Identifier → Prop
  | one {name : Token} (hn : name.kind = .ident) : Names [name] [.ofToken name]
  | cons {name comma : Token} {ts : List Token} {ids : List Identifier} (hn : name.kind = .ident)
    (hc : comma.kind = .comma) (h : Names ts ids) :
    Names (name :: comma :: ts) (.ofToken name :: ids)

/-- The parameters of a function, if there are any. -/
inductive Parameters : List Token → List Identifier → Prop
  | none : Parameters [] []
  | some {ts : List Token} {ids : List Identifier} (h : Names ts ids) : Parameters ts ids

/-- A semicolon that may be missing. -/
inductive Ending : (closed : Bool) → List Token → Prop
  | missing : Ending false []
  | semicolon {semicolon : Token} (hs : semicolon.kind = .semicolon) : Ending true [semicolon]

mutual

/-- The tokens are an expression of the level, with the given tree. -/
inductive Expr : Level → List Token → Node → Prop
  | tighter {level : Level} {ts : List Token} {e : Node} (h : Expr level.tighter ts e) :
    Expr level ts e
  | infixOp {level : Level} {left right : List Token} {op : Token} {a b : Node}
    (ho : op.kind ∈ level.operators) (ha : Expr level left a) (hb : Expr level.tighter right b) :
    Expr level (left ++ op :: right) (.infixOp op op.literal a b)
  | prefixOp {op : Token} {ts : List Token} {e : Node} (ho : op.kind = .bang ∨ op.kind = .minus)
    (h : Expr .unary ts e) : Expr .unary (op :: ts) (.prefixOp op op.literal e)
  | call {callee ts : List Token} {lp rp : Token} {f : Node} {arguments : List Node}
    (hl : lp.kind = .lparen) (hr : rp.kind = .rparen) (hf : Expr .applied callee f)
    (ha : Elements ts arguments) :
    Expr .applied (callee ++ lp :: (ts ++ [rp])) (.call lp f arguments)
  | index {left ts : List Token} {lb rb : Token} {a e : Node} (hl : lb.kind = .lbracket)
    (hr : rb.kind = .rbracket) (ha : Expr .applied left a) (he : Expr .equality ts e) :
    Expr .applied (left ++ lb :: (ts ++ [rb])) (.index lb a e)
  | identifier {t : Token} (h : t.kind = .ident) : Expr .primary [t] (.identifier (.ofToken t))
  | integer {t : Token} (h : t.kind = .int) (hm : decimal t.literal.toList < 2 ^ 63) :
    Expr .primary [t] (.integer t (decimal t.literal.toList))
  | string {t : Token} (h : t.kind = .string) : Expr .primary [t] (.string t t.literal)
  | trueWord {t : Token} (h : t.kind = .trueWord) : Expr .primary [t] (.boolean t true)
  | falseWord {t : Token} (h : t.kind = .falseWord) : Expr .primary [t] (.boolean t false)
  | grouped {lp rp : Token} {ts : List Token} {e : Node} (hl : lp.kind = .lparen)
    (hr : rp.kind = .rparen) (h : Expr .equality ts e) : Expr .primary (lp :: (ts ++ [rp])) e
  | conditional {word lp rp : Token} {ts us : List Token} {condition consequence : Node}
    (hw : word.kind = .ifWord) (hl : lp.kind = .lparen) (hr : rp.kind = .rparen)
    (hc : Expr .equality ts condition) (hq : Block us consequence) :
    Expr .primary (word :: lp :: (ts ++ rp :: us)) (.conditional word condition consequence .hole)
  | alternative {word lp rp other : Token} {ts us vs : List Token}
    {condition consequence alternative : Node} (hw : word.kind = .ifWord) (hl : lp.kind = .lparen)
    (hr : rp.kind = .rparen) (ho : other.kind = .elseWord) (hc : Expr .equality ts condition)
    (hq : Block us consequence) (ha : Block vs alternative) :
    Expr .primary (word :: lp :: (ts ++ rp :: (us ++ other :: vs)))
      (.conditional word condition consequence alternative)
  | function {word lp rp : Token} {ts us : List Token} {parameters : List Identifier} {body : Node}
    (hw : word.kind = .fnWord) (hl : lp.kind = .lparen) (hr : rp.kind = .rparen)
    (hp : Parameters ts parameters) (hb : Block us body) :
    Expr .primary (word :: lp :: (ts ++ rp :: us)) (.function word parameters body)
  | array {lb rb : Token} {ts : List Token} {elements : List Node} (hl : lb.kind = .lbracket)
    (hr : rb.kind = .rbracket) (he : Elements ts elements) :
    Expr .primary (lb :: (ts ++ [rb])) (.array lb elements)

/-- Arguments or elements, if there are any. -/
inductive Elements : List Token → List Node → Prop
  | none : Elements [] []
  | some {ts : List Token} {es : List Node} (h : Exprs ts es) : Elements ts es

/-- Expressions with commas between them. -/
inductive Exprs : List Token → List Node → Prop
  | one {ts : List Token} {e : Node} (h : Expr .equality ts e) : Exprs ts [e]
  | cons {ts us : List Token} {comma : Token} {e : Node} {es : List Node}
    (hc : comma.kind = .comma) (he : Expr .equality ts e) (h : Exprs us es) :
    Exprs (ts ++ comma :: us) (e :: es)

/-- A statement, with its semicolon or without. -/
inductive Statement : (closed : Bool) → List Token → Node → Prop
  | letStatement {closed : Bool} {word name assign : Token} {ts us : List Token} {e : Node}
    (hw : word.kind = .letWord) (hn : name.kind = .ident) (ha : assign.kind = .assign)
    (he : Expr .equality ts e) (hs : Ending closed us) :
    Statement closed (word :: name :: assign :: (ts ++ us))
      (.letStatement word (some (.ofToken name)) e)
  | returnStatement {closed : Bool} {word : Token} {ts us : List Token} {e : Node}
    (hw : word.kind = .returnWord) (he : Expr .equality ts e) (hs : Ending closed us) :
    Statement closed (word :: (ts ++ us)) (.returnStatement word e)
  | expressionStatement {closed : Bool} {first : Token} {ts us : List Token} {e : Node}
    (he : Expr .equality (first :: ts) e) (hs : Ending closed us) :
    Statement closed (first :: ts ++ us) (.expressionStatement first e)

/-- Statements one after another. What follows a statement without a semicolon does not go on with
it. -/
inductive Statements : List Token → List Node → Prop
  | nil : Statements [] []
  | cons {closed : Bool} {ts us : List Token} {s : Node} {ss : List Node}
    (hs : Statement closed ts s) (h : Statements us ss)
    (ho : closed = false → ∀ t ∈ us.head?, t.kind ∉ continuers) : Statements (ts ++ us) (s :: ss)

/-- Statements in braces. -/
inductive Block : List Token → Node → Prop
  | braces {lb rb : Token} {ts : List Token} {ss : List Node} (hl : lb.kind = .lbrace)
    (hr : rb.kind = .rbrace) (h : Statements ts ss) : Block (lb :: (ts ++ [rb])) (.block lb ss)

end

/-- The tokens are a whole program. -/
inductive Program : List Token → Node → Prop
  | statements {ts : List Token} {last : Token} {ss : List Node} (hl : last.kind = .eof)
    (h : Statements ts ss) : Program (ts ++ [last]) (.program ss)

/-! ### Small facts -/

theorem Names.ne_nil {ts : List Token} {ids : List Identifier} (h : Names ts ids) : ts ≠ [] := by
  cases h <;> simp

theorem Expr.ne_nil : ∀ {level : Level} {ts : List Token} {e : Node}, Expr level ts e → ts ≠ []
  | _, _, _, .tighter h => h.ne_nil
  | _, _, _, .infixOp .. | _, _, _, .call .. | _, _, _, .index .. => by simp
  | _, _, _, .prefixOp .. | _, _, _, .identifier .. | _, _, _, .integer .. | _, _, _, .string ..
  | _, _, _, .trueWord .. | _, _, _, .falseWord .. | _, _, _, .grouped .. | _, _, _, .conditional ..
  | _, _, _, .alternative .. | _, _, _, .function .. | _, _, _, .array .. => by simp

theorem Exprs.ne_nil {ts : List Token} {es : List Node} (h : Exprs ts es) : ts ≠ [] := by
  cases h with
  | one h => exact h.ne_nil
  | cons => simp

/-- The tree of an expression is never missing. -/
theorem Expr.isHole_eq : ∀ {level : Level} {ts : List Token} {e : Node}, Expr level ts e →
    e.isHole = false
  | _, _, _, .tighter h => h.isHole_eq
  | _, _, _, .grouped _ _ h => h.isHole_eq
  | _, _, _, .infixOp .. | _, _, _, .call .. | _, _, _, .index .. | _, _, _, .prefixOp ..
  | _, _, _, .identifier .. | _, _, _, .integer .. | _, _, _, .string .. | _, _, _, .trueWord ..
  | _, _, _, .falseWord .. | _, _, _, .conditional .. | _, _, _, .alternative ..
  | _, _, _, .function .. | _, _, _, .array .. => rfl

theorem Statement.isHole_eq {closed : Bool} {ts : List Token} {s : Node} (h : Statement closed ts s) :
    s.isHole = false := by
  cases h <;> rfl

theorem Block.ne_nil {ts : List Token} {e : Node} (h : Block ts e) : ts ≠ [] := by
  cases h
  simp

theorem Statement.ne_nil {closed : Bool} {ts : List Token} {s : Node} (h : Statement closed ts s) :
    ts ≠ [] := by
  cases h <;> simp

end Scriptlet.Grammar
