import Scriptlet.Node
import Scriptlet.Parse.Rules
import Scriptlet.Proofs.Token.Spelling

/-!
# Spelling trees

A tree can be spelled with as few parentheses as its operators allow. Every statement ends with a
semicolon, and single spaces stand between tokens. Operators and literals keep the tokens they were read
from, and the marks that a tree does not hold are added.

The spelling does not tell with which token a statement began that is only an expression, for it may have
begun with a parenthesis that is not needed. `Node.unstarted` forgets that token, and no other.
-/

namespace Scriptlet

namespace Token

/-- The token of a kind that has one spelling. -/
def mark (kind : TokenKind) : Token := ⟨kind, kind.symbol⟩

def elseWord : Token := ⟨.elseWord, "else"⟩

/-- The tokens that a spelling adds to those of the tree. -/
def marks : List Token :=
  [mark .lparen, mark .rparen, mark .rbrace, mark .rbracket, mark .comma, mark .semicolon, mark .assign,
    elseWord]

theorem wellFormed_of_mem_marks {t : Token} (h : t ∈ marks) : t.WellFormed := by
  have hfixed : ∀ t ∈ marks, t = mark t.kind ∧ t.kind ∈ TokenKind.fixed ∨ t = elseWord := by decide
  rcases hfixed t h with ⟨ht, hk⟩ | rfl
  · rw [ht]
    exact .fixed hk
  · exact @WellFormed.word 'e' ['l', 's', 'e'] (List.all_eq_true.1 rfl)

theorem ne_int_of_mem_marks {t : Token} (h : t ∈ marks) : t.kind ≠ .int := by
  have hint : ∀ t ∈ marks, t.kind ≠ .int := by decide
  exact hint t h

end Token

theorem tokensOf_mark {c : Char} {kind : TokenKind} (h : TokenKind.ofChar? c = some kind) (cs : List Char) :
    tokensOf (c :: cs) = .mark kind :: tokensOf cs := by
  have hb : isBlank c = false := by
    refine Bool.eq_false_iff.2 fun hb => ?_
    rcases isBlank_cases hb with rfl | rfl | rfl | rfl <;> cases h
  rw [tokensOf_cons hb, scanAt_of_ofChar? h]
  rfl

/-- The tokens in parentheses, if there have to be any. -/
def enclosed (needed : Bool) (ts : List Token) : List Token :=
  if needed then .mark .lparen :: (ts ++ [.mark .rparen]) else ts

/-- Lists of tokens with commas between them. -/
def separated (rows : List (List Token)) : List Token := [.mark .comma].intercalate rows

@[simp] theorem separated_nil : separated [] = [] := rfl

@[simp] theorem separated_singleton (row : List Token) : separated [row] = row :=
  List.intercalate_singleton

theorem separated_cons {row : List Token} {rows : List (List Token)} (h : rows ≠ []) :
    separated (row :: rows) = row ++ .mark .comma :: separated rows := by
  obtain ⟨next, rows, rfl⟩ := List.exists_cons_of_ne_nil h
  simp [separated, List.intercalate_cons_cons]

namespace Node

/-- How tightly an expression holds together: as its operator binds, if it has one, and tighter than
any operator if not. -/
def tightness : Node → Nat
  | .infixOp token _ _ _ => token.kind.precedence.rank
  | .prefixOp .. => Precedence.prefixed.rank
  | _ => Precedence.index.rank

mutual

/-- The tokens of a tree, with the parentheses that are needed and no others. -/
def spell : Node → List Token
  | .hole | .bare _ | .tokenless _ | .parameterList _ => []
  | .program statements => (spellAll statements).flatten
  | .identifier id => [id.token]
  | .integer token _ | .boolean token _ | .string token _ => [token]
  | .prefixOp token _ right =>
    token :: enclosed (right.tightness < Precedence.prefixed.rank) right.spell
  | .infixOp token _ left right =>
    -- Operators of equal precedence group to the left.
    enclosed (left.tightness < token.kind.precedence.rank) left.spell ++
      token :: enclosed (right.tightness ≤ token.kind.precedence.rank) right.spell
  | .block token statements => token :: ((spellAll statements).flatten ++ [.mark .rbrace])
  | .conditional token condition consequence alternative =>
    token :: .mark .lparen :: (condition.spell ++ .mark .rparen ::
      (consequence.spell ++ if alternative.isHole then [] else .elseWord :: alternative.spell))
  | .function token parameters body =>
    token :: .mark .lparen ::
      (separated (parameters.map fun id => [id.token]) ++ .mark .rparen :: body.spell)
  | .call token callee arguments =>
    enclosed (callee.tightness < Precedence.call.rank) callee.spell ++
      token :: (separated (spellAll arguments) ++ [.mark .rparen])
  | .array token elements => token :: (separated (spellAll elements) ++ [.mark .rbracket])
  | .index token left subscript =>
    enclosed (left.tightness < Precedence.call.rank) left.spell ++
      token :: (subscript.spell ++ [.mark .rbracket])
  | .letStatement token name value =>
    token :: ((name.map Identifier.token).toList ++
      .mark .assign :: (value.spell ++ [.mark .semicolon]))
  | .returnStatement token value => token :: (value.spell ++ [.mark .semicolon])
  | .expressionStatement _ expression => expression.spell ++ [.mark .semicolon]

def spellAll : List Node → List (List Token)
  | [] => []
  | node :: nodes => node.spell :: spellAll nodes

end

/-- A tree as text. -/
def spelled (node : Node) : String := String.ofList ([' '].intercalate (node.spell.map Token.text))

mutual

/-- The tree without the tokens that its expression statements begin with. -/
def unstarted : Node → Node
  | .tokenless node => .tokenless node.unstarted
  | .program statements => .program (unstartedAll statements)
  | .prefixOp token operator right => .prefixOp token operator right.unstarted
  | .infixOp token operator left right => .infixOp token operator left.unstarted right.unstarted
  | .block token statements => .block token (unstartedAll statements)
  | .conditional token condition consequence alternative =>
    .conditional token condition.unstarted consequence.unstarted alternative.unstarted
  | .function token parameters body => .function token parameters body.unstarted
  | .call token callee arguments => .call token callee.unstarted (unstartedAll arguments)
  | .array token elements => .array token (unstartedAll elements)
  | .index token left subscript => .index token left.unstarted subscript.unstarted
  | .letStatement token name value => .letStatement token name value.unstarted
  | .returnStatement token value => .returnStatement token value.unstarted
  | .expressionStatement _ expression => .expressionStatement .blank expression.unstarted
  | .hole => .hole
  | .bare kind => .bare kind
  | .parameterList names => .parameterList names
  | .identifier id => .identifier id
  | .integer token value => .integer token value
  | .boolean token value => .boolean token value
  | .string token value => .string token value

def unstartedAll : List Node → List Node
  | [] => []
  | node :: nodes => node.unstarted :: unstartedAll nodes

end

/-- A text that spells well-formed tokens has them. -/
theorem tokenize_spelled {node : Node} (h : ∀ t ∈ node.spell, t.WellFormed) :
    tokenize node.spelled = node.spell ++ [Token.endOfInput] := by
  unfold tokenize spelled
  rw [String.toList_ofList]
  exact tokensOf_of_spells (spells_intercalate node.spell) h

end Node

end Scriptlet
