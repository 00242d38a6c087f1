import Scriptlet.Node.Listing

/-!
# Canonical text

`Node.render` writes a tree as program text in which every operation stands in parentheses. Literals
are written as their tokens spell them and identifiers by their names. A missing child shows as
`None`, except that an expression statement without an expression is empty. The text of a node whose
token is missing is never asked for.
-/

namespace Scriptlet

namespace Node

mutual

/-- The canonical text of a node. -/
def render : Node → String
  | .hole => "None"
  | .bare kind => Text.record kind.kindName []
  | .tokenless node => node.render
  | .parameterList names => Text.bracketed (names.map Identifier.listing)
  | .program statements | .block _ statements => String.join (renderAll statements)
  | .identifier id => id.name
  | .integer token _ | .boolean token _ | .string token _ => token.literal
  | .prefixOp _ operator right => "(" ++ operator ++ right.render ++ ")"
  | .infixOp _ operator left right =>
    "(" ++ left.render ++ " " ++ operator ++ " " ++ right.render ++ ")"
  | .conditional _ condition consequence alternative =>
    "if" ++ condition.render ++ " " ++ consequence.render ++
      if alternative.isHole then "" else "else " ++ alternative.render
  | .function token parameters body =>
    token.literal ++ "(" ++ ", ".intercalate (parameters.map Identifier.name) ++ ") " ++ body.render
  | .call _ callee arguments =>
    callee.render ++ "(" ++ ", ".intercalate (renderAll arguments) ++ ")"
  | .array _ elements => "[" ++ ", ".intercalate (renderAll elements) ++ "]"
  | .index _ left subscript => "(" ++ left.render ++ "[" ++ subscript.render ++ "])"
  | .letStatement token name value =>
    token.literal ++ " " ++ (name.map Identifier.name).getD "None" ++ " = " ++ value.render ++ ";"
  | .returnStatement token value => token.literal ++ " " ++ value.render ++ ";"
  | .expressionStatement _ expression => if expression.isHole then "" else expression.render

/-- The canonical texts of all nodes of a list. -/
def renderAll : List Node → List String
  | [] => []
  | node :: nodes => node.render :: renderAll nodes

end

end Node

end Scriptlet
