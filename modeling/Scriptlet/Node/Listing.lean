import Scriptlet.Node
import Scriptlet.Text.Quoted

/-!
# Field listings

The listing of a token or a node names its kind and then each field with its content, so that two
nodes are told apart by any difference between them. A missing child is listed as `None`.
-/

namespace Scriptlet

namespace Text

/-- A list in square brackets. -/
def bracketed (items : List String) : String := "[" ++ ", ".intercalate items ++ "]"

/-- A kind with its fields in the order given. -/
def record (kind : String) (fields : List (String × String)) : String :=
  kind ++ "(" ++ ", ".intercalate (fields.map fun (field, content) => field ++ "=" ++ content) ++ ")"

/-- The listing of a truth value. -/
def truth (b : Bool) : String := if b then "True" else "False"

end Text

namespace Token

/-- The name of the kind and the quoted literal. -/
def summary (token : Token) : String := token.kind.name ++ " " ++ Text.quoted token.literal

def listing (token : Token) : String :=
  Text.record "Token"
    [("type", "<TokenType." ++ token.kind.name ++ ": " ++ Text.quoted token.kind.symbol ++ ">"),
      ("literal", Text.quoted token.literal)]

end Token

namespace Identifier

def listing (id : Identifier) : String :=
  Text.record "Identifier" [("token", id.token.listing), ("value", Text.quoted id.name)]

end Identifier

namespace Abstraction

def kindName : Abstraction → String
  | .node => "Node"
  | .statement => "Statement"
  | .expression => "Expression"

end Abstraction

namespace Node

/-- The name of the kind of a node in listings. -/
def kindName : Node → String
  | .hole => "None"
  | .bare kind => kind.kindName
  | .tokenless node => node.kindName
  | .parameterList _ => "Parameters"
  | .program _ => "Program"
  | .identifier _ => "Identifier"
  | .integer _ _ => "IntegerLiteral"
  | .boolean _ _ => "Boolean"
  | .string _ _ => "StringLiteral"
  | .prefixOp _ _ _ => "PrefixExpression"
  | .infixOp _ _ _ _ => "InfixExpression"
  | .block _ _ => "BlockStatement"
  | .conditional _ _ _ _ => "IfExpression"
  | .function _ _ _ => "FunctionLiteral"
  | .call _ _ _ => "CallExpression"
  | .array _ _ => "ArrayLiteral"
  | .index _ _ _ => "IndexExpression"
  | .letStatement _ _ _ => "LetStatement"
  | .returnStatement _ _ => "ReturnStatement"
  | .expressionStatement _ _ => "ExpressionStatement"

mutual

/-- The kind of a node with all its fields. -/
def listing : Node → String
  | .hole => "None"
  | .bare kind => Text.record kind.kindName []
  | .tokenless node => node.listing
  | .parameterList names => Text.bracketed (names.map Identifier.listing)
  | .program statements => Text.record "Program" [("statements", Text.bracketed (listingOfAll statements))]
  | .identifier id => id.listing
  | .integer token value =>
    Text.record "IntegerLiteral" [("token", token.listing), ("value", toString value)]
  | .boolean token value =>
    Text.record "Boolean" [("token", token.listing), ("value", Text.truth value)]
  | .string token value =>
    Text.record "StringLiteral" [("token", token.listing), ("value", Text.quoted value)]
  | .prefixOp token operator right =>
    Text.record "PrefixExpression"
      [("token", token.listing), ("operator", Text.quoted operator), ("right", right.listing)]
  | .infixOp token operator left right =>
    Text.record "InfixExpression"
      [("token", token.listing), ("operator", Text.quoted operator), ("left", left.listing),
        ("right", right.listing)]
  | .block token statements =>
    Text.record "BlockStatement"
      [("token", token.listing), ("statements", Text.bracketed (listingOfAll statements))]
  | .conditional token condition consequence alternative =>
    Text.record "IfExpression"
      [("token", token.listing), ("condition", condition.listing),
        ("consequence", consequence.listing), ("alternative", alternative.listing)]
  | .function token parameters body =>
    Text.record "FunctionLiteral"
      [("token", token.listing), ("parameters", Text.bracketed (parameters.map Identifier.listing)),
        ("body", body.listing)]
  | .call token callee arguments =>
    Text.record "CallExpression"
      [("token", token.listing), ("function", callee.listing),
        ("arguments", Text.bracketed (listingOfAll arguments))]
  | .array token elements =>
    Text.record "ArrayLiteral"
      [("token", token.listing), ("elements", Text.bracketed (listingOfAll elements))]
  | .index token left subscript =>
    Text.record "IndexExpression"
      [("token", token.listing), ("left", left.listing), ("index", subscript.listing)]
  | .letStatement token name value =>
    Text.record "LetStatement"
      [("token", token.listing), ("name", (name.map Identifier.listing).getD "None"),
        ("value", value.listing)]
  | .returnStatement token value =>
    Text.record "ReturnStatement" [("token", token.listing), ("value", value.listing)]
  | .expressionStatement token expression =>
    Text.record "ExpressionStatement" [("token", token.listing), ("expression", expression.listing)]

/-- The listings of all nodes of a list. -/
def listingOfAll : List Node → List String
  | [] => []
  | node :: nodes => node.listing :: listingOfAll nodes

end

end Node

end Scriptlet
