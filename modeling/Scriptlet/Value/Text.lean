import Scriptlet.Value
import Scriptlet.Node.Render

/-!
# Values as text

`Value.inspect` is the text of a value in output; `Value.listing` lists its fields. An absent value is
listed as `None`, and its text in output is never asked for.
-/

namespace Scriptlet

namespace Value

mutual

/-- The text of a value in output. -/
def inspect : Value → String
  | .integer value => toString value.toInt
  | .boolean value => if value then "true" else "false"
  | .null => "null"
  | .string value => value
  | .array _ elements => "[" ++ ", ".intercalate (inspectAll elements) ++ "]"
  | .function _ parameters body _ =>
    "fn(" ++ ", ".intercalate (parameters.map Identifier.name) ++ ") \x7b\n" ++ body.render ++ "\n\x7d"
  | .builtin _ => "builtin function"
  | .error cause => "ERROR: " ++ cause.message
  | .returned value => value.inspect
  | .absent => ""

/-- The texts of all values of a list. -/
def inspectAll : List Value → List String
  | [] => []
  | value :: values => value.inspect :: inspectAll values

end

mutual

/-- The kind of a value with all its fields. The scope of a function is left out, since the function
may be bound in it. -/
def listing : Value → String
  | .integer value => Text.record "Integer" [("value", toString value.toInt)]
  | .boolean value => Text.record "Boolean" [("value", Text.truth value)]
  | .null => Text.record "Null" []
  | .string value => Text.record "String" [("value", Text.quoted value)]
  | .array _ elements => Text.record "Array" [("elements", Text.bracketed (listingOfAll elements))]
  | .function _ parameters body _ =>
    Text.record "Function"
      [("parameters", Text.bracketed (parameters.map Identifier.listing)), ("body", body.listing)]
  | .builtin b => Text.record "Builtin" [("name", Text.quoted b.name)]
  | .error cause => Text.record "Error" [("message", Text.quoted cause.message)]
  | .returned value => Text.record "ReturnValue" [("value", value.listing)]
  | .absent => "None"

/-- The listings of all values of a list. -/
def listingOfAll : List Value → List String
  | [] => []
  | value :: values => value.listing :: listingOfAll values

end

end Value

end Scriptlet
