import Scriptlet.Fault
import Scriptlet.Store.Listing

/-!
# Limits

Whatever is nested may be nested only so deep: expressions in a text, nodes in an evaluation, and trees
and values that are written as text. What is nested deeper is a fault, and so is a text of which a part
is missing. In a listing of fields a missing part shows as such.
-/

namespace Scriptlet

/-- How deep things may be nested. -/
structure Limits where
  /-- Expressions in a source. -/
  reading : Nat
  /-- Nodes and bodies of functions in an evaluation, together with the values that it prints. -/
  evaluation : Nat
  /-- Trees and values in their own text. -/
  writing : Nat
  /-- Trees and values in a listing of their fields. -/
  listing : Nat

/-- The limits in use. -/
def Limits.standard : Limits := ⟨3000, 5000, 3300, 2300⟩

/-- The first thing, from left to right, that keeps a node from being written within a limit. -/
def Node.obstacle? : (limit : Nat) → Node → Option Fault
  | 0, _ => some .tooDeep
  | limit + 1, node =>
    match node with
    | .tokenless _ => some (.absent .token)
    | node => node.children.findSome? (obstacle? limit)

/-- The first thing, from left to right, that keeps a value from being written within a limit. -/
def Value.obstacle? : (limit : Nat) → Value → Option Fault
  | 0, _ => some .tooDeep
  | limit + 1, value =>
    match value with
    | .absent => some (.absent .text)
    | .array _ elements => elements.findSome? (obstacle? limit)
    | .function _ _ body _ => body.obstacle? limit
    | .returned value => value.obstacle? limit
    | _ => none

/-- The canonical text of a node, if nothing keeps it from being written. -/
def Node.renderWithin (limit : Nat) (node : Node) : Except Fault String :=
  match node.obstacle? limit with
  | some cause => .error cause
  | none => .ok node.render

/-- The text of a value in output, if nothing keeps it from being written. -/
def Value.inspectWithin (limit : Nat) (value : Value) : Except Fault String :=
  match value.obstacle? limit with
  | some cause => .error cause
  | none => .ok value.inspect

/-- The field listing of a node, if it is not nested too deep. -/
def Node.listingWithin (limit : Nat) (node : Node) : Except Fault String :=
  if node.fits limit then .ok node.listing else .error .tooDeep

/-- The field listing of a value, if it is not nested too deep. -/
def Value.listingWithin (limit : Nat) (value : Value) : Except Fault String :=
  if value.fits limit then .ok value.listing else .error .tooDeep

/-- The listing of a scope, if no value in it is nested too deep. -/
def Bindings.listingWithin (limit : Nat) (bindings : Bindings) : Except Fault String :=
  if bindings.all fun (_, value) => value.fits limit then .ok bindings.listing
  else .error .tooDeep

end Scriptlet
