import Scriptlet.Eval.Operator
import Scriptlet.Eval.Builtin

/-!
# Evaluation

Evaluation goes over the tree from left to right. A signal met on the way is the value of everything
around it, up to the call or the program that unwraps it. `evalNode ev room` evaluates one node and
leaves its parts to the evaluator `ev`; values that are printed right here may be nested `room` deep.
`eval depth` allows nodes, bodies of functions and printed values included, to be nested at most
`depth` deep.
-/

namespace Scriptlet

/-- A way to evaluate a node in a scope. -/
abbrev Evaluator := Node → ScopeId → Action Value

section

variable (ev : Evaluator)

/-- Evaluates a node and goes on with its value; a signal is passed on instead. -/
def evalThen (node : Node) (scope : ScopeId) (next : Value → Action Value) : Action Value := do
  let value ← ev node scope
  if value.isSignal then return value else next value

/-- Evaluates statements up to the first signal. The value is that of the last one evaluated, and
`last` if there is none. -/
def evalSequence (scope : ScopeId) : List Node → Value → Action Value
  | [], last => return last
  | node :: nodes, _ => do
    let value ← ev node scope
    if value.isSignal then return value else evalSequence scope nodes value

/-- Evaluates all nodes, in front of which `seen` stand in reverse, and goes on with their values; the
first signal is passed on instead. -/
def evalAllThen (scope : ScopeId) (next : List Value → Action Value) :
    List Node → List Value → Action Value
  | [], seen => next seen.reverse
  | node :: nodes, seen => do
    let value ← ev node scope
    if value.isSignal then return value else evalAllThen scope next nodes (value :: seen)

/-- The value of a name: that of its nearest binding, or else a builtin. -/
def evalName (scope : ScopeId) (name : String) : Action Value := do
  match ← Action.lookup scope name with
  | some value => return value
  | none =>
    match Builtin.ofName? name with
    | some builtin => return .builtin builtin
    | none => return .error (.undefinedIdentifier name)

variable (room : Nat)

/-- Calls a value. The body of a function is evaluated in a new scope inside the one that the function
was made in. -/
def applyFunction (callee : Value) (arguments : List Value) : Action Value :=
  match callee with
  | .function _ parameters body outer => do
    if arguments.length = parameters.length then
      let scope ← Action.enclose outer (Bindings.ofArguments parameters arguments)
      return (← ev body scope).unwrapped
    else return .error (.wrongArgumentCount arguments.length parameters.length)
  | .builtin builtin => builtin.call room arguments
  | callee => return .error (.notAFunction (← Action.ofExcept callee.type))

/-- Evaluates a node whose parts are evaluated by `ev`. -/
def evalNode (node : Node) (scope : ScopeId) : Action Value :=
  match node with
  | .program statements => do return (← evalSequence ev scope statements .null).unwrapped
  | .block _ statements => evalSequence ev scope statements .null
  | .expressionStatement _ expression => ev expression scope
  | .returnStatement _ value => evalThen ev value scope fun value => return .returned value
  | .letStatement _ name value => evalThen ev value scope fun value =>
    match name with
    | none => Action.fault (.absent .name)
    | some id => do
      Action.bindName scope id.name value
      return .null
  | .integer _ value => return .ofInt value
  | .string _ value => return .string value
  | .boolean _ value => return .boolean value
  | .prefixOp _ operator right => evalThen ev right scope fun right =>
    Action.ofExcept (applyPrefixOp operator right)
  | .infixOp _ operator left right => evalThen ev left scope fun left =>
    evalThen ev right scope fun right =>
      Action.ofExcept (applyInfixOp false operator left right)
  | .conditional _ condition consequence alternative =>
    evalThen ev condition scope fun condition =>
      if condition.isTruthy then ev consequence scope
      else if alternative.isHole then return .null
      else ev alternative scope
  | .identifier id => evalName scope id.name
  | .function _ parameters body => Action.newFunction parameters body scope
  | .call _ callee arguments => evalThen ev callee scope fun callee =>
    evalAllThen ev scope (applyFunction ev room callee) arguments []
  | .array _ elements => evalAllThen ev scope Action.newArray elements []
  | .index _ left subscript => evalThen ev left scope fun left =>
    evalThen ev subscript scope fun subscript =>
      Action.ofExcept (applyIndex left subscript)
  | .tokenless node => ev node scope
  | .hole | .bare _ | .parameterList _ => Action.fault (.cannotEvaluate node)

end

/-- Evaluates a node with parts nested at most `depth` deep. -/
def eval : Nat → Evaluator
  | 0, _, _ => Action.fault .tooDeep
  | depth + 1, node, scope => evalNode (eval depth) depth node scope

end Scriptlet
