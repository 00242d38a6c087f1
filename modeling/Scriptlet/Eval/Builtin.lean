import Scriptlet.Eval.Action
import Scriptlet.Limits

/-!
# Builtin functions

What a call of a builtin does. Arrays never change: `push` and `rest` make new ones.
-/

namespace Scriptlet

namespace Builtin

/-- Calls `body` with the only argument. -/
def withOne (arguments : List Value) (body : Value → Action Value) : Action Value :=
  match arguments with
  | [argument] => body argument
  | _ => pure (.error (.wrongArgumentCount arguments.length 1))

/-- Calls `body` with the elements of the only argument. -/
def withArray (builtin : Builtin) (arguments : List Value) (body : List Value → Action Value) :
    Action Value :=
  withOne arguments fun
    | .array _ elements => body elements
    | argument => return .error (.notAnArray builtin (← Action.ofExcept argument.type))

/-- Prints every value on a line of its own, up to the first that is nested deeper than `room`
or has no text. -/
def printAll (room : Nat) : List Value → Action Unit
  | [] => pure ()
  | value :: values => do
    Action.print (← Action.ofExcept (value.inspectWithin room))
    printAll room values

/-- Calls a builtin, which prints values that are nested at most `room` deep. -/
def call (room : Nat) (builtin : Builtin) (arguments : List Value) : Action Value :=
  match builtin with
  | .len => withOne arguments fun
    | .string value => pure (.ofInt value.length)
    | .array _ elements => pure (.ofInt elements.length)
    | argument => return .error (.noLength (← Action.ofExcept argument.type))
  | .push =>
    match arguments with
    | [.array _ elements, value] => Action.newArray (elements ++ [value])
    | [argument, _] => return .error (.notAnArray .push (← Action.ofExcept argument.type))
    | _ => pure (.error (.wrongArgumentCount arguments.length 2))
  | .first => withArray .first arguments fun elements => pure (elements.headD .null)
  | .last => withArray .last arguments fun elements => pure (elements.getLastD .null)
  | .rest => withArray .rest arguments fun
    | [] => pure .null
    | _ :: elements => Action.newArray elements
  | .spit => do
    printAll room arguments
    return .null

end Builtin

end Scriptlet
