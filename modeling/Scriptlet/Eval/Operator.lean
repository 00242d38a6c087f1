import Scriptlet.Value

/-!
# Operators

What the operators make of values. Sums, differences, products and quotients of integers are computed without
bounds and cut off to 64 bits when a value is made of them; a quotient is rounded toward zero. Everything else
that an operator cannot do is a runtime error. An operator that would name the type of an absent value in such
an error is a fault.
-/

namespace Scriptlet

/-- An operator before its operand. -/
def applyPrefixOp (operator : String) (right : Value) : Except Fault Value :=
  match operator with
  | "!" => return .boolean (!right.isTruthy)
  | "-" =>
    match right with
    | .integer value => return .ofInt (-value.toInt)
    | right => return .error (.unknownPrefixOp "-" (← right.type))
  | operator => return .error (.unknownPrefixOp operator (← right.type))

/-- The quotient of the absolute values, with a minus sign if only one of the two is negative. -/
def quotient (left right : Int) : Int :=
  let absolute : Int := .ofNat (left.natAbs / right.natAbs)
  if decide (left < 0) == decide (right < 0) then absolute else -absolute

/-- An operator between two integers. -/
def applyIntegerOp (operator : String) (left right : Int64) : Value :=
  match operator with
  | "+" => .ofInt (left.toInt + right.toInt)
  | "-" => .ofInt (left.toInt - right.toInt)
  | "*" => .ofInt (left.toInt * right.toInt)
  | "/" => if right.toInt = 0 then .error .divisionByZero else .ofInt (quotient left.toInt right.toInt)
  | "<" => .boolean (decide (left.toInt < right.toInt))
  | ">" => .boolean (decide (right.toInt < left.toInt))
  | "==" => .boolean (left.toInt == right.toInt)
  | "!=" => .boolean (left.toInt != right.toInt)
  | operator => .error (.unknownInfixOp operator .integer .integer)

/-- An operator between two strings. -/
def applyStringOp (operator : String) (left right : String) : Value :=
  match operator with
  | "+" => .string (left ++ right)
  | operator => .error (.unknownInfixOp operator .string .string)

/-- An operator between two values. `isOne` says that both operands are known to be one object, which
makes them the same whatever they are. -/
def applyInfixOp (isOne : Bool) (operator : String) : Value → Value → Except Fault Value
  | .integer left, .integer right => return applyIntegerOp operator left right
  | .string left, .string right => return applyStringOp operator left right
  | left, right =>
    match operator with
    | "==" => return .boolean (isOne || left.isSame right)
    | "!=" => return .boolean (!(isOne || left.isSame right))
    | operator => do
      let leftType ← left.type
      let rightType ← right.type
      if leftType = rightType then return .error (.unknownInfixOp operator leftType rightType)
      else return .error (.typeMismatch operator leftType rightType)

/-- The element of an array at an index, and null outside the array. -/
def elementAt (elements : List Value) (index : Int64) : Value :=
  if 0 ≤ index.toInt then elements.getD index.toInt.toNat .null else .null

/-- The subscript operator. -/
def applyIndex : Value → Value → Except Fault Value
  | .array _ elements, .integer index => return elementAt elements index
  | left, _ => return .error (.notIndexable (← left.type))

end Scriptlet
