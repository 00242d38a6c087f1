import Scriptlet.Fault

/-!
# Values

What programs compute with. Arrays and functions have an identity: two of them are the same value
only if they come from one and the same evaluation of a literal or call of a builtin. Runtime errors
and returned values are values too, called signals: they end the evaluation of everything up to the
next function call or to the top.

A caller may leave a value out and hand it in all the same. Such an absent value is passed on like any
other, but it has neither a type nor a text, and a name that is bound to it counts as unbound.
-/

namespace Scriptlet

/-- The identity of an array or a function. -/
abbrev Identity := Nat

/-- The number of a scope in the store. -/
abbrev ScopeId := Nat

/-- The functions that are always there. -/
inductive Builtin where
  | len
  | push
  | first
  | last
  | rest
  | spit
deriving DecidableEq

namespace Builtin

def name : Builtin → String
  | .len => "len"
  | .push => "push"
  | .first => "first"
  | .last => "last"
  | .rest => "rest"
  | .spit => "spit"

/-- The builtin that a name stands for; `print` is another name for `spit`. -/
def ofName? (text : String) : Option Builtin :=
  match text with
  | "len" => some .len
  | "push" => some .push
  | "first" => some .first
  | "last" => some .last
  | "rest" => some .rest
  | "spit" | "print" => some .spit
  | _ => none

end Builtin

/-- The types of values that error messages speak of. -/
inductive ValueType where
  | integer
  | boolean
  | null
  | string
  | array
  | function
  | builtin
  | error
  | returned
deriving DecidableEq

def ValueType.name : ValueType → String
  | .integer => "INTEGER"
  | .boolean => "BOOLEAN"
  | .null => "NULL"
  | .string => "STRING"
  | .array => "ARRAY"
  | .function => "FUNCTION"
  | .builtin => "BUILTIN"
  | .error => "ERROR"
  | .returned => "RETURN_VALUE"

/-- The cause of a runtime error. -/
inductive RuntimeError where
  | undefinedIdentifier (name : String)
  | unknownPrefixOp (operator : String) (right : ValueType)
  | unknownInfixOp (operator : String) (left right : ValueType)
  | typeMismatch (operator : String) (left right : ValueType)
  | divisionByZero
  | notIndexable (left : ValueType)
  | wrongArgumentCount (got want : Nat)
  | notAFunction (callee : ValueType)
  | noLength (argument : ValueType)
  | notAnArray (builtin : Builtin) (argument : ValueType)
  /-- An error that a caller made, with its own wording. -/
  | custom (message : String)
deriving DecidableEq

/-- The wording of a runtime error. -/
def RuntimeError.message : RuntimeError → String
  | .undefinedIdentifier name => "undefined identifier: " ++ name
  | .unknownPrefixOp operator right => "unknown operator: " ++ operator ++ right.name
  | .unknownInfixOp operator left right =>
    "unknown operator: " ++ left.name ++ " " ++ operator ++ " " ++ right.name
  | .typeMismatch operator left right =>
    "type mismatch: " ++ left.name ++ " " ++ operator ++ " " ++ right.name
  | .divisionByZero => "division by zero"
  | .notIndexable left => "index operator not supported: " ++ left.name
  | .wrongArgumentCount got want =>
    "wrong number of arguments. got=" ++ toString got ++ ", want=" ++ toString want
  | .notAFunction callee => "not a function: " ++ callee.name
  | .noLength argument => "argument to `len` not supported, got " ++ argument.name
  | .notAnArray builtin argument =>
    "argument to `" ++ builtin.name ++ "` must be ARRAY, got " ++ argument.name
  | .custom message => message

/-- An integer cut off to 64 bits: of the integers from `-2 ^ 63` up to `2 ^ 63`, the one that differs from it by a
multiple of `2 ^ 64`. -/
def toInt64 (value : Int) : Int :=
  (value + 9223372036854775808) % 18446744073709551616 - 9223372036854775808

theorem toInt64_eq_bmod (value : Int) : toInt64 value = value.bmod Int64.size := by
  rw [toInt64, Int.bmod_def, Int64.size]
  split <;> omega

theorem minValue_le_toInt64 (value : Int) : Int64.minValue.toInt ≤ toInt64 value := by
  rw [Int64.toInt_minValue, toInt64]
  omega

theorem toInt64_le_maxValue (value : Int) : toInt64 value ≤ Int64.maxValue.toInt := by
  rw [Int64.toInt_maxValue, toInt64]
  omega

/-- A value. A function holds the scope it was made in. -/
inductive Value where
  | integer (value : Int64)
  | boolean (value : Bool)
  | null
  | string (value : String)
  | array (identity : Identity) (elements : List Value)
  | function (identity : Identity) (parameters : List Identifier) (body : Node) (scope : ScopeId)
  | builtin (builtin : Builtin)
  | error (cause : RuntimeError)
  | returned (value : Value)
  /-- What stands for a value that a caller left out. -/
  | absent

instance : Inhabited Value := ⟨.null⟩

namespace Value

/-- The integer value that is made of any integer: it is cut off first. -/
def ofInt (value : Int) : Value :=
  .integer (.ofIntLE (toInt64 value) (minValue_le_toInt64 value) (toInt64_le_maxValue value))

theorem ofInt_eq_integer (value : Int) : ofInt value = .integer (.ofInt value) := by
  have hvalue : Int64.ofIntLE (toInt64 value) (minValue_le_toInt64 value) (toInt64_le_maxValue value) =
      Int64.ofInt value := by
    rw [← Int64.toInt_inj, Int64.toInt_ofIntLE, Int64.toInt_ofInt, toInt64_eq_bmod]
  rw [ofInt, hvalue]

/-- The type of a value; to ask for that of an absent value is a fault. -/
def type : Value → Except Fault ValueType
  | .integer _ => .ok .integer
  | .boolean _ => .ok .boolean
  | .null => .ok .null
  | .string _ => .ok .string
  | .array _ _ => .ok .array
  | .function _ _ _ _ => .ok .function
  | .builtin _ => .ok .builtin
  | .error _ => .ok .error
  | .returned _ => .ok .returned
  | .absent => .error (.absent .type)

def isAbsent : Value → Bool
  | .absent => true
  | _ => false

/-- False and null count as false, everything else as true. -/
def isTruthy : Value → Bool
  | .boolean false | .null => false
  | _ => true

def isError : Value → Bool
  | .error _ => true
  | _ => false

/-- Whether a value ends the evaluation around it. -/
def isSignal : Value → Bool
  | .error _ | .returned _ => true
  | _ => false

/-- What a call or a program makes of the value it ends with: a returned value is unwrapped. -/
def unwrapped : Value → Value
  | .returned value => value
  | value => value

/-- Whether arrays, returned values and the bodies of functions are nested at most `limit` deep. -/
def fits : (limit : Nat) → Value → Bool
  | 0, _ => false
  | limit + 1, value =>
    match value with
    | .array _ elements => elements.all (fits limit)
    | .function _ _ body _ => body.fits limit
    | .returned value => value.fits limit
    | _ => true

/-- Whether two values are one and the same by what they are. Truth values, null, builtins and
the absent value exist once; arrays and functions are told by their identity. Integers and strings are compared by content
wherever two of them meet, and signals are never compared, so none of them counts as the same. -/
def isSame : Value → Value → Bool
  | .boolean a, .boolean b => a == b
  | .null, .null => true
  | .absent, .absent => true
  | .array a _, .array b _ => a == b
  | .function a _ _ _, .function b _ _ _ => a == b
  | .builtin a, .builtin b => a == b
  | _, _ => false

/-- Whether two values are equal as data: integers, strings and errors by content, all others only if
they are the same. `isOne` says that they are known to be one object. -/
def isEqual (isOne : Bool) : Value → Value → Bool
  | .integer a, .integer b => a == b
  | .string a, .string b => a == b
  | .error a, .error b => a.message == b.message
  | a, b => isOne || isSame a b

end Value

end Scriptlet
