import Scriptlet.Node.Listing

/-!
# Faults

What ends a reading or an evaluation without any result. A fault is neither a syntax error, which is
recorded while reading goes on, nor a runtime error, which is a value of the language.
-/

namespace Scriptlet

/-- The greatest number of digits that an integer literal may have. -/
def maxDigits : Nat := 4300

/-- How many characters of a quoted literal the wording of a fault shows. -/
def shownLength : Nat := 200

/-- What can be asked of something that a caller left out. -/
inductive Aspect where
  /-- The name that a value is bound to. -/
  | name
  /-- The type of a value. -/
  | type
  /-- The text of a value. -/
  | text
  /-- The token of a node. -/
  | token
deriving DecidableEq

/-- The cause of a fault. -/
inductive Fault where
  /-- The nesting limit was reached. -/
  | tooDeep
  /-- An integer literal begins with more than `maxDigits` decimal digits. -/
  | overlongInteger (digits : Nat)
  /-- A literal consists of digits, and some of them are not decimal. -/
  | notDecimal (literal : String)
  /-- The node has no value. -/
  | cannotEvaluate (node : Node)
  /-- Something is missing, and the given aspect of it was asked for. -/
  | absent (aspect : Aspect)

/-- The wording of a fault, if it has one. -/
def Fault.message? : Fault → Option String
  | .tooDeep | .absent _ => none
  | .overlongInteger digits =>
    some ("Exceeds the limit (" ++ toString maxDigits ++
      " digits) for integer string conversion: value has " ++ toString digits ++
      " digits; use sys.set_int_max_str_digits() to increase the limit")
  | .notDecimal literal =>
    some ("invalid literal for int() with base 10: " ++
      String.ofList ((Text.quotedChars literal.toList).take shownLength))
  | .cannotEvaluate node => some ("Cannot evaluate " ++ node.listing)

/-- There is more than one fault, so no result is all of them. -/
theorem Fault.exists_ne {α : Type} (result : Except Fault α) : ∃ cause, result ≠ .error cause := by
  cases result with
  | ok a => exact ⟨.tooDeep, nofun⟩
  | error cause =>
    cases cause with
    | tooDeep => exact ⟨.notDecimal "", nofun⟩
    | _ => exact ⟨.tooDeep, nofun⟩

end Scriptlet
