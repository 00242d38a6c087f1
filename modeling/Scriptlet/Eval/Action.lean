import Scriptlet.Fault
import Scriptlet.Store

/-!
# Actions

An action reads and changes the store and ends with a result or a fault. What it has done to the store
before a fault stays done.
-/

namespace Scriptlet

/-- A computation on the store. -/
abbrev Action := ExceptT Fault (StateM Store)

namespace Action

/-- Ends the evaluation. -/
def fault {α : Type} (cause : Fault) : Action α := fun store => (.error cause, store)

/-- A result or a fault that does not depend on the store. -/
def ofExcept {α : Type} (result : Except Fault α) : Action α := fun store => (result, store)

/-- The value of a name as seen from a scope. -/
def lookup (scope : ScopeId) (name : String) : Action (Option Value) :=
  fun store => (.ok (store.lookup scope name), store)

/-- Binds a name in a scope. -/
def bindName (scope : ScopeId) (name : String) (value : Value) : Action Unit :=
  fun store => (.ok (), store.set scope name value)

/-- Makes a scope inside another. -/
def enclose (outer : ScopeId) (bindings : Bindings) : Action ScopeId := fun store =>
  let (scope, store) := store.addScope ⟨some outer, bindings⟩
  (.ok scope, store)

/-- Gives out an identity. -/
def fresh : Action Identity := fun store =>
  let (identity, store) := store.fresh
  (.ok identity, store)

/-- Prints a line. -/
def print (line : String) : Action Unit := fun store => (.ok (), store.print line)

/-- A new array. -/
def newArray (elements : List Value) : Action Value := do
  return .array (← fresh) elements

/-- A new function. -/
def newFunction (parameters : List Identifier) (body : Node) (scope : ScopeId) : Action Value := do
  return .function (← fresh) parameters body scope

end Action

end Scriptlet
