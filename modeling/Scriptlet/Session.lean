import Scriptlet.Eval
import Scriptlet.Parse.Expression
import Scriptlet.Parse.Feed

/-!
# Sessions

A session runs one source after another in the same global scope. It remembers the syntax errors of
the last source that was read, and whether the last run ended in an error.
-/

namespace Scriptlet

/-- Reads a source as a program. -/
def parse (limits : Limits) (source : String) : Except Fault Parsed :=
  parseWindow limits.reading (Feed.window source)

/-- The number of the global scope. -/
def globalScope : ScopeId := 0

/-- What a session keeps between two runs. -/
structure Session where
  store : Store
  /-- The syntax errors of the source that was read last. -/
  errors : List SyntaxError
  /-- Whether the last run that came to an end met an error. -/
  hasErrors : Bool

/-- How a run ends. -/
inductive Outcome where
  /-- The source has syntax errors, so nothing was evaluated. -/
  | rejected
  | value (value : Value)
  | fault (cause : Fault)

namespace Session

/-- A session in which nothing has been run. -/
def initial : Session := ⟨Store.initial, [], false⟩

/-- Performs an action on the store of a session. -/
def perform {α : Type} (session : Session) (action : Action α) : Except Fault α × Session :=
  let (result, store) := action session.store
  (result, { session with store })

/-- Reads a source and evaluates it in the global scope. A source with syntax errors is not evaluated.
A fault while reading leaves the session as it was; a fault while evaluating leaves what was done until
then, and the session does not count it as an error. -/
def run (limits : Limits) (session : Session) (source : String) : Outcome × Session :=
  match parse limits source with
  | .error cause => (.fault cause, session)
  | .ok parsed =>
    if parsed.errors.isEmpty then
      match eval limits.evaluation parsed.program globalScope session.store with
      | (.error cause, store) => (.fault cause, { session with store, errors := [] })
      | (.ok value, store) => (.value value, ⟨store, [], value.isError⟩)
    else (.rejected, { session with errors := parsed.errors, hasErrors := true })

/-- Calls a value from outside. -/
def call (limits : Limits) (session : Session) (callee : Value) (arguments : List Value) :
    Except Fault Value × Session :=
  session.perform (applyFunction (eval limits.evaluation) limits.evaluation callee arguments)

/-- The value of a global name. -/
def get? (session : Session) (name : String) : Option Value :=
  session.store.lookup globalScope name

/-- Binds a global name. -/
def set (session : Session) (name : String) (value : Value) : Session :=
  { session with store := session.store.set globalScope name value }

end Session

end Scriptlet
