import Scriptlet.Eval

/-!
# Running actions

What a sequence of two actions does to the store, and what the actions that evaluation is made of do
one by one.
-/

namespace Scriptlet

namespace Action

variable {α β : Type}

/-- The second action goes on where the first one ends, and is left out after a fault. -/
theorem bind_run (act : Action α) (next : α → Action β) (store : Store) :
    (act >>= next) store =
      match act store with
      | (.ok a, store') => next a store'
      | (.error cause, store') => (.error cause, store') := by
  show (ExceptT.bind act next) store = _
  simp only [ExceptT.bind, ExceptT.mk, bind, StateT.bind]
  rcases act store with ⟨cause | a, store'⟩ <;> rfl

theorem bind_run_ok {act : Action α} {store store' : Store} {a : α} (h : act store = (.ok a, store'))
    (next : α → Action β) : (act >>= next) store = next a store' := by
  rw [bind_run, h]

theorem bind_run_fault {act : Action α} {store : Store} {cause : Fault} (h : (act store).1 = .error cause)
    (next : α → Action β) : ((act >>= next) store).1 = .error cause := by
  rw [bind_run]
  cases ho : act store with
  | mk result store' =>
    rw [ho] at h
    cases h
    rfl

theorem newArray_run (elements : List Value) (store : Store) :
    newArray elements store = (.ok (.array store.nextIdentity elements), store.fresh.2) := rfl

theorem newFunction_run (parameters : List Identifier) (body : Node) (scope : ScopeId)
    (store : Store) :
    newFunction parameters body scope store =
      (.ok (.function store.nextIdentity parameters body scope), store.fresh.2) := rfl

theorem enclose_run (outer : ScopeId) (bindings : Bindings) (store : Store) :
    enclose outer bindings store =
      (.ok store.scopes.size, (store.addScope ⟨some outer, bindings⟩).2) := rfl

end Action

section

variable {ev : Evaluator} {node : Node} {scope : ScopeId} {store store' : Store} {value : Value}

theorem evalThen_value (h : ev node scope store = (.ok value, store')) (hs : value.isSignal = false)
    (next : Value → Action Value) : evalThen ev node scope next store = next value store' := by
  rw [evalThen, Action.bind_run_ok h, hs]
  rfl

theorem evalThen_signal (h : ev node scope store = (.ok value, store')) (hs : value.isSignal = true)
    (next : Value → Action Value) : evalThen ev node scope next store = (.ok value, store') := by
  rw [evalThen, Action.bind_run_ok h, if_pos hs]
  rfl

end

end Scriptlet
