import Scriptlet.Value

/-!
# The store

Scopes are numbered in the order in which they are made and never removed; all who hold the number of
a scope see every binding made in it. Each scope but a root has an outer scope that is older than it,
where names that it does not bind are looked up. The store also counts the identities given out and
keeps the lines that were printed.
-/

namespace Scriptlet

/-- The bindings of one scope in the order in which the names were first bound. -/
abbrev Bindings := List (String × Value)

namespace Bindings

/-- The value bound to a name. -/
def get? : Bindings → String → Option Value
  | [], _ => none
  | (bound, value) :: bindings, name => if bound = name then some value else get? bindings name

/-- Binds a name, which keeps its place if it has one. -/
def set (name : String) (value : Value) : Bindings → Bindings
  | [] => [(name, value)]
  | (bound, old) :: bindings =>
    if bound = name then (bound, value) :: bindings else (bound, old) :: set name value bindings

theorem get?_set (bindings : Bindings) (name : String) (value : Value) (other : String) :
    (bindings.set name value).get? other =
      if name = other then some value else bindings.get? other := by
  induction bindings with
  | nil => rfl
  | cons binding bindings ih =>
    obtain ⟨bound, old⟩ := binding
    by_cases hb : bound = name
    · by_cases h : name = other <;> simp [set, get?, hb, h]
    · by_cases h : bound = other
      · subst h
        simp [set, get?, hb, Ne.symm hb]
      · simp [set, get?, hb, h, ih]

/-- The bindings of parameters to arguments, made from left to right. -/
def ofArguments (parameters : List Identifier) (arguments : List Value) : Bindings :=
  (parameters.zip arguments).foldl (fun bindings (id, value) => set id.name value bindings) []

end Bindings

/-- A scope. -/
structure Scope where
  outer : Option ScopeId
  bindings : Bindings

/-- All that evaluation reads and changes. -/
structure Store where
  scopes : Array Scope
  /-- The next identity that is free. -/
  nextIdentity : Identity
  /-- The lines printed so far. -/
  output : Array String

namespace Store

/-- A store with one scope, which is empty. -/
def initial : Store := ⟨#[⟨none, []⟩], 0, #[]⟩

/-- The bindings of a scope. -/
def bindings (store : Store) (scope : ScopeId) : Bindings :=
  match store.scopes[scope]? with
  | none => []
  | some found => found.bindings

/-- Looks a name up in at most `steps` scopes from the given one outward. -/
def lookupWithin (store : Store) (name : String) : Nat → ScopeId → Option Value
  | 0, _ => none
  | steps + 1, scope =>
    match store.scopes[scope]? with
    | none => none
    | some found =>
      match found.bindings.get? name with
      | some value => some value
      | none =>
        match found.outer with
        | none => none
        | some outer => lookupWithin store name steps outer

/-- The value of a name in the nearest scope that binds it, if that is not the absent value. Outer
scopes are older, so the number of a scope bounds the scopes around it. -/
def lookup (store : Store) (scope : ScopeId) (name : String) : Option Value :=
  (store.lookupWithin name (scope + 1) scope).filter fun value => !value.isAbsent

/-- Binds a name in a scope. -/
def set (store : Store) (scope : ScopeId) (name : String) (value : Value) : Store :=
  { store with
    scopes := store.scopes.modify scope fun found =>
      { found with bindings := found.bindings.set name value } }

/-- Adds a scope and gives its number. -/
def addScope (store : Store) (scope : Scope) : ScopeId × Store :=
  (store.scopes.size, { store with scopes := store.scopes.push scope })

/-- Gives out an identity. -/
def fresh (store : Store) : Identity × Store :=
  (store.nextIdentity, { store with nextIdentity := store.nextIdentity + 1 })

/-- Prints a line. -/
def print (store : Store) (line : String) : Store :=
  { store with output := store.output.push line }

end Store

end Scriptlet
