import Mathlib.Order.Basic
import Scriptlet.Proofs.Eval.Action

/-!
# What evaluation keeps

A discipline says which nodes may be evaluated, in which scopes, what the objects that exist may be
like, and which faults may end an evaluation. What is allowed may grow as the store does, so it is
relative to a world. The fields of `Discipline` are what the single operations on the store owe;
`Discipline.agree_eval` draws the conclusion for all of evaluation: from a store in which every value
is sound, any node that may be evaluated leads to such a store again, and its value is a sound one or
a signal that carries a sound one.

All this is proved of two evaluators at a time, which agree wherever the discipline allows a call.
So evaluation never asks for a part outside of the discipline, since the answer could make no
difference; `Scriptlet.Proofs.Eval.Course` says so for every call in the course of an evaluation.
-/

namespace Scriptlet

/-! ### Values and their parts -/

namespace Value

/-- `part` is the value itself or stands in it, as an element of an array at any depth. -/
inductive Occurs (part : Value) : Value → Prop
  | self : Occurs part part
  | element {identity : Identity} {elements : List Value} {element : Value}
    (he : element ∈ elements) (h : Occurs part element) : Occurs part (.array identity elements)

/-- Values that have no parts and no identity. -/
def isAtom : Value → Bool
  | .integer _ | .boolean _ | .null | .string _ | .builtin _ => true
  | _ => false

/-- No part of the value is a signal or absent, and all of them are as `object` says. -/
def Sound (object : Value → Prop) (value : Value) : Prop :=
  ∀ part : Value, part.Occurs value → part.isSignal = false ∧ part.isAbsent = false ∧ object part

theorem occurs_array_iff {part : Value} {identity : Identity} {elements : List Value} :
    part.Occurs (.array identity elements) ↔
      part = .array identity elements ∨ ∃ element ∈ elements, part.Occurs element := by
  constructor
  · rintro (_ | ⟨he, h⟩)
    · exact .inl rfl
    · exact .inr ⟨_, he, h⟩
  · rintro (rfl | ⟨element, he, h⟩)
    · exact .self
    · exact .element he h

theorem occurs_iff_eq {part value : Value} (h : ∀ identity elements, value ≠ .array identity elements) :
    part.Occurs value ↔ part = value := by
  constructor
  · rintro (_ | ⟨he, -⟩)
    · rfl
    · exact absurd rfl (h _ _)
  · rintro rfl
    exact .self

theorem type_eq_ok {value : Value} (h : value.isAbsent = false) : ∃ t, value.type = .ok t := by
  cases value with
  | absent => simp [isAbsent] at h
  | _ => exact ⟨_, rfl⟩

namespace Sound

variable {object object' : Value → Prop} {value : Value}

theorem mono (h : value.Sound object) (ho : ∀ part, object part → object' part) :
    value.Sound object' :=
  fun part hp => ⟨(h part hp).1, (h part hp).2.1, ho part (h part hp).2.2⟩

theorem isSignal_eq (h : value.Sound object) : value.isSignal = false := (h value .self).1

theorem isAbsent_eq (h : value.Sound object) : value.isAbsent = false := (h value .self).2.1

theorem element {identity : Identity} {elements : List Value}
    (h : (Value.array identity elements).Sound object) : ∀ element ∈ elements, element.Sound object :=
  fun _ he part hp => h part (.element he hp)

theorem array {identity : Identity} {elements : List Value} (h : object (.array identity elements))
    (he : ∀ element ∈ elements, element.Sound object) :
    (Value.array identity elements).Sound object := by
  intro part hp
  rcases occurs_array_iff.1 hp with rfl | ⟨element, hm, hp⟩
  · exact ⟨rfl, rfl, h⟩
  · exact he element hm part hp

theorem function {identity : Identity} {parameters : List Identifier} {body : Node} {scope : ScopeId}
    (h : object (.function identity parameters body scope)) :
    (Value.function identity parameters body scope).Sound object := by
  intro part hp
  rw [occurs_iff_eq (fun _ _ => Value.noConfusion)] at hp
  exact hp ▸ ⟨rfl, rfl, h⟩

theorem atom (ha : value.isAtom = true) (h : object value) : value.Sound object := by
  intro part hp
  rw [occurs_iff_eq (by rintro _ _ rfl; simp [isAtom] at ha)] at hp
  subst hp
  cases part <;> simp_all [isAtom, isSignal, isAbsent]

end Sound

end Value

/-- The nodes that the evaluation of a node may ask for in the same scope. -/
def Node.parts : Node → List Node
  | .function _ _ _ => []
  | .conditional _ condition consequence alternative =>
    if alternative.isHole then [condition, consequence] else [condition, consequence, alternative]
  | node => node.children

/-- Whether there is a rule for the evaluation of the node. -/
def Node.hasValue : Node → Bool
  | .hole | .bare _ | .parameterList _ => false
  | _ => true

/-! ### Disciplines -/

/-- What evaluation is to keep, relative to worlds that grow with the store. -/
structure Discipline (W : Type) [Preorder W] where
  /-- The nodes that may be evaluated. -/
  runs : Node → Prop
  /-- What an object may be like, apart from the objects that stand in it. -/
  object : W → Value → Prop
  /-- The scopes that nodes may be evaluated in. -/
  scope : W → ScopeId → Prop
  /-- What the world says of the store, apart from the values that are bound in it. -/
  world : W → Store → Prop
  /-- The faults that may end an evaluation. -/
  fault : Fault → Prop
  object_mono : ∀ {w w' value}, w ≤ w' → object w value → object w' value
  scope_mono : ∀ {w w' i}, w ≤ w' → scope w i → scope w' i
  object_atom : ∀ w {value : Value}, value.isAtom = true → object w value
  world_set : ∀ {w store} (i : ScopeId) (name : String) (value : Value), world w store →
    world w (store.set i name value)
  world_print : ∀ {w store} (line : String), world w store → world w (store.print line)
  array : ∀ {w store} {elements : List Value}, world w store →
    (∀ element ∈ elements, element.Sound (object w)) →
    ∃ w', w ≤ w' ∧ world w' store.fresh.2 ∧ object w' (.array store.nextIdentity elements)
  function : ∀ {w store token parameters body i}, world w store → scope w i →
    runs (.function token parameters body) →
    ∃ w', w ≤ w' ∧ world w' store.fresh.2 ∧
      object w' (.function store.nextIdentity parameters body i)
  enclose : ∀ {w store identity parameters body outer} (bindings : Bindings), world w store →
    object w (.function identity parameters body outer) →
    ∃ w', w ≤ w' ∧ world w' (store.addScope ⟨some outer, bindings⟩).2 ∧
      scope w' store.scopes.size ∧ runs body
  part : ∀ {node part}, runs node → part ∈ node.parts → runs part
  tooDeep : fault .tooDeep
  nameless : ∀ {token value}, runs (.letStatement token none value) → fault (.absent .name)
  valueless : ∀ {node}, runs node → node.hasValue = false → fault (.cannotEvaluate node)
  unwritten : ∀ {w room cause} {value : Value}, value.Sound (object w) →
    value.inspectWithin room = .error cause → fault cause

namespace Discipline

variable {W : Type} [Preorder W] (D : Discipline W)

/-- A value that may be bound, passed and stored. -/
def Data (w : W) (value : Value) : Prop := value.Sound (D.object w)

/-- What a call gives: data or a runtime error. -/
def Answer (w : W) (value : Value) : Prop := value.isError = true ∨ D.Data w value

/-- What a node evaluates to: an answer, or a signal that carries data. -/
def Result (w : W) (value : Value) : Prop :=
  D.Answer w value ∨ ∃ carried, value = .returned carried ∧ D.Data w carried

/-- The store is as the world says, and all that is bound in it is data. -/
structure Holds (w : W) (store : Store) : Prop where
  world : D.world w store
  bound : ∀ scope ∈ store.scopes, ∀ binding ∈ scope.bindings, D.Data w binding.2

variable {D} {w w' : W} {store : Store} {value : Value}

theorem Data.mono (hw : w ≤ w') (h : D.Data w value) : D.Data w' value :=
  Value.Sound.mono h fun _ => D.object_mono hw

theorem Data.atom (ha : value.isAtom = true) : D.Data w value :=
  Value.Sound.atom ha (D.object_atom w ha)

theorem Data.answer (h : D.Data w value) : D.Answer w value := .inr h

theorem Data.result (h : D.Data w value) : D.Result w value := .inl (.inr h)

theorem Answer.result (h : D.Answer w value) : D.Result w value := .inl h

theorem Answer.error (cause : RuntimeError) : D.Answer w (.error cause) := .inl rfl

theorem Answer.ne_returned (h : D.Answer w value) (carried : Value) : value ≠ .returned carried := by
  rintro rfl
  rcases h with h | h
  · cases h
  · cases h.isSignal_eq

/-- A result that is no signal is data. -/
theorem Result.data (h : D.Result w value) (hs : value.isSignal = false) : D.Data w value := by
  rcases h with (h | h) | ⟨carried, rfl, -⟩
  · cases value <;> simp_all [Value.isError, Value.isSignal]
  · exact h
  · cases hs

theorem Result.unwrapped (h : D.Result w value) : D.Answer w value.unwrapped := by
  rcases h with h | ⟨carried, rfl, h⟩
  · cases value with
    | returned carried => exact absurd rfl (h.ne_returned carried)
    | _ => exact h
  · exact h.answer

/-! ### Stores -/

end Discipline

theorem Bindings.get?_mem {bindings : Bindings} {name : String} {value : Value}
    (h : bindings.get? name = some value) : ∃ binding ∈ bindings, binding.2 = value := by
  induction bindings with
  | nil => cases h
  | cons binding bindings ih =>
    simp only [get?] at h
    split at h
    · exact ⟨binding, by simp, Option.some.inj h⟩
    · obtain ⟨found, hm, hf⟩ := ih h
      exact ⟨found, by simp [hm], hf⟩

theorem Bindings.mem_set {bindings : Bindings} {name : String} {value : Value}
    {binding : String × Value} (h : binding ∈ bindings.set name value) :
    binding ∈ bindings ∨ binding.2 = value := by
  induction bindings with
  | nil => exact .inr (by simp_all [set])
  | cons first bindings ih =>
    simp only [set] at h
    split at h
    · rcases List.mem_cons.1 h with rfl | h
      · exact .inr rfl
      · exact .inl (by simp [h])
    · rcases List.mem_cons.1 h with rfl | h
      · exact .inl (by simp)
      · exact (ih h).imp_left fun h => by simp [h]

/-- What parameters are bound to are arguments. -/
theorem Bindings.mem_ofArguments {parameters : List Identifier} {arguments : List Value}
    {binding : String × Value} (h : binding ∈ ofArguments parameters arguments) :
    binding.2 ∈ arguments := by
  have key : ∀ (pairs : List (Identifier × Value)) (bindings : Bindings),
      binding ∈ pairs.foldl (fun bindings pair => set pair.1.name pair.2 bindings) bindings →
      binding ∈ bindings ∨ ∃ pair ∈ pairs, binding.2 = pair.2 := by
    intro pairs
    induction pairs with
    | nil => exact fun bindings h => .inl h
    | cons pair pairs ih =>
      intro bindings h
      rcases ih _ h with h | ⟨found, hm, hf⟩
      · rcases mem_set h with h | h
        · exact .inl h
        · exact .inr ⟨pair, by simp, h⟩
      · exact .inr ⟨found, by simp [hm], hf⟩
  rcases key _ _ h with h | ⟨pair, hm, hp⟩
  · cases h
  · exact hp ▸ (List.of_mem_zip hm).2

theorem Store.lookupWithin_mem {store : Store} {name : String} {steps : Nat} {i : ScopeId}
    {value : Value} (h : store.lookupWithin name steps i = some value) :
    ∃ scope ∈ store.scopes, ∃ binding ∈ scope.bindings, binding.2 = value := by
  induction steps generalizing i with
  | zero => cases h
  | succ steps ih =>
    simp only [lookupWithin] at h
    split at h
    · cases h
    · next scope hs =>
      split at h
      · next found hf =>
        obtain ⟨binding, hm, hb⟩ := Bindings.get?_mem hf
        exact ⟨scope, Array.mem_of_getElem? hs, binding, hm, hb.trans (Option.some.inj h)⟩
      · split at h
        · cases h
        · exact ih h

namespace Discipline.Holds

variable {W : Type} [Preorder W] {D : Discipline W} {w w' : W} {store : Store}

theorem lookup (h : D.Holds w store) {i : ScopeId} {name : String} {value : Value}
    (hl : store.lookup i name = some value) : D.Data w value := by
  obtain ⟨hf, -⟩ := Option.filter_eq_some_iff.1 hl
  obtain ⟨scope, hs, binding, hb, rfl⟩ := Store.lookupWithin_mem hf
  exact h.bound scope hs binding hb

theorem set (h : D.Holds w store) (i : ScopeId) (name : String) {value : Value}
    (hv : D.Data w value) : D.Holds w (store.set i name value) := by
  refine ⟨D.world_set i name value h.world, fun scope hs binding hb => ?_⟩
  obtain ⟨j, hj⟩ := Array.getElem?_of_mem hs
  change (store.scopes.modify i _)[j]? = some scope at hj
  rw [Array.getElem?_modify] at hj
  split at hj
  · obtain ⟨old, ho, rfl⟩ := Option.map_eq_some_iff.1 hj
    rcases Bindings.mem_set hb with hb | hb
    · exact h.bound old (Array.mem_of_getElem? ho) binding hb
    · rw [hb]
      exact hv
  · exact h.bound scope (Array.mem_of_getElem? hj) binding hb

theorem print (h : D.Holds w store) (line : String) : D.Holds w (store.print line) :=
  ⟨D.world_print line h.world, h.bound⟩

/-- A store that differs in the world it belongs to, and not in its bindings. -/
theorem advance (h : D.Holds w store) (hw : w ≤ w') {store' : Store} (hs : store'.scopes = store.scopes)
    (h' : D.world w' store') : D.Holds w' store' :=
  ⟨h', fun scope hm binding hb => (h.bound scope (hs ▸ hm) binding hb).mono hw⟩

theorem addScope (h : D.Holds w store) (hw : w ≤ w') {scope : Scope}
    (hb : ∀ binding ∈ scope.bindings, D.Data w binding.2)
    (h' : D.world w' (store.addScope scope).2) : D.Holds w' (store.addScope scope).2 := by
  refine ⟨h', fun found hf binding hm => ?_⟩
  rcases Array.mem_push.1 hf with hf | rfl
  · exact (h.bound found hf binding hm).mono hw
  · exact (hb binding hm).mono hw

end Discipline.Holds

end Scriptlet
