import Scriptlet.Eval

/-!
# Moving numbers up

Scopes and identities are numbers, given out in order. Two evaluations that start from stores of different
size do the same with different numbers: what was there before keeps its number, and what is new is moved
up. A `Shift` says by how much. No operation looks at a scope, and identities are only compared, so the
operations on values do not see a shift.
-/

namespace Scriptlet

/-- Scopes and identities from a given number on are moved up by a gap. -/
structure Shift where
  scopes : Nat
  scopeGap : Nat
  identities : Nat
  identityGap : Nat

/-- The number moved up, if it is not below the start. -/
def movedUp (start gap n : Nat) : Nat := if n < start then n else n + gap

theorem movedUp_of_lt {start gap n : Nat} (h : n < start) : movedUp start gap n = n := if_pos h

theorem movedUp_of_le {start gap n : Nat} (h : start ≤ n) : movedUp start gap n = n + gap :=
  if_neg (Nat.not_lt.2 h)

@[simp] theorem movedUp_zero (start n : Nat) : movedUp start 0 n = n := by simp [movedUp]

theorem movedUp_lt_movedUp {start gap m n : Nat} (h : m < n) :
    movedUp start gap m < movedUp start gap n := by
  unfold movedUp
  split <;> split <;> omega

@[simp] theorem movedUp_inj {start gap m n : Nat} :
    movedUp start gap m = movedUp start gap n ↔ m = n := by
  unfold movedUp
  split <;> split <;> omega

namespace Shift

variable (ρ : Shift)

def scope (i : ScopeId) : ScopeId := movedUp ρ.scopes ρ.scopeGap i

def identity (k : Identity) : Identity := movedUp ρ.identities ρ.identityGap k

mutual

/-- The value with all its scopes and identities moved up. -/
def value : Value → Value
  | .integer value => .integer value
  | .boolean value => .boolean value
  | .null => .null
  | .string value => .string value
  | .array identity elements => .array (ρ.identity identity) (values elements)
  | .function identity parameters body scope =>
    .function (ρ.identity identity) parameters body (ρ.scope scope)
  | .builtin builtin => .builtin builtin
  | .error cause => .error cause
  | .returned carried => .returned (value carried)
  | .absent => .absent

def values : List Value → List Value
  | [] => []
  | first :: rest => value first :: values rest

end

def result (r : Except Fault Value) : Except Fault Value := r.map ρ.value

def bindings (bs : Bindings) : Bindings := bs.map fun (name, bound) => (name, ρ.value bound)

/-- A scope with all that is bound in it. -/
def frame (found : Scope) : Scope := ⟨found.outer.map ρ.scope, ρ.bindings found.bindings⟩

theorem values_eq_map (vs : List Value) : ρ.values vs = vs.map ρ.value := by
  induction vs with
  | nil => rfl
  | cons first rest ih => rw [values, ih, List.map_cons]

/-! ### What is not moved -/

mutual

theorem value_of_still (hs : ρ.scopeGap = 0) (hi : ρ.identityGap = 0) : ∀ v : Value, ρ.value v = v
  | .array _ elements => by simp [value, identity, hi, values_of_still hs hi elements]
  | .function .. => by simp [value, identity, scope, hs, hi]
  | .returned carried => by simp [value, value_of_still hs hi carried]
  | .integer _ | .boolean _ | .null | .string _ | .builtin _ | .error _ | .absent => rfl

theorem values_of_still (hs : ρ.scopeGap = 0) (hi : ρ.identityGap = 0) :
    ∀ vs : List Value, ρ.values vs = vs
  | [] => rfl
  | first :: rest => by simp [values, value_of_still hs hi first, values_of_still hs hi rest]

end

theorem scope_of_still (hs : ρ.scopeGap = 0) (i : ScopeId) : ρ.scope i = i := by
  simp [scope, hs]

theorem frame_of_still (hs : ρ.scopeGap = 0) (hi : ρ.identityGap = 0) : ρ.frame = id := by
  have hscope : ρ.scope = id := funext (ρ.scope_of_still hs)
  have hvalue : ρ.value = id := funext (ρ.value_of_still hs hi)
  funext found
  simp [frame, bindings, hscope, hvalue]

theorem result_of_still (hs : ρ.scopeGap = 0) (hi : ρ.identityGap = 0) (r : Except Fault Value) :
    ρ.result r = r := by
  cases r with
  | error cause => rfl
  | ok v => exact congrArg Except.ok (ρ.value_of_still hs hi v)

variable (v w : Value)

@[simp] theorem type_value : (ρ.value v).type = v.type := by cases v <;> rfl

@[simp] theorem isTruthy_value : (ρ.value v).isTruthy = v.isTruthy := by
  cases v with
  | boolean value => cases value <;> rfl
  | _ => rfl

@[simp] theorem isSignal_value : (ρ.value v).isSignal = v.isSignal := by cases v <;> rfl

@[simp] theorem isAbsent_value : (ρ.value v).isAbsent = v.isAbsent := by cases v <;> rfl

theorem unwrapped_value : (ρ.value v).unwrapped = ρ.value v.unwrapped := by cases v <;> rfl

theorem beq_identity (k l : Identity) : (ρ.identity k == ρ.identity l) = (k == l) := by
  rw [Bool.eq_iff_iff, beq_iff_eq, beq_iff_eq]
  exact movedUp_inj

@[simp] theorem isSame_value : (ρ.value v).isSame (ρ.value w) = v.isSame w := by
  cases v with
  | array k _ =>
    cases w with
    | array l _ => exact ρ.beq_identity k l
    | _ => rfl
  | function k =>
    cases w with
    | function l => exact ρ.beq_identity k l
    | _ => rfl
  | _ => cases w <;> rfl

mutual

@[simp] theorem inspect_value : ∀ v : Value, (ρ.value v).inspect = v.inspect
  | .array _ elements => by simp only [value, Value.inspect, inspectAll_values elements]
  | .returned carried => by simp only [value, Value.inspect, inspect_value carried]
  | .integer _ | .boolean _ | .null | .string _ | .function .. | .builtin _ | .error _ | .absent => rfl

theorem inspectAll_values : ∀ vs : List Value, Value.inspectAll (ρ.values vs) = Value.inspectAll vs
  | [] => rfl
  | first :: rest => by simp only [values, Value.inspectAll, inspect_value first, inspectAll_values rest]

end

theorem obstacle?_value (limit : Nat) (v : Value) : (ρ.value v).obstacle? limit = v.obstacle? limit := by
  induction limit generalizing v with
  | zero => rfl
  | succ limit ih =>
    cases v with
    | array _ elements =>
      show (ρ.values elements).findSome? (Value.obstacle? limit) = _
      rw [values_eq_map, List.findSome?_map]
      exact congrArg (List.findSome? · elements) (funext ih)
    | returned carried => exact ih carried
    | _ => rfl

@[simp] theorem inspectWithin_value (limit : Nat) :
    (ρ.value v).inspectWithin limit = v.inspectWithin limit := by
  rw [Value.inspectWithin, obstacle?_value, inspect_value, Value.inspectWithin]

/-! ### Operators -/

theorem applyPrefixOp_value (operator : String) :
    applyPrefixOp operator (ρ.value v) = ρ.result (applyPrefixOp operator v) := by
  unfold applyPrefixOp
  split
  · rw [isTruthy_value]
    rfl
  · cases v <;> rfl
  · cases v <;> rfl

theorem value_applyIntegerOp (operator : String) (a b : Int64) :
    ρ.value (applyIntegerOp operator a b) = applyIntegerOp operator a b := by
  unfold applyIntegerOp
  split <;> try split
  all_goals rfl

theorem value_applyStringOp (operator a b : String) :
    ρ.value (applyStringOp operator a b) = applyStringOp operator a b := by
  unfold applyStringOp
  split <;> rfl

/-- An operator whose operands are not both integers or both strings compares them or complains about
their types. -/
theorem applyInfixOp_eq {v w : Value} (hi : ¬ ∃ a b, v = .integer a ∧ w = .integer b)
    (hs : ¬ ∃ a b, v = .string a ∧ w = .string b) (isOne : Bool) (operator : String) :
    applyInfixOp isOne operator v w =
      if operator = "==" then .ok (.boolean (isOne || v.isSame w))
      else if operator = "!=" then .ok (.boolean (!(isOne || v.isSame w)))
      else v.type >>= fun left => w.type >>= fun right =>
        if left = right then .ok (.error (.unknownInfixOp operator left right))
        else .ok (.error (.typeMismatch operator left right)) := by
  unfold applyInfixOp
  split
  · exact absurd ⟨_, _, rfl, rfl⟩ hi
  · exact absurd ⟨_, _, rfl, rfl⟩ hs
  · split
    · rfl
    · rfl
    · next h₁ h₂ =>
      rw [if_neg h₁, if_neg h₂]
      rfl

theorem value_eq_integer {a : Int64} : ρ.value v = .integer a ↔ v = .integer a := by
  cases v <;> simp [value]

theorem value_eq_string {a : String} : ρ.value v = .string a ↔ v = .string a := by
  cases v <;> simp [value]

theorem applyInfixOp_value (isOne : Bool) (operator : String) :
    applyInfixOp isOne operator (ρ.value v) (ρ.value w) =
      ρ.result (applyInfixOp isOne operator v w) := by
  by_cases hi : ∃ a b, v = .integer a ∧ w = .integer b
  · obtain ⟨a, b, rfl, rfl⟩ := hi
    exact congrArg Except.ok (ρ.value_applyIntegerOp operator a b).symm
  by_cases hs : ∃ a b, v = .string a ∧ w = .string b
  · obtain ⟨a, b, rfl, rfl⟩ := hs
    exact congrArg Except.ok (ρ.value_applyStringOp operator a b).symm
  -- Whatever comes out now is a truth value or an error, which a shift leaves alone.
  rw [applyInfixOp_eq hi hs, applyInfixOp_eq (by simpa only [value_eq_integer] using hi)
    (by simpa only [value_eq_string] using hs), isSame_value, type_value, type_value]
  split
  · rfl
  split
  · rfl
  cases v.type with
  | error cause => rfl
  | ok left =>
    cases w.type with
    | error cause => rfl
    | ok right =>
      show (if left = right then _ else _) = ρ.result (if left = right then _ else _)
      split <;> rfl

theorem elementAt_values (vs : List Value) (index : Int64) :
    elementAt (ρ.values vs) index = ρ.value (elementAt vs index) := by
  unfold elementAt
  split
  · rw [values_eq_map, List.getD_eq_getElem?_getD, List.getD_eq_getElem?_getD, List.getElem?_map]
    cases vs[index.toInt.toNat]? <;> rfl
  · rfl

theorem applyIndex_value : applyIndex (ρ.value v) (ρ.value w) = ρ.result (applyIndex v w) := by
  cases v with
  | array _ elements =>
    cases w with
    | integer index => exact congrArg Except.ok (ρ.elementAt_values elements index)
    | _ => rfl
  | _ => cases w <;> rfl

/-! ### Bindings -/

theorem get?_bindings (bs : Bindings) (name : String) :
    (ρ.bindings bs).get? name = (bs.get? name).map ρ.value := by
  induction bs with
  | nil => rfl
  | cons binding bs ih =>
    obtain ⟨bound, old⟩ := binding
    show Bindings.get? ((bound, ρ.value old) :: ρ.bindings bs) name = _
    unfold Bindings.get?
    split
    · rfl
    · exact ih

theorem set_bindings (bs : Bindings) (name : String) (v : Value) :
    (ρ.bindings bs).set name (ρ.value v) = ρ.bindings (bs.set name v) := by
  induction bs with
  | nil => rfl
  | cons binding bs ih =>
    obtain ⟨bound, old⟩ := binding
    show Bindings.set name (ρ.value v) ((bound, ρ.value old) :: ρ.bindings bs) = _
    unfold Bindings.set
    split
    · rfl
    · rw [ih]
      rfl

theorem ofArguments_values (parameters : List Identifier) (arguments : List Value) :
    Bindings.ofArguments parameters (ρ.values arguments) =
      ρ.bindings (Bindings.ofArguments parameters arguments) := by
  have key : ∀ (pairs : List (Identifier × Value)) (bs : Bindings),
      (pairs.map (Prod.map id ρ.value)).foldl
        (fun bs pair => Bindings.set pair.1.name pair.2 bs) (ρ.bindings bs) =
      ρ.bindings (pairs.foldl (fun bs pair => Bindings.set pair.1.name pair.2 bs) bs) := by
    intro pairs
    induction pairs with
    | nil => exact fun _ => rfl
    | cons pair pairs ih =>
      intro bs
      rw [List.map_cons, List.foldl_cons, List.foldl_cons, ← ih, ← set_bindings]
      rfl
  unfold Bindings.ofArguments
  rw [values_eq_map, ← key, ← List.map_id parameters, List.zip_map]
  simp [bindings]

end Shift

end Scriptlet
