import Scriptlet.Proofs.Eval.Frame
import Scriptlet.Proofs.Eval.Lockstep

/-!
# What a call can see

Scoping is lexical. A function holds the scope it was made in, a scope the one it lies in and what is bound
in it. `Store.Reaches` follows all of these, from the callee and the arguments of a call. Two stores that
differ only in scopes that cannot be reached so are twins, and nothing is moved between them: the call does
the same in both, and touches no scope that was there before.
-/

namespace Scriptlet

/-- A call: what is called with what, how deep it may go and how deep the values may be that it prints. -/
structure Call where
  depth : Nat
  room : Nat
  callee : Value
  arguments : List Value

def Call.outcome (call : Call) (store : Store) : Except Fault Value × Store :=
  applyFunction (eval call.depth) call.room call.callee call.arguments store

/-- All values that the call is given. -/
def Call.given (call : Call) : List Value := call.callee :: call.arguments

namespace Store

/-- The scopes that values lead to. -/
inductive Reaches (store : Store) (roots : List Value) : ScopeId → Prop
  | captured {value : Value} {i : ScopeId} (hv : value ∈ roots) (h : value.Captures i) :
    Reaches store roots i
  | outer {i o : ScopeId} {scope : Scope} (h : Reaches store roots i) (hs : store.scopes[i]? = some scope)
    (ho : scope.outer = some o) : Reaches store roots o
  | bound {i j : ScopeId} {scope : Scope} {binding : String × Value} (h : Reaches store roots i)
    (hs : store.scopes[i]? = some scope) (hb : binding ∈ scope.bindings) (hc : binding.2.Captures j) :
    Reaches store roots j

/-- The stores have as many scopes, give out the same identities, and differ in no scope that the values
lead to. -/
structure AgreesFrom (roots : List Value) (store store' : Store) : Prop where
  size : store'.scopes.size = store.scopes.size
  nextIdentity : store'.nextIdentity = store.nextIdentity
  reached : ∀ i, store.Reaches roots i → store'.scopes[i]? = store.scopes[i]?

end Store

namespace Mirror

/-- Nothing is moved; only what the values lead to may be looked into. -/
def ofRoots (roots : List Value) (store store' : Store) : Mirror where
  scopes := store.scopes.size
  scopeGap := 0
  identities := store.nextIdentity
  identityGap := 0
  old := store.Reaches roots
  old_lt := .inl rfl
  before := store.output
  before' := store'.output

variable {roots : List Value} {store store' : Store}

theorem twin_ofRoots (h : store.AgreesFrom roots store') :
    (ofRoots roots store store').Twin store.scopes.size store store' where
  start := Nat.le_refl _
  size := rfl
  size' := h.size
  identities := Nat.le_refl _
  fresh := h.nextIdentity
  scopes := by
    intro i hi
    rw [Shift.scope_of_still _ rfl, Shift.frame_of_still _ rfl rfl, Option.map_id_apply]
    rcases hi with hi | ⟨hi, -⟩
    · exact h.reached i hi
    · have hi' : store'.scopes.size ≤ i := h.size ▸ hi
      rw [Array.getElem?_eq_none hi, Array.getElem?_eq_none hi']
  leads := by
    intro i scope hi hs
    rcases hi with hi | ⟨hi, -⟩
    · exact ⟨fun o ho => ⟨.inl (.outer hi hs ho), .inl rfl⟩,
        fun binding hb j hj => .inl (.bound hi hs hb hj)⟩
    · rw [Array.getElem?_eq_none hi] at hs
      cases hs
  output := ⟨#[], by simp [ofRoots], by simp [ofRoots]⟩

end Mirror

/-- A call leaves the scopes as they were, and only adds new ones. -/
theorem Call.getElem?_outcome (call : Call) {store : Store} {i : ScopeId} (hi : i < store.scopes.size) :
    (call.outcome store).2.scopes[i]? = store.scopes[i]? := by
  rw [Array.getElem?_eq_getElem hi]
  exact keeps_applyFunction (writes_eval call.depth) call.room call.callee call.arguments store i _
    (Array.getElem?_eq_getElem hi)

/-- A call of values that are not moved takes the same course on both sides. -/
theorem Mirror.Twin.meet_outcome {M : Mirror} {n : Nat} {store store' : Store} (h : M.Twin n store store')
    (call : Call) (hr : ∀ value ∈ call.given, M.Reads n value)
    (hs : ∀ value ∈ call.given, M.value value = value) :
    M.Meet n M.Same (call.outcome store) (call.outcome store') := by
  obtain ⟨hcallee, harguments⟩ := List.forall_mem_cons.1 hr
  have hmeet := lockstep_applyFunction (fun n => lockstep_eval call.depth n) call.room hcallee harguments
    store store' h
  have hstill : M.values call.arguments = call.arguments := by
    rw [Shift.values_eq_map, List.map_congr_left fun value hv => hs value (List.mem_cons_of_mem _ hv)]
    exact List.map_id' _
  rwa [hs call.callee (List.mem_cons_self ..), hstill] at hmeet

/-- A call sees only what its callee and its arguments lead to. In two stores that agree on that, it has
the same result, prints the same lines and makes the same scopes; and in each it leaves all scopes as they
were. -/
theorem call_sees_only_what_it_reaches (call : Call) {store store' : Store}
    (h : store.AgreesFrom call.given store') :
    (call.outcome store').1 = (call.outcome store).1 ∧
    (∃ lines, (call.outcome store).2.output = store.output ++ lines ∧
      (call.outcome store').2.output = store'.output ++ lines) ∧
    (∀ i, store.scopes.size ≤ i →
      (call.outcome store').2.scopes[i]? = (call.outcome store).2.scopes[i]?) ∧
    (call.outcome store').2.nextIdentity = (call.outcome store).2.nextIdentity ∧
    ∀ i < store.scopes.size, (call.outcome store).2.scopes[i]? = store.scopes[i]? ∧
      (call.outcome store').2.scopes[i]? = store'.scopes[i]? := by
  have hmeet := (Mirror.twin_ofRoots h).meet_outcome call
    (fun value hv i hi => .inl (.captured hv hi)) fun value _ => Shift.value_of_still _ rfl rfl value
  obtain ⟨m, hm, htwin⟩ := hmeet.twin
  refine ⟨?_, htwin.output, fun i hi => ?_, htwin.fresh, fun i hi => ⟨?_, ?_⟩⟩
  · rw [hmeet.result]
    exact Shift.result_of_still _ rfl rfl _
  · have hseen := htwin.scopes i (.inr ⟨hi, .inl rfl⟩)
    rwa [Shift.scope_of_still _ rfl, Shift.frame_of_still _ rfl rfl, Option.map_id_apply] at hseen
  · exact call.getElem?_outcome hi
  · exact call.getElem?_outcome (h.size ▸ hi)

/-- A function sees the `x` of the scope it was made in, whatever `x` is in another scope. -/
theorem call_ignores_unreachable_binding :
    ∃ (call : Call) (store store' : Store), store.lookup 1 "x" = some (.integer 2) ∧
      store'.lookup 1 "x" = some (.integer 3) ∧ (call.outcome store).1 = .ok (.integer 1) ∧
      (call.outcome store').1 = (call.outcome store).1 := by
  refine ⟨⟨3, 3, .function 0 [] (.identifier ⟨⟨.ident, "x"⟩, "x"⟩) 0, []⟩,
    ⟨#[⟨none, [("x", .integer 1)]⟩, ⟨none, [("x", .integer 2)]⟩], 1, #[]⟩,
    ⟨#[⟨none, [("x", .integer 1)]⟩, ⟨none, [("x", .integer 3)]⟩], 1, #[]⟩, rfl, rfl, rfl, ?_⟩
  refine And.left (call_sees_only_what_it_reaches _ ⟨rfl, rfl, fun i hi => ?_⟩)
  have hzero : i = 0 := by
    induction hi with
    | captured hv h =>
      rw [Call.given, List.mem_singleton] at hv
      subst hv
      cases h
      rfl
    | outer _ hs ho ih =>
      subst ih
      cases hs
      cases ho
    | bound _ hs hb hc ih =>
      subst ih
      cases hs
      obtain rfl := List.mem_singleton.1 hb
      cases hc
  subst hzero
  rfl

end Scriptlet
