import Mathlib.Order.Nat
import Scriptlet.Proofs.Eval.Agree
import Scriptlet.Proofs.Node.Formed

/-!
# Scopes that are there

Every scope but the global one is made inside an older one, and every function holds a scope that
exists. `Discipline.ofRegime` is the discipline that says so. Its worlds are numbers of scopes. Which
nodes may be evaluated is left open by a `Regime`; all it has to answer for are the parts of nodes and
the faults that they may end with.
-/

namespace Scriptlet

/-- The scope with number 0 is the outermost one, and every other is made inside an older one. -/
structure Store.WellScoped (store : Store) : Prop where
  nonempty : 0 < store.scopes.size
  outer : ∀ (i : ScopeId) (scope : Scope), store.scopes[i]? = some scope →
    (scope.outer = none ↔ i = 0) ∧ ∀ outer ∈ scope.outer, outer < i

namespace Store.WellScoped

variable {store : Store}

theorem initial : Store.initial.WellScoped where
  nonempty := by decide
  outer := by
    intro i scope h
    cases i with
    | zero =>
      cases h
      exact ⟨⟨fun _ => rfl, fun _ => rfl⟩, nofun⟩
    | succ i => cases h

theorem set (h : store.WellScoped) (i : ScopeId) (name : String) (value : Value) :
    (store.set i name value).WellScoped where
  nonempty := by
    simpa [Store.set] using h.nonempty
  outer := by
    intro j scope hj
    simp only [Store.set, Array.getElem?_modify] at hj
    split at hj
    · obtain ⟨old, ho, rfl⟩ := Option.map_eq_some_iff.1 hj
      exact h.outer j old ho
    · exact h.outer j scope hj

theorem addScope (h : store.WellScoped) {outer : ScopeId} (ho : outer < store.scopes.size)
    (bindings : Bindings) : (store.addScope ⟨some outer, bindings⟩).2.WellScoped where
  nonempty := by
    simp [Store.addScope]
  outer := by
    intro i scope hi
    simp only [Store.addScope, Array.getElem?_push] at hi
    split at hi
    · next heq =>
      cases hi
      have hpos := h.nonempty
      subst heq
      refine ⟨⟨nofun, fun hzero => ?_⟩, ?_⟩
      · exact absurd hzero (Nat.ne_of_gt hpos)
      · rintro _ ⟨⟩
        exact ho
    · exact h.outer i scope hi

end Store.WellScoped

/-- Which nodes may be evaluated, and what may end an evaluation. -/
structure Regime where
  runs : Node → Prop
  fault : Fault → Prop
  part : ∀ {node inner}, runs node → inner ∈ node.parts → runs inner
  body : ∀ {token parameters body}, runs (.function token parameters body) → runs body
  tooDeep : fault .tooDeep
  nameless : ∀ {token value}, runs (.letStatement token none value) → fault (.absent .name)
  valueless : ∀ {node}, runs node → node.hasValue = false → fault (.cannotEvaluate node)
  unwritten : ∀ {limit body cause}, runs body → body.obstacle? limit = some cause → fault cause

namespace Discipline

/-- Functions hold bodies that may be evaluated, and scopes that exist. -/
def scopedObject (R : Regime) (n : ℕ) : Value → Prop
  | .function _ _ body scope => R.runs body ∧ scope < n
  | _ => True

theorem unwritten_scopedObject (R : Regime) {n limit : ℕ} {value : Value} {cause : Fault}
    (h : value.Sound (scopedObject R n)) (ho : value.obstacle? limit = some cause) : R.fault cause := by
  induction limit generalizing value with
  | zero =>
    cases ho
    exact R.tooDeep
  | succ limit ih =>
    cases value with
    | absent => cases h.isAbsent_eq
    | returned value => cases h.isSignal_eq
    | array identity elements =>
      obtain ⟨element, hm, he⟩ := List.exists_of_findSome?_eq_some ho
      exact ih (h.element element hm) he
    | function identity parameters body scope => exact R.unwritten (h _ .self).2.2.1 ho
    | _ => cases ho

def ofRegime (R : Regime) : Discipline ℕ where
  runs := R.runs
  object := scopedObject R
  scope n i := i < n
  world n store := store.scopes.size = n ∧ store.WellScoped
  fault := R.fault
  object_mono := by
    intro n n' value hn h
    cases value with
    | function => exact ⟨h.1, h.2.trans_le hn⟩
    | _ => trivial
  scope_mono hn h := h.trans_le hn
  object_atom := by
    intro n value h
    cases value with
    | function => cases h
    | _ => trivial
  world_set := by
    rintro n store i name value ⟨hn, hs⟩
    refine ⟨?_, hs.set i name value⟩
    simpa [Store.set] using hn
  world_print _ h := ⟨h.1, h.2.nonempty, h.2.outer⟩
  array h _ := ⟨_, le_rfl, ⟨h.1, h.2.nonempty, h.2.outer⟩, trivial⟩
  function h hi hr := ⟨_, le_rfl, ⟨h.1, h.2.nonempty, h.2.outer⟩, R.body hr, hi⟩
  enclose := by
    rintro n store identity parameters body outer bindings ⟨rfl, hs⟩ ⟨hr, ho⟩
    refine ⟨store.scopes.size + 1, Nat.le_succ _, ⟨?_, hs.addScope ho bindings⟩, Nat.lt_succ_self _, hr⟩
    simp [Store.addScope]
  part := R.part
  tooDeep := R.tooDeep
  nameless := R.nameless
  valueless := R.valueless
  unwritten := by
    intro n room cause value h hi
    unfold Value.inspectWithin at hi
    split at hi
    · next found ho =>
      cases hi
      exact unwritten_scopedObject R h ho
    · cases hi

end Discipline

/-- Complete trees only. Nothing but the depth ends their evaluation. -/
def Regime.complete : Regime where
  runs := Node.Complete
  fault cause := cause = .tooDeep
  part := Node.Complete.part
  body := Node.Complete.body
  tooDeep := rfl
  nameless h := by cases h.formed.wellMade
  valueless h hv := by rw [h.formed.hasValue] at hv; cases hv
  unwritten h ho := Node.FormedOrHole.obstacle (fun _ => h.formed) ho

/-- Trees that may have holes. An evaluation may end where it meets one. -/
def Regime.forced : Regime where
  runs := Node.FormedOrHole
  fault cause := cause = .tooDeep ∨ cause = .cannotEvaluate .hole
  part := Node.FormedOrHole.part
  body h _ := (h rfl).body
  tooDeep := .inl rfl
  nameless h := by cases (h rfl).wellMade
  valueless := by
    intro node h hv
    refine .inr ?_
    by_cases hh : node.isHole = true
    · rw [Node.isHole_iff.1 hh]
    · rw [(h (Bool.eq_false_iff.2 hh)).hasValue] at hv
      cases hv
  unwritten h ho := .inl (h.obstacle ho)

end Scriptlet
