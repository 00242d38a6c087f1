import Scriptlet.Proofs.Eval.Frame
import Scriptlet.Proofs.Session.Failures

/-!
# What a run leaves behind

A run that fails while reading leaves the session as it was. Syntax errors change what the session
remembers of them, and nothing in the store. An evaluation that is cut off leaves what it has done until
then, and that is little: among the scopes that were there before, only the global one can differ, and
only at names of `let` statements of the program itself (`Store.DiffersInLets`).
-/

namespace Scriptlet

namespace Store

/-- Every scope of `before` is still there, inside the same outer scope. The global scope has lost no name,
and differs at most at names of `let` statements outside the function literals of `program`; all other
scopes are as they were. -/
structure DiffersInLets (program : Node) (before after : Store) : Prop where
  outer : ∀ (i : ScopeId) (old : Scope), before.scopes[i]? = some old →
    ∃ new, after.scopes[i]? = some new ∧ new.outer = old.outer
  others : ∀ (i : ScopeId) (old : Scope), i ≠ globalScope → before.scopes[i]? = some old →
    after.scopes[i]? = some old
  kept : ∀ name, ((before.bindings globalScope).get? name).isSome →
    ((after.bindings globalScope).get? name).isSome
  lets : ∀ name, (after.bindings globalScope).get? name ≠ (before.bindings globalScope).get? name →
    program.Lets name

theorem bindings_of_getElem? {store : Store} {i : ScopeId} {scope : Scope}
    (h : store.scopes[i]? = some scope) : store.bindings i = scope.bindings := by
  unfold bindings
  rw [h]

/-- What the evaluation of a program may bind in the global scope is all that differs after it. -/
theorem Rewrites.differsInLets {program : Node} {before after : Store}
    (h : before.Rewrites (ownLets program globalScope) after) (hsize : 0 < before.scopes.size) :
    before.DiffersInLets program after := by
  have hglobal : before.scopes[globalScope]? = some before.scopes[globalScope] :=
    Array.getElem?_eq_getElem hsize
  obtain ⟨new, hnew, hrebinds⟩ := h globalScope _ hglobal
  have hbefore := bindings_of_getElem? hglobal
  have hafter := bindings_of_getElem? hnew
  refine ⟨fun i old ho => ?_, fun i old hi ho => ?_, fun name hn => ?_, fun name hne => ?_⟩
  · obtain ⟨new, hn, hr⟩ := h i old ho
    exact ⟨new, hn, hr.outer⟩
  · exact h.getElem?_eq (fun name hn => hi hn.1) ho
  · rw [hbefore] at hn
    rw [hafter]
    exact hrebinds.kept name hn
  · rw [hbefore, hafter] at hne
    by_contra hlets
    exact hne (hrebinds.others name fun hown => hlets hown.2)

end Store

theorem Value.isError_iff {value : Value} : value.isError = true ↔ value.type = .ok .error := by
  cases value <;> simp [isError, type]

/-- After any runs there is a global scope for the next one. -/
theorem Session.size_runs_pos (limits : Limits) (sources : List String) :
    0 < (runs limits sources).store.scopes.size := by
  obtain ⟨u, -, hs⟩ := (Discipline.complete_governs limits).holds_runs sources
  exact hs.world.2.nonempty

/-- However the evaluation of a program ends, it has changed no scope but the global one, and that only
by its own `let` statements. -/
theorem Session.differsInLets_evaluation (limits : Limits) (sources : List String) (program : Node) :
    (runs limits sources).store.DiffersInLets program
      ((runs limits sources).evaluation limits program).outcome.2 :=
  (writes_eval limits.evaluation program globalScope _).differsInLets (size_runs_pos limits sources)

open Session in
/-- What a run leaves behind, after any runs before it. With syntax errors, it gives no value, they are
what the session remembers, and the store is as before. With a value, the session remembers no syntax
error, and an error exactly if the value is one. If the source cannot be read, nothing has changed at all.
And if the evaluation is cut off, then because it went too deep; the session remembers no syntax errors and
whether there was an error before; and no scope differs but the global one, in `let` names of the program. -/
theorem run_leaves_behind {limits : Limits} {sources : List String} {source : String}
    {before after : Session} {outcome : Outcome} (hbefore : runs limits sources = before)
    (hrun : before.run limits source = (outcome, after)) :
    (∀ parsed, parse limits source = .ok parsed → parsed.errors ≠ [] →
      outcome = .rejected ∧ after.errors = parsed.errors ∧ after.hasErrors = true ∧
        after.store = before.store) ∧
    (∀ value, outcome = .value value →
      after.errors = [] ∧ (after.hasErrors = true ↔ value.type = .ok .error)) ∧
    (∀ cause, parse limits source = .error cause → outcome = .fault cause ∧ after = before) ∧
    ∀ parsed cause, parse limits source = .ok parsed → outcome = .fault cause →
      cause = .tooDeep ∧ after.errors = [] ∧ after.hasErrors = before.hasErrors ∧
        before.store.DiffersInLets parsed.program after.store := by
  subst hbefore
  rcases run_cases limits (runs limits sources) source with ⟨found, hp, hr⟩ | ⟨read, hp, he, hr⟩ |
    ⟨read, found, store, hp, he, ho, hr⟩ | ⟨read, found, store, hp, he, ho, hr⟩ <;>
    rw [hr] at hrun <;> cases hrun
  · refine ⟨fun parsed hq => ?_, nofun, fun cause hq => ?_, fun parsed cause hq => ?_⟩ <;>
      rw [hp] at hq <;> cases hq
    exact ⟨rfl, rfl⟩
  · refine ⟨fun parsed hq _ => ?_, nofun, fun cause hq => ?_, nofun⟩ <;> rw [hp] at hq <;> cases hq
    exact ⟨rfl, rfl, rfl, rfl⟩
  · refine ⟨fun parsed hq hne => ?_, nofun, fun cause hq => ?_, fun parsed cause hq hfault => ?_⟩ <;>
      rw [hp] at hq <;> cases hq
    · exact absurd he hne
    · cases hfault
      have hdeep : ((runs limits sources).run limits source).1 = .fault found := by rw [hr]
      have hdiffers := differsInLets_evaluation limits sources read.program
      rw [ho] at hdiffers
      refine ⟨(run_fault hdeep).resolve_right ?_, rfl, rfl, hdiffers⟩
      rw [hp]
      exact nofun
  · refine ⟨fun parsed hq hne => ?_, fun value hv => ?_, fun cause hq => ?_, nofun⟩
    · rw [hp] at hq
      cases hq
      exact absurd he hne
    · cases hv
      exact ⟨rfl, Value.isError_iff⟩
    · rw [hp] at hq
      cases hq

open Session in
/-- A run that calls a function forever, after one that ended in an error. What it has bound until it is
cut off stays bound, and the session still counts the error of the run before. -/
theorem endless_run_leaves_behind :
    ∃ (limits : Limits) (source : String) (before after : Session) (parsed : Parsed),
      runs limits ["nope"] = before ∧ before.run limits source = (.fault .tooDeep, after) ∧
      parse limits source = .ok parsed ∧ before.get? "a" = none ∧ after.get? "a" = some (.integer 1) ∧
      after.get? "b" = none ∧ after.errors = [] ∧ after.hasErrors = true ∧
      before.store.DiffersInLets parsed.program after.store := by
  obtain ⟨parsed, hparse⟩ : ∃ parsed, parse ⟨20, 12, 20, 20⟩
      "let a = 1; let f = fn(n) \x7b let b = n; f(b) \x7d; f(a)" = .ok parsed := ⟨_, rfl⟩
  have hrun : (runs ⟨20, 12, 20, 20⟩ ["nope"]).run ⟨20, 12, 20, 20⟩
      "let a = 1; let f = fn(n) \x7b let b = n; f(b) \x7d; f(a)" = (.fault .tooDeep, _) := rfl
  obtain ⟨-, herrors, hflag, hdiffers⟩ := (run_leaves_behind rfl hrun).2.2.2 parsed .tooDeep hparse rfl
  have hone : Value.ofInt 1 = .integer 1 := rfl
  exact ⟨_, _, _, _, parsed, rfl, hrun, hparse, rfl, congrArg some hone, rfl, herrors, hflag, hdiffers⟩

end Scriptlet
