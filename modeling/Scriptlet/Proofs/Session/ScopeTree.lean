import Scriptlet.Proofs.Session.Arrival
import Scriptlet.Proofs.Session.Repeat

/-!
# Scopes form a tree

Scopes are numbered in the order in which they are made, so a scope that is made inside another has the greater
number. `Store.Outward` follows the scopes from one of them outward. In a `Store.Tree` the way ends at the global
scope wherever it starts, and no function holds a scope that is not there. Sessions have such stores at all times,
also in the middle of a run and after one that was cut off; and since a scope stays where it was made, whatever is
run later, what once was a way outward is one for good.
-/

namespace Scriptlet

namespace Store

variable {store after : Store} {i : ScopeId} {chain : List ScopeId}

/-- The scopes that a scope stands in, from itself outward up to one that stands in none. All of them exist. -/
inductive Outward (store : Store) : ScopeId → List ScopeId → Prop
  | last {i : ScopeId} {scope : Scope} (hs : store.scopes[i]? = some scope) (ho : scope.outer = none) :
    Outward store i [i]
  | inside {i o : ScopeId} {scope : Scope} {chain : List ScopeId} (hs : store.scopes[i]? = some scope)
    (ho : scope.outer = some o) (hc : Outward store o chain) : Outward store i (i :: chain)

theorem Outward.unique {other : List ScopeId} (hc : store.Outward i chain) (hc' : store.Outward i other) :
    other = chain := by
  induction hc generalizing other with
  | last hs ho =>
    rcases hc' with ⟨hs', -⟩ | ⟨hs', ho', -⟩
    · rfl
    · rw [hs] at hs'
      cases hs'
      rw [ho] at ho'
      cases ho'
  | inside hs ho _ ih =>
    rcases hc' with ⟨hs', ho'⟩ | ⟨hs', ho', hc'⟩ <;> rw [hs] at hs' <;> cases hs' <;> rw [ho] at ho' <;> cases ho'
    rw [ih hc']

/-- From `before` to `after`, no scope is lost or put inside another one, and no scope loses a name. -/
abbrev Extends (before after : Store) : Prop := before.Rewrites (fun _ _ => True) after

theorem Outward.extends (hc : store.Outward i chain) (h : store.Extends after) : after.Outward i chain := by
  induction hc with
  | last hs ho =>
    obtain ⟨new, hn, hr⟩ := h _ _ hs
    exact .last hn (hr.outer.trans ho)
  | inside hs ho _ ih =>
    obtain ⟨new, hn, hr⟩ := h _ _ hs
    exact .inside hn (hr.outer.trans ho) ih

/-- Each step outward leads to a smaller number, and the only scope that stands in none is the global one. -/
theorem WellScoped.exists_outward (h : store.WellScoped) (hi : i < store.scopes.size) :
    ∃ chain, store.Outward i chain ∧ chain.getLast? = some globalScope ∧ chain.Pairwise (· > ·) ∧
      ∀ j ∈ chain, j ≤ i := by
  induction i using Nat.strong_induction_on with
  | _ i ih =>
    have hs : store.scopes[i]? = some store.scopes[i] := Array.getElem?_eq_getElem hi
    obtain ⟨hglobal, hlt⟩ := h.outer i _ hs
    cases ho : store.scopes[i].outer with
    | none =>
      obtain rfl : i = 0 := hglobal.1 ho
      exact ⟨[0], .last hs ho, rfl, List.pairwise_singleton _ _, by simp⟩
    | some o =>
      have holder : o < i := hlt o ho
      obtain ⟨chain, hc, hlast, hordered, hbound⟩ := ih o holder (holder.trans hi)
      have hbelow : ∀ j ∈ chain, j < i := fun j hj => (hbound j hj).trans_lt holder
      refine ⟨i :: chain, .inside hs ho hc, ?_, List.pairwise_cons.2 ⟨hbelow, hordered⟩, ?_⟩
      · rw [List.getLast?_cons, hlast]
        rfl
      · exact List.forall_mem_cons.2 ⟨le_rfl, fun j hj => (hbelow j hj).le⟩

/-- The global scope stands in no scope, every other one in a scope that was made earlier. From every scope there is
one way outward, and it ends at the global scope. All functions that are bound somewhere, also those in arrays, hold
scopes that exist. -/
structure Tree (store : Store) : Prop where
  global : ∃ scope, store.scopes[globalScope]? = some scope ∧ scope.outer = none
  outer : ∀ (i : ScopeId) (scope : Scope), store.scopes[i]? = some scope → i ≠ globalScope →
    ∃ o, scope.outer = some o ∧ o < i
  outward : ∀ i < store.scopes.size, ∃ chain, store.Outward i chain ∧
    (∀ other, store.Outward i other → other = chain) ∧ chain.getLast? = some globalScope ∧ chain.Pairwise (· > ·)
  captured : ∀ scope ∈ store.scopes, ∀ binding ∈ scope.bindings, ∀ i, binding.2.Captures i → i < store.scopes.size

end Store

namespace Discipline

variable {w : ℕ × ℕ} {store : Store} {value : Value}

theorem Holds.tree (h : numbered.Holds w store) : store.Tree where
  global := by
    have hs : store.scopes[globalScope]? = some _ := Array.getElem?_eq_getElem h.world.1.2.nonempty
    exact ⟨_, hs, (h.world.1.2.outer _ _ hs).1.2 rfl⟩
  outer i scope hs hi := by
    obtain ⟨hglobal, hlt⟩ := h.world.1.2.outer i scope hs
    cases ho : scope.outer with
    | none => exact absurd (hglobal.1 ho) hi
    | some o => exact ⟨o, rfl, hlt o ho⟩
  outward i hi := by
    obtain ⟨chain, hc, hlast, hordered, -⟩ := h.world.1.2.exists_outward hi
    exact ⟨chain, hc, fun other => hc.unique, hlast, hordered⟩
  captured scope hs binding hb i hi := by
    rw [h.size]
    exact (h.bound scope hs binding hb).captures_lt hi

/-- Also a value on its way to the call or the program that unwraps it holds scopes that exist. -/
theorem Result.captures_lt (h : numbered.Result w value) {i : ScopeId} (hi : value.Captures i) : i < w.1 := by
  rcases h with (he | hd) | ⟨carried, rfl, hd⟩
  · cases hi <;> cases he
  · exact hd.captures_lt hi
  · cases hi with
    | carried hi => exact hd.captures_lt hi

theorem Ends.tree {outcome : Except Fault Value × Store} (h : numbered.Ends w numbered.Result outcome) :
    outcome.2.Tree ∧ ∀ value, outcome.1 = .ok value → ∀ i, value.Captures i → i < outcome.2.scopes.size := by
  obtain ⟨cause | value, store⟩ := outcome
  · obtain ⟨-, u, -, hs⟩ := h
    exact ⟨hs.tree, nofun⟩
  · obtain ⟨u, -, hs, hr⟩ := h
    refine ⟨hs.tree, ?_⟩
    rintro _ ⟨⟩ i hi
    show i < store.scopes.size
    rw [hs.size]
    exact hr.captures_lt hi

end Discipline

namespace Session

variable {limits : Limits}

theorem extends_run (session : Session) (source : String) :
    session.store.Extends (session.run limits source).2.store :=
  store_run (.of_scopes_eq rfl) (fun program =>
    (writes_eval limits.evaluation program globalScope session.store).mono fun _ _ _ => trivial) source

theorem extends_runs (earlier later : List String) :
    (runs limits earlier).store.Extends (runs limits (earlier ++ later)).store :=
  runs_append_induction (P := fun session => (runs limits earlier).store.Extends session.store)
    (.of_scopes_eq rfl) (fun session source h => h.trans (extends_run session source)) later

end Session

open Session Discipline in
/-- The scopes of a session form a tree, whatever has been run and however the runs have ended: the way outward
from any scope ends at the global one, and functions hold scopes that exist, wherever they are: bound, in an array,
or given by a run. Whatever is run later, no scope goes away or comes to stand in another one. In the course of one
more run the same is true before and after every evaluation, of its scope, and of the value it ends with. -/
theorem scopes_form_tree (limits : Limits) (sources : List String) :
    (runs limits sources).store.Tree ∧
    (∀ value, Available limits sources value → ∀ i, value.Captures i →
      i < (runs limits sources).store.scopes.size) ∧
    (∀ later (i : ScopeId) (old : Scope), (runs limits sources).store.scopes[i]? = some old →
      ∃ new, (runs limits (sources ++ later)).store.scopes[i]? = some new ∧ new.outer = old.outer) ∧
    (∀ later i chain, (runs limits sources).store.Outward i chain →
      (runs limits (sources ++ later)).store.Outward i chain) ∧
    ∀ source e, (runs limits sources).Performs limits source e →
      e.scope < e.store.scopes.size ∧ e.store.Tree ∧ e.outcome.2.Tree ∧
        ∀ value, e.outcome.1 = .ok value → ∀ i, value.Captures i → i < e.outcome.2.scopes.size := by
  have hg := numbered_governs limits
  obtain ⟨u, -, hs, hdata⟩ := hg.holds_runs_available sources
  refine ⟨hs.tree, fun value hv i hi => ?_, fun later i old ho => ?_, fun later i chain hc => ?_,
    fun source e he => ?_⟩
  · rw [hs.size]
    exact (hdata value hv).captures_lt hi
  · obtain ⟨new, hn, hr⟩ := extends_runs sources later i old ho
    exact ⟨new, hn, hr.outer⟩
  · exact hc.extends (extends_runs sources later)
  · obtain ⟨v, -, ha⟩ := hg.performs sources he
    refine ⟨?_, ha.store.tree, ha.ends.tree⟩
    rw [ha.store.size]
    exact ha.scope

/-- The session after a function has been made in a call, and bound. -/
abbrev nested : Session :=
  Session.runs ⟨9, 9, 9, 9⟩ ["let f = fn(x) \x7b fn(y) \x7b x \x7d \x7d; let g = f(true)"]

def innerFunction : Value :=
  .function 1 [⟨⟨.ident, "y"⟩, "y"⟩] (.block ⟨.lbrace, "\x7b"⟩
    [.expressionStatement ⟨.ident, "x"⟩ (.identifier ⟨⟨.ident, "x"⟩, "x"⟩)]) 1

/-- The evaluation of `g(false)` as a statement of the next run. -/
def innerCall : Evaluation where
  depth := 7
  node := .call ⟨.lparen, "("⟩ (.identifier ⟨⟨.ident, "g"⟩, "g"⟩) [.boolean ⟨.falseWord, "false"⟩ false]
  scope := globalScope
  store := nested.store

open Session in
/-- The function holds the scope of the call that made it. That scope stands in the global one, also after `g(false)`
has been run, and the body of the function is evaluated in a third scope. -/
theorem inner_function_holds_scope :
    ∃ (old new : Scope) (body : Evaluation),
      nested.get? "g" = some innerFunction ∧ innerFunction.Captures 1 ∧ 1 < nested.store.scopes.size ∧
      nested.store.scopes[1]? = some old ∧ (nested.run ⟨9, 9, 9, 9⟩ "g(false)").2.store.scopes[1]? = some new ∧
      new.outer = old.outer ∧ (nested.run ⟨9, 9, 9, 9⟩ "g(false)").2.store.Outward 1 [1, 0] ∧
      nested.Performs ⟨9, 9, 9, 9⟩ "g(false)" body ∧ body.scope = 2 ∧ 2 < body.store.scopes.size ∧
      body.store.Tree ∧ body.outcome.2.Tree := by
  obtain ⟨-, hcaptures, hkept, houtward, hperformed⟩ := scopes_form_tree ⟨9, 9, 9, 9⟩
    ["let f = fn(x) \x7b fn(y) \x7b x \x7d \x7d; let g = f(true)"]
  have hglobal : nested.store.scopes[0]? = some ⟨none, [("f", _), ("g", innerFunction)]⟩ := rfl
  have hinner : nested.store.scopes[1]? = some ⟨some 0, [("x", .boolean true)]⟩ := rfl
  have havailable : Available _ _ innerFunction :=
    @Available.bound _ _ _ ("g", _) (Array.mem_of_getElem? hglobal) (.tail _ (.head _))
  have hway : nested.store.Outward 1 [1, 0] := .inside hinner rfl (.last hglobal rfl)
  obtain ⟨new, hnew, houter⟩ := hkept ["g(false)"] 1 _ hinner
  have hcall : nested.Performs ⟨9, 9, 9, 9⟩ "g(false)" innerCall :=
    performs_of_expression rfl rfl rfl
  have happ : innerCall.Applies innerFunction [.boolean false] innerCall.store :=
    ⟨6, _, _, _, _, rfl, rfl, rfl, rfl, .cons rfl rfl (.nil _)⟩
  have hbody := hcall.inside happ rfl
  obtain ⟨hscope, htree, hafter, -⟩ := hperformed _ _ hbody
  exact ⟨_, new, _, rfl, .function, hcaptures _ havailable 1 .function, hinner, hnew, houter,
    houtward ["g(false)"] 1 _ hway, hbody, rfl, hscope, htree, hafter⟩

end Scriptlet
