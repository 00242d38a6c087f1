import Mathlib.Order.CompleteBooleanAlgebra
import Mathlib.Order.CompletePartialOrder
import Scriptlet.Proofs.Session.Arrival

/-!
# Signals never become data

Runtime errors and returned values are passed around as values, and every rule of evaluation has to
stop at them. The discipline here asks nothing of nodes, scopes and single objects; what is left is
that no value which is bound, passed or stored is a signal or has one in it.
-/

namespace Scriptlet

/-- No part of the value is a signal. -/
def Value.SignalFree (value : Value) : Prop :=
  ∀ part : Value, part.Occurs value → part.isSignal = false

/-- The value is free of signals, but for being one itself; what it then carries is free of them. -/
def Value.Orderly : Value → Prop
  | .error _ => True
  | .returned carried => carried.SignalFree
  | value => value.SignalFree

/-- Nothing that is bound in any scope has a signal in it. -/
def Store.SignalFree (store : Store) : Prop :=
  ∀ scope ∈ store.scopes, ∀ binding ∈ scope.bindings, binding.2.SignalFree

/-- The discipline that leaves everything open. -/
def Discipline.plain : Discipline Unit where
  runs _ := True
  object _ _ := True
  scope _ _ := True
  world _ _ := True
  fault _ := True
  object_mono _ h := h
  scope_mono _ h := h
  object_atom _ _ _ := trivial
  world_set _ _ _ h := h
  world_print _ h := h
  array _ _ := ⟨(), le_rfl, trivial, trivial⟩
  function _ _ _ := ⟨(), le_rfl, trivial, trivial⟩
  enclose _ _ _ := ⟨(), le_rfl, trivial, trivial, trivial⟩
  part _ _ := trivial
  tooDeep := trivial
  nameless _ := trivial
  valueless _ _ := trivial
  unwritten _ _ := trivial

namespace Discipline

theorem plain_governs (limits : Limits) : plain.Governs limits () where
  initial := ⟨trivial, by simp [Store.initial]⟩
  scope := trivial
  program _ _ _ _ := trivial

variable {w : Unit} {value : Value} {store : Store}

theorem Data.signalFree (h : plain.Data w value) : value.SignalFree := fun part hp => (h part hp).1

theorem Holds.signalFree (h : plain.Holds w store) : store.SignalFree :=
  fun scope hs binding hb => (h.bound scope hs binding hb).signalFree

theorem Result.orderly (h : plain.Result w value) : value.Orderly := by
  rcases h with (h | h) | ⟨carried, rfl, h⟩
  · cases value with
    | error cause => trivial
    | _ => cases h
  · cases value with
    | error cause => trivial
    | returned carried => cases h.isSignal_eq
    | _ => exact h.signalFree
  · exact h.signalFree

theorem Ends.signalFree {α : Type} {post : Unit → α → Prop} {outcome : Except Fault α × Store}
    (h : plain.Ends w post outcome) : outcome.2.SignalFree := by
  obtain ⟨_, _, hs⟩ := h.holds
  exact hs.signalFree

end Discipline

open Discipline in
/-- Signals never become data. After any runs, and before and after every evaluation in the course of
one more, nothing that is bound or stands in an array is a signal; a returned value carries none; what
is called, and what it is called with, is none; and neither a call nor a run ends with a returned
value. -/
theorem signals_never_become_data (limits : Limits) (sources : List String) :
    (Session.runs limits sources).store.SignalFree ∧
    ∀ source : String,
      (∀ value carried, ((Session.runs limits sources).run limits source).1 = .value value →
        value ≠ .returned carried) ∧
      (∀ e : Evaluation, (Session.runs limits sources).Performs limits source e →
        e.store.SignalFree ∧ e.outcome.2.SignalFree ∧
        ∀ value, e.outcome.1 = .ok value → value.Orderly) ∧
      ∀ (e : Evaluation) callee arguments store,
        (Session.runs limits sources).Performs limits source e →
        e.Applies callee arguments store →
        store.SignalFree ∧ callee.SignalFree ∧ (∀ argument ∈ arguments, argument.SignalFree) ∧
        e.outcome = applyFunction (eval (e.depth - 1)) (e.depth - 1) callee arguments store ∧
        ∀ carried, e.outcome.1 ≠ .ok (.returned carried) := by
  have hg := plain_governs limits
  obtain ⟨_, _, hs⟩ := hg.holds_runs sources
  refine ⟨hs.signalFree, fun source => ⟨fun value carried hv => ?_, fun e he => ?_, ?_⟩⟩
  · obtain ⟨_, _, ha⟩ := hg.run_value sources hv
    exact ha.ne_returned carried
  · obtain ⟨_, _, ha⟩ := hg.performs sources he
    refine ⟨ha.store.signalFree, ha.ends.signalFree, fun value hv => ?_⟩
    obtain ⟨_, _, hr⟩ := ha.ends.value hv
    exact hr.orderly
  · intro e callee arguments store he happ
    obtain ⟨_, _, ha⟩ := hg.performs sources he
    obtain ⟨_, _, hst, hc, hargs, hend⟩ := ha.applies happ
    refine ⟨hst.signalFree, hc.signalFree, fun argument hm => (hargs argument hm).signalFree,
      happ.outcome_eq, fun carried hv => ?_⟩
    obtain ⟨_, _, hans⟩ := hend.value hv
    exact hans.ne_returned carried rfl

/-- The session after `let keep = fn(x) \x7b return [x] \x7d`. -/
abbrev keeping : Session := Session.runs ⟨9, 9, 9, 9⟩ ["let keep = fn(x) \x7b return [x] \x7d"]

/-- The evaluation of `keep(true)` as a statement. -/
def keepCall : Evaluation where
  depth := 7
  node := .call ⟨.lparen, "("⟩ (.identifier ⟨⟨.ident, "keep"⟩, "keep"⟩) [.boolean ⟨.trueWord, "true"⟩ true]
  scope := globalScope
  store := keeping.store

def keepBody : Node :=
  .block ⟨.lbrace, "\x7b"⟩ [.returnStatement ⟨.returnWord, "return"⟩
    (.array ⟨.lbracket, "["⟩ [.identifier ⟨⟨.ident, "x"⟩, "x"⟩])]

/-- The body of the function gives a returned value, which carries an array that is free of signals; the call, and
the run, give the array. -/
theorem returned_array_free_of_signals :
    ∃ (body : Evaluation) (callee array : Value) (arguments : List Value) (store : Store),
      keeping.Performs ⟨9, 9, 9, 9⟩ "keep(true)" keepCall ∧ keepCall.Applies callee arguments store ∧
      keeping.Performs ⟨9, 9, 9, 9⟩ "keep(true)" body ∧ store.SignalFree ∧ callee.SignalFree ∧
      body.outcome.1 = .ok (.returned array) ∧ array.SignalFree ∧ keepCall.outcome.1 = .ok array ∧
      (∀ carried, keepCall.outcome.1 ≠ .ok (.returned carried)) ∧
      (keeping.run ⟨9, 9, 9, 9⟩ "keep(true)").1 = .value array ∧ ∀ carried, array ≠ .returned carried := by
  obtain ⟨-, hnext⟩ := signals_never_become_data ⟨9, 9, 9, 9⟩ ["let keep = fn(x) \x7b return [x] \x7d"]
  obtain ⟨hvalue, hperformed, happlied⟩ := hnext "keep(true)"
  have hcall : keeping.Performs ⟨9, 9, 9, 9⟩ "keep(true)" keepCall :=
    Session.performs_of_expression rfl rfl rfl
  have happ : keepCall.Applies (.function 0 [⟨⟨.ident, "x"⟩, "x"⟩] keepBody 0) [.boolean true] keepCall.store :=
    ⟨6, _, _, _, _, rfl, rfl, rfl, rfl, .cons rfl rfl (.nil _)⟩
  have hbody := hcall.inside happ rfl
  have hrun : (keeping.run ⟨9, 9, 9, 9⟩ "keep(true)").1 = .value (.array 1 [.boolean true]) := rfl
  obtain ⟨hstore, hcallee, -, -, hunwrapped⟩ := happlied _ _ _ _ hcall happ
  obtain ⟨-, -, horderly⟩ := hperformed _ hbody
  exact ⟨_, _, _, _, _, hcall, happ, hbody, hstore, hcallee, rfl, horderly _ rfl, rfl, hunwrapped, hrun,
    fun carried => hvalue _ carried hrun⟩

end Scriptlet
