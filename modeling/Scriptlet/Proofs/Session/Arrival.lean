import Scriptlet.Proofs.Eval.Cutoff
import Scriptlet.Proofs.Session.Runs

/-!
# What a run comes to

`Evaluation.Asks` tells what takes place in the course of an evaluation by the difference that it makes. Here is the
other direction: whatever evaluation comes to does take place. That is a node at an open place (`asks_of_opens`), a
statement behind others that have values (`asks_statement`), and the body of a function that is called
(`asks_inside`). A fault instead of any of them would be the end of the whole, for no fault is caught.
-/

namespace Scriptlet

namespace Evaluation

/-- The evaluator gives a fault instead of `part`, and what `eval` gives otherwise. -/
structure FaultsAt (part : Evaluation) (cause : Fault) (ev : Evaluator) : Prop where
  here : (ev part.node part.scope part.store).1 = .error cause
  elsewhere : ∀ node i store, ¬ (node = part.node ∧ i = part.scope ∧ store = part.store) →
    ev node i store = eval part.depth node i store

/-- Whatever makes an evaluation fault where it faults itself is asked for. -/
theorem asks_of_fault {whole part : Evaluation} (hd : whole.depth = part.depth + 1)
    (h : ∀ cause ev, FaultsAt part cause ev →
      (evalNode ev part.depth whole.node whole.scope whole.store).1 = .error cause) : whole.Asks part := by
  classical
  -- A fault with which the whole does not end yet.
  obtain ⟨cause, hne⟩ := Fault.exists_ne whole.outcome.1
  obtain ⟨ev, hev⟩ : ∃ ev, FaultsAt part cause ev := by
    refine ⟨fun node i store => if node = part.node ∧ i = part.scope ∧ store = part.store then (.error cause, store)
      else eval part.depth node i store, ?_, fun node i store hn => if_neg hn⟩
    rw [if_pos ⟨rfl, rfl, rfl⟩]
  refine ⟨hd, ev, hev.elsewhere, fun heq => hne ?_⟩
  rw [← heq]
  exact h cause ev hev

namespace FaultsAt

variable {part : Evaluation} {cause : Fault} {ev : Evaluator} {i : ScopeId} {store store' : Store}
  {nodes : List Node} {values : List Value}

section

variable (h : FaultsAt part cause ev)
include h

/-- What `eval` goes on from, `ev` goes on from too, unless it faults by then. -/
theorem evalThen {node : Node} {value : Value} (hv : eval part.depth node i store = (.ok value, store'))
    (hs : value.isSignal = false) {next : Value → Action Value} (hnext : (next value store').1 = .error cause) :
    (evalThen ev node i next store).1 = .error cause := by
  by_cases hsame : node = part.node ∧ i = part.scope ∧ store = part.store
  · obtain ⟨rfl, rfl, rfl⟩ := hsame
    exact Action.bind_run_fault h.here _
  · have hev : ev node i store = (.ok value, store') := (h.elsewhere node i store hsame).trans hv
    rw [evalThen_value hev hs]
    exact hnext

theorem evalSequence (hg : Gives part.depth i nodes store values store') {rest : List Node}
    (hrest : ∀ last, (evalSequence ev i rest last store').1 = .error cause) (last : Value) :
    (evalSequence ev i (nodes ++ rest) last store).1 = .error cause := by
  induction hg generalizing last with
  | nil => exact hrest last
  | cons hv hs _ ih => exact h.evalThen hv hs (ih hrest _)

theorem evalAllThen (hg : Gives part.depth i nodes store values store') {next : List Value → Action Value}
    {rest : List Node} {seen : List Value}
    (hrest : (evalAllThen ev i next rest (values.reverse ++ seen) store').1 = .error cause) :
    (evalAllThen ev i next (nodes ++ rest) seen store).1 = .error cause := by
  induction hg generalizing seen with
  | nil => exact hrest
  | @cons node nodes store store' store'' value values hv hs _ ih =>
    rw [List.reverse_cons, List.append_assoc] at hrest
    exact h.evalThen hv hs (ih hrest)

end

end FaultsAt

variable {depth : Nat} {i : ScopeId} {node : Node} {store store' : Store} {values : List Value}

/-- Evaluation of a construct asks for the node that stands at an open place in it. -/
theorem asks_of_opens (place : Place) (ho : place.Opens depth i store store') (hn : node.isHole = false) :
    Asks ⟨depth + 1, place.fill node, i, store⟩ ⟨depth, node, i, store'⟩ := by
  refine asks_of_fault rfl fun cause ev h => ?_
  obtain ⟨values, hg, ht⟩ := ho
  cases place with
  | operand | leftOperand | condition | callee | indexed | letValue | returnValue =>
    cases hg
    exact Action.bind_run_fault h.here _
  | expression | tokenless =>
    cases hg
    exact h.here
  | rightOperand | subscript =>
    obtain _ | ⟨hv, hs, hnil⟩ := hg
    cases hnil
    exact h.evalThen hv hs (Action.bind_run_fault h.here _)
  | consequence token test no =>
    obtain _ | ⟨hv, hs, hnil⟩ := hg
    cases hnil
    have htruthy := (Bool.and_eq_true_iff.1 ht).1
    refine h.evalThen hv hs ?_
    rw [if_pos htruthy]
    exact h.here
  | alternative token test yes =>
    obtain _ | ⟨hv, hs, hnil⟩ := hg
    cases hnil
    have hfalsy := (Bool.and_eq_true_iff.1 ht).1
    refine h.evalThen hv hs ?_
    rw [if_neg (by simpa using hfalsy), hn]
    exact h.here
  | argument token called before after =>
    obtain _ | ⟨hv, hs, hbefore⟩ := hg
    exact h.evalThen hv hs (h.evalAllThen hbefore (Action.bind_run_fault h.here _))
  | element token before after => exact h.evalAllThen hg (Action.bind_run_fault h.here _)
  | statement token before after => exact h.evalSequence hg (fun _ => Action.bind_run_fault h.here _) .null

theorem isHole_plug (hn : node.isHole = false) (places : List Place) : (plug places node).isHole = false := by
  cases places with
  | nil => exact hn
  | cons place places => cases place <;> rfl

/-- What evaluation arrives at takes place in its course. -/
theorem includes_of_arrives {places : List Place} (ha : Arrives depth i places store store')
    (hn : node.isHole = false) :
    Includes ⟨depth + places.length, plug places node, i, store⟩ ⟨depth, node, i, store'⟩ := by
  induction ha with
  | here => exact .refl
  | inside outer _ ih => exact .head (asks_of_opens _ outer (isHole_plug hn _)) ih

/-- A program asks for a statement when those before it have values. -/
theorem asks_statement {before after : List Node} (hg : Gives depth i before store values store') :
    Asks ⟨depth + 1, .program (before ++ node :: after), i, store⟩ ⟨depth, node, i, store'⟩ :=
  asks_of_fault rfl fun _ _ h =>
    Action.bind_run_fault (h.evalSequence hg (fun _ => Action.bind_run_fault h.here _) .null) _

/-- A call asks for the body of the function. -/
theorem asks_inside {e : Evaluation} {k : Identity} {parameters : List Identifier} {body : Node} {outer : ScopeId}
    {arguments : List Value} (happ : e.Applies (.function k parameters body outer) arguments store)
    (hlength : arguments.length = parameters.length) : e.Asks (e.inside parameters body outer arguments store) := by
  obtain ⟨d, n, i, s⟩ := e
  obtain ⟨depth, token, node, nodes, store', rfl, rfl, hc, hs, hg⟩ := happ
  refine asks_of_fault rfl fun cause ev h => h.evalThen hc hs ?_
  have hbody : (applyFunction ev depth (.function k parameters body outer) arguments store).1 = .error cause := by
    rw [applyFunction, if_pos hlength, Action.bind_run_ok (Action.enclose_run ..)]
    exact Action.bind_run_fault h.here _
  have hall : (evalAllThen ev i (applyFunction ev depth (.function k parameters body outer)) (nodes ++ []) []
      store').1 = .error cause := by
    refine h.evalAllThen hg ?_
    rw [List.append_nil, evalAllThen, List.reverse_reverse]
    exact hbody
  rwa [List.append_nil] at hall

end Evaluation

namespace Session

open Evaluation

variable {limits : Limits} {session : Session} {source : String} {e part : Evaluation}

theorem Performs.includes (h : session.Performs limits source e) (hi : e.Includes part) :
    session.Performs limits source part := by
  obtain ⟨parsed, hp, he, hincludes⟩ := h
  exact ⟨parsed, hp, he, hincludes.trans hi⟩

/-- A run performs the evaluation that it arrives at, behind statements that have values. -/
theorem performs_of_arrives {depth : Nat} {node : Node} {values : List Value} {store store' : Store}
    (before after : List Node) (places : List Place)
    (hp : parse limits source = .ok ⟨.program (before ++ plug places node :: after), []⟩)
    (hd : limits.evaluation = depth + places.length + 1)
    (hg : Gives (depth + places.length) globalScope before session.store values store)
    (ha : Arrives depth globalScope places store store') (hn : node.isHole = false) :
    session.Performs limits source ⟨depth, node, globalScope, store'⟩ := by
  refine ⟨_, hp, rfl, ?_⟩
  rw [evaluation, hd]
  exact .head (asks_statement hg) (includes_of_arrives ha hn)

/-- Where a source is one expression, the run performs its evaluation. -/
theorem performs_of_expression {depth : Nat} {token : Token} {node : Node}
    (hp : parse limits source = .ok ⟨.program [.expressionStatement token node], []⟩)
    (hd : limits.evaluation = depth + 2) (hn : node.isHole = false) :
    session.Performs limits source ⟨depth, node, globalScope, session.store⟩ :=
  performs_of_arrives [] [] [.expression token] hp hd (.nil _) (.inside ⟨_, .nil _, rfl⟩ (.here _)) hn

/-- Where a run performs a call, it performs the body of the function. -/
theorem Performs.inside {k : Identity} {parameters : List Identifier} {body : Node} {outer : ScopeId}
    {arguments : List Value} {store : Store} (h : session.Performs limits source e)
    (happ : e.Applies (.function k parameters body outer) arguments store)
    (hlength : arguments.length = parameters.length) :
    session.Performs limits source (e.inside parameters body outer arguments store) :=
  h.includes (.single (asks_inside happ hlength))

end Session

end Scriptlet
