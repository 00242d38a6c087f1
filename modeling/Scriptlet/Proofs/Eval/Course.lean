import Mathlib.Logic.Relation
import Scriptlet.Proofs.Eval.Agree
import Scriptlet.Session

/-!
# The course of an evaluation

To evaluate a node, other nodes are evaluated: its parts, and the bodies of the functions it calls,
each from the store that has come about by then. `Evaluation.Asks` says so without retelling the
rules of evaluation: a part is asked for if the outcome would be another one with some other answer to
this one question. No fault is ever caught, so every answer that is looked at can make a difference.

`Session.Performs` collects all evaluations of a run. Whatever a discipline says of stores, scopes and
nodes holds at each of them, in every run of a session.
-/

namespace Scriptlet

/-- One evaluation: how deep it may go, what is evaluated, where, and from which store. -/
structure Evaluation where
  depth : Nat
  node : Node
  scope : ScopeId
  store : Store

namespace Evaluation

def outcome (e : Evaluation) : Except Fault Value × Store := eval e.depth e.node e.scope e.store

/-- `whole` asks for `part`: with another answer to `part` alone it could have another outcome. -/
def Asks (whole part : Evaluation) : Prop :=
  whole.depth = part.depth + 1 ∧ ∃ ev : Evaluator,
    (∀ node i store, ¬ (node = part.node ∧ i = part.scope ∧ store = part.store) →
      ev node i store = eval part.depth node i store) ∧
    evalNode ev part.depth whole.node whole.scope whole.store ≠ whole.outcome

/-- `part` takes place in the course of `whole`. -/
def Includes (whole part : Evaluation) : Prop := Relation.ReflTransGen Asks whole part

/-- The nodes are evaluated one after another to the given values, none of which is a signal. -/
inductive Gives (depth : Nat) (i : ScopeId) : List Node → Store → List Value → Store → Prop
  | nil (store : Store) : Gives depth i [] store [] store
  | cons {node : Node} {nodes : List Node} {store store' store'' : Store} {value : Value}
    {values : List Value} (hv : eval depth node i store = (.ok value, store'))
    (hs : value.isSignal = false) (h : Gives depth i nodes store' values store'') :
    Gives depth i (node :: nodes) store (value :: values) store''

/-- The evaluation of a call comes to the point where the callee and the arguments are known. -/
def Applies (e : Evaluation) (callee : Value) (arguments : List Value) (store : Store) : Prop :=
  ∃ depth token node nodes store', e.depth = depth + 1 ∧ e.node = .call token node nodes ∧
    eval depth node e.scope e.store = (.ok callee, store') ∧ callee.isSignal = false ∧
    Gives depth e.scope nodes store' arguments store

section

variable {depth : Nat} {i : ScopeId} {nodes : List Node} {store store' : Store} {values : List Value}

theorem Gives.evalAllThen_append (h : Gives depth i nodes store values store')
    (next : List Value → Action Value) (rest : List Node) (seen : List Value) :
    Scriptlet.evalAllThen (eval depth) i next (nodes ++ rest) seen store =
      Scriptlet.evalAllThen (eval depth) i next rest (values.reverse ++ seen) store' := by
  induction h generalizing seen with
  | nil => rfl
  | @cons node nodes store store' store'' value values hv hs h ih =>
    refine (evalThen_value hv hs _).trans ((ih (value :: seen)).trans ?_)
    rw [List.reverse_cons, List.append_assoc]
    rfl

theorem Gives.evalAllThen (h : Gives depth i nodes store values store')
    (next : List Value → Action Value) (seen : List Value) :
    evalAllThen (eval depth) i next nodes seen store = next (seen.reverse ++ values) store' := by
  have happ := h.evalAllThen_append next [] seen
  rw [List.append_nil] at happ
  rw [happ, Scriptlet.evalAllThen]
  simp

theorem Gives.evalSequence_append (h : Gives depth i nodes store values store') (rest : List Node)
    (last : Value) : ∃ last', evalSequence (eval depth) i (nodes ++ rest) last store =
      evalSequence (eval depth) i rest last' store' := by
  induction h generalizing last with
  | nil => exact ⟨last, rfl⟩
  | @cons node nodes store store' store'' value values hv hs h ih =>
    obtain ⟨last', hlast⟩ := ih value
    exact ⟨last', (evalThen_value hv hs _).trans hlast⟩

end

/-- From there on it is the call that decides. -/
theorem Applies.outcome_eq {e : Evaluation} {callee : Value} {arguments : List Value} {store : Store}
    (h : e.Applies callee arguments store) :
    e.outcome = applyFunction (eval (e.depth - 1)) (e.depth - 1) callee arguments store := by
  obtain ⟨d, n, i, s⟩ := e
  obtain ⟨depth, token, node, nodes, store', rfl, rfl, hc, hs, hg⟩ := h
  show (eval depth node i >>= _) s = _
  rw [Action.bind_run_ok hc]
  simp only [hs, Bool.false_eq_true, if_false]
  exact hg.evalAllThen _ []

end Evaluation

namespace Discipline

variable {W : Type} [Preorder W] {D : Discipline W} {w : W} {e part : Evaluation}

/-- The discipline allows the evaluation, in the given world. -/
structure Allows (D : Discipline W) (w : W) (e : Evaluation) : Prop where
  store : D.Holds w e.store
  node : D.runs e.node
  scope : D.scope w e.scope

theorem Allows.ends (h : D.Allows w e) : D.Ends w D.Result e.outcome :=
  (agree_eval e.depth h.node h.scope e.store h.store).2

/-- An evaluation that is not allowed could be answered in any way, so it is not asked for. -/
theorem Allows.asks (h : D.Allows w e) (ha : e.Asks part) : ∃ w', w ≤ w' ∧ D.Allows w' part := by
  by_contra hno
  obtain ⟨hd, ev, hev, hne⟩ := ha
  refine hne ?_
  -- `ev` differs from the evaluator only at `part`, which is never allowed, so the two agree.
  have hagree : ∀ u node i, w ≤ u → D.runs node → D.scope u i →
      D.Agree u D.Result (eval part.depth node i) (ev node i) := by
    intro u node i hu hr hi store hs
    refine ⟨hev node i store ?_, (agree_eval part.depth hr hi store hs).2⟩
    rintro ⟨rfl, rfl, rfl⟩
    exact hno ⟨u, hu, hs, hr, hi⟩
  have heq := (agree_evalNode hagree le_rfl part.depth h.node h.scope e.store h.store).1
  rw [heq, Evaluation.outcome, hd]
  rfl

theorem Allows.includes (h : D.Allows w e) (hi : e.Includes part) :
    ∃ w', w ≤ w' ∧ D.Allows w' part := by
  induction hi with
  | refl => exact ⟨w, le_rfl, h⟩
  | tail _ ha ih =>
    obtain ⟨w₁, h₁, hal⟩ := ih
    obtain ⟨w₂, h₂, hal'⟩ := hal.asks ha
    exact ⟨w₂, h₁.trans h₂, hal'⟩

theorem data_of_gives {depth : Nat} {i : ScopeId} {nodes : List Node} {store store' : Store}
    {values : List Value} (h : Evaluation.Gives depth i nodes store values store')
    (hs : D.Holds w store) (hn : ∀ node ∈ nodes, D.runs node) (hi : D.scope w i) :
    ∃ w', w ≤ w' ∧ D.Holds w' store' ∧ ∀ value ∈ values, D.Data w' value := by
  induction h generalizing w with
  | nil => exact ⟨w, le_rfl, hs, by simp⟩
  | @cons node nodes store store₁ store₂ value values hv hsig _ ih =>
    have hend := (agree_eval depth (hn node (by simp)) hi store hs).2
    rw [hv] at hend
    obtain ⟨u, hu, hs₁, hr⟩ := hend
    obtain ⟨u', hu', hs₂, hvs⟩ := ih hs₁ (fun node hm => hn node (by simp [hm])) (D.scope_mono hu hi)
    refine ⟨u', hu.trans hu', hs₂, fun other ho => ?_⟩
    rcases List.mem_cons.1 ho with rfl | ho
    · exact (hr.data hsig).mono hu'
    · exact hvs other ho

/-- What is called and what it is called with are data, and so is what it gives unless it is an
error. -/
theorem Allows.applies (h : D.Allows w e) {callee : Value} {arguments : List Value} {store : Store}
    (ha : e.Applies callee arguments store) :
    ∃ w', w ≤ w' ∧ D.Holds w' store ∧ D.Data w' callee ∧
      (∀ argument ∈ arguments, D.Data w' argument) ∧ D.Ends w' D.Answer e.outcome := by
  have heq := ha.outcome_eq
  obtain ⟨depth, token, node, nodes, store', hd, hnode, hc, hsig, hg⟩ := ha
  have hpart : ∀ part ∈ node :: nodes, D.runs part := fun part hp =>
    D.part h.node (by rw [hnode]; exact hp)
  have hend := (agree_eval depth (hpart node (by simp)) h.scope e.store h.store).2
  rw [hc] at hend
  obtain ⟨u, hu, hs', hr⟩ := hend
  obtain ⟨u', hu', hs, hvs⟩ := data_of_gives hg hs' (fun part hp => hpart part (by simp [hp]))
    (D.scope_mono hu h.scope)
  have hcallee := (hr.data hsig).mono hu'
  refine ⟨u', hu.trans hu', hs, hcallee, hvs, ?_⟩
  rw [heq]
  exact (agree_applyFunction (fun _ _ _ _ hr hi => agree_eval _ hr hi) le_rfl _ hcallee hvs store hs).2

end Discipline

end Scriptlet
