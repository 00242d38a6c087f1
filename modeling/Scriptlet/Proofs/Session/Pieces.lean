import Scriptlet.Proofs.Parse.Pieces
import Scriptlet.Proofs.Session.Failures

/-!
# Running in pieces

Two sources that are put together are run like one after the other, up to the first signal. The statements
of the second source go on in the store that those of the first have left, and the only thing that one
sequence of statements hands to the next is whether it ended with a signal (`evalSequence_append`).
-/

namespace Scriptlet

/-! ### Sequences of statements -/

section

variable {ev : Evaluator} {i : ScopeId} {nodes nodes' : List Node} {last : Value}

theorem evalSequence_append (h : last.isSignal = false) :
    evalSequence ev i (nodes ++ nodes') last =
      evalSequence ev i nodes last >>= fun value =>
        if value.isSignal then pure value else evalSequence ev i nodes' value := by
  induction nodes generalizing last with
  | nil =>
    show _ = pure last >>= _
    rw [pure_bind, h]
    rfl
  | cons node nodes ih =>
    simp only [List.cons_append, evalSequence, bind_assoc]
    congr 1
    funext value
    by_cases hv : value.isSignal = true
    · simp only [hv, if_true, pure_bind]
    · rw [Bool.not_eq_true] at hv
      simp only [hv, Bool.false_eq_true, if_false]
      exact ih hv

/-- What the last statement before was has no bearing on a sequence that has statements. -/
theorem evalSequence_last (h : nodes ≠ []) (last last' : Value) :
    evalSequence ev i nodes last = evalSequence ev i nodes last' := by
  obtain ⟨node, nodes, rfl⟩ := List.exists_cons_of_ne_nil h
  rfl

end

namespace Evaluation

/-- The value is that of one of the nodes, when they are evaluated one after another up to the first
signal. -/
inductive Meets (depth : Nat) (i : ScopeId) : List Node → Store → Value → Prop
  | here {node : Node} {nodes : List Node} {store store' : Store} {value : Value}
    (hv : eval depth node i store = (.ok value, store')) : Meets depth i (node :: nodes) store value
  | later {node : Node} {nodes : List Node} {store store' : Store} {value other : Value}
    (hv : eval depth node i store = (.ok value, store')) (hs : value.isSignal = false)
    (h : Meets depth i nodes store' other) : Meets depth i (node :: nodes) store other

variable {depth : Nat} {i : ScopeId} {nodes : List Node} {store store' : Store} {value last : Value}

theorem meets_of_evalSequence (h : evalSequence (eval depth) i nodes last store = (.ok value, store')) :
    value = last ∨ Meets depth i nodes store value := by
  induction nodes generalizing last store with
  | nil =>
    cases h
    exact .inl rfl
  | cons node nodes ih =>
    rw [evalSequence, Action.bind_run] at h
    cases ho : eval depth node i store with
    | mk result store₁ =>
      rw [ho] at h
      cases result with
      | error cause => cases h
      | ok first =>
        dsimp only at h
        by_cases hs : first.isSignal = true
        · rw [if_pos hs] at h
          cases h
          exact .inr (.here ho)
        · rw [if_neg hs] at h
          rcases ih h with rfl | hm
          · exact .inr (.here ho)
          · exact .inr (.later ho (Bool.eq_false_iff.2 hs) hm)

/-- A signal is the value of the whole sequence. -/
theorem Meets.evalSequence (h : Meets depth i nodes store value) (hs : value.isSignal = true)
    (last : Value) : ∃ store', evalSequence (eval depth) i nodes last store = (.ok value, store') := by
  induction h generalizing last with
  | @here node nodes store store' value hv =>
    refine ⟨store', ?_⟩
    rw [Scriptlet.evalSequence, Action.bind_run_ok hv, if_pos hs]
    rfl
  | @later node nodes store store' first other hv hf _ ih =>
    rw [Scriptlet.evalSequence, Action.bind_run_ok hv, hf]
    exact ih hs first

end Evaluation

/-! ### Programs -/

section

variable {depth : Nat} {i : ScopeId} {ss : List Node} {store store' : Store} {value : Value}

theorem eval_program (depth : Nat) (ss : List Node) (i : ScopeId) :
    eval (depth + 1) (.program ss) i =
      evalSequence (eval depth) i ss .null >>= fun value => pure value.unwrapped := rfl

/-- A program goes on with its last statements in the store that the first have left. -/
theorem eval_program_append (h : evalSequence (eval depth) i ss .null store = (.ok value, store'))
    (hv : value.isSignal = false) {ss' : List Node} (hne : ss' ≠ []) :
    eval (depth + 1) (.program (ss ++ ss')) i store = eval (depth + 1) (.program ss') i store' := by
  have hrest : evalSequence (eval depth) i (ss ++ ss') .null store =
      evalSequence (eval depth) i ss' .null store' := by
    rw [evalSequence_append rfl, Action.bind_run_ok h, hv]
    exact congrFun (evalSequence_last hne value .null) store'
  rw [eval_program, eval_program, Action.bind_run, Action.bind_run, hrest]

theorem eval_program_fault {cause : Fault}
    (h : evalSequence (eval depth) i ss .null store = (.error cause, store')) (ss' : List Node) :
    eval (depth + 1) (.program (ss ++ ss')) i store = (.error cause, store') := by
  rw [eval_program, evalSequence_append rfl, bind_assoc, Action.bind_run, h]

/-- Without a signal among the first statements, a program has the value of the others, if it has one. -/
theorem eval_program_of_no_signal {ss' : List Node} (hne : ss' ≠ [])
    (hvalue : ∀ cause, (eval (depth + 1) (.program (ss ++ ss')) i store).1 ≠ .error cause)
    (hall : ∀ value, Evaluation.Meets depth i ss store value → value.isSignal = false) :
    ∃ value store', eval (depth + 1) (.program ss) i store = (.ok value, store') ∧
      eval (depth + 1) (.program (ss ++ ss')) i store = eval (depth + 1) (.program ss') i store' := by
  cases hs : evalSequence (eval depth) i ss .null store with
  | mk result store' =>
    cases result with
    | error cause =>
      rw [eval_program_fault hs] at hvalue
      exact absurd rfl (hvalue cause)
    | ok value =>
      have hsignal : value.isSignal = false := by
        rcases Evaluation.meets_of_evalSequence hs with rfl | hm
        · rfl
        · exact hall value hm
      refine ⟨value.unwrapped, store', ?_, eval_program_append hs hsignal hne⟩
      rw [eval_program, Action.bind_run_ok hs]
      rfl

/-- After a signal nothing is evaluated. -/
theorem eval_program_of_signal (h : Evaluation.Meets depth i ss store value)
    (hv : value.isSignal = true) (ss' : List Node) :
    eval (depth + 1) (.program (ss ++ ss')) i store = eval (depth + 1) (.program ss) i store := by
  obtain ⟨store', hs⟩ := h.evalSequence hv .null
  have hrest : evalSequence (eval depth) i (ss ++ ss') .null store = (.ok value, store') := by
    rw [evalSequence_append rfl, Action.bind_run_ok hs, if_pos hv]
    rfl
  rw [eval_program, eval_program, Action.bind_run, Action.bind_run, hrest, hs]

end

namespace Session

variable {limits : Limits} {session : Session} {source : String}

/-- What a run makes of the evaluation of its program. -/
def conclude (session : Session) : Except Fault Value × Store → Outcome × Session
  | (.error cause, store) => (.fault cause, { session with store, errors := [] })
  | (.ok value, store) => (.value value, ⟨store, [], value.isError⟩)

theorem run_of_parse {p : Node} (h : parse limits source = .ok ⟨p, []⟩) :
    session.run limits source =
      session.conclude (eval limits.evaluation p globalScope session.store) := by
  unfold run conclude
  rw [h]
  rfl

/-- The value is that of one of the statements, when they are run in the global scope up to the first
signal. -/
def Meets (limits : Limits) (session : Session) (statements : List Node) (value : Value) : Prop :=
  Evaluation.Meets (limits.evaluation - 1) globalScope statements session.store value

theorem fault_conclude {result : Except Fault Value × Store} {cause : Fault} :
    (session.conclude result).1 = .fault cause ↔ result.1 = .error cause := by
  obtain ⟨cause' | value, store⟩ := result <;> simp [conclude]

/-- A run whose program has a value leaves nothing of the session before but its store. -/
theorem conclude_congr {result : Except Fault Value × Store} (session' : Session)
    (h : ∀ cause, result.1 ≠ .error cause) : session.conclude result = session'.conclude result := by
  obtain ⟨cause | value, store⟩ := result
  · exact absurd rfl (h cause)
  · rfl

/-- A program that is not nested too deep has a value. -/
theorem eval_ne_error {sources : List String} {p : Node} (hp : parse limits source = .ok ⟨p, []⟩)
    (hdeep : ((runs limits sources).run limits source).1 ≠ .fault .tooDeep) (cause : Fault) :
    (eval limits.evaluation p globalScope (runs limits sources).store).1 ≠ .error cause := by
  intro hcause
  have hfault : ((runs limits sources).run limits source).1 = .fault cause := by
    rw [run_of_parse hp]
    exact fault_conclude.2 hcause
  rcases run_fault hfault with rfl | hparse
  · exact hdeep hfault
  · rw [hp] at hparse
    cases hparse

end Session

open Session in
/-- Running in pieces is running at once. In any session that runs lead to, take a source `a` without
syntax errors whose last token is a semicolon, or that has none, and a source `b` without syntax errors
that has a statement, and let them not be nested too deep when they are run together. If no statement
of `a` evaluates to a signal, then running both together is running one after the other: result,
output, scopes, and whether there were errors. If one does, it is running `a` alone. -/
theorem run_together_eq_run_in_pieces {limits : Limits} (sources : List String) {a b : String}
    {ss ss' : List Node} (ha : parse limits a = .ok ⟨.program ss, []⟩)
    (hc : EndsClosed (tokenize a).dropLast) (hb : parse limits b = .ok ⟨.program ss', []⟩)
    (hne : ss' ≠ []) (hdeep : ((runs limits sources).run limits (a ++ b)).1 ≠ .fault .tooDeep) :
    ((∀ value, (runs limits sources).Meets limits ss value → value.isSignal = false) →
      (runs limits sources).run limits (a ++ b) =
        ((runs limits sources).run limits a).2.run limits b) ∧
    ((∃ value, (runs limits sources).Meets limits ss value ∧ value.isSignal = true) →
      (runs limits sources).run limits (a ++ b) = (runs limits sources).run limits a) := by
  have hab : parse limits (a ++ b) = .ok ⟨.program (ss ++ ss'), []⟩ := by
    rcases parse_append ha hc hb with hok | herror
    · exact hok
    · refine absurd ?_ hdeep
      unfold run
      rw [herror]
  have hvalue := eval_ne_error hab hdeep
  rw [run_of_parse hab, run_of_parse ha, run_of_parse hb]
  generalize runs limits sources = session at hvalue ⊢
  unfold Meets
  revert hvalue
  cases limits.evaluation with
  -- The program itself takes one step of depth, which its statements then do not have.
  | zero => exact fun hvalue => absurd rfl (hvalue .tooDeep)
  | succ depth =>
    intro hvalue
    rw [Nat.add_sub_cancel]
    refine ⟨fun hall => ?_, ?_⟩
    · obtain ⟨value, store', hfirst, hboth⟩ := eval_program_of_no_signal hne hvalue hall
      rw [hboth] at hvalue ⊢
      rw [hfirst]
      exact conclude_congr _ hvalue
    · rintro ⟨value, hm, hsignal⟩
      rw [eval_program_of_signal hm hsignal]

open Session in
/-- A binding that the second piece needs, and a `return` after which the second piece is left out. -/
theorem binding_and_return_in_pieces :
    (runs Limits.standard ["let n = 20"]).run Limits.standard ("let m = n;" ++ "m * 2") =
      ((runs Limits.standard ["let n = 20"]).run Limits.standard "let m = n;").2.run
        Limits.standard "m * 2" ∧
    (runs Limits.standard ["let n = 20"]).run Limits.standard ("return n;" ++ "m * 2") =
      (runs Limits.standard ["let n = 20"]).run Limits.standard "return n;" := by
  have hlet : parse Limits.standard "let m = n;" = .ok ⟨.program [.letStatement ⟨.letWord, "let"⟩
      (some ⟨⟨.ident, "m"⟩, "m"⟩) (.identifier ⟨⟨.ident, "n"⟩, "n"⟩)], []⟩ := rfl
  have hreturn : parse Limits.standard "return n;" = .ok ⟨.program [.returnStatement
      ⟨.returnWord, "return"⟩ (.identifier ⟨⟨.ident, "n"⟩, "n"⟩)], []⟩ := rfl
  have hnext : parse Limits.standard "m * 2" = .ok ⟨.program [.expressionStatement ⟨.ident, "m"⟩
      (.infixOp ⟨.asterisk, "*"⟩ "*" (.identifier ⟨⟨.ident, "m"⟩, "m"⟩)
        (.integer ⟨.int, "2"⟩ 2))], []⟩ := rfl
  have hdeep : ∀ source value, ((runs Limits.standard ["let n = 20"]).run Limits.standard source).1 =
      .value value → ((runs Limits.standard ["let n = 20"]).run Limits.standard source).1 ≠
      .fault .tooDeep := by
    intro source value h
    rw [h]
    exact nofun
  refine ⟨(run_together_eq_run_in_pieces ["let n = 20"] hlet (by decide +kernel) hnext nofun
      (hdeep _ _ rfl)).1 ?_,
    (run_together_eq_run_in_pieces ["let n = 20"] hreturn (by decide +kernel) hnext nofun
      (hdeep _ _ rfl)).2 ⟨.returned (.ofInt 20), .here rfl, rfl⟩⟩
  intro value hm
  cases hm with
  | here hv => cases hv; rfl
  | later _ _ h => cases h

end Scriptlet
