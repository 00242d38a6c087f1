import Scriptlet.Proofs.Eval.Handing

/-!
# Signals cut evaluation off

A runtime error or a returned value is the value of everything around it, however deep it stands. A `Place`
is a construct with one node left out, and a list of places, the outermost first, is all that can stand around
a node. `Arrives` says that evaluation comes to the node that is left out: whatever stands before it, from left to
right, has values to go on with, and of two branches it is in the one that is taken.

Then nothing else happens after a signal (`eval_plug`), up to the call that unwraps it.
-/

namespace Scriptlet

/-- A place in a construct: the construct without the node that stands there. -/
inductive Place where
  | operand (token : Token) (operator : String)
  | leftOperand (token : Token) (operator : String) (right : Node)
  | rightOperand (token : Token) (operator : String) (left : Node)
  | condition (token : Token) (yes no : Node)
  | consequence (token : Token) (test no : Node)
  | alternative (token : Token) (test yes : Node)
  | callee (token : Token) (arguments : List Node)
  | argument (token : Token) (called : Node) (before after : List Node)
  | element (token : Token) (before after : List Node)
  | indexed (token : Token) (index : Node)
  | subscript (token : Token) (left : Node)
  | letValue (token : Token) (name : Option Identifier)
  | returnValue (token : Token)
  | expression (token : Token)
  | statement (token : Token) (before after : List Node)
  | tokenless

namespace Place

/-- The construct with a node at the place. -/
def fill (node : Node) : Place → Node
  | .operand token operator => .prefixOp token operator node
  | .leftOperand token operator right => .infixOp token operator node right
  | .rightOperand token operator left => .infixOp token operator left node
  | .condition token yes no => .conditional token node yes no
  | .consequence token test no => .conditional token test node no
  | .alternative token test yes => .conditional token test yes node
  | .callee token arguments => .call token node arguments
  | .argument token called before after => .call token called (before ++ node :: after)
  | .element token before after => .array token (before ++ node :: after)
  | .indexed token index => .index token node index
  | .subscript token left => .index token left node
  | .letValue token name => .letStatement token name node
  | .returnValue token => .returnStatement token node
  | .expression token => .expressionStatement token node
  | .statement token before after => .block token (before ++ node :: after)
  | .tokenless => .tokenless node

/-- What is evaluated before the node at the place, from left to right. -/
def earlier : Place → List Node
  | .rightOperand _ _ left | .subscript _ left => [left]
  | .consequence _ test _ | .alternative _ test _ => [test]
  | .argument _ called before _ => called :: before
  | .element _ before _ | .statement _ before _ => before
  | _ => []

/-- Whether the place is not in the branch that the condition rules out. -/
def isTaken (values : List Value) : Place → Bool
  | .consequence _ _ _ => values.all Value.isTruthy
  | .alternative _ _ _ => values.all fun value => !value.isTruthy
  | _ => true

/-- Evaluation comes from the construct to the node at the place. -/
def Opens (place : Place) (depth : Nat) (i : ScopeId) (store store' : Store) : Prop :=
  ∃ values, Evaluation.Gives depth i place.earlier store values store' ∧ place.isTaken values = true

end Place

/-- The tree that has a node inside the places, the outermost of which comes first. -/
def plug (places : List Place) (node : Node) : Node := places.foldr (fun place inner => place.fill inner) node

/-- Evaluation comes to the node inside the places, which is evaluated at the given depth. -/
inductive Arrives (depth : Nat) (i : ScopeId) : List Place → Store → Store → Prop
  | here (store : Store) : Arrives depth i [] store store
  | inside {place : Place} {places : List Place} {store store' store'' : Store}
    (outer : place.Opens (depth + places.length) i store store') (inner : Arrives depth i places store' store'') :
    Arrives depth i (place :: places) store store''

section

variable {depth : Nat} {i : ScopeId} {node : Node} {store store' store'' : Store} {value signal : Value}

/-- Only what is there can be evaluated. -/
theorem isHole_of_eval (h : eval depth node i store = (.ok value, store')) : node.isHole = false := by
  cases node with
  | hole => cases depth <;> cases h
  | _ => rfl

/-- A signal at one place is what the construct gives, and nothing else happens. -/
theorem eval_fill {place : Place} (ho : place.Opens depth i store store')
    (h : eval depth node i store' = (.ok signal, store'')) (hs : signal.isSignal = true) :
    eval (depth + 1) (place.fill node) i store = (.ok signal, store'') := by
  obtain ⟨values, hg, ht⟩ := ho
  cases place with
  | operand | leftOperand | condition | callee | indexed | letValue | returnValue =>
    cases hg
    exact evalThen_signal h hs _
  | expression | tokenless =>
    cases hg
    exact h
  | rightOperand | subscript =>
    obtain _ | ⟨hv, hsig, hnil⟩ := hg
    cases hnil
    exact (evalThen_value hv hsig _).trans (evalThen_signal h hs _)
  | consequence token test no =>
    obtain _ | ⟨hv, hsig, hnil⟩ := hg
    cases hnil
    have htruthy := (Bool.and_eq_true_iff.1 ht).1
    refine (evalThen_value hv hsig _).trans ?_
    rw [if_pos htruthy]
    exact h
  | alternative token test yes =>
    obtain _ | ⟨hv, hsig, hnil⟩ := hg
    cases hnil
    have hfalsy := (Bool.and_eq_true_iff.1 ht).1
    refine (evalThen_value hv hsig _).trans ?_
    rw [if_neg (by simpa using hfalsy), isHole_of_eval h]
    exact h
  | argument token called before after =>
    obtain _ | ⟨hv, hsig, hbefore⟩ := hg
    refine (evalThen_value hv hsig _).trans ?_
    rw [hbefore.evalAllThen_append]
    exact evalThen_signal h hs _
  | element token before after =>
    have hbefore : Evaluation.Gives depth i before store values store' := hg
    show evalAllThen (eval depth) i Action.newArray (before ++ node :: after) [] store = _
    rw [hbefore.evalAllThen_append]
    exact evalThen_signal h hs _
  | statement token before after =>
    have hbefore : Evaluation.Gives depth i before store values store' := hg
    obtain ⟨last, hlast⟩ := hbefore.evalSequence_append (node :: after) .null
    show evalSequence (eval depth) i (before ++ node :: after) .null store = _
    rw [hlast]
    exact evalThen_signal h hs _

/-- A signal inside any number of places is what the outermost construct gives, and nothing else happens. -/
theorem eval_plug {places : List Place} (ha : Arrives depth i places store store')
    (h : eval depth node i store' = (.ok signal, store'')) (hs : signal.isSignal = true) :
    eval (depth + places.length) (plug places node) i store = (.ok signal, store'') := by
  induction ha with
  | here => exact h
  | inside outer inner ih => exact eval_fill outer (ih h) hs

/-- Runtime errors and returned values cut evaluation off, through any nesting. Where evaluation arrives at a
node inside any places and the node gives a signal, the whole gives that signal, with the store as the node left it.
Where the whole is the body of a function that is called, the call gives the error itself, or the value that was
returned. -/
theorem signals_cut_off {places : List Place} (ha : Arrives depth i places store store')
    (h : eval depth node i store' = (.ok signal, store'')) (hs : signal.isSignal = true) :
    eval (depth + places.length) (plug places node) i store = (.ok signal, store'') ∧
    ∀ (e : Evaluation) k parameters outer arguments caller,
      e.Applies (.function k parameters (plug places node) outer) arguments caller →
      arguments.length = parameters.length →
      e.inside parameters (plug places node) outer arguments caller =
        ⟨depth + places.length, plug places node, i, store⟩ →
      (∀ cause, signal = .error cause → e.outcome = (.ok (.error cause), store'')) ∧
      ∀ carried, signal = .returned carried → e.outcome = (.ok carried, store'') := by
  have hplug := eval_plug ha h hs
  refine ⟨hplug, fun e k parameters outer arguments caller happ hlength hinside => ?_⟩
  have hcall : e.outcome = (.ok signal.unwrapped, store'') := by
    refine happ.outcome_of_inside hlength ?_
    rw [hinside]
    exact hplug
  constructor
  · rintro cause rfl
    exact hcall
  · rintro carried rfl
    exact hcall

end

/-- The expression `spit(n)`. -/
def spitting (n : Int) : Node :=
  .call ⟨.lparen, "("⟩ (.identifier ⟨⟨.ident, "spit"⟩, "spit"⟩) [.integer ⟨.int, toString n⟩ n]

/-- The places around an operand in `\x7b spit(1) let x = [5, -(..), spit(2)] spit(3) \x7d`. -/
def placesBetweenSpits : List Place :=
  [.statement ⟨.lbrace, "\x7b"⟩ [spitting 1] [spitting 3],
    .letValue ⟨.letWord, "let"⟩ (some ⟨⟨.ident, "x"⟩, "x"⟩),
    .element ⟨.lbracket, "["⟩ [.integer ⟨.int, "5"⟩ 5] [spitting 2],
    .operand ⟨.minus, "-"⟩ "-"]

/-- The function whose body is that block, with `return 7` as the operand. -/
def returningFunction : Node :=
  .function ⟨.fnWord, "fn"⟩ []
    (plug placesBetweenSpits (.returnStatement ⟨.returnWord, "return"⟩ (.integer ⟨.int, "7"⟩ 7)))

/-- Only what stands before the operand is printed by a call, which gives what was returned. -/
theorem return_cuts_off_call :
    ∃ after : Store, after.output = #["1"] ∧
      eval 20 (.call ⟨.lparen, "("⟩ returningFunction []) 0 Store.initial = (.ok (.integer 7), after) := by
  have harrive : Arrives 15 1 placesBetweenSpits (Store.initial.fresh.2.addScope ⟨some 0, []⟩).2
      ((Store.initial.fresh.2.addScope ⟨some 0, []⟩).2.print "1") := by
    refine .inside ⟨_, .cons rfl rfl (.nil _), rfl⟩ (.inside ⟨_, .nil _, rfl⟩ ?_)
    exact .inside ⟨_, .cons rfl rfl (.nil _), rfl⟩ (.inside ⟨_, .nil _, rfl⟩ (.here _))
  have hreturn : eval 15 (.returnStatement ⟨.returnWord, "return"⟩ (.integer ⟨.int, "7"⟩ 7)) 1
      ((Store.initial.fresh.2.addScope ⟨some 0, []⟩).2.print "1") =
      (.ok (.returned (.integer 7)), (Store.initial.fresh.2.addScope ⟨some 0, []⟩).2.print "1") := rfl
  obtain ⟨-, hcalled⟩ := signals_cut_off harrive hreturn rfl
  have happlies : Evaluation.Applies ⟨20, .call ⟨.lparen, "("⟩ returningFunction [], 0, Store.initial⟩
      (.function 0 [] (plug placesBetweenSpits _) 0) [] Store.initial.fresh.2 :=
    ⟨19, _, _, _, _, rfl, rfl, rfl, rfl, .nil _⟩
  exact ⟨_, rfl, (hcalled _ 0 [] 0 [] _ happlies rfl rfl).2 _ rfl⟩

end Scriptlet
