import Scriptlet.Proofs.Parse.Wp

/-!
# Loops without a bound

Every loop of a parser stops after as many rounds as its window allows. `Parser.Loops` is the loop with no such bound:
it goes on for as long as there is more to do, and if that is forever it comes to nothing. Where each round lowers
what is left of the input, and a loop stops when nothing is left, the bound is never met
(`Parser.loops_repeatAtMost`).

There are four loops (`Parser.RunsLoops`): over the statements of a program or a block, over the names of a function,
over the elements of a list, and over the operators behind an operand, for which see `Parser.goesOn` and
`Parser.goOn`.
-/

namespace Scriptlet

namespace Parser

section

variable {σ α : Type}

/-- What a loop comes to: the rounds go on until no more is to be done, or until one of them faults. -/
inductive Loops (more : α → Window σ → Bool) (body : α → Parser σ α) :
    α → Window σ → Except Fault (α × Window σ) → Prop
  | stop {a : α} {w : Window σ} (h : more a w = false) : Loops more body a w (.ok (a, w))
  | fault {a : α} {w : Window σ} {cause : Fault} (h : more a w = true) (hb : body a w = .error cause) :
    Loops more body a w (.error cause)
  | round {a a' : α} {w w' : Window σ} {result : Except Fault (α × Window σ)} (h : more a w = true)
    (hb : body a w = .ok (a', w')) (hl : Loops more body a' w' result) : Loops more body a w result

/-- A loop ends by itself within `n` rounds, where `left n` bounds what is left of the input by `n`. -/
theorem loops_repeatAtMost {more : α → Window σ → Bool} {body : α → Parser σ α} (left : Nat → Window σ → Prop)
    (hstop : ∀ a w, left 0 w → more a w = false)
    (hround : ∀ n a w, left (n + 1) w → wp (fun _ => True) (body a) (fun _ w' => left n w') w)
    {n : Nat} {a : α} {w : Window σ} (h : left n w) : Loops more body a w (repeatAtMost more body n a w) := by
  induction n generalizing a w with
  | zero => exact .stop (hstop a w h)
  | succ n ih =>
    cases hm : more a w with
    | false =>
      rw [repeatAtMost_of_stop hm]
      exact .stop hm
    | true =>
      rw [repeatAtMost_of_more hm]
      cases hb : body a w with
      | error cause =>
        rw [bind_of_error hb]
        exact .fault hm hb
      | ok result =>
        obtain ⟨a', w'⟩ := result
        rw [bind_of_ok hb]
        exact .round hm hb (ih (wp_true_iff.1 (hround n a w h) a' w' hb))

end

/-! ### The loops of the constructs -/

section

variable {σ : Type} [TokenSource σ]

def moreStatements (ends : TokenKind → Bool) (_ : List Node) (w : Window σ) : Bool := !ends w.current.kind

/-- Reads one more statement. -/
def round (depth : Nat) (seen : List Node) : Parser σ (List Node) := do
  let next ← statement (expression Rules.standard depth)
  advance
  return if next.isHole then seen else next :: seen

def moreNames (names : Option (List Identifier)) (w : Window σ) : Bool :=
  names.isSome && w.upcoming.kind == .comma

def nextName (names : Option (List Identifier)) : Parser σ (Option (List Identifier)) := do
  advance
  if ← expectNext .ident then
    let token ← current
    return names.map (Identifier.ofToken token :: ·)
  else return none

def moreElements (_ : List Node) (w : Window σ) : Bool := w.upcoming.kind == .comma

def nextElement (expr : Precedence → Parser σ Node) (elements : List Node) : Parser σ (List Node) := do
  advance
  advance
  return (← expr .lowest) :: elements

variable (σ) in
/-- The constructs run these loops. -/
structure RunsLoops (depth : Nat) : Prop where
  statements : ∀ ends, statements (σ := σ) (expression Rules.standard depth) ends = do
    let seen ← repeatWhile (moreStatements ends) (round depth) []
    return seen.reverse
  names : parameters (σ := σ) = do
    if ← comesNext .rparen then
      advance
      return some []
    else if ← expectNext .ident then
      let first ← current
      match ← repeatWhile moreNames nextName (some [Identifier.ofToken first]) with
      | none => return none
      | some names => if ← expectNext .rparen then return some names.reverse else return none
    else return none
  elements : ∀ close, expressionList (σ := σ) (expression Rules.standard depth) close = do
    if ← comesNext close then
      advance
      return some []
    else
      advance
      let first ← expression Rules.standard depth .lowest
      let elements ← repeatWhile moreElements (nextElement (expression Rules.standard depth)) [first]
      if ← expectNext close then return some elements.reverse else return none
  operators : ∀ precedence (w : Window σ) first, Rules.standard.beginning w.current.kind = some first →
    expression Rules.standard (depth + 1) precedence w = (do
      let left ← construct (expression Rules.standard depth) first
      repeatWhile (fun _ => goesOn Rules.standard precedence) (goOn Rules.standard (expression Rules.standard depth))
        left : Parser σ Node) w

theorem runsLoops (depth : Nat) : RunsLoops σ depth where
  statements _ := rfl
  names := rfl
  elements _ := rfl
  operators precedence _ _ hfirst := climb_of_some hfirst _ precedence

end

end Parser

end Scriptlet
