import Scriptlet.Proofs.Parse.Lookahead

/-!
# Layout never matters

A source shows a parser nothing but its tokens. Taken off the text one by one as they are needed, they are at every
step the tokens that `tokenize` lists, with ends of the input behind them for good; so whatever is asked of a parser
(`Parser.Command`), and in whatever order, it answers as it would on the list. Two sources with the same tokens
therefore are the same program, with the same syntax errors or the same fault, and a session cannot tell one from
the other.
-/

namespace Scriptlet

open Window

namespace Parser

/-- What can be asked of a parser at any time. -/
inductive Command where
  | construct (first : Construct)
  | expression (precedence : Precedence)
  | continuation (left : Node) (next : Continuation)
  | expressionList (close : TokenKind)
  | advance
  | expectNext (kind : TokenKind)
  | isCurrent (kind : TokenKind)
  | comesNext (kind : TokenKind)
  | currentPrecedence
  | upcomingPrecedence

inductive Answer where
  | nothing
  | node (node : Node)
  | nodes (nodes : Option (List Node))
  | truth (truth : Bool)
  | precedence (precedence : Precedence)

variable {σ τ : Type} [TokenSource σ] [TokenSource τ] {α : Type}

def upcomingPrecedence : Parser σ Precedence := fun window => .ok (window.upcoming.kind.precedence, window)

/-- Does what is asked, with expressions nested at most `depth` deep. -/
def perform (depth : Nat) : Command → Parser σ Answer
  | .construct first => return .node (← construct (Parser.expression Rules.standard depth) first)
  | .expression precedence => return .node (← Parser.expression Rules.standard depth precedence)
  | .continuation left next => return .node (← continuation (Parser.expression Rules.standard depth) left next)
  | .expressionList close => return .nodes (← expressionList (Parser.expression Rules.standard depth) close)
  | .advance => do
    Parser.advance
    return .nothing
  | .expectNext kind => return .truth (← Parser.expectNext kind)
  | .isCurrent kind => return .truth ((← current).kind == kind)
  | .comesNext kind => return .truth (← Parser.comesNext kind)
  | .currentPrecedence => return .precedence (← current).kind.precedence
  | .upcomingPrecedence => return .precedence (← Parser.upcomingPrecedence)

def performAll (depth : Nat) : List Command → Parser σ (List Answer)
  | [] => return []
  | command :: commands => do
    let answer ← perform depth command
    return answer :: (← performAll depth commands)

/-! ### Two parsers side by side -/

/-- Both parsers end with the same fault, or else with the same result, the same syntax errors and the same tokens
from there on. -/
def SameEnd : Except Fault (α × Window σ) → Except Fault (α × Window τ) → Prop
  | .error cause, .error cause' => cause = cause'
  | .ok (a, w), .ok (b, v) => a = b ∧ w.errors = v.errors ∧ ∀ n, (w.skip n).current = (v.skip n).current
  | _, _ => False

/-- With nothing behind, windows abreast never part. -/
theorem Meets.sameEnd {ts : List Token} {r : Except Fault (α × Window σ)} {r' : Except Fault (α × Window τ)}
    (h : Meets [] (fun _ => True) ts r r') : SameEnd r r' := by
  cases r with
  | error cause =>
    have hr' : r' = .error cause := h rfl trivial
    rw [hr']
    rfl
  | ok result =>
    obtain ⟨ts', v, hr', -, habreast⟩ := h.resolve_left fun hlost => hlost.behind rfl
    rw [hr']
    refine ⟨rfl, habreast.errors, fun n => ?_⟩
    rw [habreast.first.tokens, habreast.second.tokens, List.append_nil]

variable {us : List Token} {E : Fault → Prop} [LawfulTokenSource σ] [LawfulTokenSource τ]

theorem tracks_upcomingPrecedence :
    Tracks us E (upcomingPrecedence (σ := σ)) (upcomingPrecedence (σ := τ)) := by
  refine .of_cases (fun _ h => h) fun {ts w v} h _ _ hupcoming => .inr ⟨ts, v, ?_, List.suffix_rfl, h⟩
  rw [hupcoming]
  rfl

theorem tracks_perform (depth : Nat) (command : Command) :
    Tracks us E (perform (σ := σ) depth command) (perform (σ := τ) depth command) := by
  have hexpr : ∀ precedence, Tracks us E (expression (σ := σ) Rules.standard depth precedence)
      (expression (σ := τ) Rules.standard depth precedence) := tracks_expression_self depth
  cases command with
  | construct first => exact (tracks_construct hexpr first).bind fun _ => .pure _
  | expression precedence => exact (hexpr precedence).bind fun _ => .pure _
  | continuation left next => exact (tracks_continuation hexpr left next).bind fun _ => .pure _
  | expressionList close => exact (tracks_expressionList hexpr close).bind fun _ => .pure _
  | advance => exact Tracks.advance.bind fun _ => .pure _
  | expectNext kind => exact (Tracks.expectNext kind).bind fun _ => .pure _
  | isCurrent kind => exact Tracks.current.bind fun _ => .pure _
  | comesNext kind => exact (Tracks.comesNext kind).bind fun _ => .pure _
  | currentPrecedence => exact Tracks.current.bind fun _ => .pure _
  | upcomingPrecedence => exact tracks_upcomingPrecedence.bind fun _ => .pure _

theorem tracks_performAll (depth : Nat) (commands : List Command) :
    Tracks us E (performAll (σ := σ) depth commands) (performAll (σ := τ) depth commands) := by
  induction commands with
  | nil => exact .pure _
  | cons command commands ih => exact (tracks_perform depth command).bind fun _ => ih.bind fun _ => .pure _

end Parser

open Scriptlet.Parser

/-! ### Sources and lists -/

theorem Window.current_skip_list (w : Window (List Token)) (n : Nat) :
    (w.skip n).current = w.source.getD n Token.endOfInput := by
  induction n generalizing w with
  | zero =>
    show w.source.headD Token.endOfInput = _
    cases w.source <;> rfl
  | succ n ih =>
    rw [← advance_skip, ih]
    show w.source.tail.getD n Token.endOfInput = _
    cases w.source <;> rfl

/-- A source taken off token by token, and another window that shows the tokens listed. -/
theorem abreast_of_tokens {τ : Type} [TokenSource τ] {source : String} {v : Window τ}
    (htokens : ∀ n, (v.skip n).current = (tokenize source).getD n Token.endOfInput) (herrors : v.errors = #[])
    (hbudget : (tokenize source).length ≤ v.budget) :
    Abreast [] (tokenize source).dropLast (Feed.window source) v where
  first := rests_window source
  second := by
    rw [List.append_nil]
    exact ⟨fun n => (htokens n).trans (getD_tokenize source n), inner_dropLast_tokensOf source.toList⟩
  errors := herrors.symm
  budget := length_dropLast_tokenize_le source
  budget' := by
    rw [List.append_nil, List.length_dropLast]
    exact (Nat.sub_le _ _).trans hbudget

theorem abreast_tokens (source : String) :
    Abreast [] (tokenize source).dropLast (Feed.window source)
      (Window.start (tokenize source) (tokenize source).length) :=
  abreast_of_tokens (current_skip_list _) rfl (Nat.le_refl _)

theorem sameEnd_performAll (source : String) (depth : Nat) (commands : List Command) :
    SameEnd (performAll depth commands (Feed.window source))
      (performAll depth commands (Window.start (tokenize source) (tokenize source).length)) :=
  ((tracks_performAll depth commands).meets (abreast_tokens source)).sameEnd

theorem parse_eq_parseTokens (limits : Limits) (source : String) :
    parse limits source = parseTokens limits.reading (tokenize source) := by
  have hprogram : SameEnd (program (expression Rules.standard limits.reading) (Feed.window source))
      (program (expression Rules.standard limits.reading) (Window.start (tokenize source) (tokenize source).length)) :=
    ((tracks_construct (tracks_expression_self limits.reading) .program).meets (abreast_tokens source)).sameEnd
  unfold parse parseTokens parseWindow
  cases hfeed : program (expression Rules.standard limits.reading) (Feed.window source) <;>
    cases hlist : program (expression Rules.standard limits.reading)
      (Window.start (tokenize source) (tokenize source).length) <;>
    rw [hfeed, hlist] at hprogram
  case error.error => rw [show _ = _ from hprogram]
  case error.ok => exact hprogram.elim
  case ok.error => exact hprogram.elim
  case ok.ok =>
    obtain ⟨hnode, herrors, -⟩ := hprogram
    simp only [hnode, herrors]

/-- Sources with the same tokens are read the same and run the same in every session. For a parser that takes the
tokens off the source behaves under all commands as one that reads the list of them, which goes on with ends of
the input. -/
theorem layout_never_matters (limits : Limits) {a b : String} (h : tokenize a = tokenize b) :
    parse limits a = parse limits b ∧
    (∀ session : Session, session.run limits a = session.run limits b) ∧
    (∀ source, parse limits source = parseTokens limits.reading (tokenize source)) ∧
    ∀ source depth commands,
      SameEnd (performAll depth commands (Feed.window source))
        (performAll depth commands (Window.start (tokenize source) (tokenize source).length)) ∧
      ∀ n, ((Feed.window source).skip n).current = (tokenize source).getD n Token.endOfInput := by
  have hparse : parse limits a = parse limits b := by
    rw [parse_eq_parseTokens, h, ← parse_eq_parseTokens]
  refine ⟨hparse, fun session => ?_, parse_eq_parseTokens limits, fun source depth commands => ?_⟩
  · unfold Session.run
    rw [hparse]
  · exact ⟨sameEnd_performAll source depth commands, current_skip_text (source_window source)⟩

/-- Blanks, line ends and none between the tokens of a source with a syntax error. -/
theorem crowded_and_spread_out :
    tokenize "let x=-1;x+(2" = tokenize "let x =\n\t- 1 ;\n\nx + ( 2 " ∧
      parse Limits.standard "let x=-1;x+(2" = parse Limits.standard "let x =\n\t- 1 ;\n\nx + ( 2 " := by
  have htokens : tokenize "let x=-1;x+(2" = tokenize "let x =\n\t- 1 ;\n\nx + ( 2 " := by decide +kernel
  exact ⟨htokens, (layout_never_matters Limits.standard htokens).1⟩

end Scriptlet
