import Scriptlet.Proofs.Parse.Layout

/-!
# The window slides over the tokens

Whatever is asked of a parser (`Parser.Command`), and in whatever order, it shows two neighbours among the tokens of
its source, with ends of the input behind them for good. A command may move the two on, never back, and may add to the
syntax errors, never take any away. This is so at every token, also for a construct that cannot begin there, for all
that constructs are made of is moving on and recording errors.

How far a window has moved cannot be seen in it, since at the end of the input one place looks like the next. So the
place is counted by a second parser, which knows the tokens by number only (`Position`). Given the same commands it
has the same answers, and the number of its current token is the place.
-/

namespace Scriptlet

open Window Scriptlet.Parser

/-- The token number `k`, counted from 0. Behind the last one there are ends of the input for good. -/
def tokenAt (tokens : List Token) (k : Nat) : Token := tokens.getD k Token.endOfInput

/-! ### Commands slide the window -/

namespace Parser

variable {σ : Type} [TokenSource σ] {u w w' : Window σ} {depth : Nat} {command : Command} {answer : Answer}

theorem keeps_perform (depth : Nat) (command : Command) :
    (Slides.invariant u).Keeps (perform (σ := σ) depth command) := by
  have hexpr : ∀ precedence, (Slides.invariant u).Keeps (expression (σ := σ) Rules.standard depth precedence) :=
    WindowInvariant.keeps_expression depth
  have hinteger : (Slides.invariant u).Keeps (integer (σ := σ)) :=
    fun _ h => Nesting.outside_integer (N := (Slides.invariant u).nesting) h
  cases command with
  | construct first => exact (WindowInvariant.keeps_construct hexpr hinteger first).bind fun _ => .pure _
  | expression precedence => exact (hexpr precedence).bind fun _ => .pure _
  | continuation left next => exact (WindowInvariant.keeps_continuation hexpr left next).bind fun _ => .pure _
  | expressionList close => exact (WindowInvariant.keeps_expressionList hexpr close).bind fun _ => .pure _
  | advance => exact .bind .advance fun _ => .pure _
  | expectNext kind => exact .bind (.expectNext kind) fun _ => .pure _
  | isCurrent kind => exact .bind .current fun _ => .pure _
  | comesNext kind => exact .bind (.comesNext kind) fun _ => .pure _
  | currentPrecedence => exact .bind .current fun _ => .pure _
  | upcomingPrecedence => exact .bind (fun _ h => h) fun _ => .pure _

theorem slides_of_perform (h : perform depth command w = .ok (answer, w')) : w.Slides w' :=
  wp_true_iff.1 (keeps_perform depth command w (.refl w)) _ _ h

theorem performAll_concat (depth : Nat) (commands : List Command) (command : Command) :
    performAll (σ := σ) depth (commands ++ [command]) = (do
      let answers ← performAll depth commands
      let answer ← perform depth command
      return answers ++ [answer]) := by
  induction commands with
  | nil => simp [performAll]
  | cons first commands ih => simp [performAll, ih]

theorem perform_expectNext_of_eq {kind : TokenKind} (h : w.upcoming.kind = kind) :
    perform depth (.expectNext kind) w = .ok (.truth true, w.advance) :=
  bind_of_ok (expectNext_of_eq h) _

theorem perform_expectNext_of_ne {kind : TokenKind} (h : w.upcoming.kind ≠ kind) :
    perform depth (.expectNext kind) w = .ok (.truth false, w.report (.unexpected kind w.upcoming.kind)) :=
  bind_of_ok (expectNext_of_ne h) _

/-- Where nothing is behind, what one parser gives is given by the other, and the windows stay abreast. -/
theorem Tracks.follow {τ α : Type} [TokenSource τ] {p : Parser σ α} {q : Parser τ α} {ts : List Token} {v : Window τ}
    {a : α} (hpq : Tracks [] (fun _ => True) p q) (h : Abreast [] ts w v) (hp : p w = .ok (a, w')) :
    ∃ ts' v', q v = .ok (a, v') ∧ Abreast [] ts' w' v' := by
  have hmeets := hpq.meets h
  rw [hp] at hmeets
  obtain ⟨ts', v', hq, -, habreast⟩ := hmeets.resolve_left fun hlost => hlost.behind rfl
  exact ⟨ts', v', hq, habreast⟩

end Parser

/-! ### Tokens by number -/

/-- A position among tokens. -/
structure Position (tokens : List Token) where
  number : Nat

namespace Position

variable {tokens : List Token}

instance : TokenSource (Position tokens) where
  current position := tokenAt tokens position.number
  upcoming position := tokenAt tokens (position.number + 1)
  advance position := ⟨position.number + 1⟩

instance : LawfulTokenSource (Position tokens) := ⟨fun _ => rfl⟩

theorem number_skip (w : Window (Position tokens)) (n : Nat) : (w.skip n).source.number = w.source.number + n := by
  induction n with
  | zero => rfl
  | succ n ih =>
    rw [skip_succ]
    exact congrArg (· + 1) ih

theorem number_le_of_slides {w w' : Window (Position tokens)} (h : w.Slides w') :
    w.source.number ≤ w'.source.number := by
  obtain ⟨n, hn⟩ := h.source
  rw [hn, number_skip]
  exact Nat.le_add_right _ n

/-- A window at the first token of a source. -/
def window (source : String) : Window (Position (tokenize source)) := Window.start ⟨0⟩ (tokenize source).length

theorem abreast_window (source : String) :
    Abreast [] (tokenize source).dropLast (Feed.window source) (window source) := by
  refine abreast_of_tokens (fun n => ?_) rfl (Nat.le_refl _)
  have hnumber : ((window source).skip n).source.number = n := (number_skip _ n).trans (Nat.zero_add n)
  exact congrArg (tokenAt (tokenize source)) hnumber

end Position

/-- The number of the current token when all the commands have been performed, or 0 after a fault. -/
def placeAfter (source : String) (depth : Nat) (commands : List Command) : Nat :=
  match performAll depth commands (Position.window source) with
  | .ok (_, v) => v.source.number
  | .error _ => 0

section

variable {source : String} {depth : Nat} {commands : List Command} {answers : List Answer}
  {v : Window (Position (tokenize source))}

theorem placeAfter_of_ok (h : performAll depth commands (Position.window source) = .ok (answers, v)) :
    placeAfter source depth commands = v.source.number := by
  unfold placeAfter
  rw [h]

theorem placeAfter_concat {command : Command} {answer : Answer} {v' : Window (Position (tokenize source))}
    (h : performAll depth commands (Position.window source) = .ok (answers, v))
    (h' : perform depth command v = .ok (answer, v')) :
    placeAfter source depth (commands ++ [command]) = v'.source.number := by
  have hall : performAll depth (commands ++ [command]) (Position.window source) = .ok (answers ++ [answer], v') := by
    rw [performAll_concat, bind_of_ok h, bind_of_ok h']
    rfl
  exact placeAfter_of_ok hall

end

/-- After each command of a course in which none ends with a fault, the parser shows two neighbours among the tokens of
the source, with ends of the input behind the last one for good. Their place is 0 at first and never goes back, and no
syntax error is lost. To expect a token that does come next moves the place on by one and records nothing; to expect
any other leaves the place as it is and records one syntax error. -/
theorem window_slides_over_tokens (source : String) (depth : Nat) :
    ∃ place : List Command → Nat, place [] = 0 ∧
      ∀ commands answers (w : Window Feed), performAll depth commands (Feed.window source) = .ok (answers, w) →
        w.current = tokenAt (tokenize source) (place commands) ∧
        w.upcoming = tokenAt (tokenize source) (place commands + 1) ∧
        (∀ command answer w', perform depth command w = .ok (answer, w') →
          place commands ≤ place (commands ++ [command]) ∧ w.errors.toList <+: w'.errors.toList) ∧
        ∀ kind, ∃ w',
          (tokenAt (tokenize source) (place commands + 1)).kind = kind ∧
            perform depth (.expectNext kind) w = .ok (.truth true, w') ∧
            place (commands ++ [.expectNext kind]) = place commands + 1 ∧ w'.errors = w.errors ∨
          (tokenAt (tokenize source) (place commands + 1)).kind ≠ kind ∧
            perform depth (.expectNext kind) w = .ok (.truth false, w') ∧
            place (commands ++ [.expectNext kind]) = place commands ∧
            w'.errors = w.errors.push (.unexpected kind (tokenAt (tokenize source) (place commands + 1)).kind) := by
  refine ⟨placeAfter source depth, rfl, fun commands answers w h => ?_⟩
  -- The parser that counts goes along with the one that reads, so far and in any command that comes after.
  obtain ⟨ts, v, hv, habreast⟩ := (tracks_performAll depth commands).follow (Position.abreast_window source) h
  obtain ⟨-, hcurrent, hupcoming⟩ := habreast.cases.resolve_left fun hlost => hlost.behind rfl
  rw [placeAfter_of_ok hv]
  refine ⟨hcurrent, hupcoming, fun command answer w' h' => ⟨?_, ?_⟩, fun kind => ?_⟩
  · obtain ⟨-, v', hv', -⟩ := (tracks_perform depth command).follow habreast h'
    rw [placeAfter_concat hv hv']
    exact Position.number_le_of_slides (slides_of_perform hv')
  · obtain ⟨new, hnew⟩ := (slides_of_perform h').errors
    rw [hnew, Array.toList_append]
    exact List.prefix_append _ _
  · by_cases hkind : v.upcoming.kind = kind
    · have hnext : w.upcoming.kind = kind := by rw [hupcoming, hkind]
      have hplace := placeAfter_concat hv (perform_expectNext_of_eq hkind)
      exact ⟨w.advance, .inl ⟨hkind, perform_expectNext_of_eq hnext, hplace, rfl⟩⟩
    · have hnext : w.upcoming.kind ≠ kind := by rwa [hupcoming]
      have hplace := placeAfter_concat hv (perform_expectNext_of_ne hkind)
      have herror : (w.report (.unexpected kind w.upcoming.kind)).errors =
          w.errors.push (.unexpected kind v.upcoming.kind) := by
        rw [hupcoming]
        rfl
      exact ⟨_, .inr ⟨hkind, perform_expectNext_of_ne hnext, hplace, herror⟩⟩

/-- A function that is read at a comma, a block that the input does not close, and then another end of the input. -/
theorem function_at_comma_slides :
    ∃ (place : List Command → Nat) (answers : List Answer) (answer : Answer) (w w' w'' : Window Feed),
      performAll 1 [.construct .function] (Feed.window ", x") = .ok (answers, w) ∧
      perform 1 (.construct .block) w = .ok (answer, w') ∧
      place [.construct .function] ≤ place [.construct .function, .construct .block] ∧
      w.errors.toList <+: w'.errors.toList ∧
      w'.errors.toList = [.unexpected .lparen .ident, .unexpected .rbrace .eof] ∧
      perform 1 (.expectNext .eof) w' = .ok (.truth true, w'') ∧
      place [.construct .function, .construct .block, .expectNext .eof] =
        place [.construct .function, .construct .block] + 1 := by
  obtain ⟨place, -, hplace⟩ := window_slides_over_tokens ", x" 1
  obtain ⟨-, -, hgrows, -⟩ := hplace [.construct .function] _ _ rfl
  obtain ⟨hmoves, herrors⟩ := hgrows (.construct .block) _ _ rfl
  obtain ⟨-, hupcoming, -, hexpect⟩ := hplace [.construct .function, .construct .block] _ _ rfl
  obtain ⟨w'', ⟨-, hperform, hnext, -⟩ | ⟨hne, -⟩⟩ := hexpect .eof
  · exact ⟨place, _, _, _, _, w'', rfl, rfl, hmoves, herrors, rfl, hperform, hnext⟩
  · rw [← hupcoming] at hne
    exact absurd rfl hne

end Scriptlet
