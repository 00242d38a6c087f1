import Mathlib.Logic.Function.Iterate
import Scriptlet.Proofs.Parse.Wp

/-!
# What reading keeps

All that a parser ever does to a window is to move on by one token or to record a syntax error. So
whatever these two keep is kept by every parser, at any depth (`WindowInvariant.keeps_expression`).
The first instance is `Window.Slides`: the tokens are those of the same source further on, and the
syntax errors only grow.

More can be said of the expressions inside a construct: it moves on before it reads the first of them. `Nesting`
tells the windows where a construct may stand from those where an expression inside it may begin. All that a
construct can learn about such expressions is how they are read from there: two ways to read them that are the same
inside come to the same (`Nesting.agrees_climb`).
-/

namespace Scriptlet

open Scriptlet.Parser

namespace Parser

variable {σ α β : Type}

/-- From the windows of `P` both parsers do the same. They end at a window of `Q`, or with a fault that `E` allows. -/
def Agree (E : Fault → Prop) (P Q : Window σ → Prop) (p q : Parser σ α) : Prop :=
  ∀ w, P w → p w = q w ∧ wp E p (fun _ w' => Q w') w

namespace Agree

variable {E : Fault → Prop} {P Q R : Window σ → Prop} {p q p' q' : Parser σ α}

theorem pure (a : α) : Agree E P P (Pure.pure a : Parser σ α) (Pure.pure a) := fun _ h => ⟨rfl, h⟩

theorem bind {f g : α → Parser σ β} (hp : Agree E P Q p q) (hf : ∀ a, Agree E Q R (f a) (g a)) :
    Agree E P R (p >>= f) (q >>= g) := by
  intro w h
  obtain ⟨heq, hends⟩ := hp w h
  refine ⟨?_, ?_⟩
  · unfold wp at hends
    cases hr : p w with
    | error cause => rw [bind_of_error hr, bind_of_error (heq.symm.trans hr)]
    | ok result =>
      obtain ⟨a, w'⟩ := result
      rw [hr] at hends
      rw [bind_of_ok hr, bind_of_ok (heq.symm.trans hr)]
      exact (hf a w' hends).1
  · rw [wp_bind]
    exact wp_mono hends fun a w' h' => (hf a w' h').2

theorem weaken {P' Q' : Window σ → Prop} (h : Agree E P Q p q) (hP : ∀ w, P' w → P w) (hQ : ∀ w, Q w → Q' w) :
    Agree E P' Q' p q := by
  intro w hw
  obtain ⟨heq, hends⟩ := h w (hP w hw)
  exact ⟨heq, wp_mono hends fun _ w' => hQ w'⟩

theorem ite {c : Prop} [Decidable c] (hp : Agree E P Q p q) (hp' : Agree E P Q p' q') :
    Agree E P Q (if c then p else p') (if c then q else q') := by
  split
  · exact hp
  · exact hp'

theorem repeatAtMost {more : α → Window σ → Bool} {body body' : α → Parser σ α}
    (h : ∀ a, Agree E P P (body a) (body' a)) (n : Nat) (a : α) :
    Agree E P P (repeatAtMost more body n a) (repeatAtMost more body' n a) := by
  induction n generalizing a with
  | zero => exact pure a
  | succ n ih =>
    intro w hw
    cases hm : more a w with
    | false =>
      rw [wp, repeatAtMost_of_stop hm, repeatAtMost_of_stop hm]
      exact ⟨rfl, hw⟩
    | true =>
      rw [wp_congr (repeatAtMost_of_more hm n), repeatAtMost_of_more hm, repeatAtMost_of_more hm]
      exact (h a).bind ih w hw

theorem repeatWhile {more : α → Window σ → Bool} {body body' : α → Parser σ α}
    (h : ∀ a, Agree E P P (body a) (body' a)) (a : α) :
    Agree E P P (repeatWhile more body a) (repeatWhile more body' a) :=
  fun w hw => repeatAtMost h w.budget a w hw

variable [TokenSource σ]

theorem current : Agree E P P (Parser.current : Parser σ Token) Parser.current := fun _ h => ⟨rfl, h⟩

theorem comesNext (kind : TokenKind) : Agree E P P (Parser.comesNext kind : Parser σ Bool) (Parser.comesNext kind) :=
  fun _ h => ⟨rfl, h⟩

end Agree

end Parser

/-! ### Constructs and the expressions inside -/

/-- Where a construct may stand while it is read, and where an expression inside it may begin. -/
structure Nesting (σ : Type) [TokenSource σ] where
  outside : Window σ → Prop
  inside : Window σ → Prop
  fault : Fault → Prop
  outside_of_inside : ∀ {w}, inside w → outside w
  advance : ∀ {w}, outside w → inside w.advance
  report : ∀ {w} error, outside w → outside (w.report error)
  integer : ∀ {w cause}, outside w → w.current.kind = .int → Parser.integer w = .error cause → fault cause

namespace Nesting

variable {σ : Type} [TokenSource σ] (N : Nesting σ) {α : Type}

/-- The parsers do the same for a construct. -/
abbrev Agrees (p q : Parser σ α) : Prop := Agree N.fault N.outside N.outside p q

/-- The parsers do the same for an expression inside. -/
abbrev Enters (p q : Parser σ α) : Prop := Agree N.fault N.inside N.outside p q

variable {N}

/-- Moving on to an expression inside. -/
theorem enters_advance : Agree N.fault N.outside N.inside (Parser.advance : Parser σ Unit) Parser.advance :=
  fun _ h => ⟨rfl, N.advance h⟩

theorem agrees_advance : N.Agrees (Parser.advance : Parser σ Unit) Parser.advance :=
  enters_advance.weaken (fun _ h => h) fun _ h => N.outside_of_inside h

theorem agrees_report (error : SyntaxError) : N.Agrees (Parser.report error : Parser σ Unit) (Parser.report error) :=
  fun _ h => ⟨rfl, N.report error h⟩

theorem agrees_passNext (kind : TokenKind) :
    N.Agrees (Parser.passNext kind : Parser σ Unit) (Parser.passNext kind) := by
  refine fun w h => ⟨rfl, ?_⟩
  rw [wp_passNext]
  split
  · exact N.outside_of_inside (N.advance h)
  · exact h

/-- A token that has to come next. -/
theorem agrees_expect {kind : TokenKind} {p q : Parser σ α} (hp : N.Agrees p q) (a : α) :
    N.Agrees (expectNext kind >>= fun b => if b = true then p else Pure.pure a)
      (expectNext kind >>= fun b => if b = true then q else Pure.pure a) := by
  have hnext : N.Agrees (expectNext kind : Parser σ Bool) (expectNext kind) := by
    refine fun w h => ⟨rfl, ?_⟩
    rw [wp_expectNext]
    split
    · exact N.outside_of_inside (N.advance h)
    · exact N.report _ h
  exact hnext.bind fun _ => hp.ite (.pure a)

theorem agrees_parameters : N.Agrees (parameters (σ := σ)) parameters := by
  refine (Agree.comesNext _).bind fun _ => .ite (agrees_advance.bind fun _ => .pure _) (agrees_expect ?_ _)
  refine Agree.current.bind fun first => (Agree.repeatWhile (fun names => ?_) _).bind fun names => ?_
  · exact agrees_advance.bind fun _ => agrees_expect (Agree.current.bind fun _ => .pure _) _
  · cases names with
    | none => exact .pure _
    | some names => exact agrees_expect (.pure _) _

/-- Whatever the token, reading it as an integer leads nowhere else. -/
theorem outside_integer {w : Window σ} (h : N.outside w) :
    wp (fun _ => True) Parser.integer (fun _ w' => N.outside w') w := by
  unfold Parser.integer
  simp only [wp_bind, wp_current, wp_ite]
  split
  · exact N.report _ h
  split
  · trivial
  split
  · trivial
  · simp only [wp_ite, wp_bind, wp_report, wp_pure]
    split
    · exact N.report _ h
    · exact h

theorem agrees_integer {w : Window σ} (h : N.outside w) (hk : w.current.kind = .int) :
    wp N.fault Parser.integer (fun _ w' => N.outside w') w := by
  have hkeep := outside_integer h
  unfold wp at *
  split
  · next he => rw [he] at hkeep; exact hkeep
  · next he => exact N.integer h hk he

section

variable {expr expr' : Precedence → Parser σ Node} (hexpr : ∀ precedence, N.Enters (expr precedence) (expr' precedence))
include hexpr

theorem agrees_letStatement : N.Agrees (letStatement expr) (letStatement expr') :=
  Agree.current.bind fun _ => agrees_expect (Agree.current.bind fun _ => agrees_expect (enters_advance.bind fun _ =>
    (hexpr _).bind fun _ => (agrees_passNext _).bind fun _ => .pure _) _) _

theorem agrees_returnStatement : N.Agrees (returnStatement expr) (returnStatement expr') :=
  Agree.current.bind fun _ => enters_advance.bind fun _ => (hexpr _).bind fun _ =>
    (agrees_passNext _).bind fun _ => .pure _

theorem enters_expressionStatement : N.Enters (expressionStatement expr) (expressionStatement expr') :=
  Agree.current.bind fun _ => (hexpr _).bind fun _ => (agrees_passNext _).bind fun _ => .pure _

/-- A statement may begin with an expression. -/
theorem enters_statement : N.Enters (statement expr) (statement expr') := by
  refine Agree.current.bind fun token => ?_
  split
  · exact (agrees_letStatement hexpr).weaken (fun _ => N.outside_of_inside) fun _ h => h
  · exact (agrees_returnStatement hexpr).weaken (fun _ => N.outside_of_inside) fun _ h => h
  · exact enters_expressionStatement hexpr

theorem enters_statements (ends : TokenKind → Bool) :
    Agree N.fault N.inside N.inside (statements expr ends) (statements expr' ends) := by
  refine (Agree.repeatWhile (fun seen => ?_) _).bind fun _ => .pure _
  exact (enters_statement hexpr).bind fun _ => enters_advance.bind fun _ => .pure _

theorem enters_program : N.Enters (program expr) (program expr') :=
  ((enters_statements hexpr _).bind fun _ => .pure _).weaken (fun _ h => h) fun _ => N.outside_of_inside

theorem agrees_block : N.Agrees (block expr) (block expr') := by
  refine Agree.current.bind fun token => enters_advance.bind fun _ =>
    ((enters_statements hexpr _).weaken (fun _ h => h) fun _ => N.outside_of_inside).bind fun body =>
      Agree.current.bind fun last => ?_
  split
  · exact (agrees_report _).bind fun _ => .pure _
  · exact .pure _

theorem agrees_prefixOp : N.Agrees (prefixOp expr) (prefixOp expr') :=
  Agree.current.bind fun _ => enters_advance.bind fun _ => (hexpr _).bind fun _ => .pure _

theorem agrees_grouped : N.Agrees (grouped expr) (grouped expr') :=
  enters_advance.bind fun _ => (hexpr _).bind fun _ => agrees_expect (.pure _) _

theorem agrees_conditional : N.Agrees (conditional expr) (conditional expr') := by
  refine Agree.current.bind fun token => agrees_expect (enters_advance.bind fun _ => (hexpr _).bind fun condition =>
    agrees_expect (agrees_expect ((agrees_block hexpr).bind fun consequence => ?_) _) _) _
  refine (Agree.comesNext _).bind fun _ => .ite ?_ (.pure _)
  exact agrees_advance.bind fun _ => agrees_expect ((agrees_block hexpr).bind fun _ => .pure _) _

theorem agrees_function : N.Agrees (function expr) (function expr') := by
  refine Agree.current.bind fun token => agrees_expect (agrees_parameters.bind fun names => ?_) _
  cases names with
  | none => exact .pure _
  | some names => exact agrees_expect ((agrees_block hexpr).bind fun _ => .pure _) _

theorem agrees_expressionList (close : TokenKind) :
    N.Agrees (expressionList expr close) (expressionList expr' close) := by
  refine (Agree.comesNext _).bind fun _ => .ite (agrees_advance.bind fun _ => .pure _) ?_
  refine enters_advance.bind fun _ => (hexpr _).bind fun first =>
    (Agree.repeatWhile (fun elements => ?_) _).bind fun elements => agrees_expect (.pure _) _
  exact agrees_advance.bind fun _ => enters_advance.bind fun _ => (hexpr _).bind fun _ => .pure _

theorem agrees_array : N.Agrees (array expr) (array expr') := by
  refine Agree.current.bind fun token => (agrees_expressionList hexpr _).bind fun elements => ?_
  cases elements <;> exact .pure _

theorem agrees_continuation (left : Node) (next : Continuation) :
    N.Agrees (continuation expr left next) (continuation expr' left next) := by
  cases next with
  | infixOp => exact Agree.current.bind fun _ => enters_advance.bind fun _ => (hexpr _).bind fun _ => .pure _
  | call =>
    refine Agree.current.bind fun token => (agrees_expressionList hexpr _).bind fun arguments => ?_
    cases arguments <;> exact .pure _
  | index =>
    exact Agree.current.bind fun _ => enters_advance.bind fun _ => (hexpr _).bind fun _ => agrees_expect (.pure _) _

theorem agrees_goOn (left : Node) : N.Agrees (goOn Rules.standard expr left) (goOn Rules.standard expr' left) := by
  refine agrees_advance.bind fun _ => Agree.current.bind fun token => ?_
  split
  · exact .pure _
  · exact agrees_continuation hexpr left _

/-- What an expression begins with. -/
theorem agrees_beginning {w : Window σ} {first : Construct} (hf : Rules.standard.beginning w.current.kind = some first)
    (h : N.outside w) : construct expr first w = construct expr' first w ∧
      wp N.fault (construct expr first) (fun _ w' => N.outside w') w := by
  cases hk : w.current.kind <;> rw [hk] at hf <;> cases hf
  case int => exact ⟨rfl, agrees_integer h hk⟩
  case bang => exact agrees_prefixOp hexpr w h
  case minus => exact agrees_prefixOp hexpr w h
  case lparen => exact agrees_grouped hexpr w h
  case ifWord => exact agrees_conditional hexpr w h
  case fnWord => exact agrees_function hexpr w h
  case lbracket => exact agrees_array hexpr w h
  all_goals exact ⟨rfl, h⟩

/-- Expressions inside begin behind the first token of an expression, and two ways to read them that are the same
there are the same in it. -/
theorem agrees_climb (precedence : Precedence) :
    N.Agrees (climb Rules.standard expr precedence) (climb Rules.standard expr' precedence) := by
  intro w h
  cases hf : Rules.standard.beginning w.current.kind with
  | none =>
    rw [wp, climb_of_none hf, climb_of_none hf]
    exact ⟨rfl, N.report _ h⟩
  | some first =>
    have hfirst : Agree N.fault (fun v => v = w) N.outside (construct expr first) (construct expr' first) := by
      rintro _ rfl
      exact agrees_beginning hexpr hf h
    rw [wp_congr (climb_of_some hf expr precedence), climb_of_some hf, climb_of_some hf]
    exact (hfirst.bind fun left => .repeatWhile (agrees_goOn hexpr) left) w rfl

end

end Nesting

/-! ### Invariants -/

/-- A property of windows that moving on and recording errors keep, and the faults that may come up
where it holds. -/
structure WindowInvariant (σ : Type) [TokenSource σ] where
  holds : Window σ → Prop
  fault : Fault → Prop
  advance : ∀ {w}, holds w → holds w.advance
  report : ∀ {w} error, holds w → holds (w.report error)
  tooDeep : fault .tooDeep
  integer : ∀ {w cause}, holds w → w.current.kind = .int → Parser.integer w = .error cause → fault cause

namespace WindowInvariant

variable {σ : Type} [TokenSource σ] (I : WindowInvariant σ) {α β : Type}

def Keeps (p : Parser σ α) : Prop := ∀ w, I.holds w → wp I.fault p (fun _ w' => I.holds w') w

/-- With an invariant, expressions inside may begin wherever a construct may stand. -/
def nesting : Nesting σ where
  outside := I.holds
  inside := I.holds
  fault := I.fault
  outside_of_inside h := h
  advance := I.advance
  report := I.report
  integer := I.integer

variable {I}

theorem keeps_of_agrees {p q : Parser σ α} (h : I.nesting.Agrees p q) : I.Keeps p := fun w hw => (h w hw).2

theorem agrees_self {p : Parser σ α} (h : I.Keeps p) : I.nesting.Agrees p p := fun w hw => ⟨rfl, h w hw⟩

namespace Keeps

theorem pure (a : α) : I.Keeps (Pure.pure a : Parser σ α) := fun _ h => h

theorem bind {p : Parser σ α} {f : α → Parser σ β} (hp : I.Keeps p) (hf : ∀ a, I.Keeps (f a)) :
    I.Keeps (p >>= f) :=
  keeps_of_agrees ((agrees_self hp).bind fun a => agrees_self (hf a))

theorem current : I.Keeps (σ := σ) Parser.current := fun _ h => h

theorem advance : I.Keeps (σ := σ) Parser.advance := fun _ h => I.advance h

theorem report (error : SyntaxError) : I.Keeps (σ := σ) (Parser.report error) :=
  fun _ h => I.report error h

theorem comesNext (kind : TokenKind) : I.Keeps (σ := σ) (Parser.comesNext kind) := fun _ h => h

theorem expectNext (kind : TokenKind) : I.Keeps (σ := σ) (Parser.expectNext kind) := by
  intro w h
  rw [wp_expectNext]
  split
  · exact I.advance h
  · exact I.report _ h

theorem passNext (kind : TokenKind) : I.Keeps (σ := σ) (Parser.passNext kind) :=
  keeps_of_agrees (Nesting.agrees_passNext kind)

theorem repeatAtMost {more : α → Window σ → Bool} {body : α → Parser σ α} (h : ∀ a, I.Keeps (body a)) (n : Nat)
    (a : α) : I.Keeps (Parser.repeatAtMost more body n a) :=
  keeps_of_agrees (.repeatAtMost (fun a => agrees_self (h a)) n a)

theorem repeatWhile {more : α → Window σ → Bool} {body : α → Parser σ α}
    (h : ∀ a, I.Keeps (body a)) (a : α) : I.Keeps (Parser.repeatWhile more body a) :=
  fun w hw => repeatAtMost h w.budget a w hw

end Keeps

section

variable {expr : Precedence → Parser σ Node} (hexpr : ∀ precedence, I.Keeps (expr precedence))
include hexpr

theorem enters_self (precedence : Precedence) : I.nesting.Enters (expr precedence) (expr precedence) :=
  agrees_self (hexpr precedence)

theorem keeps_statement : I.Keeps (statement expr) :=
  keeps_of_agrees (Nesting.enters_statement (enters_self hexpr))

theorem keeps_program : I.Keeps (program expr) :=
  keeps_of_agrees (Nesting.enters_program (enters_self hexpr))

theorem keeps_expressionList (close : TokenKind) : I.Keeps (expressionList expr close) :=
  keeps_of_agrees (Nesting.agrees_expressionList (enters_self hexpr) close)

theorem keeps_continuation (left : Node) (next : Continuation) : I.Keeps (continuation expr left next) :=
  keeps_of_agrees (Nesting.agrees_continuation (enters_self hexpr) left next)

/-- Constructs at any token, also where they cannot begin. -/
theorem keeps_construct (hinteger : I.Keeps Parser.integer) (first : Construct) : I.Keeps (construct expr first) := by
  cases first with
  | program => exact keeps_program hexpr
  | statement => exact keeps_statement hexpr
  | letStatement => exact keeps_of_agrees (Nesting.agrees_letStatement (enters_self hexpr))
  | returnStatement => exact keeps_of_agrees (Nesting.agrees_returnStatement (enters_self hexpr))
  | expressionStatement => exact keeps_of_agrees (Nesting.enters_expressionStatement (enters_self hexpr))
  | block => exact keeps_of_agrees (Nesting.agrees_block (enters_self hexpr))
  | identifier => exact .bind .current fun _ => .pure _
  | integer => exact hinteger
  | string => exact .bind .current fun _ => .pure _
  | boolean => exact .bind .current fun _ => .pure _
  | prefixOp => exact keeps_of_agrees (Nesting.agrees_prefixOp (enters_self hexpr))
  | grouped => exact keeps_of_agrees (Nesting.agrees_grouped (enters_self hexpr))
  | conditional => exact keeps_of_agrees (Nesting.agrees_conditional (enters_self hexpr))
  | function => exact keeps_of_agrees (Nesting.agrees_function (enters_self hexpr))
  | parameters =>
    refine .bind (keeps_of_agrees Nesting.agrees_parameters) fun names => ?_
    cases names <;> exact .pure _
  | array => exact keeps_of_agrees (Nesting.agrees_array (enters_self hexpr))
  | skip => exact .bind .advance fun _ => .pure _

end

theorem keeps_expression (depth : Nat) (precedence : Precedence) :
    I.Keeps (expression Rules.standard depth precedence) := by
  induction depth generalizing precedence with
  | zero => exact fun _ _ => I.tooDeep
  | succ depth ih =>
    exact keeps_of_agrees (Nesting.agrees_climb (enters_self ih) precedence)

end WindowInvariant

/-! ### Sliding -/

namespace Window

variable {σ : Type} [TokenSource σ] {w w' w'' : Window σ}

/-- The window moves on by some number of tokens. -/
def skip (w : Window σ) (n : Nat) : Window σ := advance^[n] w

/-- `w'` stands further on in the source of `w`, with more syntax errors. -/
structure Slides (w w' : Window σ) : Prop where
  source : ∃ n, w'.source = (w.skip n).source
  errors : ∃ new, w'.errors = w.errors ++ new
  budget : w'.budget = w.budget

theorem skip_succ (n : Nat) : w.skip (n + 1) = (w.skip n).advance :=
  Function.iterate_succ_apply' _ _ _

theorem advance_skip (n : Nat) : w.advance.skip n = w.skip (n + 1) := rfl

theorem skip_skip (m n : Nat) : (w.skip m).skip n = w.skip (m + n) := by
  unfold skip
  rw [Nat.add_comm, Function.iterate_add_apply]

theorem skip_source_congr (h : w'.source = w.source) (n : Nat) : (w'.skip n).source = (w.skip n).source := by
  induction n with
  | zero => exact h
  | succ n ih => rw [skip_succ, skip_succ]; exact congrArg TokenSource.advance ih

theorem current_congr (h : w'.source = w.source) : w'.current = w.current :=
  congrArg TokenSource.current h

namespace Slides

theorem refl (w : Window σ) : w.Slides w := ⟨⟨0, rfl⟩, ⟨#[], by simp⟩, rfl⟩

theorem trans (h : w.Slides w') (h' : w'.Slides w'') : w.Slides w'' := by
  obtain ⟨m, hm⟩ := h.source
  obtain ⟨n, hn⟩ := h'.source
  obtain ⟨e, he⟩ := h.errors
  obtain ⟨e', he'⟩ := h'.errors
  refine ⟨⟨m + n, ?_⟩, ⟨e ++ e', ?_⟩, h'.budget.trans h.budget⟩
  · rw [hn, skip_source_congr hm, skip_skip]
  · rw [he', he, Array.append_assoc]

theorem advance (h : w.Slides w') : w.Slides w'.advance :=
  h.trans ⟨⟨1, rfl⟩, ⟨#[], by simp⟩, rfl⟩

theorem report (h : w.Slides w') (error : SyntaxError) : w.Slides (w'.report error) :=
  h.trans ⟨⟨0, rfl⟩, ⟨#[error], by simp [Window.report]⟩, rfl⟩

theorem size_le (h : w.Slides w') : w.errors.size ≤ w'.errors.size := by
  obtain ⟨new, he⟩ := h.errors
  rw [he, Array.size_append]
  omega

/-- Windows that stand further on than `w`, whatever the faults. -/
def invariant (w : Window σ) : WindowInvariant σ where
  holds := w.Slides
  fault _ := True
  advance := advance
  report error h := h.report error
  tooDeep := trivial
  integer _ _ _ := trivial

end Slides

end Window

end Scriptlet
