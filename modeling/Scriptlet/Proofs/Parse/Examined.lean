import Scriptlet.Proofs.Parse.Source
import Scriptlet.Session

/-!
# Tokens that are wrong by themselves

An integer that is out of range and a character that belongs to no token are wrong wherever they stand.
The parser notices them where an expression begins, and after a syntax error it may begin one at any
token. Still it looks at each of them once: what it has recorded about single tokens, together with what
the tokens that it has not examined yet will give, is always what all tokens give (`Window.Examined`).

A window is at one of two stages. At a token that was just moved on to (`Window.Before`) everything in
front of the token is examined; at a token that a construct has ended with (`Window.Past`) the token is
examined as well. An expression leads from the first stage to the second, and moving on leads back. At a
token that cannot be wrong by itself the two stages are the same.
-/

namespace Scriptlet

/-! ### Complaints -/

/-- Whether tokens of the kind can be wrong by themselves. -/
def TokenKind.isDubious (kind : TokenKind) : Bool := kind == .int || kind == .illegal

/-- What is wrong with a token by itself: its value is out of range, or it is no token at all. -/
def Token.complaint? (token : Token) : Option String :=
  match token.kind with
  | .int =>
    if 2 ^ 63 - 1 < Grammar.decimal token.literal.toList then
      some ("could not parse \"" ++ token.literal ++ "\" as integer")
    else none
  | .illegal => some "no prefix parse function for ILLEGAL found"
  | _ => none

/-- Whether the token is an integer with too many digits to be read at all. -/
def Token.isOverlong (token : Token) : Bool :=
  token.kind == .int && decide (maxDigits < token.literal.length)

/-- Whether a message says that a token is wrong by itself. -/
def isComplaint (message : String) : Bool :=
  message == "no prefix parse function for ILLEGAL found" ||
    "could not parse \"".toList.isPrefixOf message.toList && "\" as integer".toList.isSuffixOf message.toList

/-- An expression begins with an integer, but not with an illegal character. -/
theorem TokenKind.of_beginning_eq_none {kind : TokenKind} (h : Rules.standard.beginning kind = none) :
    kind = .illegal ∨ kind.isDubious = false := by
  cases kind <;> first | exact .inl rfl | exact .inr rfl | cases h

theorem TokenKind.isDubious_of_following {kind : TokenKind} (h : (Rules.standard.following kind).isSome = true) :
    kind.isDubious = false := by
  cases kind <;> first | rfl | cases h

theorem Token.complaint?_of_not_isDubious {token : Token} (h : token.kind.isDubious = false) :
    token.complaint? = none := by
  unfold complaint?
  split
  · next hk => rw [hk] at h; cases h
  · next hk => rw [hk] at h; cases h
  · rfl

theorem Token.isOverlong_of_not_isDubious {token : Token} (h : token.kind.isDubious = false) :
    token.isOverlong = false := by
  unfold TokenKind.isDubious at h
  rw [isOverlong, (Bool.or_eq_false_iff.1 h).1, Bool.false_and]

/-- What begins with another letter is no complaint about an integer. -/
theorem isComplaint_of_head? {message : String} {c : Char} (h : message.toList.head? = some c)
    (hc : c ≠ 'c') : isComplaint message = (message == "no prefix parse function for ILLEGAL found") := by
  have hprefix : "could not parse \"".toList.isPrefixOf message.toList = false := by
    rw [Bool.eq_false_iff]
    intro hp
    obtain ⟨rest, hrest⟩ := List.isPrefixOf_iff_prefix.1 hp
    rw [← hrest] at h
    exact hc (Option.some.inj h).symm
  rw [isComplaint, hprefix, Bool.false_and, Bool.or_false]

theorem isComplaint_unexpected (expected got : TokenKind) :
    isComplaint (SyntaxError.unexpected expected got).message = false := by
  have hhead : (SyntaxError.unexpected expected got).message.toList.head? = some 'e' := by
    unfold SyntaxError.message
    simp only [String.toList_append]
    simp
  rw [isComplaint_of_head? hhead (by decide), beq_eq_false_iff_ne]
  intro h
  rw [h] at hhead
  simp at hhead

theorem isComplaint_noExpression (kind : TokenKind) :
    isComplaint (SyntaxError.noExpression kind).message = decide (kind = .illegal) := by
  have hhead : (SyntaxError.noExpression kind).message.toList.head? = some 'n' := by
    unfold SyntaxError.message
    simp only [String.toList_append]
    simp
  have hillegal : "no prefix parse function for ILLEGAL found" = (SyntaxError.noExpression .illegal).message :=
    rfl
  rw [isComplaint_of_head? hhead (by decide), hillegal, Bool.eq_iff_iff, beq_iff_eq, decide_eq_true_iff]
  refine ⟨fun h => TokenKind.symbol_injective ?_, fun h => by rw [h]⟩
  unfold SyntaxError.message at h
  exact (String.append_right_inj _).1 ((String.append_left_inj _).1 h)

theorem isComplaint_badInteger (literal : String) :
    isComplaint (SyntaxError.badInteger literal).message = true := by
  have hp := List.prefix_append "could not parse \"".toList (literal.toList ++ "\" as integer".toList)
  have hs := List.suffix_append ("could not parse \"".toList ++ literal.toList) "\" as integer".toList
  rw [List.append_assoc] at hs
  unfold isComplaint SyntaxError.message
  simp only [String.toList_append, List.append_assoc]
  rw [List.isPrefixOf_iff_prefix.2 hp, List.isSuffixOf_iff_suffix.2 hs, Bool.and_self, Bool.or_true]

/-! ### Accounts -/

namespace Window

variable {σ : Type} {w : Window σ} {all ts : List Token} {error : SyntaxError}

/-- The messages about single tokens that have been recorded. -/
def complaints (w : Window σ) : List String := (w.errors.toList.map SyntaxError.message).filter isComplaint

theorem complaints_report (w : Window σ) (error : SyntaxError) :
    (w.report error).complaints = w.complaints ++ [error.message].filter isComplaint := by
  unfold complaints report
  rw [Array.toList_push, List.map_append, List.filter_append]
  rfl

/-- All tokens but `ts` have been examined: they are where the complaints come from, and none of them is
overlong. -/
structure Examined (all ts : List Token) (w : Window σ) : Prop where
  complaints : w.complaints ++ ts.filterMap Token.complaint? = all.filterMap Token.complaint?
  overlong : ts.find? Token.isOverlong = all.find? Token.isOverlong

theorem Examined.report (h : w.Examined all ts) (he : isComplaint error.message = false) :
    (w.report error).Examined all ts := by
  refine ⟨?_, h.overlong⟩
  rw [complaints_report, List.filter_cons_of_neg (by simp [he]), List.filter_nil, List.append_nil]
  exact h.complaints

/-- One more token has been looked at, with the complaint that it gives. -/
theorem Examined.next {t : Token} {w' : Window σ} (h : w.Examined all (t :: ts))
    (hc : w'.complaints = w.complaints ++ t.complaint?.toList) (hl : t.isOverlong = false) :
    w'.Examined all ts := by
  have hcs := h.complaints
  have ho := h.overlong
  rw [List.find?_cons_of_neg (by simp [hl])] at ho
  refine ⟨?_, ho⟩
  rw [← hcs, hc, List.append_assoc]
  cases ht : t.complaint? with
  | none => rw [List.filterMap_cons_none ht]; rfl
  | some message => rw [List.filterMap_cons_some ht]; rfl

variable [TokenSource σ] {w' : Window σ}

/-- The tokens from the current one to the end of the input are `ts`, the end itself left out. -/
structure Rests (w : Window σ) (ts : List Token) : Prop where
  tokens : ∀ n, (w.skip n).current = ts.getD n Token.endOfInput
  inner : Grammar.Inner ts

theorem Rests.advance (h : w.Rests ts) : w.advance.Rests ts.tail := by
  refine ⟨fun n => ?_, fun t ht => h.inner t (List.mem_of_mem_tail ht)⟩
  rw [advance_skip, h.tokens (n + 1)]
  cases ts <;> rfl

theorem Rests.congr (h : w.Rests ts) (hs : w'.source = w.source) : w'.Rests ts := by
  refine ⟨fun n => ?_, h.inner⟩
  rw [← h.tokens n]
  exact current_congr (skip_source_congr hs n)

theorem Rests.current (h : w.Rests ts) : w.current = ts.getD 0 Token.endOfInput := h.tokens 0

/-- The current token is still to be examined. -/
structure Before (all : List Token) (w : Window σ) : Prop where
  sane : w.Sane
  account : ∃ ts, w.Rests ts ∧ w.Examined all ts

/-- The current token has been examined. -/
structure Past (all : List Token) (w : Window σ) : Prop where
  sane : w.Sane
  account : ∃ ts, w.Rests ts ∧ w.Examined all ts.tail

theorem Past.advance (h : w.Past all) : w.advance.Before all := by
  obtain ⟨ts, hr, he⟩ := h.account
  exact ⟨h.sane.advance, ts.tail, hr.advance, he.complaints, he.overlong⟩

theorem Past.report (h : w.Past all) (he : isComplaint error.message = false) :
    (w.report error).Past all := by
  obtain ⟨ts, hr, hx⟩ := h.account
  exact ⟨h.sane.slides ((Slides.refl w).report error), ts, hr.congr rfl, hx.report he⟩

/-- The current token is examined where just its complaint is added. -/
theorem Before.examine (h : w.Before all) (hs : w.Slides w') (hsource : w'.source = w.source)
    (hc : w'.complaints = w.complaints ++ w.current.complaint?.toList) (hl : w.current.isOverlong = false) :
    w'.Past all := by
  obtain ⟨ts, hr, hx⟩ := h.account
  have hcurrent := hr.current
  refine ⟨h.sane.slides hs, ts, hr.congr hsource, ?_⟩
  cases ts with
  | nil =>
    rw [hcurrent] at hc
    refine ⟨?_, hx.overlong⟩
    rw [hc, ← hx.complaints]
    simp [Token.complaint?, Token.endOfInput]
  | cons t ts =>
    rw [hcurrent] at hc hl
    exact hx.next hc hl

/-- A token that cannot be wrong by itself counts as examined. -/
theorem Before.past (h : w.Before all) (hk : w.current.kind.isDubious = false) : w.Past all := by
  refine h.examine (.refl w) rfl ?_ (Token.isOverlong_of_not_isDubious hk)
  rw [Token.complaint?_of_not_isDubious hk, Option.toList_none, List.append_nil]

theorem Before.report (h : w.Before all) (hc : w.current.complaint? = some error.message)
    (he : isComplaint error.message = true) (hl : w.current.isOverlong = false) :
    (w.report error).Past all := by
  refine h.examine ((Slides.refl w).report error) rfl ?_ hl
  rw [complaints_report, List.filter_cons_of_pos he, hc]
  rfl

/-- The first overlong integer is the current token, if that is one. -/
theorem Before.find?_isOverlong (h : w.Before all) (hl : w.current.isOverlong = true) :
    all.find? Token.isOverlong = some w.current := by
  obtain ⟨ts, hr, hx⟩ := h.account
  have hcurrent := hr.current
  rw [← hx.overlong]
  cases ts with
  | nil => rw [hcurrent] at hl; cases hl
  | cons t ts => rw [hcurrent] at hl ⊢; exact List.find?_cons_of_pos hl

/-- At the end of the input nothing is left to be examined. -/
theorem Before.examined (h : w.Before all) (hk : w.current.kind = .eof) : w.Examined all [] := by
  obtain ⟨ts, hr, hx⟩ := h.account
  cases ts with
  | nil => exact hx
  | cons t ts =>
    rw [hr.current] at hk
    exact absurd hk (hr.inner t (by simp))

theorem Past.advance_past [LawfulTokenSource σ] (h : w.Past all) (hk : w.upcoming.kind.isDubious = false) :
    w.advance.Past all := by
  rw [upcoming_eq] at hk
  exact h.advance.past hk

end Window

/-! ### Reading -/

/-- The faults of a reading that examines the tokens in order: it goes too deep, or meets the first
integer that is overlong. -/
def FirstFault (all : List Token) (cause : Fault) : Prop :=
  cause = .tooDeep ∨
    ∃ t, all.find? Token.isOverlong = some t ∧ cause = .overlongInteger t.literal.length

namespace Parser

variable {σ : Type} [TokenSource σ] {α β : Type} {all : List Token} {w : Window σ}

/-- Starting past a token, the parser ends past a token. -/
def Examines (all : List Token) (p : Parser σ α) : Prop :=
  ∀ w : Window σ, w.Past all → wp (FirstFault all) p (fun _ w' => w'.Past all) w

/-- An expression is read on from a token that is still to be examined, and ends past one. -/
structure ExaminesExpr (all : List Token) (expr : Precedence → Parser σ Node) : Prop where
  slides : ∀ (precedence : Precedence) (w : Window σ), (Window.Slides.invariant w).Keeps (expr precedence)
  past : ∀ (precedence : Precedence) (w : Window σ), w.Before all →
    wp (FirstFault all) (expr precedence) (fun _ w' => w'.Past all) w

namespace Examines

theorem pure (a : α) : Examines (σ := σ) all (Pure.pure a) := fun _ h => h

theorem bind {p : Parser σ α} {f : α → Parser σ β} (hp : Examines all p) (hf : ∀ a, Examines all (f a)) :
    Examines all (p >>= f) := by
  intro w h
  rw [wp_bind]
  exact wp_mono (hp w h) fun a w' h' => hf a w' h'

theorem current {f : Token → Parser σ α} (h : ∀ t, Examines all (f t)) :
    Examines all (Parser.current >>= f) := fun w => h w.current w

/-- Moving on to an expression. -/
theorem expression {expr : Precedence → Parser σ Node} (hexpr : ExaminesExpr all expr)
    {precedence : Precedence} {f : Node → Parser σ α} (hf : ∀ e, Examines all (f e)) :
    Examines all (Parser.advance >>= fun _ => expr precedence >>= f) := by
  intro w h
  rw [wp_bind, wp_advance, wp_bind]
  exact wp_mono (hexpr.past precedence _ h.advance) fun e w' h' => hf e w' h'

theorem repeatWhile {more : α → Window σ → Bool} {body : α → Parser σ α} {a : α}
    (step : ∀ a (w : Window σ), w.Past all → more a w = true →
      wp (FirstFault all) (body a) (fun _ w' => w'.Past all) w) :
    Examines all (Parser.repeatWhile more body a) :=
  fun _ h => wp_repeatWhile (fun _ w' => w'.Past all) (fun a w' => step a w') h

variable [LawfulTokenSource σ] {kind : TokenKind} (hk : kind.isDubious = false)
include hk

theorem comes {f : Unit → Parser σ α} {q : Parser σ α} (hf : Examines all (f ())) (hq : Examines all q) :
    Examines all (comesNext kind >>= fun b => if b = true then Parser.advance >>= f else q) := by
  intro w h
  rw [wp_bind, wp_comesNext]
  split
  · next hb =>
    rw [wp_bind, wp_advance]
    rw [beq_iff_eq] at hb
    exact hf _ (h.advance_past (by rwa [hb]))
  · exact hq w h

theorem expect {p : Parser σ α} {a : α} (hp : Examines all p) :
    Examines all (expectNext kind >>= fun b => if b = true then p else Pure.pure a) := by
  intro w h
  rw [wp_bind, wp_expectNext]
  split
  · next hb => exact hp _ (h.advance_past (by rwa [hb]))
  · exact h.report (isComplaint_unexpected _ _)

theorem pass {f : Unit → Parser σ α} (hf : Examines all (f ())) :
    Examines all (passNext kind >>= f) := by
  intro w h
  rw [wp_bind, wp_passNext]
  split
  · next hb => exact hf _ (h.advance_past (by rwa [hb]))
  · exact hf w h

end Examines

/-- An integer is examined where it stands. -/
theorem examines_integer (h : w.Before all) (hk : w.current.kind = .int) :
    wp (FirstFault all) integer (fun _ w' => w'.Past all) w := by
  have hcomplaint : w.current.complaint? =
      if 2 ^ 63 - 1 < Grammar.decimal w.current.literal.toList then
        some (SyntaxError.badInteger w.current.literal).message
      else none := by
    unfold Token.complaint?
    rw [hk]
    rfl
  rw [wp_integer hk h.sane.numerals.current]
  split
  · next hlong =>
    have hover : w.current.isOverlong = true := by simp [Token.isOverlong, hk, hlong]
    exact .inr ⟨_, h.find?_isOverlong hover, rfl⟩
  next hshort =>
  have hover : w.current.isOverlong = false := by simp [Token.isOverlong, hshort]
  split
  · next hsmall =>
    rw [if_neg (by omega)] at hcomplaint
    refine h.examine (.refl w) rfl ?_ hover
    rw [hcomplaint, Option.toList_none, List.append_nil]
  · next hbig =>
    rw [if_pos (by omega)] at hcomplaint
    exact h.report hcomplaint (isComplaint_badInteger _) hover

theorem examines_prefixOp {expr : Precedence → Parser σ Node} (hexpr : ExaminesExpr all expr) :
    Examines all (prefixOp expr) :=
  .current fun _ => .expression hexpr fun _ => .pure _

variable [LawfulTokenSource σ]

theorem examines_parameters : Examines (σ := σ) all parameters := by
  refine .comes rfl (.pure _) (.expect rfl (.current fun first => .bind (.repeatWhile ?_) fun names => ?_))
  · intro names w h hm
    rw [Bool.and_eq_true, beq_iff_eq] at hm
    rw [wp_bind, wp_advance]
    have hnames : Examines (σ := σ) all (expectNext .ident >>= fun b =>
        if b = true then do
          let token ← Parser.current
          return names.map (Identifier.ofToken token :: ·)
        else return none) := .expect rfl (.current fun _ => .pure _)
    exact hnames _ (h.advance_past (by rw [hm.2]; rfl))
  · cases names with
    | none => exact .pure _
    | some names => exact .expect rfl (.pure _)

section

variable {expr : Precedence → Parser σ Node} (hexpr : ExaminesExpr all expr)
include hexpr

theorem examines_letStatement : Examines all (letStatement expr) :=
  .current fun _ => .expect rfl (.current fun _ => .expect rfl (.expression hexpr fun _ =>
    .pass rfl (.pure _)))

theorem examines_returnStatement : Examines all (returnStatement expr) :=
  .current fun _ => .expression hexpr fun _ => .pass rfl (.pure _)

/-- A statement starts before its first token, which may be all that there is of an expression. -/
theorem examines_statement (h : w.Before all) :
    wp (FirstFault all) (statement expr) (fun _ w' => w'.Past all) w := by
  unfold statement
  rw [wp_bind, wp_current]
  split
  · next hk => exact examines_letStatement hexpr w (h.past (by rw [hk]; rfl))
  · next hk => exact examines_returnStatement hexpr w (h.past (by rw [hk]; rfl))
  · unfold expressionStatement
    rw [wp_bind, wp_current, wp_bind]
    refine wp_mono (hexpr.past .lowest w h) fun e w' h' => ?_
    have hend : Examines (σ := σ) all (do
        passNext .semicolon
        return if e.isHole then .hole else Node.expressionStatement w.current e) := .pass rfl (.pure _)
    exact hend w' h'

/-- A row of statements ends before the token that ends it. The input ends within the budget, so the loop
comes to such a token. -/
theorem examines_statements {ends : TokenKind → Bool} (hends : ends .eof = true) (h : w.Before all) :
    wp (FirstFault all) (statements expr ends)
      (fun _ w' => w'.Before all ∧ ends w'.current.kind = true) w := by
  unfold statements
  rw [wp_bind]
  refine wp_mono (wp_repeatAtMost (fun n _ w' => w'.Before all ∧ w'.EndsWithin n) ?_ ⟨h, h.sane.ends⟩) ?_
  · rintro n seen w₁ ⟨h₁, hn⟩ -
    have hslides := WindowInvariant.keeps_statement (I := Window.Slides.invariant w₁)
      (fun precedence => hexpr.slides precedence w₁) w₁ (.refl w₁)
    simp only [wp_bind, wp_advance, wp_pure]
    refine wp_mono (wp_and (examines_statement hexpr h₁) hslides) ?_
    rintro s w₂ ⟨h₂, hs⟩
    exact ⟨h₂.advance, (hn.slides hs).advance⟩
  · rintro seen w₁ ⟨n, ⟨h₁, hn⟩, hm | rfl⟩
    · exact ⟨h₁, by simpa using hm⟩
    · exact ⟨h₁, by rw [hn.current]; exact hends⟩

theorem examines_block : Examines all (block expr) := by
  intro w h
  unfold block
  rw [wp_bind, wp_current, wp_bind, wp_advance, wp_bind]
  refine wp_mono (examines_statements hexpr rfl h.advance) ?_
  rintro ss w₁ ⟨h₁, hend⟩
  have hk : w₁.current.kind.isDubious = false := by
    rcases Bool.or_eq_true_iff.1 hend with hk | hk <;> rw [beq_iff_eq.1 hk] <;> rfl
  rw [wp_bind, wp_current]
  simp only [wp_ite, wp_bind, wp_report, wp_pure]
  split
  · exact (h₁.past hk).report (isComplaint_unexpected _ _)
  · exact h₁.past hk

theorem examines_grouped : Examines all (grouped expr) := .expression hexpr fun _ => .expect rfl (.pure _)

theorem examines_conditional : Examines all (conditional expr) := by
  refine .current fun _ => .expect rfl (.expression hexpr fun _ => .expect rfl (.expect rfl ?_))
  refine (examines_block hexpr).bind fun _ => .comes rfl (.expect rfl ?_) (.pure _)
  exact (examines_block hexpr).bind fun _ => .pure _

theorem examines_function : Examines all (function expr) := by
  refine .current fun _ => .expect rfl (examines_parameters.bind fun names => ?_)
  cases names with
  | none => exact .pure _
  | some names => exact .expect rfl ((examines_block hexpr).bind fun _ => .pure _)

theorem examines_expressionList {close : TokenKind} (hc : close.isDubious = false) :
    Examines all (expressionList expr close) := by
  refine .comes hc (.pure _) (.expression hexpr fun first => .bind (.repeatWhile ?_) fun _ => .expect hc (.pure _))
  intro elements w h hm
  rw [wp_bind, wp_advance]
  have hnext : Examines all (do advance; return (← expr .lowest) :: elements) :=
    .expression hexpr fun _ => .pure _
  exact hnext _ (h.advance_past (by rw [beq_iff_eq.1 hm]; rfl))

theorem examines_array : Examines all (array expr) := by
  refine .current fun _ => (examines_expressionList hexpr rfl).bind fun elements => ?_
  cases elements <;> exact .pure _

theorem examines_continuation (left : Node) (next : Continuation) :
    Examines all (continuation expr left next) := by
  cases next with
  | infixOp => exact .current fun _ => .expression hexpr fun _ => .pure _
  | call =>
    refine .current fun _ => (examines_expressionList hexpr rfl).bind fun arguments => ?_
    cases arguments <;> exact .pure _
  | index => exact .current fun _ => .expression hexpr fun _ => .expect rfl (.pure _)

/-- What an expression begins with is examined. -/
theorem examines_beginning (h : w.Before all) {first : Construct}
    (hf : Rules.standard.beginning w.current.kind = some first) :
    wp (FirstFault all) (construct expr first) (fun _ w' => w'.Past all) w := by
  cases hk : w.current.kind <;> rw [hk] at hf <;> cases hf
  case int => exact examines_integer h hk
  all_goals have hpast := h.past (by rw [hk]; rfl)
  case bang => exact examines_prefixOp hexpr w hpast
  case minus => exact examines_prefixOp hexpr w hpast
  case lparen => exact examines_grouped hexpr w hpast
  case ifWord => exact examines_conditional hexpr w hpast
  case fnWord => exact examines_function hexpr w hpast
  case lbracket => exact examines_array hexpr w hpast
  all_goals exact hpast

theorem examines_climb (precedence : Precedence) (h : w.Before all) :
    wp (FirstFault all) (climb Rules.standard expr precedence) (fun _ w' => w'.Past all) w := by
  unfold climb
  rw [wp_bind, wp_current]
  dsimp only
  split
  · next hf =>
    rw [wp_bind, wp_report, wp_pure]
    rcases TokenKind.of_beginning_eq_none hf with hk | hk
    · refine h.report ?_ ?_ ?_
      · rw [Token.complaint?, hk]
        rfl
      · rw [isComplaint_noExpression, hk]
        rfl
      · rw [Token.isOverlong, hk]
        rfl
    · refine (h.past hk).report ?_
      rw [isComplaint_noExpression, decide_eq_false_iff_not]
      intro hill
      rw [hill] at hk
      cases hk
  next first hf =>
  rw [wp_bind]
  refine wp_mono (examines_beginning hexpr h hf) fun left w₁ h₁ => ?_
  refine wp_repeatWhile (fun _ w' => w'.Past all) (fun left w₂ h₂ hm => ?_) h₁
  unfold goesOn at hm
  have hsome := (Bool.and_eq_true_iff.1 hm).2
  have hpast := h₂.advance_past (TokenKind.isDubious_of_following hsome)
  rw [goOn, wp_bind, wp_advance, wp_bind, wp_current]
  split
  · exact hpast
  · exact examines_continuation hexpr left _ _ hpast

end

theorem examines_expression (depth : Nat) : ExaminesExpr (σ := σ) all (expression Rules.standard depth) := by
  induction depth with
  | zero => exact ⟨fun _ _ => WindowInvariant.keeps_expression 0 _, fun _ _ _ => .inl rfl⟩
  | succ depth ih =>
    exact ⟨fun precedence _ => WindowInvariant.keeps_expression (depth + 1) precedence,
      fun precedence _ h => examines_climb ih precedence h⟩

/-- When a program has been read, all tokens have been examined. -/
theorem examines_program (h : w.Before all) (depth : Nat) :
    wp (FirstFault all) (program (expression Rules.standard depth)) (fun _ w' => w'.Examined all []) w := by
  unfold program
  rw [wp_bind]
  refine wp_mono (examines_statements (examines_expression depth) rfl h) ?_
  rintro ss w' ⟨h', hend⟩
  exact h'.examined (beq_iff_eq.1 hend)

end Parser

/-! ### Sources -/

theorem rests_window (source : String) : (Feed.window source).Rests (tokenize source).dropLast := by
  refine ⟨fun n => ?_, inner_dropLast_tokensOf source.toList⟩
  rw [Window.current_skip_text (Window.source_window source)]
  exact getD_tokenize source n

theorem before_window (source : String) :
    (Feed.window source).Before (tokenize source).dropLast where
  sane := Window.sane_window source
  account := ⟨_, rests_window source, rfl, rfl⟩

/-- The end of the input is never wrong. -/
theorem filterMap_complaint?_tokenize (source : String) :
    (tokenize source).filterMap Token.complaint? = (tokenize source).dropLast.filterMap Token.complaint? := by
  have h := congrArg (List.filterMap Token.complaint?) (tokenize_eq_dropLast source)
  rw [List.filterMap_append] at h
  exact h.trans (List.append_nil _)

theorem find?_isOverlong_tokenize (source : String) :
    (tokenize source).find? Token.isOverlong = (tokenize source).dropLast.find? Token.isOverlong := by
  have h := congrArg (List.find? Token.isOverlong) (tokenize_eq_dropLast source)
  rw [List.find?_append] at h
  exact h.trans Option.or_none

/-- How the reading of a source ends: with the first fault, or with all that there is to complain about. -/
theorem parse_examined (limits : Limits) (source : String) :
    (∀ cause, parse limits source = .error cause → FirstFault (tokenize source) cause) ∧
    ∀ parsed, parse limits source = .ok parsed →
      (tokenize source).find? Token.isOverlong = none ∧
      (parsed.errors.map SyntaxError.message).filter isComplaint =
        (tokenize source).filterMap Token.complaint? := by
  have hrun := Parser.examines_program (before_window source) limits.reading
  unfold FirstFault
  rw [find?_isOverlong_tokenize, filterMap_complaint?_tokenize]
  unfold parse parseWindow
  unfold Parser.wp at hrun
  cases hp : Parser.program (Parser.expression Rules.standard limits.reading) (Feed.window source) with
  | error found =>
    rw [hp] at hrun
    refine ⟨?_, nofun⟩
    rintro _ ⟨⟩
    exact hrun
  | ok result =>
    obtain ⟨program, w'⟩ := result
    rw [hp] at hrun
    refine ⟨nofun, ?_⟩
    rintro _ ⟨⟩
    have hcs := hrun.complaints
    rw [List.filterMap_nil, List.append_nil] at hcs
    exact ⟨hrun.overlong.symm, hcs⟩

/-- Every integer and every illegal character is examined exactly once, in any source that is not nested too
deep. The source cannot be read if and only if one of its integers is overlong, and the first of them is to
blame. Otherwise the messages about single tokens are, in order, those that the tokens give one by one:
one for each integer above the greatest one and one for each illegal character. -/
theorem tokens_examined_exactly_once (limits : Limits) (source : String)
    (hdeep : parse limits source ≠ .error .tooDeep) :
    (∀ cause, parse limits source = .error cause ↔
      ∃ t, (tokenize source).find? Token.isOverlong = some t ∧ cause = .overlongInteger t.literal.length) ∧
    ∀ parsed, parse limits source = .ok parsed →
      (parsed.errors.map SyntaxError.message).filter isComplaint =
        (tokenize source).filterMap Token.complaint? := by
  obtain ⟨hfault, hok⟩ := parse_examined limits source
  have hfirst : ∀ cause, parse limits source = .error cause →
      ∃ t, (tokenize source).find? Token.isOverlong = some t ∧ cause = .overlongInteger t.literal.length := by
    intro cause h
    refine (hfault cause h).resolve_left ?_
    rintro rfl
    exact hdeep h
  refine ⟨fun cause => ⟨hfirst cause, ?_⟩, fun parsed h => (hok parsed h).2⟩
  rintro ⟨t, ht, rfl⟩
  cases hp : parse limits source with
  | error found =>
    obtain ⟨t', ht', rfl⟩ := hfirst found hp
    rw [ht] at ht'
    cases ht'
    rfl
  | ok parsed =>
    have hnone := (hok parsed hp).1
    rw [ht] at hnone
    cases hnone

/-- Integers and illegal characters where a name, a parenthesis or an operand should stand. -/
theorem misplaced_tokens_examined :
    ∃ parsed, parse Limits.standard "if 9223372036854775808 let @ = f(1 $, 9223372036854775807)" = .ok parsed ∧
      (parsed.errors.map SyntaxError.message).filter isComplaint =
        ["could not parse \"9223372036854775808\" as integer", "no prefix parse function for ILLEGAL found",
          "no prefix parse function for ILLEGAL found"] := by
  have hreads : ∃ parsed,
      parse Limits.standard "if 9223372036854775808 let @ = f(1 $, 9223372036854775807)" = .ok parsed := ⟨_, rfl⟩
  obtain ⟨parsed, hparsed⟩ := hreads
  have hdeep : parse Limits.standard "if 9223372036854775808 let @ = f(1 $, 9223372036854775807)" ≠
      .error .tooDeep := by
    rw [hparsed]
    exact nofun
  refine ⟨parsed, hparsed, ?_⟩
  rw [(tokens_examined_exactly_once Limits.standard _ hdeep).2 parsed hparsed]
  decide +kernel

end Scriptlet
