import Scriptlet.Proofs.Parse.Levels
import Scriptlet.Proofs.Parse.Source

/-!
# Soundness of the parser

What is read without a syntax error is derived from the tokens passed. Each construct has a lemma,
which assumes this of the expressions inside it. The heart is `sound_climb`: the loop over operators
keeps an operand that is derived on some level, and the operator that comes next is within the reach
of that level.

A recorded error stays, so all that has to be shown of a path with an error is that the errors have
grown.
-/

namespace Scriptlet

open Scriptlet.Grammar

namespace Grammar

/-! ### Rows from left to right -/

theorem Names.concat {ts : List Token} {ids : List Identifier} {comma name : Token} (h : Names ts ids)
    (hc : comma.kind = .comma) (hn : name.kind = .ident) :
    Names (ts ++ [comma, name]) (ids ++ [.ofToken name]) := by
  induction h with
  | one hm => exact .cons hm hc (.one hn)
  | cons hm hc' _ ih => exact .cons hm hc' ih

theorem Exprs.concat : ∀ {ts us : List Token} {es : List Node} {comma : Token} {e : Node},
    Exprs ts es → comma.kind = .comma → Expr .equality us e → Exprs (ts ++ comma :: us) (es ++ [e])
  | _, _, _, _, _, .one h, hc, he => .cons hc h (.one he)
  | _, _, _, _, _, .cons hc' he' h, hc, he => by
    rw [List.append_assoc]
    exact .cons hc' he' (h.concat hc he)

/-- Statements that may stand before any others that begin with the token `next`. -/
def Leading (ts : List Token) (ss : List Node) (next : Token) : Prop :=
  ∀ us ss', Statements us ss' → (∀ t ∈ us.head?, t = next) → Statements (ts ++ us) (ss ++ ss')

namespace Leading

variable {ts us : List Token} {ss : List Node} {s : Node} {t next : Token} {closed : Bool}

theorem nil : Leading [] [] next := fun _ _ h _ => h

theorem statements (h : Leading ts ss next) : Statements ts ss := by
  have h' := h [] [] .nil (by simp)
  rwa [List.append_nil, List.append_nil] at h'

theorem concat (h : Leading ts ss t) (hs : Statement closed us s) (ht : us.head? = some t)
    (ho : closed = false → next.kind ∉ continuers) : Leading (ts ++ us) (ss ++ [s]) next := by
  intro vs ss' hv hnext
  rw [List.append_assoc, List.append_assoc]
  refine h (us ++ vs) (s :: ss') (.cons hs hv fun hc v hm => ?_) fun v hm => ?_
  · rw [hnext v hm]
    exact ho hc
  · rw [List.head?_append, ht] at hm
    exact (Option.some.inj hm).symm

end Leading

end Grammar

namespace Window

variable {σ : Type} [TokenSource σ] {w w' : Window σ}

theorem Slides.both (h : w.Slides w') : w.advance.Slides w'.advance := by
  obtain ⟨n, hn⟩ := h.source
  refine ⟨⟨n, ?_⟩, h.errors, h.budget⟩
  rw [advance_skip, skip_succ]
  exact congrArg TokenSource.advance hn

end Window

/-! ### Reading without errors -/

namespace Parser

variable {σ : Type} [TokenSource σ] {α β : Type} {w : Window σ}

/-- What `p` reads from `w` without a syntax error is as `R` says. -/
def Sound (p : Parser σ α) (R : α → Window σ → Prop) (w : Window σ) : Prop :=
  wp (fun _ => True) p
    (fun a w' => w.Slides w' ∧ (w'.errors.size = w.errors.size → R a w')) w

namespace Sound

variable {R : α → Window σ → Prop}

theorem pure {a : α} (h : R a w) : Sound (Pure.pure a) R w := ⟨.refl w, fun _ => h⟩

theorem current {f : Token → Parser σ α} (h : Sound (f w.current) R w) :
    Sound (Parser.current >>= f) R w := h

theorem mono {p : Parser σ α} {R' : α → Window σ → Prop} (h : Sound p R w)
    (hr : ∀ a w', w.Slides w' → R a w' → R' a w') : Sound p R' w :=
  wp_mono h fun a w' h' => ⟨h'.1, fun hsize => hr a w' h'.1 (h'.2 hsize)⟩

/-- If no error has been recorded at the end, there was none in between. -/
theorem after {p : Parser σ α} {P : Prop} {w' : Window σ} (hs : w.Slides w')
    (hr : w'.errors.size = w.errors.size → P) (h : Sound p (fun a w'' => P → R a w'') w') :
    wp (fun _ => True) p
      (fun a w'' => w.Slides w'' ∧ (w''.errors.size = w.errors.size → R a w'')) w' := by
  refine wp_mono h ?_
  rintro a w'' ⟨hs', hr'⟩
  refine ⟨hs.trans hs', fun hsize => ?_⟩
  have hle := hs.size_le
  have hle' := hs'.size_le
  exact hr' (by omega) (hr (by omega))

theorem bind {p : Parser σ α} {f : α → Parser σ β} {R' : β → Window σ → Prop} (hp : Sound p R w)
    (hf : ∀ a w', w.Slides w' → Sound (f a) (fun b w'' => R a w' → R' b w'') w') :
    Sound (p >>= f) R' w := by
  unfold Sound
  rw [wp_bind]
  exact wp_mono hp fun a w' ⟨hs, hr⟩ => after hs hr (hf a w' hs)

theorem advance {f : Unit → Parser σ α} (h : Sound (f ()) R w.advance) :
    Sound (Parser.advance >>= f) R w :=
  wp_mono h fun _ _ h' => ⟨(Window.Slides.refl w).advance.trans h'.1, h'.2⟩

omit [TokenSource σ] in
theorem size_report_ne (error : SyntaxError) : (w.report error).errors.size ≠ w.errors.size := by
  rw [Window.size_errors_report]
  omega

/-- Where an error has just been recorded there is nothing to show. -/
theorem report {error : SyntaxError} {P : Prop} : w.Slides (w.report error) ∧
    ((w.report error).errors.size = w.errors.size → P) :=
  ⟨(Window.Slides.refl w).report error, fun h => absurd h (size_report_ne error)⟩

theorem ite {c : Prop} [Decidable c] {p q : Parser σ α} (hp : c → Sound p R w) (hq : ¬ c → Sound q R w) :
    Sound (if c then p else q) R w := by
  split
  · next h => exact hp h
  · next h => exact hq h

theorem repeatWhile {more : α → Window σ → Bool} {body : α → Parser σ α} {a : α} (h : R a w)
    (step : ∀ a w', w.Slides w' → more a w' = true →
      Sound (body a) (fun a' w'' => R a w' → R a' w'') w') :
    Sound (Parser.repeatWhile more body a) R w := by
  refine wp_repeatWhile _ ?_ ⟨.refl w, fun _ => h⟩
  rintro a w' ⟨hs, hr⟩ hm
  exact after hs hr (step a w' hs hm)

/-- A loop in which every round passes a token does not stop before there is no more to do. -/
theorem repeatWhile_ends {more : α → Window σ → Bool} {body : α → Parser σ α} {a : α}
    (hw : w.EndsWithin w.budget) (h : R a w) (stop : ∀ a w', w'.EndsWithin 0 → more a w' = false)
    (step : ∀ a w', w.Slides w' → more a w' = true →
      wp (fun _ => True) (body a) (fun a' w'' => w'.advance.Slides w'' ∧
        (w''.errors.size = w'.errors.size → R a w' → R a' w'')) w') :
    Sound (Parser.repeatWhile more body a) (fun a' w' => R a' w' ∧ more a' w' = false) w := by
  refine wp_mono (wp_repeatAtMost (fun n a w' => (w.Slides w' ∧
    (w'.errors.size = w.errors.size → R a w')) ∧ w'.EndsWithin n) ?_ ⟨⟨.refl w, fun _ => h⟩, hw⟩) ?_
  · rintro n a w' ⟨⟨hs, hr⟩, he⟩ hm
    have hstep := step a w' hs hm
    have hkeep : Sound (body a) (fun a' w'' => R a w' → R a' w'') w' :=
      wp_mono hstep fun a' w'' h' => ⟨(Window.Slides.refl w').advance.trans h'.1, h'.2⟩
    exact wp_mono (wp_and hstep (after hs hr hkeep)) fun a' w'' h' => ⟨h'.2, he.advance.slides h'.1.1⟩
  · rintro a' w' ⟨n, ⟨⟨hs, hr⟩, he⟩, hm | rfl⟩
    · exact ⟨hs, fun hsize => ⟨hr hsize, hm⟩⟩
    · exact ⟨hs, fun hsize => ⟨hr hsize, stop a' w' he⟩⟩

variable [LawfulTokenSource σ]

theorem comesNext {kind : TokenKind} {p q : Parser σ α}
    (hp : w.advance.current.kind = kind → Sound p R w)
    (hq : w.advance.current.kind ≠ kind → Sound q R w) :
    Sound (Parser.comesNext kind >>= fun b => if b = true then p else q) R w := by
  rw [← Window.upcoming_eq] at hp hq
  unfold Sound
  rw [wp_bind, wp_comesNext]
  exact ite (fun h => hp (beq_iff_eq.1 h)) fun h => hq fun h' => h (beq_iff_eq.2 h')

/-- A token that has to come next. Without it an error is recorded. -/
theorem expect {kind : TokenKind} {p : Parser σ α} {a : α}
    (h : w.advance.current.kind = kind → Sound p R w.advance) :
    Sound (Parser.expectNext kind >>= fun b => if b = true then p else Pure.pure a) R w := by
  unfold Sound
  rw [wp_bind, wp_expectNext]
  split
  · next hk => exact advance (f := fun _ => p) (h (by rwa [← Window.upcoming_eq]))
  · exact report

/-- A token that may come next. -/
theorem pass {kind : TokenKind} {f : Unit → Parser σ α}
    (hp : w.advance.current.kind = kind → Sound (f ()) R w.advance)
    (hq : w.advance.current.kind ≠ kind → Sound (f ()) R w) :
    Sound (Parser.passNext kind >>= f) R w := by
  rw [← Window.upcoming_eq] at hp hq
  unfold Sound
  rw [wp_bind, wp_passNext]
  split
  · next hk => exact advance (hp hk)
  · next hk => exact hq hk

end Sound

/-! ### Constructs -/

/-- The tokens are an expression of the level. -/
def ReadsLevel (level : Level) (w : Window σ) (e : Node) (w' : Window σ) : Prop :=
  ∃ ts, w.Spans ts w' ∧ Expr level ts e

/-- The tokens are an expression of the level of the place, and it goes no further. -/
def ReadsExpr (precedence : Precedence) (w : Window σ) (e : Node) (w' : Window σ) : Prop :=
  ∃ ts, w.Spans ts w' ∧ Expr precedence.level ts e ∧
    w'.advance.current.kind.precedence.rank ≤ precedence.rank

def SoundExpr (expr : Precedence → Parser σ Node) : Prop :=
  ∀ (precedence : Precedence) (w : Window σ), precedence.rank ≤ 6 → w.Sane →
    Sound (expr precedence) (ReadsExpr precedence w) w

/-- An operand of some level that is no looser than `loosest`. What comes next is within the reach of
its level. -/
def ReadsOperand (loosest : Level) (w : Window σ) (e : Node) (w' : Window σ) : Prop :=
  ∃ level ts, w.Spans ts w' ∧ Expr level ts e ∧
    w'.advance.current.kind.precedence.rank ≤ level.reach ∧ loosest.rank ≤ level.rank

theorem ReadsLevel.operand {e : Node} {w' : Window σ} (h : ReadsLevel .primary w e w') :
    ReadsOperand .unary w e w' := by
  obtain ⟨ts, hts, he⟩ := h
  exact ⟨.primary, ts, hts, he, TokenKind.rank_precedence_le _, by decide⟩

theorem sound_integer (hw : w.Sane) (hk : w.current.kind = .int) :
    Sound integer (ReadsLevel .primary w) w := by
  unfold Sound
  rw [wp_integer hk hw.numerals.current]
  split
  · trivial
  split
  · next hm => exact ⟨.refl w, fun _ => ⟨_, .one w, .integer hk hm⟩⟩
  · exact Sound.report

theorem sound_prefixOp {expr : Precedence → Parser σ Node} (hexpr : SoundExpr expr) (hw : w.Sane)
    (hk : w.current.kind = .bang ∨ w.current.kind = .minus) :
    Sound (prefixOp expr) (ReadsOperand .unary w) w := by
  refine .current (.advance (.bind (hexpr .prefixed _ (by decide) hw.advance) fun e w₁ _ => .pure ?_))
  rintro ⟨ts, hts, he, hnext⟩
  exact ⟨.unary, _, .cons hts, .prefixOp hk he, hnext, by decide⟩

variable [LawfulTokenSource σ]

theorem sound_parameters :
    Sound parameters (fun names w' => ∃ ids ts rp, names = some ids ∧
      w.advance.Spans (ts ++ [rp]) w' ∧ Parameters ts ids ∧ rp.kind = .rparen) w := by
  refine .comesNext (fun hr => .advance (.pure ⟨[], [], _, rfl, .one _, .none, hr⟩)) fun _ =>
    .expect fun hi => .current ?_
  refine .bind (.repeatWhile
    (R := fun names w' => ∃ ids ts, names = some ids ∧ w.advance.Spans ts w' ∧ Names ts ids.reverse)
    ⟨_, _, rfl, .one _, .one hi⟩ fun names w' _ hm => ?_) fun names w' _ => ?_
  · refine .advance (.expect fun hi' => .current (.pure ?_))
    simp only [Bool.and_eq_true, beq_iff_eq, Window.upcoming_eq] at hm
    rintro ⟨ids, ts, rfl, hts, hids⟩
    refine ⟨_, _, rfl, hts.append (.cons (.one _)), ?_⟩
    rw [List.reverse_cons]
    exact hids.concat hm.2 hi'
  · cases names with
    | none => exact .pure fun ⟨_, _, h, _⟩ => nomatch h
    | some names =>
      refine .expect fun hr => .pure ?_
      rintro ⟨_, ts, ⟨⟩, hts, hids⟩
      exact ⟨_, ts, _, rfl, hts.concat, .some hids, hr⟩

section

variable {expr : Precedence → Parser σ Node} (hexpr : SoundExpr expr) (hw : w.Sane)
include hexpr hw

/-- What a statement stands for, and that no operator follows where its semicolon is missing. -/
def ReadsStatement (w : Window σ) (s : Node) (w' : Window σ) : Prop :=
  ∃ closed ts, w.Spans ts w' ∧ Statement closed ts s ∧
    (closed = false → w'.advance.current.kind ∉ continuers)

theorem sound_ending {f : Node → Node} :
    Sound (do let e ← expr .lowest; passNext .semicolon; return f e)
      (fun s w' => ∃ closed ts us e, s = f e ∧ w.Spans (ts ++ us) w' ∧ Expr .equality ts e ∧
        Ending closed us ∧ (closed = false → w'.advance.current.kind ∉ continuers)) w := by
  refine .bind (hexpr .lowest w (by decide) hw) fun e w₁ _ => .pass (fun hs => .pure ?_)
    fun _ => .pure ?_
  · rintro ⟨ts, hts, he, -⟩
    exact ⟨true, ts, _, e, rfl, hts.concat, he, .semicolon hs, nofun⟩
  · rintro ⟨ts, hts, he, hnext⟩
    refine ⟨false, ts, [], e, rfl, ?_, he, .missing, fun _ => TokenKind.rank_precedence_le_one_iff.1 hnext⟩
    rwa [List.append_nil]

theorem sound_letStatement (hk : w.current.kind = .letWord) :
    Sound (letStatement expr) (ReadsStatement w) w := by
  refine .current (.expect fun hn => .current (.expect fun ha => .advance
    ((sound_ending hexpr hw.advance.advance.advance).mono ?_)))
  rintro s w' - ⟨closed, ts, us, e, rfl, hts, he, hs, ho⟩
  rw [he.isHole_eq]
  exact ⟨closed, _, .cons (.cons (.cons hts)), .letStatement hk hn ha he hs, ho⟩

theorem sound_returnStatement (hk : w.current.kind = .returnWord) :
    Sound (returnStatement expr) (ReadsStatement w) w := by
  refine .current (.advance ((sound_ending hexpr hw.advance).mono ?_))
  rintro s w' - ⟨closed, ts, us, e, rfl, hts, he, hs, ho⟩
  rw [he.isHole_eq]
  exact ⟨closed, _, .cons hts, .returnStatement hk he hs, ho⟩

theorem sound_expressionStatement : Sound (expressionStatement expr) (ReadsStatement w) w := by
  refine .current ((sound_ending hexpr hw).mono ?_)
  rintro s w' - ⟨closed, ts, us, e, rfl, hts, he, hs, ho⟩
  rw [he.isHole_eq]
  obtain ⟨t, ts, rfl⟩ := List.exists_cons_of_ne_nil he.ne_nil
  obtain ⟨rfl, -⟩ := Window.Spans.cons_iff.1 hts
  exact ⟨closed, _, hts, .expressionStatement he hs, ho⟩

theorem sound_statement : Sound (statement expr) (ReadsStatement w) w := by
  refine .current ?_
  split
  · next hk => exact sound_letStatement hexpr hw hk
  · next hk => exact sound_returnStatement hexpr hw hk
  · exact sound_expressionStatement hexpr hw

theorem sound_statements {ends : TokenKind → Bool} (hends : ends .eof = true) :
    Sound (statements expr ends) (fun ss w' => ∃ ts, w.Passes ts w' ∧ Statements ts ss ∧
      ends w'.current.kind = true) w := by
  refine .bind (.repeatWhile_ends
    (R := fun seen w' => ∃ ts, w.Passes ts w' ∧ Leading ts seen.reverse w'.current) hw.ends
    ⟨[], .nil w, .nil⟩ (fun _ w' he => ?_) fun seen w' hs _ => ?_) fun seen w' _ => .pure ?_
  · rw [he.current, hends]
    rfl
  · simp only [wp_bind, wp_advance, wp_pure]
    refine wp_mono (sound_statement hexpr (hw.slides hs)) ?_
    rintro s w₁ ⟨hs₁, hr⟩
    refine ⟨hs₁.both, fun hsize => ?_⟩
    obtain ⟨closed, us, hus, hst, ho⟩ := hr hsize
    rintro ⟨ts, hts, hlead⟩
    refine ⟨_, .span (hts.append hus), ?_⟩
    rw [hst.isHole_eq]
    simpa using hlead.concat hst hus.head? ho
  · rintro ⟨⟨ts, hts, hlead⟩, hend⟩
    exact ⟨ts, hts, hlead.statements, by simpa using hend⟩

theorem sound_block (hk : w.current.kind = .lbrace) :
    Sound (block expr) (fun e w' => ∃ ts, w.Spans ts w' ∧ Block ts e) w := by
  refine .current (.advance (.bind (sound_statements hexpr hw.advance rfl) fun ss w₁ hs =>
    .current ?_))
  simp only [Sound, wp_bind, wp_ite]
  split
  · rw [wp_report]
    exact Sound.report
  · next he =>
    refine ⟨.refl w₁, fun _ => ?_⟩
    rintro ⟨ts, hts, hss, hend⟩
    have hr : w₁.current.kind = .rbrace := by simpa [he] using hend
    exact ⟨_, .cons hts.spans, .braces hk hr hss⟩

theorem sound_grouped (hk : w.current.kind = .lparen) :
    Sound (grouped expr) (ReadsLevel .primary w) w := by
  refine .advance (.bind (hexpr .lowest _ (by decide) hw.advance) fun e w₁ _ => .expect fun hr =>
    .pure ?_)
  rintro ⟨ts, hts, he, -⟩
  exact ⟨_, .cons hts.concat, .grouped hk hr he⟩

theorem sound_conditional (hk : w.current.kind = .ifWord) :
    Sound (conditional expr) (ReadsLevel .primary w) w := by
  have hw₁ := hw.advance.advance
  refine .current (.expect fun hl => .advance (.bind (hexpr .lowest _ (by decide) hw₁) fun c w₁ hs₁ =>
    .expect fun hr => .expect fun hb => ?_))
  have hw₂ := (hw₁.slides hs₁).advance.advance
  refine .bind (sound_block hexpr hw₂ hb) fun q w₂ hs₂ => .comesNext (fun ho => ?_) fun _ => .pure ?_
  · have hw₃ := (hw₂.slides hs₂).advance.advance
    refine .advance (.expect fun hb' => .bind (sound_block hexpr hw₃ hb') fun a w₃ _ => .pure ?_)
    rintro ⟨vs, hvs, ha⟩ ⟨us, hus, hq⟩ ⟨ts, hts, hc, -⟩
    exact ⟨_, .cons (.cons (hts.append (.cons (hus.append (.cons hvs))))),
      .alternative hk hl hr ho hc hq ha⟩
  · rintro ⟨us, hus, hq⟩ ⟨ts, hts, hc, -⟩
    exact ⟨_, .cons (.cons (hts.append (.cons hus))), .conditional hk hl hr hc hq⟩

theorem sound_function (hk : w.current.kind = .fnWord) :
    Sound (function expr) (ReadsLevel .primary w) w := by
  refine .current (.expect fun hl => .bind sound_parameters fun names w₁ hs₁ => ?_)
  cases names with
  | none => exact .pure fun ⟨_, _, _, h, _⟩ => nomatch h
  | some names =>
    refine .expect fun hb => .bind (sound_block hexpr (hw.advance.slides hs₁).advance hb)
      fun body w₂ _ => .pure ?_
    rintro ⟨us, hus, hb⟩ ⟨_, ts, rp, ⟨⟩, hts, hp, hr⟩
    refine ⟨_, .cons (.cons (hts.append hus)), ?_⟩
    rw [List.append_assoc]
    exact .function hk hl hr hp hb

theorem sound_expressionList (close : TokenKind) :
    Sound (expressionList expr close) (fun elements w' => ∃ es ts last, elements = some es ∧
      w.advance.Spans (ts ++ [last]) w' ∧ Elements ts es ∧ last.kind = close) w := by
  refine .comesNext (fun hr => .advance (.pure ⟨[], [], _, rfl, .one _, .none, hr⟩)) fun _ =>
    .advance (.bind (hexpr .lowest _ (by decide) hw.advance) fun first w₁ hs₁ => ?_)
  refine .bind (.repeatWhile
    (R := fun elements w' => ReadsExpr .lowest w.advance first w₁ →
      ∃ ts, w.advance.Spans ts w' ∧ Exprs ts elements.reverse)
    ?_ fun elements w' hs' hm => ?_) fun elements w' _ => .expect fun hr => .pure ?_
  · rintro ⟨ts, hts, he, -⟩
    exact ⟨ts, hts, .one he⟩
  · have hw' := (hw.advance.slides hs₁).slides hs'
    refine .advance (.advance (.bind (hexpr .lowest _ (by decide) hw'.advance.advance) fun e w₂ _ =>
      .pure ?_))
    rintro ⟨us, hus, he, -⟩ hes hfirst
    obtain ⟨ts, hts, hes⟩ := hes hfirst
    rw [beq_iff_eq, Window.upcoming_eq] at hm
    refine ⟨_, hts.append (.cons hus), ?_⟩
    rw [List.reverse_cons]
    exact hes.concat hm he
  · intro hes hfirst
    obtain ⟨ts, hts, hes⟩ := hes hfirst
    exact ⟨_, ts, _, rfl, hts.concat, .some hes, hr⟩

theorem sound_array (hk : w.current.kind = .lbracket) :
    Sound (array expr) (ReadsLevel .primary w) w := by
  refine .current (.bind (sound_expressionList hexpr hw .rbracket) fun elements w₁ _ => ?_)
  cases elements with
  | none => exact .pure fun ⟨_, _, _, h, _⟩ => nomatch h
  | some elements =>
    refine .pure ?_
    rintro ⟨_, ts, last, ⟨⟩, hts, hes, hr⟩
    exact ⟨_, .cons hts, .array hk hr hes⟩

end

/-! ### Operators -/

section

variable {expr : Precedence → Parser σ Node} (hexpr : SoundExpr expr)
include hexpr

/-- What an expression begins with is an operand that only calls and subscripts go on with, or none
at all. -/
theorem sound_beginning (hw : w.Sane) {first : Construct}
    (hf : Rules.standard.beginning w.current.kind = some first) :
    Sound (construct expr first) (ReadsOperand .unary w) w := by
  have leaf : ∀ {e : Node}, Expr .primary [w.current] e → Sound (Pure.pure e) (ReadsOperand .unary w) w :=
    fun h => .pure (ReadsLevel.operand ⟨_, .one w, h⟩)
  have inner : ∀ {p : Parser σ Node}, Sound p (ReadsLevel .primary w) w →
      Sound p (ReadsOperand .unary w) w := fun h => h.mono fun _ _ _ => ReadsLevel.operand
  cases hk : w.current.kind <;> rw [hk] at hf <;> cases hf
  case ident => exact .current (leaf (.identifier hk))
  case int => exact inner (sound_integer hw hk)
  case string => exact .current (leaf (.string hk))
  case trueWord =>
    refine .current (leaf ?_)
    rw [hk]
    exact .trueWord hk
  case falseWord =>
    refine .current (leaf ?_)
    rw [hk]
    exact .falseWord hk
  case bang => exact sound_prefixOp hexpr hw (.inl hk)
  case minus => exact sound_prefixOp hexpr hw (.inr hk)
  case lparen => exact inner (sound_grouped hexpr hw hk)
  case ifWord => exact inner (sound_conditional hexpr hw hk)
  case fnWord => exact inner (sound_function hexpr hw hk)
  case lbracket => exact inner (sound_array hexpr hw hk)

variable {precedence : Precedence} (hp : precedence.rank ≤ 6)
include hp

/-- An operator at which the loop goes on makes an operand of its own level. -/
theorem sound_continuation {w₁ : Window σ} (hw : w₁.advance.Sane) (left : Node)
    {next : Continuation}
    (hn : Rules.standard.following w₁.advance.current.kind = some next)
    (hr : precedence.rank < w₁.advance.current.kind.precedence.rank) :
    Sound (continuation expr left next)
      (fun e w' => ReadsOperand precedence.level w left w₁ → ReadsOperand precedence.level w e w')
      w₁.advance := by
  have hfloor : precedence.level.rank ≤ Level.applied.rank :=
    (Precedence.rank_level_le hp).trans (by decide)
  cases next with
  | infixOp =>
    obtain ⟨ho, hrank, htight, hfive, hne⟩ := TokenKind.mem_operators_level hn
    refine .current (.advance (.bind (hexpr _ _ (by omega) hw.advance) fun e w₂ _ => .pure ?_))
    rintro ⟨us, hus, he, hnext⟩ ⟨level, ts, hts, hleft, hreach, -⟩
    rw [htight] at he
    -- The operator is within the reach of the operand, so the operand is also one of its level.
    have ha := hleft.loosen (Level.rank_le_of_reach (hrank ▸ hreach) hne)
    exact ⟨_, _, hts.append (.cons hus), .infixOp ho ha he, hrank ▸ hnext,
      TokenKind.rank_level_le_of_lt hr hrank hp⟩
  | call =>
    have hk : w₁.advance.current.kind = .lparen := TokenKind.following_eq_call_iff.1 hn
    refine .current (.bind (sound_expressionList hexpr hw .rparen) fun elements w₂ _ => ?_)
    cases elements with
    | none => exact .pure fun ⟨_, _, _, h, _⟩ => nomatch h
    | some elements =>
      refine .pure ?_
      rintro ⟨_, us, last, ⟨⟩, hus, hes, hlast⟩ ⟨level, ts, hts, hleft, hreach, -⟩
      rw [hk] at hreach
      have hf := hleft.loosen (Level.applied_rank_le hreach)
      exact ⟨_, _, hts.append (.cons hus), .call hk hlast hf hes, TokenKind.rank_precedence_le _, hfloor⟩
  | index =>
    have hk : w₁.advance.current.kind = .lbracket := TokenKind.following_eq_index_iff.1 hn
    refine .current (.advance (.bind (hexpr .lowest _ (by decide) hw.advance) fun e w₂ _ =>
      .expect fun hr => .pure ?_))
    rintro ⟨us, hus, he, -⟩ ⟨level, ts, hts, hleft, hreach, -⟩
    rw [hk] at hreach
    have ha := hleft.loosen (Level.applied_rank_le (Nat.le_trans (by decide) hreach))
    exact ⟨_, _, hts.append (.cons hus.concat), .index hk hr ha he, TokenKind.rank_precedence_le _,
      hfloor⟩

/-- The loop over operators keeps an operand, and stops where the place does. -/
theorem sound_climb (hw : w.Sane) :
    Sound (climb Rules.standard expr precedence) (ReadsExpr precedence w) w := by
  refine .current ?_
  dsimp only
  split
  · exact Sound.report
  next first hf =>
  -- Whether the first operand was read without an error is only known at the end, so the invariant
  -- has it as a premise.
  refine .bind (sound_beginning hexpr hw hf) fun left w₁ hs₁ => .mono (.repeatWhile_ends
    (R := fun e w' => ReadsOperand .unary w left w₁ → ReadsOperand precedence.level w e w')
    (hw.slides hs₁).ends ?_ (fun _ w' he => ?_) fun left w' hs' hm => ?_) ?_
  · rintro ⟨level, ts, hts, he, hreach, hfloor⟩
    exact ⟨level, ts, hts, he, hreach, (Precedence.rank_level_le hp).trans hfloor⟩
  · rw [goesOn_eq, he.upcoming]
    cases precedence <;> rfl
  · rw [goesOn_eq, decide_eq_true_eq, Window.upcoming_eq] at hm
    have hone := precedence.one_le_rank
    obtain ⟨next, hn⟩ := Option.isSome_iff_exists.1 (TokenKind.isSome_following (Nat.lt_of_le_of_lt hone hm)).2
    have hw' := ((hw.slides hs₁).slides hs').advance
    simp only [goOn, wp_bind, wp_advance, wp_current, hn]
    have hnext := sound_continuation (w := w) hexpr hp hw' left hn hm
    exact wp_mono hnext fun e w₂ h => ⟨h.1, fun hsize ho hfirst => h.2 hsize (ho hfirst)⟩
  · rintro e w' - ⟨ho, hm⟩ hfirst
    obtain ⟨level, ts, hts, he, -, hfloor⟩ := ho hfirst
    rw [goesOn_eq, decide_eq_false_iff_not, Nat.not_lt, Window.upcoming_eq] at hm
    exact ⟨ts, hts, he.loosen hfloor, hm⟩

end

theorem sound_expression (depth : Nat) :
    SoundExpr (expression (σ := σ) Rules.standard depth) := by
  induction depth with
  | zero => exact fun _ _ _ _ => trivial
  | succ depth ih => exact fun precedence w hp hw => sound_climb ih hp hw

/-- A program that is read without an error is derived from the tokens up to the end of the input. -/
theorem sound_program (hw : w.Sane) (depth : Nat) :
    Sound (program (expression Rules.standard depth))
      (fun e w' => ∃ ts, w.Spans (ts ++ [w'.current]) w' ∧ Program (ts ++ [w'.current]) e ∧
        Inner ts ∧ w'.current.kind = .eof) w := by
  refine .bind (sound_statements (sound_expression depth) hw rfl) fun ss w' _ => .pure ?_
  rintro ⟨ts, hts, hss, hend⟩
  have he : w'.current.kind = .eof := beq_iff_eq.1 hend
  exact ⟨ts, hts.spans, .statements he hss, hss.inner, he⟩

end Parser

end Scriptlet
