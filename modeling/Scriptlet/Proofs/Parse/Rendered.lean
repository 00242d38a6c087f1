import Mathlib.Data.List.Forall2
import Scriptlet.Node.Render
import Scriptlet.Proofs.Node.Spelled
import Scriptlet.Proofs.Parse.Pieces
import Scriptlet.Proofs.Token.Lexemes

/-!
# Canonical text parses back

Canonical text puts every operation and every subscript in parentheses, but neither calls nor arrays. So
whatever it puts at the place of an operand is read there as a whole: the text of an expression has a derivation
of the same tree on a level that all operands take (`Rereads`). Unlike a spelling the text has blanks only around
infix operators and after commas. That is enough, because a word or a number is followed by a blank or a mark
wherever it stands, and an operator before its operand by neither of the characters that it could take in.

Statements are read back one by one if their text tells where they end. Bindings and returned values do, by
their semicolons, and of other expressions only the last (`Delimited`).
-/

namespace Scriptlet

open Scriptlet.Grammar

namespace Node

mutual

/-- Trees of names, numbers, truth values, operators, calls, arrays and subscripts. -/
def isSimple : Node → Bool
  | .identifier _ | .integer _ _ | .boolean _ _ => true
  | .prefixOp _ _ right => right.isSimple
  | .infixOp _ _ left right => left.isSimple && right.isSimple
  | .call _ callee arguments => callee.isSimple && areSimple arguments
  | .array _ elements => areSimple elements
  | .index _ left subscript => left.isSimple && subscript.isSimple
  | _ => false

def areSimple : List Node → Bool
  | [] => true
  | node :: nodes => node.isSimple && areSimple nodes

end

/-- Bindings and returned values, the text of which ends with a semicolon. -/
def isClosed : Node → Bool
  | .letStatement _ _ value | .returnStatement _ value => value.isSimple
  | _ => false

/-- Statements that end with a semicolon, except that the last may be an expression. -/
inductive Delimited : List Node → Prop
  | nil : Delimited []
  | last (token : Token) {e : Node} (h : e.isSimple = true) : Delimited [.expressionStatement token e]
  | cons {s : Node} {ss : List Node} (hs : s.isClosed = true) (h : Delimited ss) : Delimited (s :: ss)

/-- The same statement, or one that is the same expression and begins with another token. -/
def SameStatement (s s' : Node) : Prop :=
  s = s' ∨ ∃ token token' e, s = .expressionStatement token e ∧ s' = .expressionStatement token' e

theorem SameStatement.render_eq {s s' : Node} (h : SameStatement s s') : s'.render = s.render := by
  rcases h with rfl | ⟨token, token', e, rfl, rfl⟩
  · rfl
  · rw [render, render]

theorem render_program_eq {ss ss' : List Node} (h : List.Forall₂ SameStatement ss ss') :
    (Node.program ss').render = (Node.program ss).render := by
  have hall : renderAll ss' = renderAll ss := by
    induction h with
    | nil => rfl
    | cons hs _ ih => rw [renderAll, renderAll, hs.render_eq, ih]
  rw [render, render, hall]

end Node

/-! ### Tokens in canonical text -/

/-- The kinds of token that are an expression by themselves and stand in no quotes. -/
def TokenKind.atoms : List TokenKind := [.ident, .int, .trueWord, .falseWord]

theorem stops_space (cs : List Char) : Stops (' ' :: cs) := by
  rintro _ ⟨⟩
  exact ⟨rfl, rfl⟩

section

variable {t : Token} (ht : t.WellFormed)
include ht

theorem Token.WellFormed.mark_eq {kind : TokenKind} (hk : t.kind = kind) (hf : kind ∈ TokenKind.fixed) :
    .mark kind = t := by
  subst hk
  cases ht with
  | fixed => rfl
  | @word c cs =>
    have hnot : ∀ kind ∈ TokenKind.words, kind ∉ TokenKind.fixed := by decide
    exact absurd hf (hnot _ (ofWord_mem_words _))
  | integer | string | illegal => simp [TokenKind.fixed] at hf

theorem tokensOf_atom_append (hk : t.kind ∈ TokenKind.atoms) {rest : List Char} (hr : Stops rest) :
    tokensOf (t.literal.toList ++ rest) = t :: tokensOf rest := by
  cases ht with
  | @fixed kind h =>
    have hnot : ∀ kind ∈ TokenKind.fixed, kind ∉ TokenKind.atoms := by decide
    exact absurd hk (hnot kind h)
  | word h =>
    rw [String.toList_ofList]
    exact tokensOf_word_append hr h
  | integer h =>
    rw [String.toList_ofList]
    exact tokensOf_digits_append hr (List.cons_ne_nil _ _) h
  | string | illegal => simp [TokenKind.atoms] at hk

/-- A token of any kind but one is read from its literal, if a blank follows. -/
theorem tokensOf_literal_append (hk : t.kind ≠ .string) (cs : List Char) :
    tokensOf (t.literal.toList ++ ' ' :: cs) = t :: tokensOf cs := by
  have hsep : Separated (' ' :: cs) := by
    rintro _ ⟨⟩
    rfl
  have hspace : tokensOf (' ' :: cs) = tokensOf cs := @tokensOf_blanks_append [' '] (by simp [isBlank]) cs
  have hread := tokensOf_text_append hsep.ends ht
  rwa [Token.text, if_neg hk, hspace] at hread

/-- A sign before an operand is a token of its own, unless an equals sign follows. -/
theorem tokensOf_sign_append (hk : t.kind = .bang ∨ t.kind = .minus) {cs : List Char} (hc : cs.head? ≠ some '=') :
    tokensOf (t.literal.toList ++ cs) = t :: tokensOf cs := by
  rcases hk with hk | hk
  · obtain rfl : .mark .bang = t := ht.mark_eq hk (by decide)
    show tokensOf ('!' :: cs) = _
    rw [tokensOf_cons rfl]
    cases cs with
    | nil => rfl
    | cons c cs =>
      have hne : c ≠ '=' := fun h => hc (congrArg some h)
      simp [scanAt, scanEquals, hne, Token.mark, TokenKind.symbol]
  · obtain rfl : .mark .minus = t := ht.mark_eq hk (by decide)
    exact tokensOf_mark rfl cs

end

theorem ne_string_of_mem_operators {level : Level} {kind : TokenKind} (h : kind ∈ level.operators) :
    kind ≠ .string := by
  rintro rfl
  revert h
  cases level <;> decide

/-- No expression begins with an equals sign. -/
theorem head?_ne_equals {cs : List Char} {level : Level} {ts us : List Token} {e : Node}
    (h : tokensOf cs = ts ++ us) (he : Expr level ts e) : cs.head? ≠ some '=' := by
  intro hc
  obtain ⟨cs, rfl⟩ := List.head?_eq_some_iff.1 hc
  obtain ⟨t, ts, rfl⟩ := List.exists_cons_of_ne_nil he.ne_nil
  rw [tokensOf_cons rfl] at h
  have hbegins := he.begins t rfl
  rw [← (List.cons.inj h).1] at hbegins
  rcases scanEquals_cases ⟨.assign, "="⟩ ⟨.eq, "=="⟩ cs with hs | hs <;>
    · rw [show scanAt '=' cs = scanEquals ⟨.assign, "="⟩ ⟨.eq, "=="⟩ cs from rfl, hs] at hbegins
      cases hbegins

/-! ### Expressions -/

/-- The text has the tokens, if what follows does not go on with a word or a number, and no integer among them
is overlong. -/
structure Scans (text : String) (ts : List Token) : Prop where
  short : ∀ t ∈ ts, t.Short
  tokens : ∀ {rest : List Char}, Stops rest → tokensOf (text.toList ++ rest) = ts ++ tokensOf rest

/-- The canonical text of an expression has a derivation of the same tree, and it may be an operand as it is. -/
structure Rereads (e : Node) (ts : List Token) : Prop where
  derived : Expr .applied ts e
  text : Scans e.render ts

/-- Tokens that can be read from their text. -/
def Readable (ts : List Token) : Prop := ∀ t ∈ ts, t.WellFormed ∧ t.Short

theorem short_of_kind {t : Token} {kind : TokenKind} (h : t.kind = kind) (hk : kind ≠ .int) : t.Short :=
  fun hi => absurd (h.symm.trans hi) hk

theorem short_mark {kind : TokenKind} (hk : kind ≠ .int) : (Token.mark kind).Short := short_of_kind rfl hk

section

variable {a b : Node} {ts us : List Token}

theorem rereads_atom {t : Token} {e : Node} (he : Expr .primary [t] e) (hrender : e.render = t.literal)
    (hk : t.kind ∈ TokenKind.atoms) (ht : t.WellFormed ∧ t.Short) : Rereads e [t] where
  derived := he.loosen (by decide)
  text := by
    refine ⟨by simpa using ht.2, fun hr => ?_⟩
    rw [hrender]
    exact tokensOf_atom_append ht.1 hk hr

theorem Rereads.prefixOp {op : Token} (ho : op.kind = .bang ∨ op.kind = .minus) (hop : op.WellFormed)
    (h : Rereads a ts) :
    Rereads (.prefixOp op op.literal a) (.mark .lparen :: (op :: ts ++ [.mark .rparen])) where
  derived := by
    have hwhole : Expr .unary (op :: ts) (.prefixOp op op.literal a) := .prefixOp ho (h.derived.loosen (by decide))
    exact Expr.loosen (.grouped rfl rfl (hwhole.loosen (by decide))) (by decide)
  text := by
    have hshort : op.Short := by
      rcases ho with ho | ho <;> exact short_of_kind ho (by decide)
    refine ⟨?_, fun {rest} hr => ?_⟩
    · simp only [List.cons_append, List.forall_mem_cons, List.forall_mem_append]
      exact ⟨short_mark (by decide), hshort, h.text.short, short_mark (by decide), List.forall_mem_nil _⟩
    · have htext : (Node.prefixOp op op.literal a).render.toList ++ rest =
          '(' :: (op.literal.toList ++ (a.render.toList ++ ')' :: rest)) := by
        simp [Node.render]
      have ha := h.text.tokens (stops_cons (show TokenKind.ofChar? ')' = some .rparen from rfl) rest)
      rw [htext, tokensOf_mark rfl, tokensOf_sign_append hop ho (head?_ne_equals ha h.derived), ha, tokensOf_mark rfl]
      simp

theorem Rereads.infixOp {level : Level} {op : Token} (ho : op.kind ∈ level.operators) (hop : op.WellFormed)
    (ha : Rereads a ts) (hb : Rereads b us) :
    Rereads (.infixOp op op.literal a b) (.mark .lparen :: (ts ++ op :: us ++ [.mark .rparen])) where
  derived := by
    have hrank : level.tighter.rank ≤ Level.applied.rank ∧ level.rank ≤ Level.applied.rank := by
      revert ho
      cases level <;> first | exact fun _ => by decide | exact fun h => by cases h
    have hwhole : Expr level (ts ++ op :: us) (.infixOp op op.literal a b) :=
      .infixOp ho (ha.derived.loosen hrank.2) (hb.derived.loosen hrank.1)
    exact Expr.loosen (.grouped rfl rfl (hwhole.loosen (Nat.zero_le _))) (by decide)
  text := by
    refine ⟨?_, fun {rest} hr => ?_⟩
    · simp only [List.cons_append, List.append_assoc, List.forall_mem_cons, List.forall_mem_append]
      exact ⟨short_mark (by decide), ha.text.short, short_of_kind rfl (ne_of_mem_operators ho).2, hb.text.short,
        short_mark (by decide), List.forall_mem_nil _⟩
    · have htext : (Node.infixOp op op.literal a b).render.toList ++ rest =
          '(' :: (a.render.toList ++ ' ' :: (op.literal.toList ++ ' ' :: (b.render.toList ++ ')' :: rest))) := by
        simp [Node.render]
      have hspace : ∀ cs, tokensOf (' ' :: cs) = tokensOf cs :=
        @tokensOf_blanks_append [' '] (by simp [isBlank])
      rw [htext, tokensOf_mark rfl, ha.text.tokens (stops_space _), hspace,
        tokensOf_literal_append hop (ne_string_of_mem_operators ho), hb.text.tokens (stops_cons rfl rest),
        tokensOf_mark rfl]
      simp

theorem Rereads.index {lb : Token} (hl : lb.kind = .lbracket) (hlb : lb.WellFormed) (ha : Rereads a ts)
    (hb : Rereads b us) :
    Rereads (.index lb a b) (.mark .lparen :: (ts ++ lb :: (us ++ [.mark .rbracket]) ++ [.mark .rparen])) where
  derived := by
    have hwhole : Expr .applied (ts ++ lb :: (us ++ [.mark .rbracket])) (.index lb a b) :=
      .index hl rfl ha.derived (hb.derived.loosen (by decide))
    exact Expr.loosen (.grouped rfl rfl (hwhole.loosen (by decide))) (by decide)
  text := by
    refine ⟨?_, fun {rest} hr => ?_⟩
    · simp only [List.cons_append, List.nil_append, List.append_assoc, List.forall_mem_cons, List.forall_mem_append]
      exact ⟨short_mark (by decide), ha.text.short, short_of_kind hl (by decide), hb.text.short, short_mark (by decide),
        short_mark (by decide), List.forall_mem_nil _⟩
    · have htext : (Node.index lb a b).render.toList ++ rest =
          '(' :: (a.render.toList ++ '[' :: (b.render.toList ++ ']' :: ')' :: rest)) := by
        simp [Node.render]
      rw [htext, tokensOf_mark rfl, ha.text.tokens (stops_cons rfl _), tokensOf_mark rfl,
        hb.text.tokens (stops_cons rfl _), tokensOf_mark rfl, tokensOf_mark rfl, hlb.mark_eq hl (by decide)]
      simp

end

section

variable {es : List Node} {ts us : List Token} (ha : Elements us es)
  (hs : Scans (", ".intercalate (Node.renderAll es)) us)
include ha hs

theorem rereads_array {lb : Token} (hl : lb.kind = .lbracket) (hlb : lb.WellFormed) :
    Rereads (.array lb es) (lb :: (us ++ [.mark .rbracket])) where
  derived := Expr.loosen (.array hl rfl ha) (by decide)
  text := by
    refine ⟨?_, fun {rest} hr => ?_⟩
    · simp only [List.forall_mem_cons, List.forall_mem_append]
      exact ⟨short_of_kind hl (by decide), hs.short, short_mark (by decide), List.forall_mem_nil _⟩
    · have htext : (Node.array lb es).render.toList ++ rest =
          '[' :: ((", ".intercalate (Node.renderAll es)).toList ++ ']' :: rest) := by
        simp [Node.render]
      rw [htext, tokensOf_mark rfl, hs.tokens (stops_cons rfl _), tokensOf_mark rfl,
        hlb.mark_eq hl (by decide)]
      simp

theorem Rereads.call {f : Node} {lp : Token} (hl : lp.kind = .lparen) (hlp : lp.WellFormed) (h : Rereads f ts) :
    Rereads (.call lp f es) (ts ++ lp :: (us ++ [.mark .rparen])) where
  derived := .call hl rfl h.derived ha
  text := by
    refine ⟨?_, fun {rest} hr => ?_⟩
    · simp only [List.forall_mem_cons, List.forall_mem_append]
      exact ⟨h.text.short, short_of_kind hl (by decide), hs.short, short_mark (by decide), List.forall_mem_nil _⟩
    · have htext : (Node.call lp f es).render.toList ++ rest =
          f.render.toList ++ '(' :: ((", ".intercalate (Node.renderAll es)).toList ++ ')' :: rest) := by
        simp [Node.render]
      rw [htext, h.text.tokens (stops_cons rfl _), tokensOf_mark rfl, hs.tokens (stops_cons rfl _), tokensOf_mark rfl,
        hlp.mark_eq hl (by decide)]
      simp

end

/-! ### Derivations of canonical text -/

theorem readable_cons {t : Token} {ts : List Token} :
    Readable (t :: ts) ↔ (t.WellFormed ∧ t.Short) ∧ Readable ts := List.forall_mem_cons

theorem readable_append {ts us : List Token} : Readable (ts ++ us) ↔ Readable ts ∧ Readable us :=
  List.forall_mem_append

theorem Scans.comma {first others : String} {ts us : List Token} (h : Scans first ts) (hs : Scans others us) :
    Scans (first ++ ", " ++ others) (ts ++ .mark .comma :: us) where
  short := by
    simp only [List.forall_mem_append, List.forall_mem_cons]
    exact ⟨h.short, short_mark (by decide), hs.short⟩
  tokens {rest} hr := by
    have htext : (first ++ ", " ++ others).toList ++ rest =
        first.toList ++ ',' :: ([' '] ++ (others.toList ++ rest)) := by simp
    rw [htext, h.tokens (stops_cons rfl _), tokensOf_mark rfl, tokensOf_blanks_append (by simp [isBlank]),
      hs.tokens hr]
    simp

namespace Grammar

mutual

theorem Expr.rereads : ∀ {level : Level} {ts : List Token} {e : Node}, Expr level ts e → Readable ts →
    e.isSimple = true → ∃ us, Rereads e us
  | _, _, _, .tighter h, ht, hs => h.rereads ht hs
  | _, _, _, .grouped _ _ h, ht, hs => by
    simp only [readable_cons, readable_append] at ht
    exact h.rereads ht.2.1 hs
  | _, _, _, .infixOp ho ha hb, ht, hs => by
    simp only [readable_cons, readable_append] at ht
    rw [Node.isSimple, Bool.and_eq_true] at hs
    obtain ⟨us, ha⟩ := ha.rereads ht.1 hs.1
    obtain ⟨vs, hb⟩ := hb.rereads ht.2.2 hs.2
    exact ⟨_, ha.infixOp ho ht.2.1.1 hb⟩
  | _, _, _, .prefixOp ho h, ht, hs => by
    rw [readable_cons] at ht
    rw [Node.isSimple] at hs
    obtain ⟨us, h⟩ := h.rereads ht.2 hs
    exact ⟨_, h.prefixOp ho ht.1.1⟩
  | _, _, _, .call hl _ hf ha, ht, hs => by
    simp only [readable_cons, readable_append] at ht
    rw [Node.isSimple, Bool.and_eq_true] at hs
    obtain ⟨us, hf⟩ := hf.rereads ht.1 hs.1
    obtain ⟨vs, ha, hscans⟩ := ha.rereads ht.2.2.1 hs.2
    exact ⟨_, hf.call ha hscans hl ht.2.1.1⟩
  | _, _, _, .index hl _ ha he, ht, hs => by
    simp only [readable_cons, readable_append] at ht
    rw [Node.isSimple, Bool.and_eq_true] at hs
    obtain ⟨us, ha⟩ := ha.rereads ht.1 hs.1
    obtain ⟨vs, he⟩ := he.rereads ht.2.2.1 hs.2
    exact ⟨_, ha.index hl ht.2.1.1 he⟩
  | _, _, _, .array hl _ he, ht, hs => by
    simp only [readable_cons, readable_append] at ht
    rw [Node.isSimple] at hs
    obtain ⟨us, he, hscans⟩ := he.rereads ht.2.1 hs
    exact ⟨_, rereads_array he hscans hl ht.1.1⟩
  | _, _, _, @Expr.identifier t h, ht, _ =>
    ⟨_, rereads_atom (.identifier h) rfl (by simp [h, TokenKind.atoms]) (ht t (by simp))⟩
  | _, _, _, @Expr.integer t h hm, ht, _ =>
    ⟨_, rereads_atom (.integer h hm) rfl (by simp [h, TokenKind.atoms]) (ht t (by simp))⟩
  | _, _, _, @Expr.trueWord t h, ht, _ =>
    ⟨_, rereads_atom (.trueWord h) rfl (by simp [h, TokenKind.atoms]) (ht t (by simp))⟩
  | _, _, _, @Expr.falseWord t h, ht, _ =>
    ⟨_, rereads_atom (.falseWord h) rfl (by simp [h, TokenKind.atoms]) (ht t (by simp))⟩
  | _, _, _, .string _, _, hs | _, _, _, .conditional .., _, hs | _, _, _, .alternative .., _, hs
  | _, _, _, .function .., _, hs => by simp [Node.isSimple] at hs

theorem Elements.rereads : ∀ {ts : List Token} {es : List Node}, Elements ts es → Readable ts →
    Node.areSimple es = true → ∃ us, Elements us es ∧ Scans (", ".intercalate (Node.renderAll es)) us
  | _, _, .none, _, _ => ⟨[], .none, List.forall_mem_nil _, fun _ => rfl⟩
  | _, _, .some h, ht, hs => by
    obtain ⟨us, h, hscans⟩ := h.rereads ht hs
    exact ⟨us, .some h, hscans⟩

theorem Exprs.rereads : ∀ {ts : List Token} {es : List Node}, Exprs ts es → Readable ts →
    Node.areSimple es = true → ∃ us, Exprs us es ∧ Scans (", ".intercalate (Node.renderAll es)) us
  | _, _, @Exprs.one _ e h, ht, hs => by
    rw [Node.areSimple, Bool.and_eq_true] at hs
    obtain ⟨us, h⟩ := h.rereads ht hs.1
    refine ⟨us, .one (h.derived.loosen (by decide)), ?_⟩
    rw [Node.renderAll, Node.renderAll, String.intercalate_singleton]
    exact h.text
  | _, _, @Exprs.cons _ _ _ e es _ he h, ht, hs => by
    simp only [readable_cons, readable_append] at ht
    rw [Node.areSimple, Bool.and_eq_true] at hs
    obtain ⟨us, he⟩ := he.rereads ht.1 hs.1
    obtain ⟨vs, h, hscans⟩ := h.rereads ht.2.2 hs.2
    refine ⟨us ++ .mark .comma :: vs, .cons rfl (he.derived.loosen (by decide)) h, ?_⟩
    have htext : ", ".intercalate (Node.renderAll (e :: es)) =
        e.render ++ ", " ++ ", ".intercalate (Node.renderAll es) := by
      cases h <;> rw [Node.renderAll, Node.renderAll, String.intercalate_cons_cons]
    rw [htext]
    exact he.text.comma hscans

end

/-- The text of a binding or a returned value ends where its semicolon stands. -/
theorem Statement.rereads {closed : Bool} {ts : List Token} {s : Node} (h : Statement closed ts s)
    (ht : Readable ts) (hs : s.isClosed = true) :
    ∃ us, Statement true us s ∧ (∀ t ∈ us, t.Short) ∧
      ∀ rest, tokensOf (s.render.toList ++ rest) = us ++ tokensOf rest := by
  cases h with
  | @letStatement _ word name _ _ _ e hw hn _ he _ =>
    simp only [readable_cons, readable_append] at ht
    obtain ⟨us, he⟩ := he.rereads ht.2.2.2.1 hs
    have hvalue : Expr .equality us e := he.derived.loosen (by decide)
    refine ⟨word :: name :: .mark .assign :: (us ++ [.mark .semicolon]),
      .letStatement hw hn rfl hvalue (.semicolon rfl), ?_, fun rest => ?_⟩
    · simp only [List.forall_mem_cons, List.forall_mem_append]
      exact ⟨ht.1.2, ht.2.1.2, short_mark (by decide), he.text.short, short_mark (by decide), List.forall_mem_nil _⟩
    · have htext : (Node.letStatement word (some (.ofToken name)) e).render.toList ++ rest =
          word.literal.toList ++ ' ' :: (name.literal.toList ++ ' ' ::
            ((Token.mark .assign).literal.toList ++ ' ' :: (e.render.toList ++ ';' :: rest))) := by
        simp [Node.render, Identifier.ofToken, Token.mark, TokenKind.symbol]
      have hassign : (Token.mark .assign).WellFormed := .fixed (by decide)
      rw [htext, tokensOf_literal_append ht.1.1 (by rw [hw]; decide),
        tokensOf_literal_append ht.2.1.1 (by rw [hn]; decide), tokensOf_literal_append hassign (by decide),
        he.text.tokens (stops_cons rfl _), tokensOf_mark rfl]
      simp
  | @returnStatement _ word _ _ e hw he _ =>
    simp only [readable_cons, readable_append] at ht
    obtain ⟨us, he⟩ := he.rereads ht.2.1 hs
    have hvalue : Expr .equality us e := he.derived.loosen (by decide)
    refine ⟨word :: (us ++ [.mark .semicolon]), .returnStatement hw hvalue (.semicolon rfl), ?_, fun rest => ?_⟩
    · simp only [List.forall_mem_cons, List.forall_mem_append]
      exact ⟨ht.1.2, he.text.short, short_mark (by decide), List.forall_mem_nil _⟩
    · have htext : (Node.returnStatement word e).render.toList ++ rest =
          word.literal.toList ++ ' ' :: (e.render.toList ++ ';' :: rest) := by
        simp [Node.render]
      rw [htext, tokensOf_literal_append ht.1.1 (by rw [hw]; decide), he.text.tokens (stops_cons rfl _),
        tokensOf_mark rfl]
      simp
  | expressionStatement => cases hs

/-- The text of an expression at the end has no semicolon, and as a statement it begins with its own first token. -/
theorem Statement.rereads_last {closed : Bool} {ts : List Token} {token : Token} {e : Node}
    (h : Statement closed ts (.expressionStatement token e)) (ht : Readable ts) (hs : e.isSimple = true) :
    ∃ us first, Statement false us (.expressionStatement first e) ∧ (∀ t ∈ us, t.Short) ∧
      tokensOf (Node.expressionStatement token e).render.toList = us ++ [Token.endOfInput] := by
  cases h with
  | expressionStatement he _ =>
    rw [readable_append] at ht
    obtain ⟨us, hreads⟩ := he.rereads ht.1 hs
    obtain ⟨first, us, rfl⟩ := List.exists_cons_of_ne_nil hreads.derived.ne_nil
    have hvalue : Expr .equality (first :: us) e := hreads.derived.loosen (by decide)
    have htokens := hreads.text.tokens (show Stops [] from nofun)
    refine ⟨first :: us ++ [], first, .expressionStatement hvalue .missing, ?_, ?_⟩
    · rw [List.append_nil]
      exact hreads.text.short
    · rw [Node.render, he.isHole_eq]
      rwa [List.append_nil] at htokens ⊢

theorem Statements.rereads {ts : List Token} {ss : List Node} (h : Statements ts ss) (ht : Readable ts)
    (hd : Node.Delimited ss) :
    ∃ us ss', Statements us ss' ∧ List.Forall₂ Node.SameStatement ss ss' ∧ (∀ t ∈ us, t.Short) ∧
      tokensOf (String.join (Node.renderAll ss)).toList = us ++ [Token.endOfInput] := by
  induction hd generalizing ts with
  | nil => exact ⟨[], [], .nil, .nil, List.forall_mem_nil _, rfl⟩
  | @last token e hs =>
    cases h with
    | cons hstatement _ _ =>
      rw [readable_append] at ht
      obtain ⟨us, first, hstatement, hshort, htokens⟩ := hstatement.rereads_last ht.1 hs
      refine ⟨us ++ [], [.expressionStatement first e], .cons hstatement .nil nofun,
        .cons (.inr ⟨token, first, e, rfl, rfl⟩) .nil, ?_, ?_⟩
      · rwa [List.append_nil]
      · rw [Node.renderAll, Node.renderAll, String.join_cons, String.join_nil, String.append_empty, List.append_nil]
        exact htokens
  | @cons s ss hs _ ih =>
    cases h with
    | cons hstatement h _ =>
      rw [readable_append] at ht
      obtain ⟨us, hstatement, hshort, htokens⟩ := hstatement.rereads ht.1 hs
      obtain ⟨vs, ss', h, hsame, hshorts, hrest⟩ := ih h ht.2
      refine ⟨us ++ vs, s :: ss', .cons hstatement h nofun, .cons (.inl rfl) hsame, ?_, ?_⟩
      · rw [List.forall_mem_append]
        exact ⟨hshort, hshorts⟩
      · rw [Node.renderAll, String.join_cons, String.toList_append, htokens, hrest, List.append_assoc]

end Grammar

/-- The canonical text of a program parses back to the same program, without syntax errors. Every statement is the
same, with all its tokens, except that an expression at the end may be a statement that begins with another token,
and the text of what is read is the same again. The statements are those of a program that was read from some source
without syntax errors, and they end with semicolons up to that expression; of the expressions all are read back that
have neither strings nor conditionals nor functions in them. The one way to fail is that the text is nested too
deep, which it is not where the limit allows for all its tokens. -/
theorem canonical_text_parses_back {limits : Limits} {source : String} {ss : List Node}
    (h : parse limits source = .ok ⟨.program ss, []⟩) (hd : Node.Delimited ss) (limits' : Limits)
    (hdeep : parse limits' (Node.program ss).render ≠ .error .tooDeep ∨
      (tokenize (Node.program ss).render).length ≤ limits'.reading) :
    ∃ ss', parse limits' (Node.program ss).render = .ok ⟨.program ss', []⟩ ∧
      List.Forall₂ Node.SameStatement ss ss' ∧ (Node.program ss').render = (Node.program ss).render := by
  have hread : Readable (tokenize source).dropLast := by
    intro t ht
    have hmem := List.mem_of_mem_dropLast ht
    refine ⟨(wellFormed_of_mem_tokensOf hmem).resolve_right ?_, short_of_parse h t hmem⟩
    rintro rfl
    exact inner_dropLast_tokensOf _ _ ht rfl
  obtain ⟨us, ss', hstatements, hsame, hshort, htokens⟩ :=
    (program_of_parse h).statements_dropLast.rereads hread hd
  have htokens : tokenize (Node.program ss).render = us ++ [Token.endOfInput] := by
    rw [Node.render]
    exact htokens
  have hprogram : Program (tokenize (Node.program ss).render) (.program ss') := by
    rw [htokens]
    exact .statements rfl hstatements
  have hall : ∀ t ∈ tokenize (Node.program ss).render, t.kind = .int → t.literal.length ≤ maxDigits := by
    rw [htokens, List.forall_mem_append]
    exact ⟨hshort, by simp [Token.endOfInput]⟩
  refine ⟨ss', ?_, hsame, Node.render_program_eq hsame⟩
  rcases parse_of_program hall hprogram with hok | ⟨herror, hlimit⟩
  · exact hok
  · rcases hdeep with hdeep | hdeep
    · exact absurd herror hdeep
    · omega

/-- Calls and arrays need no parentheses of their own. The expression at the end begins with one when it is read
again. -/
theorem call_in_subscript_parses_back :
    ∃ ss, ss = [.letStatement ⟨.letWord, "let"⟩ (some ⟨⟨.ident, "a"⟩, "a"⟩)
          (.index ⟨.lbracket, "["⟩
            (.call ⟨.lparen, "("⟩ (.identifier ⟨⟨.ident, "f"⟩, "f"⟩)
              [.array ⟨.lbracket, "["⟩ [.integer ⟨.int, "1"⟩ 1,
                .prefixOp ⟨.bang, "!"⟩ "!" (.identifier ⟨⟨.ident, "b"⟩, "b"⟩)]])
            (.integer ⟨.int, "0"⟩ 0)),
        .expressionStatement ⟨.ident, "a"⟩ (.infixOp ⟨.eq, "=="⟩ "==" (.identifier ⟨⟨.ident, "a"⟩, "a"⟩)
          (.boolean ⟨.trueWord, "true"⟩ true))] ∧
      parse Limits.standard "let a = f([1, !b])[0] a==true" = .ok ⟨.program ss, []⟩ ∧
      Node.Delimited ss ∧
      (Node.program ss).render = "let a = (f([1, (!b)])[0]);(a == true)" ∧
      ∃ ss', parse Limits.standard (Node.program ss).render = .ok ⟨.program ss', []⟩ ∧
        List.Forall₂ Node.SameStatement ss ss' ∧ (Node.program ss').render = (Node.program ss).render := by
  refine ⟨_, rfl, rfl, .cons rfl (.last _ rfl), by decide +kernel, ?_⟩
  exact @canonical_text_parses_back Limits.standard "let a = f([1, !b])[0] a==true" _ rfl
    (.cons rfl (.last _ rfl)) Limits.standard (.inr (by decide +kernel))

end Scriptlet
