import Scriptlet.Proofs.Parse.Complete
import Scriptlet.Proofs.Parse.Sound
import Scriptlet.Session

/-!
# The language of the parser

Soundness and completeness for the window on a source: it is read as a program without a syntax error
if and only if its tokens have a derivation, and then as the tree of that derivation.
-/

namespace Scriptlet

open Scriptlet.Grammar

/-- A source is read in full and without syntax errors exactly if the parser ends like that. -/
theorem parse_eq_ok_iff {limits : Limits} {source : String} {p : Node} :
    parse limits source = .ok ⟨p, []⟩ ↔
      ∃ w', Parser.program (Parser.expression Rules.standard limits.reading) (Feed.window source) =
        .ok (p, w') ∧ w'.errors.size = 0 := by
  unfold parse parseWindow
  split
  · next cause h =>
    refine ⟨nofun, ?_⟩
    rintro ⟨w', hw, -⟩
    rw [h] at hw
    cases hw
  · next program w' h =>
    refine ⟨fun hp => ?_, ?_⟩
    · simp only [Except.ok.injEq, Parsed.mk.injEq] at hp
      obtain ⟨rfl, he⟩ := hp
      refine ⟨w', h, ?_⟩
      rw [← Array.length_toList, he]
      rfl
    · rintro ⟨w'', hw, hsize⟩
      rw [h] at hw
      cases hw
      rw [Array.eq_empty_of_size_eq_zero hsize]

theorem program_of_parse {limits : Limits} {source : String} {p : Node}
    (h : parse limits source = .ok ⟨p, []⟩) : Program (tokenize source) p := by
  obtain ⟨w', hrun, hsize⟩ := parse_eq_ok_iff.1 h
  have hsound := Parser.wp_true_iff.1
    (Parser.sound_program (Window.sane_window source) limits.reading) p w' hrun
  obtain ⟨ts, hspan, hp, hinner, heof⟩ := hsound.2 hsize
  rwa [hspan.eq_tokensOf (Window.source_window source) hinner heof] at hp

theorem fits_window {source : String} (depth : Nat)
    (h : ∀ t ∈ tokenize source, t.kind = .int → t.literal.length ≤ maxDigits) :
    (Feed.window source).Fits (depth < (tokenize source).length) depth (tokenize source).length where
  numerals := Window.all_numeral_text (Window.source_window source)
  short := Window.all_window h nofun
  budget := length_tokenize_le source
  depth hd := hd

theorem parse_of_program {limits : Limits} {source : String} {p : Node}
    (hd : ∀ t ∈ tokenize source, t.kind = .int → t.literal.length ≤ maxDigits)
    (h : Program (tokenize source) p) :
    parse limits source = .ok ⟨p, []⟩ ∨
      parse limits source = .error .tooDeep ∧ limits.reading < (tokenize source).length := by
  obtain ⟨w', hspan⟩ := Window.spans_text (Window.source_window source)
  have hrun := Parser.complete_program h hspan (fits_window limits.reading hd)
  unfold Parser.Yields Parser.wp at hrun
  split at hrun
  · next p' w'' hp =>
    obtain ⟨rfl, rfl⟩ := hrun
    refine .inl (parse_eq_ok_iff.2 ⟨w'', hp, ?_⟩)
    rw [hspan.errors_eq]
    rfl
  · next cause hp =>
    obtain ⟨rfl, hdeep⟩ := hrun
    refine .inr ⟨?_, hdeep⟩
    unfold parse parseWindow
    rw [hp]

/-- The parser accepts exactly the grammar and builds its tree. A source whose integers are not
overlong is read as the program `p` without syntax errors if and only if its tokens derive `p`, unless
its expressions are nested too deep; and they are not where the limit allows for all its tokens. -/
theorem parse_accepts_exactly_grammar (limits : Limits) (source : String) (p : Node)
    (hdigits : ∀ t ∈ tokenize source, t.kind = .int → t.literal.length ≤ maxDigits)
    (hdeep : parse limits source ≠ .error .tooDeep ∨ (tokenize source).length ≤ limits.reading) :
    parse limits source = .ok ⟨p, []⟩ ↔ Program (tokenize source) p := by
  refine ⟨program_of_parse, fun h => ?_⟩
  rcases parse_of_program hdigits h with hok | ⟨herror, hlimit⟩
  · exact hok
  · rcases hdeep with hdeep | hdeep
    · exact absurd herror hdeep
    · omega

/-- Two statements with no semicolon between them, and operators of five levels. -/
theorem juxtaposed_statements_derived :
    (∀ t ∈ tokenize "let a = -b * 2 a(1)[0] == c", t.kind = .int → t.literal.length ≤ maxDigits) ∧
    (tokenize "let a = -b * 2 a(1)[0] == c").length ≤ Limits.standard.reading ∧
    Program (tokenize "let a = -b * 2 a(1)[0] == c") (.program
      [.letStatement ⟨.letWord, "let"⟩ (some ⟨⟨.ident, "a"⟩, "a"⟩)
        (.infixOp ⟨.asterisk, "*"⟩ "*"
          (.prefixOp ⟨.minus, "-"⟩ "-" (.identifier ⟨⟨.ident, "b"⟩, "b"⟩)) (.integer ⟨.int, "2"⟩ 2)),
       .expressionStatement ⟨.ident, "a"⟩
        (.infixOp ⟨.eq, "=="⟩ "=="
          (.index ⟨.lbracket, "["⟩
            (.call ⟨.lparen, "("⟩ (.identifier ⟨⟨.ident, "a"⟩, "a"⟩) [.integer ⟨.int, "1"⟩ 1])
            (.integer ⟨.int, "0"⟩ 0))
          (.identifier ⟨⟨.ident, "c"⟩, "c"⟩))]) := by
  refine ⟨by decide +kernel, by decide +kernel, ?_⟩
  exact (parse_accepts_exactly_grammar Limits.standard _ _ (by decide +kernel)
    (.inr (by decide +kernel))).1 rfl

end Scriptlet
