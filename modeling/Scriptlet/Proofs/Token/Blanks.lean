import Mathlib.Algebra.Group.Nat.Even
import Scriptlet.Proofs.Token.Lexemes

/-!
# Text around blanks

A blank ends every token but a string. So any row of well-formed tokens can be spelled with blanks in between and
is scanned as the same row, and there are no other rows that scanning can give (`tokenize_respells`).

For the same reason a text can be cut at a blank and its parts scanned apart, unless the blank stands inside a
string (`tokenize_cut_at_blank`). Each string but an unterminated one has two quotes, and no other token has any, so
whether a place is inside a string is told by the parity of the quotes in front of it. The cut that is proved first
is one in front of anything that no token goes on with; it is made at the blank, or else in front of the quote that
opens the unterminated string.
-/

namespace Scriptlet

/-! ### Rows of tokens -/

theorem wellFormed_of_mem_dropLast {cs : List Char} {t : Token} (ht : t ∈ (tokensOf cs).dropLast) : t.WellFormed := by
  obtain ⟨gap, pieces, htokens, -, -, hpieces⟩ := exists_pieces (breaks_nil cs)
  rw [htokens, List.dropLast_concat] at ht
  obtain ⟨p, hp, rfl⟩ := List.mem_map.1 ht
  obtain ⟨front, back, rfl⟩ := List.append_of_mem hp
  exact (hpieces front p back rfl).2.wellFormed

/-- Some token begins with the character, and it is not an illegal one. -/
theorem exists_of_beginsToken {c : Char} (h : beginsToken c = true) :
    ∃ t : Token, t.WellFormed ∧ t.kind ≠ .illegal ∧ t.text.head? = some c := by
  simp only [beginsToken, Bool.or_eq_true, beq_iff_eq, Option.isSome_iff_exists] at h
  rcases h with ((((rfl | rfl) | rfl) | ⟨kind, hk⟩) | hl) | hd
  · exact ⟨⟨.assign, "="⟩, .fixed (by simp [TokenKind.fixed]), by decide, rfl⟩
  · exact ⟨⟨.bang, "!"⟩, .fixed (by simp [TokenKind.fixed]), by decide, rfl⟩
  · exact ⟨⟨.string, ""⟩, @Token.WellFormed.string [] (by simp), by decide, rfl⟩
  · obtain ⟨hmem, hsymbol, -⟩ := TokenKind.ofChar?_eq_some hk
    have hother : kind ≠ .illegal ∧ kind ≠ .string := by
      constructor <;> rintro rfl <;> simp [TokenKind.fixed] at hmem
    refine ⟨⟨kind, kind.symbol⟩, .fixed hmem, hother.1, ?_⟩
    rw [head?_text_of_ne_string hother.2 hsymbol]
    rfl
  · have hmem := ofWord_mem_words (String.ofList [c])
    have hother : ∀ kind ∈ TokenKind.words, kind ≠ .illegal ∧ kind ≠ .string := by decide
    refine ⟨⟨.ofWord (String.ofList [c]), String.ofList [c]⟩, .word (by simpa using hl), (hother _ hmem).1, ?_⟩
    rw [head?_text_of_ne_string (hother _ hmem).2 rfl]
    rfl
  · refine ⟨⟨.int, String.ofList [c]⟩, .integer (by simpa using hd), by simp, ?_⟩
    have hne : TokenKind.int ≠ .string := by decide
    rw [head?_text_of_ne_string hne rfl]
    rfl

/-- Tokens can be respelled. Well-formed tokens that are spelled with blanks in between, however many and of
whichever kind, are scanned as the same tokens, and all tokens of a source are well-formed but the end of the input.
So the rows of tokens that sources have are the rows of well-formed tokens. (A character that no other token begins
with is one that begins none of the well-formed tokens that are not illegal.) -/
theorem tokenize_respells :
    (∀ (ts : List Token) (source : String), (∀ t ∈ ts, t.WellFormed) → Spells ts source.toList →
      tokenize source = ts ++ [Token.endOfInput]) ∧
    (∀ source, tokenize source = (tokenize source).dropLast ++ [Token.endOfInput] ∧
      ∀ t ∈ (tokenize source).dropLast, t.WellFormed) ∧
    (∀ ts, (∃ source, tokenize source = ts ++ [Token.endOfInput]) ↔ ∀ t ∈ ts, t.WellFormed) ∧
    ∀ c, beginsToken c = true ↔ ∃ t : Token, t.WellFormed ∧ t.kind ≠ .illegal ∧ t.text.head? = some c := by
  have hspelled : ∀ (ts : List Token) (source : String), (∀ t ∈ ts, t.WellFormed) → Spells ts source.toList →
      tokenize source = ts ++ [Token.endOfInput] := fun ts source ht hs => tokensOf_of_spells hs ht
  have hscanned : ∀ source, tokenize source = (tokenize source).dropLast ++ [Token.endOfInput] ∧
      ∀ t ∈ (tokenize source).dropLast, t.WellFormed :=
    fun source => ⟨tokensOf_eq_dropLast source.toList, fun t => wellFormed_of_mem_dropLast⟩
  refine ⟨hspelled, hscanned, fun ts => ?_, fun c => ?_⟩
  · constructor
    · rintro ⟨source, hsource⟩ t ht
      refine @wellFormed_of_mem_dropLast source.toList t ?_
      rw [← tokenize, hsource, List.dropLast_concat]
      exact ht
    · intro ht
      have hs := spells_intercalate ts
      rw [← String.toList_ofList (l := [' '].intercalate (ts.map Token.text))] at hs
      exact ⟨_, hspelled ts _ ht hs⟩
  · refine ⟨exists_of_beginsToken, ?_⟩
    rintro ⟨t, ht, hk, hhead⟩
    by_contra hno
    rw [ht.eq_illegal (Bool.eq_false_iff.2 hno) hhead] at hk
    exact hk rfl

/-- An exclamation mark and an equals sign apart, a number and a word, a string with a blank, and an illegal
character. -/
theorem mixed_tokens_respelled :
    let ts := [⟨.bang, "!"⟩, ⟨.assign, "="⟩, ⟨.int, "1"⟩, ⟨.ident, "x"⟩, ⟨.string, "a b"⟩, ⟨.illegal, "@"⟩]
    (∀ t ∈ ts, t.WellFormed) ∧ Spells ts "!\t= 1\r\n\nx \"a b\" @".toList ∧
      tokenize "!\t= 1\r\n\nx \"a b\" @" = ts ++ [Token.endOfInput] := by
  intro ts
  have hwell : ∀ t ∈ ts, t.WellFormed := by
    simp only [ts, List.forall_mem_cons]
    exact ⟨@Token.WellFormed.fixed .bang (by decide), @Token.WellFormed.fixed .assign (by decide),
      @Token.WellFormed.integer '1' [] (List.all_eq_true.1 rfl), @Token.WellFormed.word 'x' [] (List.all_eq_true.1 rfl),
      @Token.WellFormed.string ['a', ' ', 'b'] (List.all_eq_true.1 rfl), @Token.WellFormed.illegal '@' rfl rfl, nofun⟩
  have hblank : ∀ gap ∈ [['\t'], [' '], ['\r', '\n', '\n']], gap ≠ [] ∧ ∀ c ∈ gap, isBlank c = true := by
    simp [isBlank]
  have htab := hblank ['\t'] (by simp)
  have hspace := hblank [' '] (by simp)
  have hlines := hblank ['\r', '\n', '\n'] (by simp)
  have hspells : Spells ts "!\t= 1\r\n\nx \"a b\" @".toList :=
    .cons _ htab.1 htab.2 (.cons _ hspace.1 hspace.2 (.cons _ hlines.1 hlines.2 (.cons _ hspace.1 hspace.2
      (.cons _ hspace.1 hspace.2 (.one _)))))
  exact ⟨hwell, hspells, tokenize_respells.1 ts _ hwell hspells⟩

/-! ### Quotes -/

theorem count_quote_eq_zero {cs : List Char} {p : Char → Bool} (hp : p '"' = false) (h : ∀ c ∈ cs, p c = true) :
    cs.count '"' = 0 := by
  rw [List.count_eq_zero]
  intro hmem
  rw [h _ hmem] at hp
  cases hp

/-- A string has a quote at either end, and there are no others. -/
theorem Token.WellFormed.even_count_quote {t : Token} (h : t.WellFormed) : Even (t.text.count '"') := by
  have hzero : ∀ {cs : List Char}, t.kind ≠ .string → t.literal.toList = cs → cs.count '"' = 0 →
      Even (t.text.count '"') := by
    intro cs hk hl hc
    rw [Token.text, if_neg hk, hl, hc]
    exact Even.zero
  cases h with
  | @fixed kind h =>
    have hnone : ∀ kind ∈ TokenKind.fixed, kind ≠ .string ∧ kind.symbol.toList.count '"' = 0 := by decide
    obtain ⟨hk, hc⟩ := hnone kind h
    exact hzero hk rfl hc
  | @word c cs h =>
    have hk : TokenKind.ofWord (String.ofList (c :: cs)) ≠ .string := fun hk =>
      absurd (hk ▸ ofWord_mem_words (String.ofList (c :: cs))) (by decide)
    exact hzero hk String.toList_ofList (count_quote_eq_zero rfl h)
  | integer h => exact hzero (by simp) String.toList_ofList (count_quote_eq_zero rfl h)
  | @string cs h =>
    have hc := count_quote_eq_zero rfl h
    rw [Token.text, if_pos rfl, String.toList_ofList, List.count_cons_self, List.count_append, hc]
    exact ⟨1, rfl⟩
  | @illegal c hb hc =>
    have hne : '"' ≠ c := by
      rintro rfl
      cases hc
    exact hzero (by simp) String.toList_ofList (List.count_eq_zero.2 (by simpa using hne))

theorem count_quote_dropWhile_isBlank (cs : List Char) : (cs.dropWhile isBlank).count '"' = cs.count '"' := by
  have hblank : (cs.takeWhile isBlank).count '"' = 0 := count_quote_eq_zero rfl fun c hc => List.mem_takeWhile_imp hc
  calc (cs.dropWhile isBlank).count '"'
      = (cs.takeWhile isBlank).count '"' + (cs.dropWhile isBlank).count '"' := by rw [hblank, Nat.zero_add]
    _ = cs.count '"' := by rw [← List.count_append, List.takeWhile_append_dropWhile]

/-! ### Cuts -/

section

variable {rest : List Char} (hr : Ends rest)
include hr

/-- A token with its whole text is scanned as before when something follows that it does not go on with. -/
theorem scanAt_append_of_text {c : Char} {cs : List Char} (ht : (scanAt c cs).1.WellFormed)
    (htext : c :: cs = (scanAt c cs).1.text ++ (scanAt c cs).2) :
    scanAt c (cs ++ rest) = ((scanAt c cs).1, (scanAt c cs).2 ++ rest) := by
  by_cases hend : (scanAt c cs).2 = []
  · rw [hend, List.append_nil] at htext
    obtain ⟨d, ds, hd, -, hscan⟩ := scanAt_text hr ht
    rw [← htext] at hd
    obtain ⟨rfl, rfl⟩ := List.cons.inj hd
    rw [hscan, hend, List.nil_append]
  · exact scanAt_append (.inl hend) rest

/-- Behind an even number of quotes a text can be cut, in front of anything that no token goes on with. -/
theorem tokensOf_append_of_even {cs : List Char} (h : Even (cs.count '"')) :
    tokensOf (cs ++ rest) = (tokensOf cs).dropLast ++ tokensOf rest := by
  induction cs using tokens_induction with
  | blank cs hd =>
    rw [tokensOf_of_blank hd, tokensOf_blanks_append (List.dropWhile_eq_nil_iff.1 hd)]
    rfl
  | token cs c after hd ih =>
    obtain ⟨lexeme, hlexeme, hstands⟩ := stands_scanAt (isBlank_of_dropWhile hd) (breaks_nil (c :: after))
    have hcount : cs.count '"' = lexeme.count '"' + (scanAt c after).2.count '"' := by
      rw [← count_quote_dropWhile_isBlank, hd, hlexeme, List.count_append]
    rcases hstands.shape with hs | ⟨hk, hs, hend⟩
    · rw [hs] at hcount hlexeme
      have heven : Even ((scanAt c after).2.count '"') := by
        rw [hcount, Nat.even_add] at h
        exact h.1 hstands.wellFormed.even_count_quote
      have hd' : (cs ++ rest).dropWhile isBlank = c :: (after ++ rest) := by
        rw [dropWhile_append_of_ne_nil (by simp [hd]), hd]
        rfl
      rw [tokensOf_of_cons hd', scanAt_append_of_text hr hstands.wellFormed hlexeme, tokensOf_of_cons hd,
        List.dropLast_cons_of_ne_nil (tokensOf_ne_nil _), ih heven]
      rfl
    · -- An unterminated string has one quote, and nothing is left behind it.
      have hnone := List.count_eq_zero.2 (hstands.string hk)
      rw [hs, hend, List.count_cons_self, hnone] at hcount
      rw [hcount] at h
      exact absurd h (by decide)

end

/-- Up to its first quote `b` is `q`, and behind that quote it is `r`. If there is none, `q` is all of `b`. -/
structure CutAtQuote (b q r : String) : Prop where
  free : '"' ∉ q.toList
  cut : b = q ++ "\"" ++ r ∨ b = q ∧ r = ""

theorem exists_cutAtQuote (b : String) : ∃ q r, CutAtQuote b q r := by
  by_cases h : '"' ∈ b.toList
  · obtain ⟨qs, rs, hb, hq⟩ := List.eq_append_cons_of_mem h
    refine ⟨String.ofList qs, String.ofList rs, ⟨by rwa [String.toList_ofList], .inl ?_⟩⟩
    rw [← String.toList_inj]
    simp [hb]
  · exact ⟨b, "", ⟨h, .inr ⟨rfl, rfl⟩⟩⟩

/-- The last of the elements that are equal to `a`. -/
theorem exists_last_of_mem {a : Char} {cs : List Char} (h : a ∈ cs) :
    ∃ front back, cs = front ++ a :: back ∧ a ∉ back := by
  obtain ⟨as, bs, hcs, ha⟩ := List.eq_append_cons_of_mem (List.mem_reverse.2 h)
  refine ⟨bs.reverse, as.reverse, ?_, by simpa using ha⟩
  rw [← List.reverse_reverse cs, hcs]
  simp

theorem ends_cons_of_isBlank {w : Char} (hw : isBlank w = true) (cs : List Char) : Ends (w :: cs) := by
  rintro _ ⟨⟩
  exact not_class_of_isBlank hw

theorem ends_cons_quote (cs : List Char) : Ends ('"' :: cs) := by
  rintro _ ⟨⟩
  exact ⟨rfl, rfl, by decide⟩

/-- A string goes on up to the next quote. -/
theorem tokensOf_quote_append {inside : List Char} (hi : '"' ∉ inside) {b q r : String} (h : CutAtQuote b q r) :
    tokensOf ('"' :: (inside ++ b.toList)) =
      ⟨.string, String.ofList (inside ++ q.toList)⟩ :: tokensOf r.toList := by
  have hin : ∀ c ∈ inside ++ q.toList, isInString c = true := by
    intro c hc
    have hne : c ≠ '"' := by
      rintro rfl
      rcases List.mem_append.1 hc with hc | hc
      · exact hi hc
      · exact h.free hc
    simpa [isInString] using hne
  have hscan : scanAt '"' (inside ++ b.toList) = (⟨.string, String.ofList (inside ++ q.toList)⟩, r.toList) := by
    show scanString (inside ++ b.toList) = _
    rcases h.cut with hb | ⟨rfl, rfl⟩
    · have hquote : ∀ c ∈ ('"' :: r.toList).head?, isInString c = false := by
        rintro _ ⟨⟩
        rfl
      have htext : inside ++ b.toList = inside ++ q.toList ++ '"' :: r.toList := by simp [hb]
      rw [scanString, htext, takeWhile_append_stop hin hquote, dropWhile_append_stop hin hquote, List.tail_cons]
    · rw [scanString, List.takeWhile_eq_self_iff.2 hin, List.dropWhile_eq_nil_iff.2 hin]
      rfl
  rw [tokensOf_cons rfl, hscan]

/-- A text can be cut at a blank. Behind an even number of quotes, the tokens of the text are those of its two parts.
Behind an odd number, the blank is inside a string that is unterminated in the first part: the string goes on with
the blank and the second part up to the first quote there, and only what is behind that quote is scanned anew. -/
theorem tokenize_cut_at_blank (a b : String) {w : Char} (hw : isBlank w = true) :
    (Even (a.toList.count '"') →
      tokenize (a ++ String.singleton w ++ b) = (tokenize a).dropLast ++ tokenize b) ∧
    (¬ Even (a.toList.count '"') → ∃ (ts : List Token) (front literal q r : String),
      a = front ++ "\"" ++ literal ∧ '"' ∉ literal.toList ∧
      tokenize a = ts ++ [⟨.string, literal⟩, Token.endOfInput] ∧ CutAtQuote b q r ∧
      tokenize (a ++ String.singleton w ++ b) =
        ts ++ ⟨.string, literal ++ String.singleton w ++ q⟩ :: tokenize r) := by
  have htext : (a ++ String.singleton w ++ b).toList = a.toList ++ w :: b.toList := by simp
  refine ⟨fun heven => ?_, fun hodd => ?_⟩
  · rw [tokenize, htext, tokensOf_append_of_even (ends_cons_of_isBlank hw _) heven]
    have hblank : tokensOf (w :: b.toList) = tokensOf b.toList :=
      tokensOf_congr (List.dropWhile_cons_of_pos hw)
    rw [hblank]
    rfl
  · have hmem : '"' ∈ a.toList := by
      by_contra hno
      rw [List.count_eq_zero.2 hno] at hodd
      exact hodd Even.zero
    obtain ⟨front, back, ha, hback⟩ := exists_last_of_mem hmem
    have hfront : Even (front.count '"') := by
      rw [ha, List.count_append, List.count_cons_self, List.count_eq_zero.2 hback, ← Nat.add_assoc, Nat.add_zero,
        Nat.even_add_one, not_not] at hodd
      exact hodd
    obtain ⟨q, r, hcut⟩ := exists_cutAtQuote b
    have hempty : CutAtQuote "" "" "" := ⟨by simp, .inr ⟨rfl, rfl⟩⟩
    have hclosed := tokensOf_quote_append hback hempty
    have hw' : '"' ∉ back ++ [w] := by
      have hne : '"' ≠ w := by
        rintro rfl
        cases hw
      simpa [hback] using hne
    have hopen := tokensOf_quote_append hw' hcut
    refine ⟨(tokensOf front).dropLast, String.ofList front, String.ofList back, q, r, ?_, ?_, ?_, hcut, ?_⟩
    · rw [← String.toList_inj]
      simp [ha]
    · rwa [String.toList_ofList]
    · simp only [String.toList_empty, List.append_nil] at hclosed
      rw [tokenize, ha, tokensOf_append_of_even (ends_cons_quote _) hfront, hclosed]
      rfl
    · have hliteral : String.ofList back ++ String.singleton w ++ q = String.ofList (back ++ [w] ++ q.toList) := by
        rw [← String.toList_inj]
        simp
      have hwhole : a.toList ++ w :: b.toList = front ++ '"' :: (back ++ [w] ++ b.toList) := by simp [ha]
      rw [tokenize, htext, hwhole, tokensOf_append_of_even (ends_cons_quote _) hfront, hopen, hliteral]
      rfl

/-- A line end between two operands, and one inside a string that the next line closes. -/
theorem line_end_cut :
    isBlank '\n' = true ∧ Even ("\"a b\" =".toList.count '"') ∧ ¬ Even ("x \"a".toList.count '"') ∧
      tokenize ("\"a b\" =" ++ String.singleton '\n' ++ "= 1") = (tokenize "\"a b\" =").dropLast ++ tokenize "= 1" ∧
      ∃ (ts : List Token) (front literal q r : String),
        "x \"a" = front ++ "\"" ++ literal ∧ '"' ∉ literal.toList ∧
        tokenize "x \"a" = ts ++ [⟨.string, literal⟩, Token.endOfInput] ∧ CutAtQuote "b\"1" q r ∧
        tokenize ("x \"a" ++ String.singleton '\n' ++ "b\"1") =
          ts ++ ⟨.string, literal ++ String.singleton '\n' ++ q⟩ :: tokenize r := by
  have heven : Even ("\"a b\" =".toList.count '"') := by decide
  have hodd : ¬ Even ("x \"a".toList.count '"') := by decide
  exact ⟨rfl, heven, hodd, (tokenize_cut_at_blank _ _ rfl).1 heven, (tokenize_cut_at_blank _ _ rfl).2 hodd⟩

end Scriptlet
