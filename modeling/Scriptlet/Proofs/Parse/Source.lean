import Mathlib.Data.List.TakeWhile
import Scriptlet.Proofs.Parse.Levels
import Scriptlet.Proofs.Parse.Span

/-!
# Windows on a source

What the parser can rely on when it reads a text: the tokens ahead are those that `tokenize` lists and
end-of-input tokens after them, the budget is enough for all of them, and the literal of an integer
token is made of ASCII digits. On such a token the parser for integers is told in one equation
(`Parser.wp_integer`).
-/

namespace Scriptlet

/-! ### Decimal digits -/

namespace Text

variable {c : Char} {cs : List Char}

theorem decimalValue?_of_isDigit (h : isDigit c = true) :
    decimalValue? c = some (c.toNat - '0'.toNat) := by
  unfold isDigit at h
  simp only [Bool.and_eq_true, decide_eq_true_eq, Char.le_def, UInt32.le_iff_toNat_le] at h
  have h₁ : 0x30 ≤ c.toNat := h.1
  have h₂ : c.toNat < 0x30 + 10 := Nat.lt_succ_of_le h.2
  unfold decimalValue? decimalZeros
  rw [List.find?_cons_of_pos (by simp [h₁, h₂])]
  rfl

theorem isDecimal_of_isDigit (h : isDigit c = true) : isDecimal c = true := by
  rw [isDecimal, decimalValue?_of_isDigit h, Option.isSome_some]

theorem isAnyDigit_of_isDigit (h : isDigit c = true) : isAnyDigit c = true := by
  rw [isAnyDigit, isDecimal_of_isDigit h, Bool.true_or]

theorem readDigits_eq (h : ∀ c ∈ cs, isDigit c = true) (value : Nat) :
    readDigits value cs =
      some (cs.foldl (fun value digit => 10 * value + (digit.toNat - '0'.toNat)) value) := by
  induction cs generalizing value with
  | nil => rfl
  | cons c cs ih =>
    obtain ⟨hc, hcs⟩ := List.forall_mem_cons.1 h
    rw [readDigits, decimalValue?_of_isDigit hc]
    exact ih hcs _

theorem readNumeral?_eq (h : ∀ c ∈ cs, isDigit c = true) :
    readNumeral? cs = some (Grammar.decimal cs) := readDigits_eq h 0

end Text

/-- If the token is an integer, its literal is made of ASCII digits. -/
def Token.Numeral (token : Token) : Prop :=
  token.kind = .int → token.literal.toList ≠ [] ∧ ∀ c ∈ token.literal.toList, isDigit c = true

namespace Parser

variable {σ : Type} [TokenSource σ] {w : Window σ}

/-- What becomes of an integer token. -/
theorem wp_integer {E : Fault → Prop} {Q : Node → Window σ → Prop} (hk : w.current.kind = .int)
    (hn : w.current.Numeral) :
    wp E integer Q w ↔
      if maxDigits < w.current.literal.length then E (.overlongInteger w.current.literal.length)
      else if Grammar.decimal w.current.literal.toList < 2 ^ 63 then
        Q (.integer w.current (Grammar.decimal w.current.literal.toList)) w
      else Q .hole (w.report (.badInteger w.current.literal)) := by
  obtain ⟨hne, hd⟩ := hn hk
  have hempty : w.current.literal.toList.isEmpty = false := by simpa using hne
  have hall : w.current.literal.toList.all Text.isAnyDigit = true :=
    List.all_eq_true.2 fun c hc => Text.isAnyDigit_of_isDigit (hd c hc)
  have htake : w.current.literal.toList.takeWhile Text.isDecimal = w.current.literal.toList :=
    List.takeWhile_eq_self_iff.2 fun c hc => Text.isDecimal_of_isDigit (hd c hc)
  have hmax : maxInteger < Grammar.decimal w.current.literal.toList ↔
      ¬ Grammar.decimal w.current.literal.toList < 2 ^ 63 := by
    rw [maxInteger, Nat.pow_eq]
    omega
  unfold integer
  simp only [wp_bind, wp_current, hempty, hall, htake, Bool.not_true, Bool.or_self, Bool.false_eq_true,
    if_false, wp_ite, wp_fault, Text.readNumeral?_eq hd, String.length_toList, hmax, ite_not, wp_report,
    wp_pure]

end Parser

/-! ### The tokens of a text -/

theorem TokenKind.ofChar?_ne {c : Char} {kind : TokenKind} (h : TokenKind.ofChar? c = some kind) :
    kind ≠ .int ∧ kind ≠ .eof := by
  unfold TokenKind.ofChar? at h
  split at h <;> cases h <;> decide

theorem TokenKind.ofWord_ne (word : String) :
    TokenKind.ofWord word ≠ .int ∧ TokenKind.ofWord word ≠ .eof := by
  unfold TokenKind.ofWord
  split <;> decide

theorem scanEquals_cases (alone joined : Token) (cs : List Char) :
    (scanEquals alone joined cs).1 = joined ∨ (scanEquals alone joined cs).1 = alone := by
  unfold scanEquals
  split
  · exact .inl rfl
  · exact .inr rfl

/-- A token that starts with a character is not the end of the input, and if it is an integer it is
made of digits. -/
theorem scanAt_numeral (c : Char) (cs : List Char) :
    (scanAt c cs).1.Numeral ∧ (scanAt c cs).1.kind ≠ .eof := by
  have other : ∀ {t : Token}, t.kind ≠ .int ∧ t.kind ≠ .eof → t.Numeral ∧ t.kind ≠ .eof :=
    fun h => ⟨fun hk => absurd hk h.1, h.2⟩
  unfold scanAt
  split
  · rcases scanEquals_cases ⟨.assign, "="⟩ ⟨.eq, "=="⟩ cs with h | h <;> rw [h] <;>
      exact other (by decide)
  split
  · rcases scanEquals_cases ⟨.bang, "!"⟩ ⟨.notEq, "!="⟩ cs with h | h <;> rw [h] <;>
      exact other (by decide)
  split
  · exact other ⟨by simp [scanString], by simp [scanString]⟩
  split
  · next kind hk => exact other (TokenKind.ofChar?_ne hk)
  split
  · exact other (TokenKind.ofWord_ne _)
  split
  · next hd =>
    refine ⟨fun _ => ?_, by simp [scanInteger]⟩
    simp only [scanInteger, String.toList_ofList]
    refine ⟨by simp, List.forall_mem_cons.2 ⟨hd, fun d hm => ?_⟩⟩
    exact List.mem_takeWhile_imp hm
  · exact other ⟨by simp, by simp⟩

/-- The tokens of a text are the first one and those of what follows it, unless there is nothing but
the end of the input. -/
theorem tokensOf_eq (cs : List Char) :
    scan cs = (Token.endOfInput, []) ∧ tokensOf cs = [(scan cs).1] ∨
      (scan cs).1.kind ≠ .eof ∧ tokensOf cs = (scan cs).1 :: tokensOf (scan cs).2 := by
  unfold scan
  cases h : cs.dropWhile isBlank with
  | nil => exact .inl ⟨rfl, tokensOf_of_blank h⟩
  | cons c rest => exact .inr ⟨(scanAt_numeral c rest).2, tokensOf_of_cons h⟩

theorem tokenize_eq_dropLast (source : String) :
    tokenize source = (tokenize source).dropLast ++ [Token.endOfInput] := tokensOf_eq_dropLast source.toList

/-- The last token of a source is the end of the input, which is also what comes after it. -/
theorem getD_tokenize (source : String) (n : Nat) :
    (tokenize source).getD n Token.endOfInput = (tokenize source).dropLast.getD n Token.endOfInput := by
  rw [tokenize_eq_dropLast, List.dropLast_concat]
  rw [List.getD_eq_getElem?_getD, List.getD_eq_getElem?_getD, List.getElem?_append]
  split
  · rfl
  · next hn =>
    rw [List.getElem?_eq_none (Nat.le_of_not_lt hn)]
    cases n - (tokenize source).dropLast.length <;> rfl

theorem length_tokenize (source : String) : (tokenize source).length = (tokenize source).dropLast.length + 1 := by
  have h := congrArg List.length (tokenize_eq_dropLast source)
  rw [List.length_append] at h
  exact h

theorem getD_tokenize_of_le {source : String} {k : Nat}
    (h : (tokenize source).dropLast.length ≤ k) :
    (tokenize source).getD k Token.endOfInput = Token.endOfInput := by
  rw [getD_tokenize, List.getD_eq_getElem?_getD, List.getElem?_eq_none h]
  rfl

theorem inner_dropLast_tokensOf (cs : List Char) : Grammar.Inner (tokensOf cs).dropLast := by
  generalize hts : tokensOf cs = ts
  induction ts generalizing cs with
  | nil => exact nofun
  | cons t ts ih =>
    rcases tokensOf_eq cs with ⟨-, ht⟩ | ⟨hne, ht⟩ <;> rw [ht] at hts <;> cases hts
    · exact nofun
    · have hinner := ih (scan cs).2 rfl
      cases hrest : tokensOf (scan cs).2 with
      | nil => exact nofun
      | cons u us =>
        rw [hrest] at hinner
        exact Grammar.inner_cons.2 ⟨hne, hinner⟩

theorem scan_numeral (cs : List Char) : (scan cs).1.Numeral := by
  unfold scan
  split
  · exact fun h => absurd h (by decide)
  · next c rest _ => exact (scanAt_numeral c rest).1

theorem length_scanOnto_le (seen : List Token) (n : Nat) (cs : List Char) :
    (scanOnto seen n cs).length ≤ seen.length + n := by
  induction n generalizing seen cs with
  | zero => exact Nat.le_refl _
  | succ n ih =>
    rw [scanOnto]
    split
    · omega
    · next c rest _ =>
      have h := ih ((scanAt c rest).1 :: seen) (scanAt c rest).2
      rw [List.length_cons] at h
      omega

theorem length_tokenize_le (source : String) : (tokenize source).length ≤ source.length + 1 := by
  have h := length_scanOnto_le [] source.toList.length source.toList
  have hlen : source.toList.length = source.length := String.length_toList
  rw [tokenize, tokensOf, List.length_reverse, List.length_cons]
  rw [List.length_nil] at h
  omega

theorem length_dropLast_tokenize_le (source : String) :
    (tokenize source).dropLast.length ≤ (Feed.window source).budget := by
  rw [List.length_dropLast]
  exact (Nat.sub_le _ _).trans (length_tokenize_le source)

/-! ### Windows on a text -/

namespace Window

variable {w w' : Window Feed} {cs : List Char} {ts : List Token} {t : Token}

/-- Moving on in a text leads to what follows its first token. -/
theorem source_advance_text (h : w.source = Feed.ofChars cs) :
    w.advance.source = Feed.ofChars (scan cs).2 := by
  show Feed.advance w.source = _
  rw [h]
  rfl

theorem current_text (h : w.source = Feed.ofChars cs) : w.current = (scan cs).1 := by
  show Feed.current w.source = _
  rw [h]
  rfl

theorem current_skip_text (h : w.source = Feed.ofChars cs) (n : Nat) :
    (w.skip n).current = (tokensOf cs).getD n Token.endOfInput := by
  induction n generalizing w cs with
  | zero =>
    rcases tokensOf_eq cs with ⟨-, ht⟩ | ⟨-, ht⟩ <;> rw [ht] <;> exact current_text h
  | succ n ih =>
    rw [← advance_skip, ih (source_advance_text h)]
    rcases tokensOf_eq cs with ⟨he, ht⟩ | ⟨-, ht⟩
    · rw [ht, he]
      cases n <;> rfl
    · rw [ht]
      rfl

theorem all_numeral_text (h : w.source = Feed.ofChars cs) : w.All Token.Numeral := by
  intro n
  induction n generalizing w cs with
  | zero =>
    show w.current.Numeral
    rw [current_text h]
    exact scan_numeral cs
  | succ n ih =>
    rw [← advance_skip]
    exact ih (source_advance_text h)

theorem source_window (source : String) : (Feed.window source).source = Feed.ofChars source.toList := rfl

/-- What holds of the tokens of a source and of the end of the input holds of all that lies ahead. -/
theorem all_window {source : String} {P : Token → Prop} (h : ∀ t ∈ tokenize source, P t)
    (hend : P Token.endOfInput) : (Feed.window source).All P := by
  intro n
  have hc := current_skip_text (source_window source) n
  rw [List.getD_eq_getElem?_getD, ← tokenize] at hc
  rw [hc]
  cases hn : (tokenize source)[n]? with
  | none => exact hend
  | some t => exact h t (List.mem_of_getElem? hn)

/-- A window on a source ends with its last token. -/
theorem endsWithin_window (source : String) : (Feed.window source).EndsWithin (tokenize source).dropLast.length := by
  intro k hk
  rw [current_skip_text (source_window source), ← tokenize, getD_tokenize_of_le hk]
  rfl

theorem spans_text (h : w.source = Feed.ofChars cs) : ∃ w', w.Spans (tokensOf cs) w' := by
  generalize hts : tokensOf cs = ts
  induction ts generalizing w cs with
  | nil => rcases tokensOf_eq cs with ⟨-, ht⟩ | ⟨-, ht⟩ <;> rw [ht] at hts <;> cases hts
  | cons t ts ih =>
    rcases tokensOf_eq cs with ⟨-, ht⟩ | ⟨-, ht⟩ <;> rw [ht] at hts <;> cases hts <;>
      rw [← current_text h]
    · exact ⟨w, .one w⟩
    · obtain ⟨w', hw'⟩ := ih (source_advance_text h) rfl
      exact ⟨w', .cons hw'⟩

/-- Tokens up to the first end of the input are all tokens. -/
theorem Spans.eq_tokensOf (hs : w.Spans (ts ++ [t]) w') (h : w.source = Feed.ofChars cs)
    (hi : Grammar.Inner ts) (ht : t.kind = .eof) : ts ++ [t] = tokensOf cs := by
  induction ts generalizing w cs with
  | nil =>
    obtain ⟨rfl, -⟩ := singleton_iff.1 hs
    rw [current_text h] at ht ⊢
    rcases tokensOf_eq cs with ⟨-, he⟩ | ⟨hne, -⟩
    · exact he.symm
    · exact absurd ht hne
  | cons a ts ih =>
    obtain ⟨rfl, hs'⟩ := cons_ne_nil hs (by simp)
    -- The text has not ended at `a`, so there are tokens after it.
    obtain ⟨ha, hi'⟩ := Grammar.inner_cons.1 hi
    rw [current_text h] at ha
    rcases tokensOf_eq cs with ⟨he, -⟩ | ⟨-, he⟩
    · rw [he] at ha
      exact absurd rfl ha
    · rw [he, ← ih hs' (source_advance_text h) hi', current_text h]
      rfl

end Window

/-! ### What a window promises -/

namespace Window

variable {σ : Type} [TokenSource σ] {w w' : Window σ}

/-- The input ends within the budget, and integers are made of digits. -/
structure Sane (w : Window σ) : Prop where
  ends : w.EndsWithin w.budget
  numerals : w.All Token.Numeral

theorem Sane.slides (h : w.Sane) (hs : w.Slides w') : w'.Sane where
  ends := by
    rw [hs.budget]
    exact h.ends.slides hs
  numerals := h.numerals.slides hs

theorem Sane.advance (h : w.Sane) : w.advance.Sane := h.slides (Slides.refl w).advance

theorem sane_window (source : String) : (Feed.window source).Sane :=
  ⟨(endsWithin_window source).mono (length_dropLast_tokenize_le source), all_numeral_text (source_window source)⟩

end Window

end Scriptlet
