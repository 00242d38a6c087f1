import Mathlib.Data.List.TakeWhile
import Scriptlet.Token.Scan

/-!
# Spelling tokens

A token can be spelled: its text is its literal, in quotes if it is a string. The tokens that scanning
finds are the well-formed ones, and a text that spells well-formed tokens with blanks between them is
scanned as these tokens again (`tokensOf_of_spells`).

A token is scanned as before when more text follows, unless it reaches to the end of the text. A
semicolon never takes in what follows, so a text that ends with one can be put in front of any other
(`tokensOf_append`).
-/

namespace Scriptlet

/-- The kinds of token that have one spelling. -/
def TokenKind.fixed : List TokenKind :=
  [.assign, .plus, .minus, .bang, .asterisk, .slash, .lt, .gt, .eq, .notEq, .comma, .semicolon, .lparen,
    .rparen, .lbrace, .rbrace, .lbracket, .rbracket]

/-- Whether a character begins a token that is not illegal. -/
def beginsToken (c : Char) : Bool :=
  c == '=' || c == '!' || c == '"' || (TokenKind.ofChar? c).isSome || isLetter c || isDigit c

namespace Token

/-- The characters that spell a token. -/
def text (t : Token) : List Char :=
  if t.kind = .string then '"' :: (t.literal.toList ++ ['"']) else t.literal.toList

/-- The tokens that a text can have, the end of the input left out. -/
inductive WellFormed : Token → Prop
  | fixed {kind : TokenKind} (h : kind ∈ TokenKind.fixed) : WellFormed ⟨kind, kind.symbol⟩
  | word {c : Char} {cs : List Char} (h : ∀ d ∈ c :: cs, isLetter d = true) :
    WellFormed ⟨.ofWord (String.ofList (c :: cs)), String.ofList (c :: cs)⟩
  | integer {c : Char} {cs : List Char} (h : ∀ d ∈ c :: cs, isDigit d = true) :
    WellFormed ⟨.int, String.ofList (c :: cs)⟩
  | string {cs : List Char} (h : ∀ d ∈ cs, isInString d = true) : WellFormed ⟨.string, String.ofList cs⟩
  | illegal {c : Char} (hb : isBlank c = false) (hc : beginsToken c = false) :
    WellFormed ⟨.illegal, String.ofList [c]⟩

end Token

/-! ### Classes of characters -/

section

variable {c : Char} {cs : List Char}

theorem isBlank_cases (h : isBlank c = true) : c = ' ' ∨ c = '\t' ∨ c = '\n' ∨ c = '\r' := by
  simpa [isBlank, or_assoc] using h

theorem not_class_of_isBlank (h : isBlank c = true) :
    isLetter c = false ∧ isDigit c = false ∧ c ≠ '=' := by
  rcases isBlank_cases h with rfl | rfl | rfl | rfl <;> decide

theorem TokenKind.ofChar?_eq_some {kind : TokenKind} (h : TokenKind.ofChar? c = some kind) :
    kind ∈ TokenKind.fixed ∧ kind.symbol = String.ofList [c] ∧ isLetter c = false ∧ isDigit c = false := by
  unfold TokenKind.ofChar? at h
  split at h <;> cases h <;> decide

theorem ofChar?_eq_none (h : isLetter c = true ∨ isDigit c = true) : TokenKind.ofChar? c = none := by
  cases ho : TokenKind.ofChar? c with
  | none => rfl
  | some kind =>
    obtain ⟨-, -, hl, hd⟩ := TokenKind.ofChar?_eq_some ho
    rcases h with h | h
    · rw [hl] at h; cases h
    · rw [hd] at h; cases h

theorem ne_of_isLetter_or_isDigit (h : isLetter c = true ∨ isDigit c = true) :
    c ≠ '=' ∧ c ≠ '!' ∧ c ≠ '"' ∧ isBlank c = false := by
  refine ⟨?_, ?_, ?_, ?_⟩
  · rintro rfl; revert h; decide
  · rintro rfl; revert h; decide
  · rintro rfl; revert h; decide
  · refine Bool.eq_false_iff.2 fun hb => ?_
    obtain ⟨hl, hd, -⟩ := not_class_of_isBlank hb
    rw [hl, hd] at h
    simp at h

theorem isLetter_eq_false_of_isDigit (h : isDigit c = true) : isLetter c = false := by
  refine Bool.eq_false_iff.2 fun hl => ?_
  simp only [isDigit, isLetter, Bool.or_eq_true, Bool.and_eq_true, decide_eq_true_eq, beq_iff_eq,
    Char.le_def, UInt32.le_iff_toNat_le] at h hl
  have hmax : c.val.toNat ≤ 57 := h.2
  rcases hl with (⟨ha, -⟩ | ⟨hA, -⟩) | rfl
  · exact absurd (ha.trans hmax) (by decide)
  · exact absurd (hA.trans hmax) (by decide)
  · exact absurd hmax (by decide)

/-! ### What a token can be -/

theorem scanAt_of_isLetter (h : isLetter c = true) : scanAt c cs = scanWord c cs := by
  obtain ⟨h₁, h₂, h₃, -⟩ := ne_of_isLetter_or_isDigit (.inl h)
  simp only [scanAt, h₁, h₂, h₃, if_false, ofChar?_eq_none (.inl h), h, if_true]

theorem scanAt_of_isDigit (h : isDigit c = true) : scanAt c cs = scanInteger c cs := by
  obtain ⟨h₁, h₂, h₃, -⟩ := ne_of_isLetter_or_isDigit (.inr h)
  simp only [scanAt, h₁, h₂, h₃, if_false, ofChar?_eq_none (.inr h), isLetter_eq_false_of_isDigit h,
    Bool.false_eq_true, h, if_true]

theorem scanAt_of_ofChar? {kind : TokenKind} (h : TokenKind.ofChar? c = some kind) :
    scanAt c cs = (⟨kind, kind.symbol⟩, cs) := by
  have h₁ : c ≠ '=' := by rintro rfl; cases h
  have h₂ : c ≠ '!' := by rintro rfl; cases h
  have h₃ : c ≠ '"' := by rintro rfl; cases h
  simp only [scanAt, h₁, h₂, h₃, if_false, h, (TokenKind.ofChar?_eq_some h).2.1]

theorem scanAt_of_not_beginsToken (h : beginsToken c = false) :
    scanAt c cs = (⟨.illegal, String.ofList [c]⟩, cs) := by
  simp only [beginsToken, Bool.or_eq_false_iff, beq_eq_false_iff_ne, Option.isSome_eq_false_iff,
    Option.isNone_iff_eq_none] at h
  obtain ⟨⟨⟨⟨⟨h₁, h₂⟩, h₃⟩, ho⟩, hl⟩, hd⟩ := h
  simp [scanAt, h₁, h₂, h₃, ho, hl, hd]

/-- The ways in which a token can begin. -/
theorem scanAt_cases (c : Char) (cs : List Char) :
    c = '=' ∧ scanAt c cs = scanEquals ⟨.assign, "="⟩ ⟨.eq, "=="⟩ cs ∨
    c = '!' ∧ scanAt c cs = scanEquals ⟨.bang, "!"⟩ ⟨.notEq, "!="⟩ cs ∨
    c = '"' ∧ scanAt c cs = scanString cs ∨
    (∃ kind, TokenKind.ofChar? c = some kind ∧ scanAt c cs = (⟨kind, kind.symbol⟩, cs)) ∨
    isLetter c = true ∧ scanAt c cs = scanWord c cs ∨
    isDigit c = true ∧ scanAt c cs = scanInteger c cs ∨
    beginsToken c = false ∧ scanAt c cs = (⟨.illegal, String.ofList [c]⟩, cs) := by
  by_cases hb : beginsToken c = true
  · simp only [beginsToken, Bool.or_eq_true, beq_iff_eq, Option.isSome_iff_exists] at hb
    rcases hb with ((((rfl | rfl) | rfl) | ⟨kind, hk⟩) | hl) | hd
    · exact .inl ⟨rfl, rfl⟩
    · exact .inr (.inl ⟨rfl, rfl⟩)
    · exact .inr (.inr (.inl ⟨rfl, rfl⟩))
    · exact .inr (.inr (.inr (.inl ⟨kind, hk, scanAt_of_ofChar? hk⟩)))
    · exact .inr (.inr (.inr (.inr (.inl ⟨hl, scanAt_of_isLetter hl⟩))))
    · exact .inr (.inr (.inr (.inr (.inr (.inl ⟨hd, scanAt_of_isDigit hd⟩)))))
  · have hb' := Bool.eq_false_iff.2 hb
    exact .inr (.inr (.inr (.inr (.inr (.inr ⟨hb', scanAt_of_not_beginsToken hb'⟩)))))

theorem wellFormed_scanEquals {alone joined : Token} (ha : alone.WellFormed) (hj : joined.WellFormed) :
    (scanEquals alone joined cs).1.WellFormed := by
  unfold scanEquals
  split
  · exact hj
  · exact ha

theorem wellFormed_scanAt (h : isBlank c = false) : (scanAt c cs).1.WellFormed := by
  rcases scanAt_cases c cs with ⟨-, hs⟩ | ⟨-, hs⟩ | ⟨-, hs⟩ | ⟨kind, hk, hs⟩ | ⟨hl, hs⟩ | ⟨hd, hs⟩ |
    ⟨hb, hs⟩ <;> rw [hs]
  · exact wellFormed_scanEquals (.fixed (by decide)) (@Token.WellFormed.fixed .eq (by decide))
  · exact wellFormed_scanEquals (.fixed (by decide)) (@Token.WellFormed.fixed .notEq (by decide))
  · exact .string fun d hd => List.mem_takeWhile_imp hd
  · exact .fixed (TokenKind.ofChar?_eq_some hk).1
  · exact .word (List.forall_mem_cons.2 ⟨hl, fun d hd => List.mem_takeWhile_imp hd⟩)
  · exact .integer (List.forall_mem_cons.2 ⟨hd, fun d hd => List.mem_takeWhile_imp hd⟩)
  · exact .illegal h hb

end

/-! ### Blanks -/

theorem tokensOf_congr {as bs : List Char} (h : as.dropWhile isBlank = bs.dropWhile isBlank) :
    tokensOf as = tokensOf bs := by
  cases hb : bs.dropWhile isBlank with
  | nil => rw [tokensOf_of_blank hb, tokensOf_of_blank (h.trans hb)]
  | cons c rest => rw [tokensOf_of_cons hb, tokensOf_of_cons (h.trans hb)]

theorem tokensOf_blanks_append {gap : List Char} (h : ∀ c ∈ gap, isBlank c = true) (cs : List Char) :
    tokensOf (gap ++ cs) = tokensOf cs :=
  tokensOf_congr (List.dropWhile_append_of_pos h)

theorem isBlank_of_dropWhile {cs rest : List Char} {c : Char} (h : cs.dropWhile isBlank = c :: rest) :
    isBlank c = false := by
  have hhead := List.head?_dropWhile_not isBlank cs
  rw [h] at hhead
  exact hhead

theorem tokensOf_cons {c : Char} (h : isBlank c = false) (cs : List Char) :
    tokensOf (c :: cs) = (scanAt c cs).1 :: tokensOf (scanAt c cs).2 :=
  tokensOf_of_cons (List.dropWhile_cons_of_neg (by simp [h]))

/-- Induction along the tokens of a text: each time, one is taken off. -/
theorem tokens_induction {P : List Char → Prop} (blank : ∀ cs, cs.dropWhile isBlank = [] → P cs)
    (token : ∀ cs c rest, cs.dropWhile isBlank = c :: rest → P (scanAt c rest).2 → P cs)
    (cs : List Char) : P cs := by
  induction hn : cs.length using Nat.strong_induction_on generalizing cs with
  | _ n ih =>
    cases hd : cs.dropWhile isBlank with
    | nil => exact blank cs hd
    | cons c rest =>
      have h₁ := length_dropWhile_le isBlank cs
      have h₂ := length_scanAt_le c rest
      rw [hd, List.length_cons] at h₁
      exact token cs c rest hd (ih _ (by omega) _ rfl)

/-- All tokens of a text but the end of the input are well-formed. -/
theorem wellFormed_of_mem_tokensOf {cs : List Char} {t : Token} (ht : t ∈ tokensOf cs) :
    t.WellFormed ∨ t = Token.endOfInput := by
  induction cs using tokens_induction with
  | blank cs hd =>
    rw [tokensOf_of_blank hd, List.mem_singleton] at ht
    exact .inr ht
  | token cs c rest hd ih =>
    rw [tokensOf_of_cons hd] at ht
    rcases List.mem_cons.1 ht with rfl | ht
    · exact .inl (wellFormed_scanAt (isBlank_of_dropWhile hd))
    · exact ih ht

/-! ### Reading a spelling -/

section

variable {p : Char → Bool} {word rest : List Char}

theorem takeWhile_append_stop (hw : ∀ c ∈ word, p c = true) (hr : ∀ c ∈ rest.head?, p c = false) :
    (word ++ rest).takeWhile p = word := by
  have hstop : rest.takeWhile p = [] := by
    cases rest with
    | nil => rfl
    | cons c rest => exact List.takeWhile_cons_of_neg (by simp [hr c rfl])
  rw [List.takeWhile_append_of_pos hw, hstop, List.append_nil]

theorem dropWhile_append_stop (hw : ∀ c ∈ word, p c = true) (hr : ∀ c ∈ rest.head?, p c = false) :
    (word ++ rest).dropWhile p = rest := by
  rw [List.dropWhile_append_of_pos hw]
  cases rest with
  | nil => rfl
  | cons c rest => exact List.dropWhile_cons_of_neg (by simp [hr c rfl])

end

/-- No word, number or operator goes on with what follows. -/
def Ends (rest : List Char) : Prop := ∀ c ∈ rest.head?, isLetter c = false ∧ isDigit c = false ∧ c ≠ '='

/-- Nothing follows, or a blank. -/
def Separated (rest : List Char) : Prop := ∀ c ∈ rest.head?, isBlank c = true

theorem Separated.ends {rest : List Char} (h : Separated rest) : Ends rest :=
  fun c hc => not_class_of_isBlank (h c hc)

section

variable {rest : List Char} (hr : Ends rest)
include hr

theorem scanEquals_of_ends (alone joined : Token) : scanEquals alone joined rest = (alone, rest) := by
  unfold scanEquals
  split
  · next cs => exact absurd rfl (hr '=' rfl).2.2
  · rfl

theorem scanAt_fixed {kind : TokenKind} (h : kind ∈ TokenKind.fixed) :
    ∃ c cs, kind.symbol.toList = c :: cs ∧ isBlank c = false ∧
      scanAt c (cs ++ rest) = (⟨kind, kind.symbol⟩, rest) := by
  have single : ∀ {c : Char}, TokenKind.ofChar? c = some kind → isBlank c = false →
      kind.symbol.toList = [c] → ∃ c cs, kind.symbol.toList = c :: cs ∧ isBlank c = false ∧
        scanAt c (cs ++ rest) = (⟨kind, kind.symbol⟩, rest) :=
    fun hc hb hs => ⟨_, [], hs, hb, scanAt_of_ofChar? hc⟩
  cases kind
  case assign => exact ⟨'=', [], rfl, rfl, scanEquals_of_ends hr _ _⟩
  case bang => exact ⟨'!', [], rfl, rfl, scanEquals_of_ends hr _ _⟩
  case eq => exact ⟨'=', ['='], rfl, rfl, rfl⟩
  case notEq => exact ⟨'!', ['='], rfl, rfl, rfl⟩
  case plus => exact single (c := '+') rfl rfl rfl
  case minus => exact single (c := '-') rfl rfl rfl
  case asterisk => exact single (c := '*') rfl rfl rfl
  case slash => exact single (c := '/') rfl rfl rfl
  case lt => exact single (c := '<') rfl rfl rfl
  case gt => exact single (c := '>') rfl rfl rfl
  case comma => exact single (c := ',') rfl rfl rfl
  case semicolon => exact single (c := ';') rfl rfl rfl
  case lparen => exact single (c := '(') rfl rfl rfl
  case rparen => exact single (c := ')') rfl rfl rfl
  case lbrace => exact single (c := '\x7b') rfl rfl rfl
  case rbrace => exact single (c := '\x7d') rfl rfl rfl
  case lbracket => exact single (c := '[') rfl rfl rfl
  case rbracket => exact single (c := ']') rfl rfl rfl
  all_goals exact absurd h (by decide)

/-- A well-formed token is read from its text, if nothing follows that it could go on with. -/
theorem scanAt_text {t : Token} (ht : t.WellFormed) :
    ∃ c cs, t.text = c :: cs ∧ isBlank c = false ∧ scanAt c (cs ++ rest) = (t, rest) := by
  have hletter : ∀ c ∈ rest.head?, isLetter c = false := fun c hc => (hr c hc).1
  have hdigit : ∀ c ∈ rest.head?, isDigit c = false := fun c hc => (hr c hc).2.1
  cases ht with
  | @fixed kind h =>
    have hne : kind ≠ .string := by rintro rfl; revert h; decide
    simp only [Token.text, hne, if_false]
    exact scanAt_fixed hr h
  | @word c cs h =>
    obtain ⟨hc, hcs⟩ := List.forall_mem_cons.1 h
    have hne : TokenKind.ofWord (String.ofList (c :: cs)) ≠ .string := by
      unfold TokenKind.ofWord
      split <;> decide
    refine ⟨c, cs, ?_, (ne_of_isLetter_or_isDigit (.inl hc)).2.2.2, ?_⟩
    · simp only [Token.text, hne, if_false, String.toList_ofList]
    · rw [scanAt_of_isLetter hc, scanWord, takeWhile_append_stop hcs hletter,
        dropWhile_append_stop hcs hletter]
  | @integer c cs h =>
    obtain ⟨hc, hcs⟩ := List.forall_mem_cons.1 h
    refine ⟨c, cs, ?_, (ne_of_isLetter_or_isDigit (.inr hc)).2.2.2, ?_⟩
    · exact String.toList_ofList
    · rw [scanAt_of_isDigit hc, scanInteger, takeWhile_append_stop hcs hdigit,
        dropWhile_append_stop hcs hdigit]
  | @string cs h =>
    have hquote : ∀ c ∈ ('"' :: rest).head?, isInString c = false := by
      rintro c ⟨⟩
      rfl
    refine ⟨'"', cs ++ ['"'], ?_, rfl, ?_⟩
    · simp only [Token.text, if_true, String.toList_ofList]
    · show scanString (cs ++ ['"'] ++ rest) = _
      rw [List.append_assoc, List.singleton_append, scanString, takeWhile_append_stop h hquote,
        dropWhile_append_stop h hquote, List.tail_cons]
  | @illegal c hb hc =>
    exact ⟨c, [], String.toList_ofList, hb, scanAt_of_not_beginsToken hc⟩

theorem tokensOf_text_append {t : Token} (ht : t.WellFormed) :
    tokensOf (t.text ++ rest) = t :: tokensOf rest := by
  obtain ⟨c, cs, htext, hb, hs⟩ := scanAt_text hr ht
  rw [htext, List.cons_append, tokensOf_cons hb, hs]

end

/-- The text spells the tokens one after another, with blanks between them. -/
inductive Spells : List Token → List Char → Prop
  | nil : Spells [] []
  | one (t : Token) : Spells [t] t.text
  | cons (t : Token) {ts : List Token} {gap cs : List Char} (hne : gap ≠ [])
    (hg : ∀ c ∈ gap, isBlank c = true) (h : Spells ts cs) : Spells (t :: ts) (t.text ++ (gap ++ cs))

/-- A text that spells well-formed tokens has these tokens. -/
theorem tokensOf_of_spells {ts : List Token} {cs : List Char} (h : Spells ts cs)
    (ht : ∀ t ∈ ts, t.WellFormed) : tokensOf cs = ts ++ [Token.endOfInput] := by
  induction h with
  | nil => rfl
  | one t =>
    have hend : Ends [] := nofun
    have hone := tokensOf_text_append hend (ht t (by simp))
    rw [List.append_nil] at hone
    exact hone
  | @cons t ts gap cs hne hg h ih =>
    obtain ⟨c, gap, rfl⟩ := List.exists_cons_of_ne_nil hne
    have hsep : Separated (c :: gap ++ cs) := by
      rintro _ ⟨⟩
      exact hg c (by simp)
    rw [tokensOf_text_append hsep.ends (ht t (by simp)), tokensOf_blanks_append hg,
      ih fun t hm => ht t (by simp [hm])]
    rfl

theorem spells_intercalate (ts : List Token) : Spells ts ([' '].intercalate (ts.map Token.text)) := by
  induction ts with
  | nil => exact .nil
  | cons t ts ih =>
    cases ts with
    | nil =>
      rw [List.map_cons, List.map_nil, List.intercalate_singleton]
      exact .one t
    | cons u ts =>
      rw [List.map_cons, List.map_cons, List.intercalate_cons_cons, List.append_assoc]
      exact .cons t (by simp) (by simp [isBlank]) ih

/-! ### Words and numbers before other text -/

/-- What follows a word or a number does not go on with it. -/
def Stops (rest : List Char) : Prop := ∀ c ∈ rest.head?, isLetter c = false ∧ isDigit c = false

theorem stops_cons {c : Char} {kind : TokenKind} (h : TokenKind.ofChar? c = some kind) (cs : List Char) :
    Stops (c :: cs) := by
  rintro _ ⟨⟩
  exact (TokenKind.ofChar?_eq_some h).2.2

section

variable {rest : List Char} (hr : Stops rest)
include hr

theorem tokensOf_word_append {c : Char} {cs : List Char} (h : ∀ d ∈ c :: cs, isLetter d = true) :
    tokensOf (c :: cs ++ rest) =
      ⟨.ofWord (String.ofList (c :: cs)), String.ofList (c :: cs)⟩ :: tokensOf rest := by
  obtain ⟨hc, hcs⟩ := List.forall_mem_cons.1 h
  have hstop : ∀ d ∈ rest.head?, isLetter d = false := fun d hd => (hr d hd).1
  rw [List.cons_append, tokensOf_cons (ne_of_isLetter_or_isDigit (.inl hc)).2.2.2, scanAt_of_isLetter hc,
    scanWord, takeWhile_append_stop hcs hstop, dropWhile_append_stop hcs hstop]

theorem tokensOf_digits_append {cs : List Char} (hne : cs ≠ []) (h : ∀ d ∈ cs, isDigit d = true) :
    tokensOf (cs ++ rest) = ⟨.int, String.ofList cs⟩ :: tokensOf rest := by
  obtain ⟨c, cs, rfl⟩ := List.exists_cons_of_ne_nil hne
  obtain ⟨hc, hcs⟩ := List.forall_mem_cons.1 h
  have hstop : ∀ d ∈ rest.head?, isDigit d = false := fun d hd => (hr d hd).2
  rw [List.cons_append, tokensOf_cons (ne_of_isLetter_or_isDigit (.inr hc)).2.2.2, scanAt_of_isDigit hc,
    scanInteger, takeWhile_append_stop hcs hstop, dropWhile_append_stop hcs hstop]

end

/-! ### Texts put together -/

theorem takeWhile_append_of_dropWhile {p : Char → Bool} {as : List Char} (h : as.dropWhile p ≠ [])
    (bs : List Char) : (as ++ bs).takeWhile p = as.takeWhile p := by
  rw [List.takeWhile_append, if_neg]
  intro hl
  have hall : as.takeWhile p = as := (List.takeWhile_prefix p).eq_of_length hl
  refine h (List.dropWhile_eq_nil_iff.2 fun c hc => ?_)
  rw [← hall] at hc
  exact List.mem_takeWhile_imp hc

theorem dropWhile_append_of_ne_nil {p : Char → Bool} {as : List Char} (h : as.dropWhile p ≠ [])
    (bs : List Char) : (as ++ bs).dropWhile p = as.dropWhile p ++ bs := by
  rw [List.dropWhile_append, if_neg (by simpa using h)]

theorem scanEquals_append {alone joined : Token} {cs : List Char}
    (h : (scanEquals alone joined cs).2 ≠ []) (bs : List Char) :
    scanEquals alone joined (cs ++ bs) =
      ((scanEquals alone joined cs).1, (scanEquals alone joined cs).2 ++ bs) := by
  cases cs with
  | nil => exact absurd rfl h
  | cons c cs =>
    by_cases hc : c = '='
    · subst hc; rfl
    · simp [scanEquals, hc]

/-- More text does not change a token before the end of the text, nor a semicolon. -/
theorem scanAt_append {c : Char} {cs : List Char}
    (h : (scanAt c cs).2 ≠ [] ∨ (scanAt c cs).1.kind = .semicolon) (bs : List Char) :
    scanAt c (cs ++ bs) = ((scanAt c cs).1, (scanAt c cs).2 ++ bs) := by
  -- Of the tokens that take in what follows, none is a semicolon.
  have later : (scanAt c cs).1.kind ≠ .semicolon → (scanAt c cs).2 ≠ [] := fun hk =>
    h.resolve_right hk
  rcases scanAt_cases c cs with ⟨rfl, hs⟩ | ⟨rfl, hs⟩ | ⟨rfl, hs⟩ | ⟨kind, hk, hs⟩ | ⟨hl, hs⟩ | ⟨hd, hs⟩ |
    ⟨hb, hs⟩ <;> rw [hs] at later ⊢
  · refine scanEquals_append (later ?_) bs
    unfold scanEquals
    split <;> simp
  · refine scanEquals_append (later ?_) bs
    unfold scanEquals
    split <;> simp
  · have hrest : cs.dropWhile isInString ≠ [] := by
      intro hnil
      exact later (by simp [scanString]) (by simp [scanString, hnil])
    obtain ⟨d, ds, hds⟩ := List.exists_cons_of_ne_nil hrest
    show scanString (cs ++ bs) = _
    simp only [scanString, takeWhile_append_of_dropWhile hrest, dropWhile_append_of_ne_nil hrest, hds,
      List.cons_append, List.tail_cons]
  · exact scanAt_of_ofChar? hk
  · have hrest : cs.dropWhile isLetter ≠ [] := by
      refine later ?_
      unfold scanWord TokenKind.ofWord
      dsimp only
      split <;> decide
    rw [scanAt_of_isLetter hl]
    simp only [scanWord, takeWhile_append_of_dropWhile hrest, dropWhile_append_of_ne_nil hrest]
  · have hrest : cs.dropWhile isDigit ≠ [] := later (by simp [scanInteger])
    rw [scanAt_of_isDigit hd]
    simp only [scanInteger, takeWhile_append_of_dropWhile hrest, dropWhile_append_of_ne_nil hrest]
  · exact scanAt_of_not_beginsToken hb

/-- The last token, if there is one, is a semicolon. -/
def EndsClosed (ts : List Token) : Prop := ∀ t ∈ ts.getLast?, t.kind = .semicolon

instance (ts : List Token) : Decidable (EndsClosed ts) :=
  inferInstanceAs (Decidable (∀ t ∈ ts.getLast?, t.kind = .semicolon))

theorem tokensOf_ne_nil (cs : List Char) : tokensOf cs ≠ [] := by
  simp [tokensOf]

/-- A text whose last token is a semicolon can stand before any other. -/
theorem tokensOf_append {as : List Char} {ts : List Token}
    (h : tokensOf as = ts ++ [Token.endOfInput]) (hc : EndsClosed ts) (bs : List Char) :
    tokensOf (as ++ bs) = ts ++ tokensOf bs := by
  induction ts generalizing as with
  | nil =>
    cases hd : as.dropWhile isBlank with
    | nil => exact tokensOf_blanks_append (List.dropWhile_eq_nil_iff.1 hd) bs
    | cons c rest =>
      rw [tokensOf_of_cons hd] at h
      exact absurd (List.cons.inj h).2 (tokensOf_ne_nil _)
  | cons t ts ih =>
    cases hd : as.dropWhile isBlank with
    | nil =>
      rw [tokensOf_of_blank hd] at h
      exact absurd (List.cons.inj h).2 (by simp)
    | cons c rest =>
      rw [tokensOf_of_cons hd] at h
      obtain ⟨rfl, hrest⟩ := List.cons.inj h
      have hnext : EndsClosed ts := by
        cases ts with
        | nil => exact nofun
        | cons u ts => exact hc
      have hcut : (scanAt c rest).2 ≠ [] ∨ (scanAt c rest).1.kind = .semicolon := by
        cases ts with
        | nil => exact .inr (hc _ rfl)
        | cons u ts =>
          refine .inl fun hnil => ?_
          rw [hnil] at hrest
          exact absurd (List.cons.inj hrest).2 (by simp)
      have hd' : (as ++ bs).dropWhile isBlank = c :: (rest ++ bs) := by
        rw [dropWhile_append_of_ne_nil (by simp [hd]), hd]
        rfl
      rw [tokensOf_of_cons hd', scanAt_append hcut]
      exact congrArg _ (ih hrest hnext)

end Scriptlet
