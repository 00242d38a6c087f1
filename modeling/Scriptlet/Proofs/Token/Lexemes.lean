import Mathlib.Data.List.Basic
import Scriptlet.Proofs.Token.Spelling

/-!
# Lexemes

A text is nothing but the lexemes of its tokens and the blanks between them. `Token.Stands` says how a
token stands in a text: what its lexeme is, and that the lexeme is as long as it can be, judging by the
characters right before and right after it. Scanning cuts a text into `Piece`s, each a lexeme and the
blanks behind it.

Words and integers are maximal runs of their class on both sides. For the side before, the invariant of the
scan is `Breaks`: where a token begins, no run of letters or digits goes on from what stands before it.
-/

namespace Scriptlet

/-- The kinds of words. -/
def TokenKind.words : List TokenKind :=
  [.ident, .fnWord, .letWord, .ifWord, .elseWord, .returnWord, .trueWord, .falseWord]

/-- Characters of one class that go on neither before nor after. -/
structure MaximalRun (p : Char → Bool) (before run after : List Char) : Prop where
  nonempty : run ≠ []
  all : ∀ c ∈ run, p c = true
  left : ∀ c ∈ before.getLast?, p c = false
  right : ∀ c ∈ after.head?, p c = false

/-- The token stands between `before` and `after` in a text, in the shape of `lexeme`. Only a string at the
end of the text may lack its closing quote. No other token could begin like an illegal one. -/
structure Token.Stands (t : Token) (before lexeme after : List Char) : Prop where
  wellFormed : t.WellFormed
  shape : lexeme = t.text ∨ t.kind = .string ∧ lexeme = '"' :: t.literal.toList ∧ after = []
  string : t.kind = .string → '"' ∉ t.literal.toList
  word : t.kind ∈ TokenKind.words → t.kind = .ofWord t.literal ∧ MaximalRun isLetter before lexeme after
  integer : t.kind = .int → MaximalRun isDigit before lexeme after
  equals : t.kind = .assign ∨ t.kind = .bang → after.head? ≠ some '='
  illegal : t.kind = .illegal → ∃ c, lexeme = [c] ∧ isBlank c = false ∧
    ∀ other : Token, other.WellFormed → other.text.head? = some c → other = t

/-- A token in a text with the blanks behind it. -/
structure Piece where
  token : Token
  lexeme : List Char
  gap : List Char

def Piece.text (p : Piece) : List Char := p.lexeme ++ p.gap

/-- No run of letters and no run of digits goes on from `before` to `after`. -/
def Breaks (before after : List Char) : Prop :=
  ∀ c ∈ before.getLast?, ∀ d ∈ after.head?,
    (isLetter d = true → isLetter c = false) ∧ (isDigit d = true → isDigit c = false)

/-! ### Kinds -/

theorem ofWord_mem_words (word : String) : TokenKind.ofWord word ∈ TokenKind.words := by
  unfold TokenKind.ofWord
  split <;> decide

theorem Token.WellFormed.kind_ne_eof {t : Token} (h : t.WellFormed) : t.kind ≠ .eof := by
  cases h with
  | fixed h =>
    rintro rfl
    exact absurd h (by decide)
  | @word c cs h =>
    intro hk
    have hmem := ofWord_mem_words (String.ofList (c :: cs))
    have hk : TokenKind.ofWord (String.ofList (c :: cs)) = .eof := hk
    rw [hk] at hmem
    exact absurd hmem (by decide)
  | integer | string | illegal => exact nofun

theorem beginsToken_of_isLetter {c : Char} (h : isLetter c = true) : beginsToken c = true := by
  simp [beginsToken, h]

theorem beginsToken_of_isDigit {c : Char} (h : isDigit c = true) : beginsToken c = true := by
  simp [beginsToken, h]

theorem head?_text_of_ne_string {t : Token} {cs : List Char} (ht : t.kind ≠ .string)
    (hl : t.literal = String.ofList cs) : t.text.head? = cs.head? := by
  rw [Token.text, if_neg ht, hl, String.toList_ofList]

/-- A character that begins no token is at most the beginning of an illegal one. -/
theorem Token.WellFormed.eq_illegal {t : Token} {c : Char} (h : t.WellFormed)
    (hc : beginsToken c = false) (ht : t.text.head? = some c) : t = ⟨.illegal, String.ofList [c]⟩ := by
  have hno : beginsToken c ≠ true := Bool.eq_false_iff.1 hc
  cases h with
  | @fixed kind h =>
    have hfirst : ∀ kind ∈ TokenKind.fixed, (Token.text ⟨kind, kind.symbol⟩).head?.all beginsToken = true := by
      decide
    have hbegins := hfirst kind h
    rw [ht] at hbegins
    exact absurd hbegins hno
  | @word d ds h =>
    have hne : TokenKind.ofWord (String.ofList (d :: ds)) ≠ .string := fun hk =>
      absurd (hk ▸ ofWord_mem_words (String.ofList (d :: ds))) (by decide)
    rw [head?_text_of_ne_string hne rfl] at ht
    cases ht
    exact absurd (beginsToken_of_isLetter (h c (by simp))) hno
  | @integer d ds h =>
    have hne : TokenKind.int ≠ .string := by decide
    rw [head?_text_of_ne_string hne rfl] at ht
    cases ht
    exact absurd (beginsToken_of_isDigit (h c (by simp))) hno
  | string h =>
    cases ht
    cases hc
  | illegal =>
    have hne : TokenKind.illegal ≠ .string := by decide
    rw [head?_text_of_ne_string hne rfl] at ht
    cases ht
    rfl

/-! ### Breaks -/

theorem breaks_nil (after : List Char) : Breaks [] after := nofun

theorem Breaks.append {before lexeme after : List Char} (hne : lexeme ≠ []) (h : Breaks lexeme after) :
    Breaks (before ++ lexeme) after := by
  intro c hc
  rw [List.getLast?_append_of_ne_nil before hne] at hc
  exact h c hc

theorem breaks_of_last {before after : List Char}
    (h : ∀ c ∈ before.getLast?, isLetter c = false ∧ isDigit c = false) : Breaks before after :=
  fun c hc _ _ => ⟨fun _ => (h c hc).1, fun _ => (h c hc).2⟩

/-- Blanks are no part of any run, so they do not undo a break. -/
theorem Breaks.blanks {before gap after : List Char} (h : Breaks before (gap ++ after))
    (hg : ∀ c ∈ gap, isBlank c = true) : Breaks (before ++ gap) after := by
  cases hgap : gap with
  | nil =>
    rw [hgap] at h
    rw [List.append_nil]
    exact h
  | cons d ds =>
    refine Breaks.append (by simp) (breaks_of_last fun c hc => ?_)
    obtain ⟨hl, hd, -⟩ := not_class_of_isBlank (hg c (hgap ▸ List.mem_of_getLast? hc))
    exact ⟨hl, hd⟩

/-- A run of one class is followed by none of it, so nothing of it goes on. -/
theorem MaximalRun.breaks {before run after : List Char} {p q : Char → Bool}
    (h : MaximalRun p before run after) (hpq : ∀ c, p c = true → q c = false) :
    ∀ c ∈ run.getLast?, ∀ d ∈ after.head?, (p d = true → p c = false) ∧ (q d = true → q c = false) := by
  intro c hc d hd
  refine ⟨fun hp => ?_, fun _ => hpq c (h.all c (List.mem_of_getLast? hc))⟩
  rw [h.right d hd] at hp
  cases hp

theorem isDigit_eq_false_of_isLetter {c : Char} (h : isLetter c = true) : isDigit c = false := by
  refine Bool.eq_false_iff.2 fun hd => ?_
  rw [isLetter_eq_false_of_isDigit hd] at h
  cases h

namespace Token.Stands

variable {t : Token} {before lexeme after : List Char}

theorem lexeme_ne_nil (h : t.Stands before lexeme after) : lexeme ≠ [] := by
  have hend : Ends [] := nofun
  rcases h.shape with hs | ⟨-, hs, -⟩
  · obtain ⟨c, cs, htext, -⟩ := scanAt_text hend h.wellFormed
    rw [hs, htext]
    exact List.cons_ne_nil c cs
  · rw [hs]
    exact List.cons_ne_nil _ _

/-- No run goes on behind a token. -/
theorem breaks (h : t.Stands before lexeme after) : Breaks lexeme after := by
  cases hw : h.wellFormed with
  | @fixed kind hk =>
    have hlast : ∀ kind ∈ TokenKind.fixed, kind ≠ .string ∧
        kind.symbol.toList.getLast?.all (fun c => !isLetter c && !isDigit c) = true := by decide
    obtain ⟨hne, hclass⟩ := hlast kind hk
    rcases h.shape with hs | ⟨hs, -⟩
    · rw [hs, Token.text, if_neg hne]
      refine breaks_of_last fun c hc => ?_
      rw [hc] at hclass
      simpa using hclass
    · exact absurd hs hne
  | word =>
    obtain ⟨-, hrun⟩ := h.word (ofWord_mem_words _)
    exact hrun.breaks fun c => isDigit_eq_false_of_isLetter
  | integer =>
    intro c hc d hd
    exact ((h.integer rfl).breaks (fun c => isLetter_eq_false_of_isDigit) c hc d hd).symm
  | @string cs hcs =>
    rcases h.shape with hs | ⟨-, -, hs⟩
    · refine breaks_of_last fun c hc => ?_
      rw [hs, Token.text, if_pos rfl, ← List.cons_append, List.getLast?_concat] at hc
      cases hc
      exact ⟨rfl, rfl⟩
    · intro c _ d hd
      rw [hs] at hd
      cases hd
  | @illegal c hb hc =>
    obtain ⟨d, hs, -⟩ := h.illegal rfl
    have hd : d = c := by
      rcases h.shape with hshape | ⟨hk, -⟩
      · have hone : [d] = [c] := hs.symm.trans (hshape.trans String.toList_ofList)
        exact (List.cons.inj hone).1
      · cases hk
    refine breaks_of_last fun c' hc' => ?_
    rw [hs] at hc'
    cases hc'
    rw [hd]
    exact ⟨Bool.eq_false_iff.2 fun hl => Bool.eq_false_iff.1 hc (beginsToken_of_isLetter hl),
      Bool.eq_false_iff.2 fun hdigit => Bool.eq_false_iff.1 hc (beginsToken_of_isDigit hdigit)⟩

end Token.Stands

/-! ### How the scanned tokens stand -/

section

variable {before after cs : List Char} {c : Char}

theorem stands_fixed {kind : TokenKind} (h : kind ∈ TokenKind.fixed)
    (he : kind = .assign ∨ kind = .bang → after.head? ≠ some '=') :
    Token.Stands ⟨kind, kind.symbol⟩ before kind.symbol.toList after := by
  have hother : ∀ kind ∈ TokenKind.fixed,
      kind ≠ .string ∧ kind ∉ TokenKind.words ∧ kind ≠ .int ∧ kind ≠ .illegal := by decide
  obtain ⟨hstring, hword, hint, hillegal⟩ := hother kind h
  exact {
    wellFormed := .fixed h
    shape := .inl (by rw [Token.text, if_neg hstring])
    string := fun hk => absurd hk hstring
    word := fun hk => absurd hk hword
    integer := fun hk => absurd hk hint
    equals := he
    illegal := fun hk => absurd hk hillegal }

theorem ofChar?_ne_equals {kind : TokenKind} (h : TokenKind.ofChar? c = some kind) :
    kind ≠ .assign ∧ kind ≠ .bang := by
  unfold TokenKind.ofChar? at h
  split at h <;> cases h <;> decide

/-- An equals sign that comes next is part of the lexeme, so none comes next after it. -/
theorem stands_scanEquals {alone joined : TokenKind} (ha : alone ∈ TokenKind.fixed)
    (hj : joined ∈ TokenKind.fixed) (hne : joined ≠ .assign ∧ joined ≠ .bang)
    (hone : alone.symbol.toList = [c]) (htwo : joined.symbol.toList = [c, '=']) {t : Token}
    {rest : List Char} (hs : scanEquals ⟨alone, alone.symbol⟩ ⟨joined, joined.symbol⟩ cs = (t, rest)) :
    ∃ lexeme, c :: cs = lexeme ++ rest ∧ t.Stands before lexeme rest := by
  unfold scanEquals at hs
  split at hs
  · next cs =>
    cases hs
    refine ⟨[c, '='], rfl, htwo ▸ stands_fixed hj ?_⟩
    rintro (hk | hk)
    · exact absurd hk hne.1
    · exact absurd hk hne.2
  · next hno =>
    cases hs
    refine ⟨[c], rfl, hone ▸ stands_fixed ha fun _ hhead => ?_⟩
    obtain ⟨rest, rfl⟩ := List.head?_eq_some_iff.1 hhead
    exact hno rest rfl

theorem maximalRun_takeWhile {p : Char → Bool} (hc : p c = true)
    (hleft : ∀ d ∈ before.getLast?, p d = false) :
    MaximalRun p before (c :: cs.takeWhile p) (cs.dropWhile p) where
  nonempty := List.cons_ne_nil _ _
  all := List.forall_mem_cons.2 ⟨hc, fun d hd => List.mem_takeWhile_imp hd⟩
  left := hleft
  right d hd := by
    have hhead := List.head?_dropWhile_not p cs
    rw [Option.mem_def.1 hd] at hhead
    exact hhead

theorem stands_scanWord (hc : isLetter c = true) (hb : Breaks before (c :: cs)) :
    (scanWord c cs).1.Stands before (c :: cs.takeWhile isLetter) (scanWord c cs).2 := by
  have hmem := ofWord_mem_words (String.ofList (c :: cs.takeWhile isLetter))
  have hother : ∀ kind ∈ TokenKind.words, kind ≠ .string ∧ kind ≠ .int ∧ kind ≠ .assign ∧ kind ≠ .bang ∧
      kind ≠ .illegal := by decide
  obtain ⟨hstring, hint, hassign, hbang, hillegal⟩ := hother _ hmem
  have hrun : MaximalRun isLetter before (c :: cs.takeWhile isLetter) (cs.dropWhile isLetter) :=
    maximalRun_takeWhile hc fun d hd => (hb d hd c rfl).1 hc
  exact {
    wellFormed := .word hrun.all
    shape := .inl (by rw [Token.text, scanWord, if_neg hstring, String.toList_ofList])
    string := fun hk => absurd hk hstring
    word := fun _ => ⟨rfl, hrun⟩
    integer := fun hk => absurd hk hint
    equals := fun hk => absurd hk (not_or.2 ⟨hassign, hbang⟩)
    illegal := fun hk => absurd hk hillegal }

theorem stands_scanInteger (hc : isDigit c = true) (hb : Breaks before (c :: cs)) :
    (scanInteger c cs).1.Stands before (c :: cs.takeWhile isDigit) (scanInteger c cs).2 := by
  have hrun : MaximalRun isDigit before (c :: cs.takeWhile isDigit) (cs.dropWhile isDigit) :=
    maximalRun_takeWhile hc fun d hd => (hb d hd c rfl).2 hc
  exact {
    wellFormed := .integer hrun.all
    shape := .inl (by simp [Token.text, scanInteger])
    string := nofun
    word := fun hk => absurd hk (by simp [scanInteger, TokenKind.words])
    integer := fun _ => hrun
    equals := by simp [scanInteger]
    illegal := nofun }

/-- The closing quote belongs to the lexeme, if there is one. -/
theorem stands_scanString :
    ∃ lexeme, '"' :: cs = lexeme ++ (scanString cs).2 ∧
      (scanString cs).1.Stands before lexeme (scanString cs).2 := by
  have hinside : ∀ d ∈ cs.takeWhile isInString, isInString d = true := fun d => List.mem_takeWhile_imp
  have hquote : '"' ∉ cs.takeWhile isInString := fun hd => absurd (hinside _ hd) (by decide)
  have stands : ∀ {lexeme : List Char}, (lexeme = (scanString cs).1.text ∨
      lexeme = '"' :: cs.takeWhile isInString ∧ (scanString cs).2 = []) →
      (scanString cs).1.Stands before lexeme (scanString cs).2 := by
    intro lexeme hshape
    exact {
      wellFormed := .string hinside
      shape := hshape.imp_right fun ⟨hlexeme, hend⟩ =>
        ⟨rfl, by rw [hlexeme, scanString, String.toList_ofList], hend⟩
      string := fun _ => by rw [scanString, String.toList_ofList]; exact hquote
      word := fun hk => absurd hk (by simp [scanString, TokenKind.words])
      integer := nofun
      equals := by simp [scanString]
      illegal := nofun }
  have hcut : cs.takeWhile isInString ++ cs.dropWhile isInString = cs := List.takeWhile_append_dropWhile
  cases hrest : cs.dropWhile isInString with
  | nil =>
    rw [hrest, List.append_nil] at hcut
    have hend : (scanString cs).2 = [] := by rw [scanString, hrest]; rfl
    exact ⟨'"' :: cs, by rw [hend, List.append_nil], stands (.inr ⟨by rw [hcut], hend⟩)⟩
  | cons d rest =>
    have hd : d = '"' := by
      have hhead := List.head?_dropWhile_not isInString cs
      rw [hrest] at hhead
      simpa [isInString] using hhead
    have htail : (scanString cs).2 = rest := by rw [scanString, hrest]; rfl
    refine ⟨(scanString cs).1.text, ?_, stands (.inl rfl)⟩
    rw [htail, Token.text, scanString, if_pos rfl, String.toList_ofList]
    rw [hrest, hd] at hcut
    simp [hcut]

theorem stands_illegal (hb : isBlank c = false) (hc : beginsToken c = false) :
    Token.Stands ⟨.illegal, String.ofList [c]⟩ before [c] after where
  wellFormed := .illegal hb hc
  shape := .inl (by simp [Token.text])
  string := nofun
  word hk := absurd hk (by simp [TokenKind.words])
  integer := nofun
  equals := by simp
  illegal _ := ⟨c, rfl, hb, fun _ hw ht => hw.eq_illegal hc ht⟩

/-- One token: what it takes off the text is its lexeme, and it stands there as it should. -/
theorem stands_scanAt (hc : isBlank c = false) (hb : Breaks before (c :: cs)) :
    ∃ lexeme, c :: cs = lexeme ++ (scanAt c cs).2 ∧ (scanAt c cs).1.Stands before lexeme (scanAt c cs).2 := by
  rcases scanAt_cases c cs with ⟨rfl, hs⟩ | ⟨rfl, hs⟩ | ⟨rfl, hs⟩ | ⟨kind, hk, hs⟩ | ⟨hl, hs⟩ | ⟨hd, hs⟩ |
    ⟨hno, hs⟩ <;> rw [hs]
  · exact @stands_scanEquals before cs '=' .assign .eq (by decide) (by decide) (by decide) rfl rfl _ _ rfl
  · exact @stands_scanEquals before cs '!' .bang .notEq (by decide) (by decide) (by decide) rfl rfl _ _ rfl
  · exact stands_scanString
  · obtain ⟨hmem, hsymbol, -⟩ := TokenKind.ofChar?_eq_some hk
    have htext : kind.symbol.toList = [c] := by rw [hsymbol, String.toList_ofList]
    refine ⟨[c], rfl, htext ▸ stands_fixed hmem fun hequals => ?_⟩
    exact absurd hequals (not_or.2 (ofChar?_ne_equals hk))
  · refine ⟨c :: cs.takeWhile isLetter, ?_, stands_scanWord hl hb⟩
    rw [scanWord, List.cons_append, List.takeWhile_append_dropWhile]
  · refine ⟨c :: cs.takeWhile isDigit, ?_, stands_scanInteger hd hb⟩
    rw [scanInteger, List.cons_append, List.takeWhile_append_dropWhile]
  · exact ⟨[c], rfl, stands_illegal hc hno⟩

end

/-- Every place of the text is in a lexeme or between two, and every token stands as it should in what
follows `before`. -/
theorem exists_pieces {before cs : List Char} (hb : Breaks before cs) :
    ∃ (gap : List Char) (pieces : List Piece),
      tokensOf cs = pieces.map Piece.token ++ [Token.endOfInput] ∧
      cs = gap ++ pieces.flatMap Piece.text ∧ (∀ c ∈ gap, isBlank c = true) ∧
      ∀ front p back, pieces = front ++ p :: back → (∀ c ∈ p.gap, isBlank c = true) ∧
        p.token.Stands (before ++ gap ++ front.flatMap Piece.text) p.lexeme
          (p.gap ++ back.flatMap Piece.text) := by
  have hcut : ∀ cs : List Char, cs.takeWhile isBlank ++ cs.dropWhile isBlank = cs := fun _ =>
    List.takeWhile_append_dropWhile
  have hgap : ∀ cs : List Char, ∀ c ∈ cs.takeWhile isBlank, isBlank c = true := fun _ _ => List.mem_takeWhile_imp
  induction cs using tokens_induction generalizing before with
  | blank cs hd =>
    have hall := hgap cs
    have htext := hcut cs
    rw [hd, List.append_nil] at htext
    refine ⟨cs, [], tokensOf_of_blank hd, by simp, htext ▸ hall, fun front p back h => ?_⟩
    exact absurd h (by simp)
  | token cs c rest hd ih =>
    have htext := hcut cs
    rw [hd] at htext
    have hbreak : Breaks (before ++ cs.takeWhile isBlank) (c :: rest) := by
      rw [← htext] at hb
      exact hb.blanks (hgap cs)
    obtain ⟨lexeme, hlexeme, hstands⟩ := stands_scanAt (isBlank_of_dropWhile hd) hbreak
    have hnext : Breaks (before ++ cs.takeWhile isBlank ++ lexeme) (scanAt c rest).2 :=
      hstands.breaks.append hstands.lexeme_ne_nil
    obtain ⟨gap, pieces, htokens, hrest, hblank, hpieces⟩ := ih hnext
    refine ⟨cs.takeWhile isBlank, ⟨(scanAt c rest).1, lexeme, gap⟩ :: pieces, ?_, ?_, hgap cs, ?_⟩
    · rw [tokensOf_of_cons hd, htokens]
      rfl
    · rw [List.flatMap_cons, Piece.text, List.append_assoc, ← hrest, ← hlexeme, htext]
    · intro front p back h
      cases front with
      | nil =>
        obtain ⟨rfl, rfl⟩ := List.cons.inj h
        refine ⟨hblank, ?_⟩
        rw [List.flatMap_nil, List.append_nil, ← hrest]
        exact hstands
      | cons first front =>
        obtain ⟨rfl, hback⟩ := List.cons.inj h
        have hlater := hpieces front p back hback
        simp only [List.flatMap_cons, Piece.text, List.append_assoc] at hlater ⊢
        exact hlater

/-- Scanning loses nothing, and takes as much as it can. A source has one end of the input, as its last
token; and it consists of the lexemes of all other tokens in order, with nothing but blanks before, between
and after them. Each token stands in it as `Token.Stands` says. -/
theorem tokenize_lossless_and_maximal (source : String) :
    ∃ (gap : List Char) (pieces : List Piece),
      tokenize source = pieces.map Piece.token ++ [Token.endOfInput] ∧
      (∀ p ∈ pieces, p.token.kind ≠ .eof) ∧
      source.toList = gap ++ pieces.flatMap Piece.text ∧ (∀ c ∈ gap, isBlank c = true) ∧
      ∀ front p back, pieces = front ++ p :: back → (∀ c ∈ p.gap, isBlank c = true) ∧
        p.token.Stands (gap ++ front.flatMap Piece.text) p.lexeme (p.gap ++ back.flatMap Piece.text) := by
  obtain ⟨gap, pieces, htokens, htext, hblank, hpieces⟩ := exists_pieces (breaks_nil source.toList)
  refine ⟨gap, pieces, htokens, fun p hp => ?_, htext, hblank, hpieces⟩
  obtain ⟨front, back, rfl⟩ := List.append_of_mem hp
  exact (hpieces front p back rfl).2.wellFormed.kind_ne_eof

end Scriptlet
