import Scriptlet.Node.Listing
import Scriptlet.Proofs.Text.Quoted
import Scriptlet.Proofs.Token.Spelling

/-!
# Reading listings back

A listing is itself a tree (`Listed`): words, quoted texts, lists, and records of named fields. Its text can be read
in one way only. A word ends before the first character that separates, and this character tells what the word is:
the name of a field, the kind of a record, or all there is. A list or a record goes on after each item that a comma
follows.
-/

namespace Scriptlet

namespace Text

/-- The characters of names of kinds and fields, and of numbers. -/
def isWordChar (c : Char) : Bool := isLetter c || isDigit c || c == '-'

def isWord (text : String) : Bool := text ≠ "" && text.toList.all isWordChar

/-- What may come after an item of a list or a record. -/
def closers : List Char := [',', ')', ']']

end Text

/-- The name of a kind or of a field, a number or a truth value. -/
structure Word where
  text : String
  isWord : Text.isWord text = true

/-- What a listing is made of. -/
inductive Listed where
  | word (word : Word)
  | tokenKind (kind : TokenKind)
  | quoted (text : String)
  | field (name : Word) (content : Listed)
  | list (items : List Listed)
  | record (kind : Word) (fields : List Listed)

namespace TokenKind

/-- What is listed for the kind of a token. -/
def listing (kind : TokenKind) : String :=
  "<TokenType." ++ kind.name ++ ": " ++ Text.quoted kind.symbol ++ ">"

theorem toList_listing (kind : TokenKind) : kind.listing.toList =
    '<' :: ("TokenType.".toList ++ (kind.name.toList ++
      ':' :: ' ' :: ((Text.quoted kind.symbol).toList ++ ['>']))) := by
  simp [listing]

theorem name_injective {a b : TokenKind} (h : a.name = b.name) : a = b := by
  have key : ∀ a ∈ all, ∀ b ∈ all, a.name = b.name → a = b := by decide
  exact key a (mem_all a) b (mem_all b) h

theorem isWord_name (kind : TokenKind) : Text.isWord kind.name = true := by
  have key : ∀ kind ∈ all, Text.isWord kind.name = true := by decide
  exact key kind (mem_all kind)

end TokenKind

namespace Listed

mutual

@[simp] def text : Listed → String
  | .word name => name.text
  | .tokenKind kind => kind.listing
  | .quoted text => Text.quoted text
  | .field name content => name.text ++ "=" ++ content.text
  | .list items => Text.bracketed (textOfAll items)
  | .record kind fields => kind.text ++ "(" ++ ", ".intercalate (textOfAll fields) ++ ")"

@[simp] def textOfAll : List Listed → List String
  | [] => []
  | item :: items => item.text :: textOfAll items

end

/-- Items with a comma and a blank between any two of them. -/
def join (items : List Listed) : List Char := (", ".intercalate (textOfAll items)).toList

/-- The word that a listing begins with, if there is one. -/
def lead : Listed → List Char
  | .word name | .field name _ | .record name _ => name.text.toList
  | .tokenKind _ | .quoted _ | .list _ => []

/-- What comes after this word. -/
def body : Listed → List Char
  | .word _ => []
  | .field _ content => '=' :: content.text.toList
  | .record _ fields => '(' :: (join fields ++ [')'])
  | .tokenKind kind => kind.listing.toList
  | .quoted text => Text.quotedChars text.toList
  | .list items => '[' :: (join items ++ [']'])

/-- The first character after this word; there is none where the word is all there is. -/
def mark : Listed → Option Char
  | .word _ => none
  | .field _ _ => some '='
  | .record _ _ => some '('
  | .tokenKind _ => some '<'
  | .quoted text => some (Text.quoteFor text.toList)
  | .list _ => some '['

/-- The ways in which a listing can be made. -/
inductive Shape
  | word
  | field
  | record
  | tokenKind
  | quoted
  | list

def shape : Listed → Shape
  | .word _ => .word
  | .field _ _ => .field
  | .record _ _ => .record
  | .tokenKind _ => .tokenKind
  | .quoted _ => .quoted
  | .list _ => .list

/-- The shape of a listing in which this character comes after the first word. -/
def Shape.ofMark : Option Char → Shape
  | some '=' => .field
  | some '(' => .record
  | some '<' => .tokenKind
  | some '[' => .list
  | some c => if c = Text.apostrophe ∨ c = Text.quotationMark then .quoted else .word
  | none => .word

end Listed

/-- Nothing follows, or what separates an item from the next one, or what closes a list or a record. -/
def Closed (rest : List Char) : Prop := ∀ c ∈ rest.head?, c ∈ Text.closers

theorem closed_nil : Closed [] := by
  rintro c ⟨⟩

variable {v w rest rest' : List Char}

/-! ### Words -/

theorem word_append_inj (hv : ∀ c ∈ v, Text.isWordChar c = true) (hw : ∀ c ∈ w, Text.isWordChar c = true)
    (hr : ∀ c ∈ rest.head?, Text.isWordChar c = false) (hr' : ∀ c ∈ rest'.head?, Text.isWordChar c = false)
    (h : v ++ rest = w ++ rest') : v = w ∧ rest = rest' := by
  have hvw : v = w := by rw [← takeWhile_append_stop hv hr, h, takeWhile_append_stop hw hr']
  subst hvw
  exact ⟨rfl, List.append_cancel_left h⟩

theorem Word.plain (word : Word) : ∀ c ∈ word.text.toList, Text.isWordChar c = true := by
  have h := word.isWord
  rw [Text.isWord, Bool.and_eq_true] at h
  exact List.all_eq_true.1 h.2

theorem Word.eq_of_toList {v w : Word} (h : v.text.toList = w.text.toList) : v = w := by
  cases v
  cases w
  cases String.toList_inj.1 h
  rfl

theorem Word.append_ne (word : Word) {c : Char} (hc : Text.isWordChar c = false) :
    word.text.toList ++ rest ≠ c :: rest' := by
  have hne := word.isWord
  rw [Text.isWord, Bool.and_eq_true, decide_eq_true_iff] at hne
  intro h
  cases hw : word.text.toList with
  | nil => exact hne.1 (String.toList_eq_nil_iff.1 hw)
  | cons d ds =>
    rw [hw] at h
    cases (List.cons.inj h).1
    have hplain := word.plain c (by rw [hw]; exact List.mem_cons_self ..)
    rw [hc] at hplain
    cases hplain

theorem TokenKind.listing_append_inj {a b : TokenKind} (h : a.listing.toList ++ rest = b.listing.toList ++ rest') :
    a = b ∧ rest = rest' := by
  rw [toList_listing, toList_listing, List.cons_append, List.cons_append] at h
  simp only [List.append_assoc] at h
  obtain ⟨-, hnames⟩ := List.append_inj (List.cons.inj h).2 rfl
  obtain ⟨hname, hothers⟩ := word_append_inj (Word.plain ⟨a.name, a.isWord_name⟩) (Word.plain ⟨b.name, b.isWord_name⟩)
    (by rintro c ⟨⟩; decide) (by rintro c ⟨⟩; decide) hnames
  obtain rfl := name_injective (String.toList_inj.1 hname)
  exact ⟨rfl, (List.append_inj hothers rfl).2⟩

namespace Listed

variable {a b : Listed}

/-! ### How a listing begins -/

theorem toList_text (listed : Listed) : listed.text.toList = listed.lead ++ listed.body := by
  cases listed <;> simp [join, lead, body, Text.bracketed, Text.quoted]

theorem lead_plain (listed : Listed) : ∀ c ∈ listed.lead, Text.isWordChar c = true := by
  cases listed with
  | word name => exact name.plain
  | field name _ => exact name.plain
  | record kind _ => exact kind.plain
  | tokenKind _ | quoted _ | list _ => nofun

theorem head?_body (listed : Listed) (rest : List Char) :
    (listed.body ++ rest).head? = listed.mark.or rest.head? := by
  cases listed with
  | tokenKind kind =>
    show (kind.listing.toList ++ rest).head? = _
    rw [TokenKind.toList_listing]
    rfl
  | _ => rfl

theorem isWordChar_of_closer {c : Char} (hc : c ∈ Text.closers) : Text.isWordChar c = false := by
  simp only [Text.closers, List.mem_cons, List.not_mem_nil, or_false] at hc
  rcases hc with rfl | rfl | rfl <;> rfl

theorem isWordChar_of_mark {listed : Listed} {c : Char} (h : c ∈ listed.mark) :
    Text.isWordChar c = false ∧ c ∉ Text.closers := by
  cases listed with
  | word _ => cases h
  | quoted text =>
    cases h
    rcases Text.quoteFor_cases text.toList with hq | hq <;> rw [hq] <;> decide
  | _ =>
    cases h
    decide

theorem isWordChar_of_head_body {listed : Listed} (hr : Closed rest) :
    ∀ c ∈ (listed.body ++ rest).head?, Text.isWordChar c = false := by
  intro c hc
  rw [head?_body, Option.mem_def, Option.or_eq_some_iff] at hc
  rcases hc with hm | ⟨-, hm⟩
  · exact (isWordChar_of_mark hm).1
  · exact isWordChar_of_closer (hr c hm)

theorem ofMark_head_body (listed : Listed) (hr : Closed rest) :
    Shape.ofMark (listed.body ++ rest).head? = listed.shape := by
  rw [head?_body]
  cases listed with
  | word _ =>
    cases rest with
    | nil => rfl
    | cons c rest =>
      have key : ∀ c ∈ Text.closers, Shape.ofMark (some c) = .word := by
        simp [Text.closers, Shape.ofMark, Text.apostrophe, Text.quotationMark]
      exact key c (hr c rfl)
  | quoted text =>
    show Shape.ofMark (some (Text.quoteFor text.toList)) = _
    rcases Text.quoteFor_cases text.toList with hq | hq <;> rw [hq] <;> rfl
  | _ => rfl

theorem parts_inj (hr : Closed rest) (hr' : Closed rest') (h : a.text.toList ++ rest = b.text.toList ++ rest') :
    a.shape = b.shape ∧ a.lead = b.lead ∧ a.body ++ rest = b.body ++ rest' := by
  rw [toList_text, toList_text, List.append_assoc, List.append_assoc] at h
  obtain ⟨hlead, hbody⟩ := word_append_inj a.lead_plain b.lead_plain (isWordChar_of_head_body hr)
    (isWordChar_of_head_body hr') h
  exact ⟨by rw [← ofMark_head_body a hr, hbody, ofMark_head_body b hr'], hlead, hbody⟩

theorem body_append_ne {listed : Listed} {c m : Char} (hm : listed.mark = some m) (hc : c ∈ Text.closers) :
    listed.body ++ rest ≠ c :: rest' := by
  intro h
  have hhead : (listed.body ++ rest).head? = some c := congrArg List.head? h
  rw [head?_body, hm, Option.some_or] at hhead
  exact (isWordChar_of_mark (hm.trans hhead)).2 hc

/-- An item begins with no comma and closes nothing. -/
theorem text_append_ne {c : Char} (hc : c ∈ Text.closers) (listed : Listed) (rest : List Char) :
    listed.text.toList ++ rest ≠ c :: rest' := by
  have hs := isWordChar_of_closer hc
  rw [toList_text, List.append_assoc]
  cases listed with
  | word name => exact name.append_ne hs
  | field name _ => exact name.append_ne hs
  | record kind _ => exact kind.append_ne hs
  | tokenKind _ | quoted _ | list _ => exact body_append_ne rfl hc

/-! ### Items -/

/-- What follows an item in a list or a record: the other items, and what closes it. -/
def tail (rest : List Char) : List Listed → List Char
  | [] => rest
  | item :: items => ',' :: ' ' :: (join (item :: items) ++ rest)

theorem join_nil : join [] = [] := by
  simp [join]

theorem join_cons_append (item : Listed) (items : List Listed) (rest : List Char) :
    join (item :: items) ++ rest = item.text.toList ++ tail rest items := by
  cases items with
  | nil => simp [join, tail]
  | cons second items => simp [join, tail]

/-- The comma, or that there is none, tells whether more items follow. -/
theorem items_of_tail {as bs : List Listed} {close : Char} (hc : close ∈ [')', ']'])
    (h : tail (close :: rest) as = tail (close :: rest') bs) :
    join as ++ close :: rest =
      join bs ++ close :: rest' := by
  have hcomma : close ≠ ',' := by
    rintro rfl
    revert hc
    decide
  cases as <;> cases bs
  case nil.nil => exact h
  case nil.cons => exact absurd (List.cons.inj h).1 hcomma
  case cons.nil => exact absurd (List.cons.inj h).1.symm hcomma
  case cons.cons => exact (List.cons.inj (List.cons.inj h).2).2

theorem closed_tail (hr : Closed rest) (items : List Listed) : Closed (tail rest items) := by
  cases items with
  | nil => exact hr
  | cons item items =>
    rintro c ⟨⟩
    decide

theorem closed_cons {c : Char} (hc : c ∈ Text.closers) (rest : List Char) : Closed (c :: rest) := by
  rintro _ ⟨⟩
  exact hc

/-! ### Whole listings -/

mutual

/-- A listing is read in one way only, and it is clear where it ends. -/
theorem text_append_inj : ∀ (a b : Listed) (rest rest' : List Char), Closed rest → Closed rest' →
    a.text.toList ++ rest = b.text.toList ++ rest' → a = b ∧ rest = rest'
  | .word v, b => by
    intro rest rest' hr hr' h
    obtain ⟨hshape, hlead, hbody⟩ := parts_inj hr hr' h
    cases b <;> cases hshape
    exact ⟨congrArg word (Word.eq_of_toList hlead), hbody⟩
  | .tokenKind kind, b => by
    intro rest rest' hr hr' h
    obtain ⟨hshape, -, hbody⟩ := parts_inj hr hr' h
    cases b <;> cases hshape
    obtain ⟨rfl, hrest⟩ := TokenKind.listing_append_inj hbody
    exact ⟨rfl, hrest⟩
  | .quoted text, b => by
    intro rest rest' hr hr' h
    obtain ⟨hshape, -, hbody⟩ := parts_inj hr hr' h
    cases b <;> cases hshape
    obtain ⟨htext, hrest⟩ := Text.quotedChars_append_inj hbody
    exact ⟨congrArg quoted (String.toList_inj.1 htext), hrest⟩
  | .field name content, b => by
    intro rest rest' hr hr' h
    obtain ⟨hshape, hlead, hbody⟩ := parts_inj hr hr' h
    cases b <;> cases hshape
    obtain ⟨rfl, hrest⟩ := text_append_inj content _ _ _ hr hr' (List.cons.inj hbody).2
    obtain rfl := Word.eq_of_toList hlead
    exact ⟨rfl, hrest⟩
  | .list items, b => by
    intro rest rest' hr hr' h
    obtain ⟨hshape, -, hbody⟩ := parts_inj hr hr' h
    cases b <;> cases hshape
    simp only [body, List.cons_append, List.append_assoc, List.nil_append, List.cons.injEq, true_and] at hbody
    obtain ⟨rfl, hrest⟩ := join_append_inj items _ _ _ _ (by decide) hbody
    exact ⟨rfl, hrest⟩
  | .record kind fields, b => by
    intro rest rest' hr hr' h
    obtain ⟨hshape, hlead, hbody⟩ := parts_inj hr hr' h
    cases b <;> cases hshape
    simp only [body, List.cons_append, List.append_assoc, List.nil_append, List.cons.injEq, true_and] at hbody
    obtain ⟨rfl, hrest⟩ := join_append_inj fields _ _ _ _ (by decide) hbody
    obtain rfl := Word.eq_of_toList hlead
    exact ⟨rfl, hrest⟩

theorem join_append_inj : ∀ (as bs : List Listed) (close : Char) (rest rest' : List Char), close ∈ [')', ']'] →
    join as ++ close :: rest = join bs ++ close :: rest' → as = bs ∧ rest = rest'
  | [], [] => by
    intro close rest rest' hc h
    rw [join_nil, List.nil_append, List.nil_append] at h
    exact ⟨rfl, (List.cons.inj h).2⟩
  | [], b :: bs => by
    intro close rest rest' hc h
    rw [join_nil, join_cons_append, List.nil_append] at h
    exact absurd h.symm (text_append_ne (List.mem_cons_of_mem _ hc) b _)
  | a :: as, [] => by
    intro close rest rest' hc h
    rw [join_nil, join_cons_append, List.nil_append] at h
    exact absurd h (text_append_ne (List.mem_cons_of_mem _ hc) a _)
  | a :: as, b :: bs => by
    intro close rest rest' hc h
    rw [join_cons_append, join_cons_append] at h
    have hclose : ∀ rest, Closed (close :: rest) := closed_cons (List.mem_cons_of_mem _ hc)
    obtain ⟨rfl, htail⟩ :=
      text_append_inj a b _ _ (closed_tail (hclose rest) as) (closed_tail (hclose rest') bs) h
    obtain ⟨rfl, hrest⟩ := join_append_inj as bs _ _ _ hc (items_of_tail hc htail)
    exact ⟨rfl, hrest⟩

end

end Listed

end Scriptlet
