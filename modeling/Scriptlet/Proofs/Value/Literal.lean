import Mathlib.Algebra.Group.Int.Defs
import Scriptlet.Proofs.Eval.Discipline
import Scriptlet.Proofs.Node.Spelled
import Scriptlet.Proofs.Parse.Levels
import Scriptlet.Value.Text

/-!
# Values as literals

The text of a plain value, made of integers, truth values and arrays, is the text of a literal
(`Value.literal`). Its tokens are those that spell the literal, although the text has fewer blanks than a
spelling: a sign, a bracket or a comma ends a word or a number just as well. The tokens have a derivation of
the literal, unless a number is out of range, and that happens for one integer only. A negative integer is
read as a minus and a number, and the number of the least one is too large.
-/

namespace Scriptlet

open Scriptlet.Grammar

namespace Value

/-- Integers, truth values, and arrays of plain values. -/
inductive Plain : Value → Prop
  | integer (value : Int64) : Plain (.integer value)
  | boolean (value : Bool) : Plain (.boolean value)
  | array {identity : Identity} {elements : List Value} (h : ∀ element ∈ elements, Plain element) :
    Plain (.array identity elements)

mutual

/-- Plain values of the same shape with the same integers and truth values. -/
def Alike : Value → Value → Prop
  | .integer a, .integer b => a = b
  | .boolean a, .boolean b => a = b
  | .array _ as, .array _ bs => AllAlike as bs
  | _, _ => False

def AllAlike : List Value → List Value → Prop
  | [], [] => True
  | a :: as, b :: bs => a.Alike b ∧ AllAlike as bs
  | _, _ => False

end

end Value

/-! ### Trees of literals -/

namespace Node

def numeral (n : Nat) : Node := .integer ⟨.int, toString n⟩ n

/-- An integer as it is written: there are no negative numbers, only a minus before a number. -/
def ofInt : Int → Node
  | .ofNat n => numeral n
  | .negSucc n => .prefixOp (.mark .minus) "-" (numeral (n + 1))

def ofBool : Bool → Node
  | true => .boolean ⟨.trueWord, "true"⟩ true
  | false => .boolean ⟨.falseWord, "false"⟩ false

end Node

mutual

/-- The tree of the text of a plain value. -/
def Value.literal : Value → Node
  | .integer value => .ofInt value.toInt
  | .boolean value => .ofBool value
  | .array _ elements => .array (.mark .lbracket) (Value.literals elements)
  | _ => .hole

def Value.literals : List Value → List Node
  | [] => []
  | value :: values => value.literal :: Value.literals values

end

theorem Value.literals_eq_map (values : List Value) : literals values = values.map literal := by
  induction values with
  | nil => rfl
  | cons value values ih => rw [literals, ih, List.map_cons]

/-! ### Digits -/

section

variable {n : Nat}

theorem isDigit_of_mem_toDigits {c : Char} (h : c ∈ Nat.toDigits 10 n) : isDigit c = true := by
  have hc := Nat.isDigit_of_mem_toDigits (by decide) (by decide) h
  simpa [isDigit, Char.isDigit, Char.le_def] using hc

theorem toList_toString (n : Nat) : (toString n).toList = Nat.toDigits 10 n := by
  rw [Nat.toString_eq_ofList_toDigits, String.toList_ofList]

theorem toList_toString_negSucc (n : Nat) :
    (toString (Int.negSucc n)).toList = '-' :: (toString (n + 1)).toList := by
  show ("-" ++ toString (n + 1)).toList = _
  rw [String.toList_append]
  rfl

theorem decimal_toString (n : Nat) : decimal (toString n).toList = n := by
  rw [toList_toString, decimal, ← Nat.ofDigitChars_eq_foldl]
  exact Nat.ofDigitChars_ten_toDigits

theorem length_toString_le (h : n ≤ 2 ^ 63) : (toString n).length ≤ maxDigits := by
  rw [← String.length_toList, toList_toString]
  have hlength : (Nat.toDigits 10 n).length ≤ 19 := (Nat.length_toDigits_le_iff (by decide) (by decide)).2 (by omega)
  exact hlength.trans (by decide)

end

/-! ### Scanning -/

section

variable {rest : List Char} (hr : Stops rest)
include hr

theorem tokensOf_numeral_append (n : Nat) :
    tokensOf ((toString n).toList ++ rest) = (Node.numeral n).spell ++ tokensOf rest := by
  rw [toList_toString, tokensOf_digits_append hr Nat.toDigits_ne_nil fun c hc => isDigit_of_mem_toDigits hc,
    ← Nat.toString_eq_ofList_toDigits]
  rfl

theorem tokensOf_ofInt_append (z : Int) :
    tokensOf ((toString z).toList ++ rest) = (Node.ofInt z).spell ++ tokensOf rest := by
  cases z with
  | ofNat n => exact tokensOf_numeral_append hr n
  | negSucc n =>
    rw [toList_toString_negSucc, List.cons_append, tokensOf_mark rfl, tokensOf_numeral_append hr]
    rfl

theorem tokensOf_ofBool_append (b : Bool) :
    tokensOf ((if b then "true" else "false").toList ++ rest) = (Node.ofBool b).spell ++ tokensOf rest := by
  cases b with
  | true => exact tokensOf_word_append hr (List.all_eq_true.1 rfl)
  | false => exact tokensOf_word_append hr (List.all_eq_true.1 rfl)

end

theorem tokensOf_elements {elements : List Value} {rest : List Char} (hr : Stops rest)
    (h : ∀ element ∈ elements, ∀ rest, Stops rest →
      tokensOf (element.inspect.toList ++ rest) = element.literal.spell ++ tokensOf rest) :
    tokensOf ((", ".intercalate (Value.inspectAll elements)).toList ++ rest) =
      separated (Node.spellAll (Value.literals elements)) ++ tokensOf rest := by
  induction elements with
  | nil => rfl
  | cons first elements ih =>
    obtain ⟨hfirst, hothers⟩ := List.forall_mem_cons.1 h
    -- The comma before the next element, or else what follows the last, ends the text of the first.
    cases elements with
    | nil =>
      show tokensOf ((", ".intercalate [first.inspect]).toList ++ rest) = separated [_] ++ _
      rw [String.intercalate_singleton, separated_singleton]
      exact hfirst rest hr
    | cons second elements =>
      have htext : (", ".intercalate (Value.inspectAll (first :: second :: elements))).toList ++ rest =
          first.inspect.toList ++ ',' :: ([' '] ++
            ((", ".intercalate (Value.inspectAll (second :: elements))).toList ++ rest)) := by
        show (", ".intercalate (_ :: _ :: _)).toList ++ rest = _
        rw [String.intercalate_cons_cons, String.toList_append, String.toList_append]
        simp [Value.inspectAll]
      rw [htext, hfirst _ (stops_cons rfl _), tokensOf_mark rfl, tokensOf_blanks_append (by simp [isBlank]),
        ih hothers]
      show _ = separated (first.literal.spell :: Node.spellAll (Value.literals (second :: elements))) ++ _
      rw [separated_cons (by simp [Value.literals, Node.spellAll])]
      simp

/-- The text of a plain value has the tokens of its literal. -/
theorem tokensOf_inspect {value : Value} (h : value.Plain) {rest : List Char} (hr : Stops rest) :
    tokensOf (value.inspect.toList ++ rest) = value.literal.spell ++ tokensOf rest := by
  induction h generalizing rest with
  | integer n => exact tokensOf_ofInt_append hr n.toInt
  | boolean b => exact tokensOf_ofBool_append hr b
  | @array identity elements h ih =>
    have htext : (Value.array identity elements).inspect.toList ++ rest =
        '[' :: ((", ".intercalate (Value.inspectAll elements)).toList ++ ']' :: rest) := by
      rw [Value.inspect, String.toList_append, String.toList_append]
      simp
    rw [htext, tokensOf_mark rfl, tokensOf_elements (stops_cons rfl rest) fun element he rest hs => ih element he hs,
      tokensOf_mark rfl]
    simp [Value.literal, Node.spell]

theorem tokenize_inspect {value : Value} (h : value.Plain) :
    tokenize value.inspect = value.literal.spell ++ [Token.endOfInput] := by
  have hall := @tokensOf_inspect value h [] nofun
  rwa [List.append_nil] at hall

/-! ### Deriving -/

theorem expr_numeral {n : Nat} (h : n < 2 ^ 63) : Expr .primary (Node.numeral n).spell (Node.numeral n) := by
  have hvalue : decimal (toString n).toList = n := decimal_toString n
  have hexpr : Expr .primary [⟨.int, toString n⟩] (.integer ⟨.int, toString n⟩ (decimal (toString n).toList)) := by
    refine .integer rfl ?_
    rwa [hvalue]
  rw [hvalue] at hexpr
  exact hexpr

theorem expr_ofInt {z : Int} (hlow : -2 ^ 63 < z) (hhigh : z < 2 ^ 63) :
    Expr .unary (Node.ofInt z).spell (Node.ofInt z) := by
  cases z with
  | ofNat n =>
    have hn : n < 2 ^ 63 := by
      rw [Int.ofNat_eq_natCast] at hhigh
      omega
    exact (expr_numeral hn).loosen (by decide)
  | negSucc n =>
    -- The minus is an operator, so it is the number alone that has to be in range.
    have hn : n + 1 < 2 ^ 63 := by omega
    exact .prefixOp (.inr rfl) ((expr_numeral hn).loosen (by decide))

theorem expr_ofBool (b : Bool) : Expr .primary (Node.ofBool b).spell (Node.ofBool b) := by
  cases b with
  | true => exact .trueWord rfl
  | false => exact .falseWord rfl

theorem exprs_literals {first : Value} {elements : List Value}
    (h : ∀ element ∈ first :: elements, Expr .equality element.literal.spell element.literal) :
    Exprs (separated (Node.spellAll (Value.literals (first :: elements)))) (Value.literals (first :: elements)) := by
  induction elements generalizing first with
  | nil =>
    show Exprs (separated [first.literal.spell]) [first.literal]
    rw [separated_singleton]
    exact .one (h first (by simp))
  | cons second elements ih =>
    obtain ⟨hfirst, hothers⟩ := List.forall_mem_cons.1 h
    have hcons : separated (Node.spellAll (Value.literals (first :: second :: elements))) =
        first.literal.spell ++ .mark .comma ::
          separated (Node.spellAll (Value.literals (second :: elements))) :=
      separated_cons (by simp [Value.literals, Node.spellAll])
    rw [hcons]
    exact .cons rfl hfirst (ih hothers)

theorem neg_lt_toInt {n : Int64} (h : n ≠ Int64.minValue) : -2 ^ 63 < n.toInt := by
  have hle := n.le_toInt
  have hne : n.toInt ≠ -2 ^ 63 := fun heq => h (Int64.toInt_inj.1 (heq.trans Int64.toInt_minValue.symm))
  omega

/-- A plain value without the least integer has a derivation of its literal. -/
theorem expr_literal {value : Value} (h : value.Plain) (hm : ¬ (Value.integer Int64.minValue).Occurs value) :
    Expr .equality value.literal.spell value.literal := by
  induction h with
  | integer n =>
    have hne : n ≠ Int64.minValue := by
      rintro rfl
      exact hm .self
    exact (expr_ofInt (neg_lt_toInt hne) n.toInt_lt).loosen (by decide)
  | boolean b => exact (expr_ofBool b).loosen (by decide)
  | @array identity elements h ih =>
    have helements : ∀ element ∈ elements, Expr .equality element.literal.spell element.literal :=
      fun element he => ih element he fun ho => hm (.element he ho)
    have harray : Elements (separated (Node.spellAll (Value.literals elements))) (Value.literals elements) := by
      cases elements with
      | nil => exact .none
      | cons first elements => exact .some (exprs_literals helements)
    exact Expr.loosen (.array rfl rfl harray) (by decide)

/-! ### The integers of a literal -/

theorem mem_separated_iff {rows : List (List Token)} {t : Token} (h : t ≠ .mark .comma) :
    t ∈ separated rows ↔ ∃ row ∈ rows, t ∈ row := by
  induction rows with
  | nil => simp
  | cons row rows ih =>
    by_cases hne : rows = []
    · subst hne
      simp
    · rw [separated_cons hne]
      simp [h, ih]

theorem spellAll_eq_map (nodes : List Node) : Node.spellAll nodes = nodes.map Node.spell := by
  induction nodes with
  | nil => rfl
  | cons node nodes ih => rw [Node.spellAll, ih, List.map_cons]

/-- The numbers in the spelling are those of the integers in the value. -/
theorem mem_spell_literal_iff {value : Value} (h : value.Plain) {t : Token} (hk : t.kind = .int) :
    t ∈ value.literal.spell ↔
      ∃ n : Int64, (Value.integer n).Occurs value ∧ t = ⟨.int, toString n.toInt.natAbs⟩ := by
  have hmark : ∀ kind ≠ TokenKind.int, t ≠ .mark kind := by
    rintro kind hne rfl
    exact hne hk
  induction h with
  | integer n =>
    have hocc : ∀ m : Int64, (Value.integer m).Occurs (.integer n) ↔ m = n := by
      intro m
      rw [Value.occurs_iff_eq (fun _ _ => Value.noConfusion), Value.integer.injEq]
    simp only [hocc, exists_eq_left, Value.literal]
    cases n.toInt with
    | ofNat m => exact List.mem_singleton
    | negSucc m =>
      show t ∈ [Token.mark .minus, ⟨.int, toString (m + 1)⟩] ↔ _
      rw [List.mem_cons, List.mem_singleton, or_iff_right (hmark .minus (by decide))]
      rfl
  | boolean b =>
    have hocc : ∀ m : Int64, ¬ (Value.integer m).Occurs (.boolean b) := by
      intro m
      rw [Value.occurs_iff_eq (fun _ _ => Value.noConfusion)]
      exact nofun
    have hnot : t ∉ (Node.ofBool b).spell := by
      cases b <;> (rintro (_ | ⟨_, ⟨⟩⟩); cases hk)
    simp [hocc, Value.literal, hnot]
  | @array identity elements h ih =>
    have hocc : ∀ m : Int64, (Value.integer m).Occurs (.array identity elements) ↔
        ∃ element ∈ elements, (Value.integer m).Occurs element := by
      intro m
      rw [Value.occurs_array_iff, or_iff_right Value.noConfusion]
    simp only [hocc, Value.literal, Node.spell, spellAll_eq_map, Value.literals_eq_map, List.mem_cons, List.mem_append,
      hmark .lbracket (by decide), hmark .rbracket (by decide), List.not_mem_nil, or_false, false_or,
      mem_separated_iff (hmark .comma (by decide)), List.mem_map]
    constructor
    · rintro ⟨_, ⟨_, ⟨element, he, rfl⟩, rfl⟩, ht⟩
      obtain ⟨n, hn, rfl⟩ := (ih element he).1 ht
      exact ⟨n, ⟨element, he, hn⟩, rfl⟩
    · rintro ⟨n, ⟨element, he, hn⟩, rfl⟩
      exact ⟨_, ⟨_, ⟨element, he, rfl⟩, rfl⟩, (ih element he).2 ⟨n, hn, rfl⟩⟩

end Scriptlet
