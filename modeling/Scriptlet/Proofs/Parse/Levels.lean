import Scriptlet.Parse.Expression
import Scriptlet.Proofs.Parse.Grammar

/-!
# Levels and precedences

The grammar has levels and the parser compares precedences. Three numbers tie them together. An
operator that follows an expression of a level binds at most as tight as the `reach` of the level, or
it would belong to the last operand. A place that takes expressions of a level is at most as tight as
its `floor`, or it would end before the operators of the level. And `Precedence.level` is the level of
what is read at a place.

The module also says what derivations begin with, and that none goes past the end of the input or has an
integer out of range.
-/

namespace Scriptlet

open Scriptlet.Grammar

namespace Grammar.Level

/-- The levels in order, from loose to tight. -/
def rank : Level → Nat
  | .equality => 0
  | .comparison => 1
  | .sum => 2
  | .product => 3
  | .unary => 4
  | .applied => 5
  | .primary => 6

/-- How tight an operator may bind that follows an expression of the level. -/
def reach : Level → Nat
  | .equality => 2
  | .comparison => 3
  | .sum => 4
  | .product => 5
  | .unary => 6
  | .applied | .primary => 8

/-- How tight a place may be that takes expressions of the level. -/
def floor : Level → Nat
  | .equality => 1
  | .comparison => 2
  | .sum => 3
  | .product => 4
  | .unary | .applied | .primary => 6

theorem reach_le_tighter (level : Level) : level.reach ≤ level.tighter.reach := by
  cases level <;> decide

theorem floor_le_tighter (level : Level) : level.floor ≤ level.tighter.floor := by
  cases level <;> decide

theorem floor_le_reach (level : Level) : level.floor ≤ level.reach := by
  cases level <;> decide

theorem rank_injective {a b : Level} (h : a.rank = b.rank) : a = b := by
  revert h
  cases a <;> cases b <;> decide

theorem rank_tighter {level : Level} (h : level.rank < 6) : level.tighter.rank = level.rank + 1 := by
  revert h
  cases level <;> decide

theorem rank_le (level : Level) : level.rank ≤ 6 := by
  cases level <;> decide

/-- Operators stand on the level of their precedence. -/
theorem rank_le_of_reach {a b : Level} (h : a.reach ≤ b.reach) (ha : a ≠ .primary) :
    a.rank ≤ b.rank := by
  revert h ha
  cases a <;> cases b <;> decide

/-- Only calls and subscripts bind tighter than a unary operator. -/
theorem applied_rank_le {level : Level} (h : 7 ≤ level.reach) : applied.rank ≤ level.rank := by
  revert h
  cases level <;> decide

end Grammar.Level

/-- The level of the expressions that are read at a place. -/
def Precedence.level : Precedence → Level
  | .lowest => .equality
  | .equals => .comparison
  | .lessGreater => .sum
  | .sum => .product
  | .product | .prefixed => .unary
  | .call => .applied
  | .index => .primary

theorem Precedence.one_le_rank (precedence : Precedence) : 1 ≤ precedence.rank := by
  cases precedence <;> decide

theorem Precedence.rank_level_le {precedence : Precedence} (h : precedence.rank ≤ 6) :
    precedence.level.rank ≤ Level.unary.rank := by
  revert h
  cases precedence <;> decide

namespace TokenKind

/-- The level of an operator between operands. -/
def level : TokenKind → Level
  | .eq | .notEq => .equality
  | .lt | .gt => .comparison
  | .plus | .minus => .sum
  | .asterisk | .slash => .product
  | _ => .primary

variable {kind : TokenKind}

theorem rank_precedence_le (kind : TokenKind) : kind.precedence.rank ≤ 8 := by
  cases kind <;> decide

theorem rank_precedence_le_one_iff : kind.precedence.rank ≤ 1 ↔ kind ∉ continuers := by
  cases kind <;> decide

/-- What the parser knows of an operator between operands, in terms of its level. -/
theorem mem_operators_level (h : Rules.standard.following kind = some .infixOp) :
    kind ∈ kind.level.operators ∧ kind.precedence.rank = kind.level.reach ∧
      kind.precedence.level = kind.level.tighter ∧ kind.precedence.rank ≤ 5 ∧
      kind.level ≠ .primary := by
  revert h
  cases kind <;> decide

/-- What the grammar knows of an operator between operands, in terms of its precedence. -/
theorem following_of_mem_operators {level : Level} (h : kind ∈ level.operators) :
    Rules.standard.following kind = some .infixOp ∧ kind.precedence.rank = level.reach ∧
      level.floor < kind.precedence.rank ∧ kind.precedence.rank ≤ level.tighter.floor ∧
      kind ≠ .elseWord := by
  revert h
  cases level <;> cases kind <;> decide

theorem following_eq_call_iff : Rules.standard.following kind = some .call ↔ kind = .lparen := by
  cases kind <;> decide

theorem following_eq_index_iff : Rules.standard.following kind = some .index ↔ kind = .lbracket := by
  cases kind <;> decide

/-- A token that binds an operand at all goes on with it. -/
theorem isSome_following (h : 1 < kind.precedence.rank) :
    kind ≠ .semicolon ∧ (Rules.standard.following kind).isSome = true := by
  revert h
  cases kind <;> decide

/-- A place that an operator goes on from is on a level no tighter than that of the operator. -/
theorem rank_level_le_of_lt {precedence : Precedence} {level : Level}
    (h : precedence.rank < kind.precedence.rank) (hl : kind.precedence.rank = level.reach)
    (hp : precedence.rank ≤ 6) : precedence.level.rank ≤ level.rank := by
  rw [hl] at h
  revert h hp
  cases precedence <;> cases level <;> decide

end TokenKind

/-- By the rules of the language, precedence alone tells whether an expression goes on. -/
theorem Parser.goesOn_eq {σ : Type} [TokenSource σ] (precedence : Precedence) (w : Window σ) :
    goesOn Rules.standard precedence w = decide (precedence.rank < w.upcoming.kind.precedence.rank) := by
  unfold goesOn
  by_cases h : precedence.rank < w.upcoming.kind.precedence.rank
  · obtain ⟨hs, hf⟩ := TokenKind.isSome_following (Nat.lt_of_le_of_lt precedence.one_le_rank h)
    simp [h, hs, hf]
  · simp [h]

namespace Grammar

variable {level tight : Level} {ts : List Token} {e : Node}

theorem Expr.loosen (h : Expr tight ts e) (hr : level.rank ≤ tight.rank) : Expr level ts e := by
  obtain ⟨n, hn⟩ := Nat.exists_eq_add_of_le hr
  induction n generalizing level with
  | zero => rwa [← Level.rank_injective hn]
  | succ n ih =>
    have hmax := tight.rank_le
    have ht : level.tighter.rank = level.rank + 1 := Level.rank_tighter (by omega)
    exact .tighter (ih (by omega) (by omega))

/-! ### Ends of derivations -/

theorem Expr.head?_append (h : Expr level ts e) (us : List Token) : (ts ++ us).head? = ts.head? := by
  obtain ⟨t, ts, rfl⟩ := List.exists_cons_of_ne_nil h.ne_nil
  rfl

/-- An expression begins with a token that the parser has a rule for. -/
theorem Expr.begins : ∀ {level : Level} {ts : List Token} {e : Node}, Expr level ts e →
    ∀ t ∈ ts.head?, (Rules.standard.beginning t.kind).isSome = true
  | _, _, _, .tighter h => h.begins
  | _, _, _, .infixOp _ ha _ | _, _, _, .call _ _ ha _ | _, _, _, .index _ _ ha _ => by
    rw [ha.head?_append]
    exact ha.begins
  | _, _, _, .prefixOp ho _ => by
    rintro _ ⟨⟩
    rcases ho with h | h <;> rw [h] <;> rfl
  | _, _, _, .identifier h | _, _, _, .integer h _ | _, _, _, .string h | _, _, _, .trueWord h
  | _, _, _, .falseWord h | _, _, _, .grouped h _ _ | _, _, _, .conditional h _ _ _ _
  | _, _, _, .alternative h _ _ _ _ _ _ | _, _, _, .function h _ _ _ _ | _, _, _, .array h _ _ => by
    rintro _ ⟨⟩
    rw [h]
    rfl

theorem Exprs.begins {es : List Node} (h : Exprs ts es) :
    ∀ t ∈ ts.head?, (Rules.standard.beginning t.kind).isSome = true := by
  cases h with
  | one h => exact h.begins
  | cons _ he _ =>
    rw [he.head?_append]
    exact he.begins

theorem Statement.begins {closed : Bool} {s : Node} (h : Statement closed ts s) :
    ∀ t ∈ ts.head?, t.kind = .letWord ∨ t.kind = .returnWord ∨
      (Rules.standard.beginning t.kind).isSome = true := by
  cases h with
  | letStatement hw =>
    rintro _ ⟨⟩
    exact .inl hw
  | returnStatement hw =>
    rintro _ ⟨⟩
    exact .inr (.inl hw)
  | expressionStatement he =>
    rintro t ⟨⟩
    exact .inr (.inr (he.begins _ rfl))

theorem Statement.head?_append {closed : Bool} {s : Node} (h : Statement closed ts s) (us : List Token) :
    (ts ++ us).head? = ts.head? := by
  obtain ⟨t, ts, rfl⟩ := List.exists_cons_of_ne_nil h.ne_nil
  rfl

theorem Statements.begins {ss : List Node} (h : Statements ts ss) :
    ∀ t ∈ ts.head?, t.kind = .letWord ∨ t.kind = .returnWord ∨
      (Rules.standard.beginning t.kind).isSome = true := by
  cases h with
  | nil => exact nofun
  | cons hs _ _ =>
    rw [hs.head?_append]
    exact hs.begins

theorem Names.begins {ids : List Identifier} (h : Names ts ids) :
    ∀ t ∈ ts.head?, t.kind = .ident := by
  cases h with
  | one hn =>
    rintro _ ⟨⟩
    exact hn
  | cons hn =>
    rintro _ ⟨⟩
    exact hn

theorem Block.begins (h : Block ts e) : ∀ t ∈ ts.head?, t.kind = .lbrace := by
  cases h with
  | braces hl =>
    rintro _ ⟨⟩
    exact hl

/-- None of the tokens is the end of the input. -/
def Inner (ts : List Token) : Prop := ∀ t ∈ ts, t.kind ≠ .eof

theorem inner_cons {t : Token} {ts : List Token} : Inner (t :: ts) ↔ t.kind ≠ .eof ∧ Inner ts :=
  List.forall_mem_cons

/-- None of the tokens is the end of the input, and the integers among them are in range. -/
def Proper (ts : List Token) : Prop :=
  ∀ t ∈ ts, t.kind ≠ .eof ∧ (t.kind = .int → decimal t.literal.toList < 2 ^ 63)

@[simp] theorem proper_nil : Proper [] := by simp [Proper]

@[simp] theorem proper_cons {t : Token} {ts : List Token} : Proper (t :: ts) ↔
    (t.kind ≠ .eof ∧ (t.kind = .int → decimal t.literal.toList < 2 ^ 63)) ∧ Proper ts := List.forall_mem_cons

@[simp] theorem proper_append {ts us : List Token} : Proper (ts ++ us) ↔ Proper ts ∧ Proper us :=
  List.forall_mem_append

theorem Names.proper {ids : List Identifier} (h : Names ts ids) : Proper ts := by
  induction h with
  | one hn => simp [hn]
  | cons hn hc _ ih => simp [hn, hc, ih]

theorem Parameters.proper {ids : List Identifier} (h : Parameters ts ids) : Proper ts := by
  cases h with
  | none => simp
  | some h => exact h.proper

theorem Ending.proper {closed : Bool} (h : Ending closed ts) : Proper ts := by
  cases h with
  | missing => simp
  | semicolon hs => simp [hs]

theorem ne_of_mem_operators {kind : TokenKind} (h : kind ∈ level.operators) : kind ≠ .eof ∧ kind ≠ .int := by
  constructor <;> rintro rfl <;> revert h <;> cases level <;> decide

mutual

theorem Expr.proper : ∀ {level : Level} {ts : List Token} {e : Node}, Expr level ts e → Proper ts
  | _, _, _, .tighter h => h.proper
  | _, _, _, .infixOp ho ha hb => by simp [ne_of_mem_operators ho, ha.proper, hb.proper]
  | _, _, _, .prefixOp ho h => by rcases ho with ho | ho <;> simp [ho, h.proper]
  | _, _, _, .call hl hr hf ha => by simp [hl, hr, hf.proper, ha.proper]
  | _, _, _, .index hl hr ha he => by simp [hl, hr, ha.proper, he.proper]
  | _, _, _, .integer h hm => by simpa [h] using hm
  | _, _, _, .identifier h | _, _, _, .string h | _, _, _, .trueWord h | _, _, _, .falseWord h => by simp [h]
  | _, _, _, .grouped hl hr h => by simp [hl, hr, h.proper]
  | _, _, _, .conditional hw hl hr hc hq => by simp [hw, hl, hr, hc.proper, hq.proper]
  | _, _, _, .alternative hw hl hr ho hc hq ha => by
    simp [hw, hl, hr, ho, hc.proper, hq.proper, ha.proper]
  | _, _, _, .function hw hl hr hp hb => by simp [hw, hl, hr, hp.proper, hb.proper]
  | _, _, _, .array hl hr he => by simp [hl, hr, he.proper]

theorem Elements.proper : ∀ {ts : List Token} {es : List Node}, Elements ts es → Proper ts
  | _, _, .none => by simp
  | _, _, .some h => h.proper

theorem Exprs.proper : ∀ {ts : List Token} {es : List Node}, Exprs ts es → Proper ts
  | _, _, .one h => h.proper
  | _, _, .cons hc he h => by simp [hc, he.proper, h.proper]

theorem Statement.proper : ∀ {closed : Bool} {ts : List Token} {s : Node},
    Statement closed ts s → Proper ts
  | _, _, _, .letStatement hw hn ha he hs => by simp [hw, hn, ha, he.proper, hs.proper]
  | _, _, _, .returnStatement hw he hs => by simp [hw, he.proper, hs.proper]
  | _, _, _, .expressionStatement he hs => by
    rw [proper_append]
    exact ⟨he.proper, hs.proper⟩

theorem Statements.proper : ∀ {ts : List Token} {ss : List Node}, Statements ts ss → Proper ts
  | _, _, .nil => by simp
  | _, _, .cons hs h _ => by simp [hs.proper, h.proper]

theorem Block.proper : ∀ {ts : List Token} {e : Node}, Block ts e → Proper ts
  | _, _, .braces hl hr h => by simp [hl, hr, h.proper]

end

theorem Statements.inner {ss : List Node} (h : Statements ts ss) : Inner ts := fun t ht => (h.proper t ht).1

/-- The integers of a program are in range. -/
theorem Program.decimal_lt {p : Node} (h : Program ts p) {t : Token} (ht : t ∈ ts) (hk : t.kind = .int) :
    decimal t.literal.toList < 2 ^ 63 := by
  cases h with
  | statements hl h =>
    rcases List.mem_append.1 ht with ht | ht
    · exact (h.proper t ht).2 hk
    · rw [List.mem_singleton.1 ht, hl] at hk
      cases hk

end Grammar

end Scriptlet
