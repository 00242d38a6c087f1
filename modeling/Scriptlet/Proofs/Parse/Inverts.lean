import Scriptlet.Proofs.Node.Spelled
import Scriptlet.Proofs.Parse.Numerals

/-!
# The parser undoes spelling

The tree of a derivation is spelled by tokens that have a derivation of the same tree, on a level that is
as tight as the tree (`Respelled`). An operand that is looser than its place gets parentheses, and one that
is not stands on a level that its place takes. So the parser reads a program from its own spelling, up to
the tokens with which expression statements begin.
-/

namespace Scriptlet

open Scriptlet.Grammar

namespace Grammar

/-- The tree is derived from its spelling, on a level as tight as it is. -/
def Respelled (e : Node) : Prop :=
  ∃ (level : Level) (e' : Node), level.reach = e.tightness ∧ Expr level e.spell e' ∧
    e'.unstarted = e.unstarted

theorem Level.tighter_rank_le {a b : Level} (h : a.reach < b.reach) : a.tighter.rank ≤ b.rank := by
  revert h
  cases a <;> cases b <;> decide

theorem Level.ne_primary_of_mem {level : Level} {kind : TokenKind} (h : kind ∈ level.operators) :
    level ≠ .primary := by
  rintro rfl
  cases h

namespace Respelled

variable {e a b : Node}

/-- An operand at a place that takes what is not in need of parentheses. -/
theorem operand (h : Respelled e) (place : Level) (needed : Bool)
    (hp : ∀ level : Level, level.reach = e.tightness → needed = false → place.rank ≤ level.rank) :
    ∃ e', Expr place (enclosed needed e.spell) e' ∧ e'.unstarted = e.unstarted := by
  obtain ⟨level, e', hr, he, hu⟩ := h
  refine ⟨e', ?_, hu⟩
  cases needed with
  | false => exact he.loosen (hp level hr rfl)
  | true =>
    have hgroup : Expr .primary (enclosed true e.spell) e' :=
      .grouped rfl rfl (he.loosen (Nat.zero_le _))
    exact hgroup.loosen place.rank_le

theorem whole (h : Respelled e) : ∃ e', Expr .equality e.spell e' ∧ e'.unstarted = e.unstarted :=
  h.operand .equality false fun _ _ _ => Nat.zero_le _

theorem infixOp {level : Level} {op : Token} (ho : op.kind ∈ level.operators) (ha : Respelled a)
    (hb : Respelled b) : Respelled (.infixOp op op.literal a b) := by
  have hrank : op.kind.precedence.rank = level.reach := (TokenKind.following_of_mem_operators ho).2.1
  -- An operand as tight as the operator may stand to its left, but to its right only a tighter one.
  obtain ⟨a', ha, hua⟩ := ha.operand level
    (decide (a.tightness < op.kind.precedence.rank)) fun level' hr hn => by
      rw [decide_eq_false_iff_not, hrank, ← hr] at hn
      exact Level.rank_le_of_reach (Nat.le_of_not_lt hn) (Level.ne_primary_of_mem ho)
  obtain ⟨b', hb, hub⟩ := hb.operand level.tighter
    (decide (b.tightness ≤ op.kind.precedence.rank)) fun level' hr hn => by
      rw [decide_eq_false_iff_not, hrank, ← hr] at hn
      exact Level.tighter_rank_le (Nat.lt_of_not_le hn)
  refine ⟨level, .infixOp op op.literal a' b', hrank.symm, ?_, ?_⟩
  · rw [Node.spell]
    exact .infixOp ho ha hb
  · simp only [Node.unstarted, hua, hub]

theorem prefixOp {op : Token} (ho : op.kind = .bang ∨ op.kind = .minus) (h : Respelled e) :
    Respelled (.prefixOp op op.literal e) := by
  obtain ⟨e', he, hu⟩ := h.operand .unary
    (decide (e.tightness < Precedence.prefixed.rank)) fun level hr hn => by
      rw [decide_eq_false_iff_not, ← hr] at hn
      exact Level.rank_le_of_reach (a := .unary) (Nat.le_of_not_lt hn) nofun
  refine ⟨.unary, .prefixOp op op.literal e', rfl, ?_, ?_⟩
  · rw [Node.spell]
    exact .prefixOp ho he
  · simp only [Node.unstarted, hu]

/-- What is called or indexed. -/
theorem applied (h : Respelled e) : ∃ e', Expr .applied
    (enclosed (e.tightness < Precedence.call.rank) e.spell) e' ∧ e'.unstarted = e.unstarted :=
  h.operand .applied _ fun level hr hn => by
    rw [decide_eq_false_iff_not, ← hr] at hn
    exact Level.applied_rank_le (Nat.le_of_not_lt hn)

end Respelled

theorem Names.rows_ne_nil {ts : List Token} {ids : List Identifier} (h : Names ts ids) :
    ids.map (fun id => [id.token]) ≠ [] := by
  cases h <;> simp

theorem Exprs.spellAll_ne_nil {ts : List Token} {es : List Node} (h : Exprs ts es) :
    Node.spellAll es ≠ [] := by
  cases h <;> simp [Node.spellAll]

theorem Block.isHole_eq {ts : List Token} {e : Node} (h : Block ts e) : e.isHole = false := by
  cases h
  rfl

theorem Names.respelled {ts : List Token} {ids : List Identifier} (h : Names ts ids) :
    Names (separated (ids.map fun id => [id.token])) ids := by
  induction h with
  | one hn => exact .one hn
  | cons hn _ h ih =>
    rw [List.map_cons, separated_cons h.rows_ne_nil]
    exact .cons hn rfl ih

theorem Parameters.respelled {ts : List Token} {ids : List Identifier} (h : Parameters ts ids) :
    Parameters (separated (ids.map fun id => [id.token])) ids := by
  cases h with
  | none => exact .none
  | some h => exact .some h.respelled

mutual

theorem Expr.respelled : ∀ {level : Level} {ts : List Token} {e : Node}, Expr level ts e → Respelled e
  | _, _, _, .tighter h => h.respelled
  | _, _, _, .grouped _ _ h => h.respelled
  | _, _, _, .infixOp ho ha hb => .infixOp ho ha.respelled hb.respelled
  | _, _, _, .prefixOp ho h => .prefixOp ho h.respelled
  | _, _, _, @Expr.call _ _ lp _ _ _ hl _ hf ha => by
    obtain ⟨f', hf, huf⟩ := hf.respelled.applied
    obtain ⟨es, ha, hua⟩ := ha.respelled
    refine ⟨.applied, .call lp f' es, rfl, ?_, ?_⟩
    · rw [Node.spell]
      exact .call hl rfl hf ha
    · simp only [Node.unstarted, huf, hua]
  | _, _, _, @Expr.index _ _ lb _ _ _ hl _ ha he => by
    obtain ⟨a', ha, hua⟩ := ha.respelled.applied
    obtain ⟨e', he, hue⟩ := he.respelled.whole
    refine ⟨.applied, .index lb a' e', rfl, ?_, ?_⟩
    · rw [Node.spell]
      exact .index hl rfl ha he
    · simp only [Node.unstarted, hua, hue]
  | _, _, _, .identifier h => ⟨.primary, _, rfl, .identifier h, rfl⟩
  | _, _, _, .integer h hm => ⟨.primary, _, rfl, .integer h hm, rfl⟩
  | _, _, _, .string h => ⟨.primary, _, rfl, .string h, rfl⟩
  | _, _, _, .trueWord h => ⟨.primary, _, rfl, .trueWord h, rfl⟩
  | _, _, _, .falseWord h => ⟨.primary, _, rfl, .falseWord h, rfl⟩
  | _, _, _, @Expr.conditional word _ _ _ _ _ _ hw _ _ hc hq => by
    obtain ⟨c', hc, huc⟩ := hc.respelled.whole
    obtain ⟨q', hq, huq⟩ := hq.respelled
    refine ⟨.primary, .conditional word c' q' .hole, rfl, ?_, ?_⟩
    · rw [Node.spell, show Node.hole.isHole = true from rfl, if_pos rfl, List.append_nil]
      exact .conditional hw rfl rfl hc hq
    · simp only [Node.unstarted, huc, huq]
  | _, _, _, @Expr.alternative word _ _ _ _ _ _ _ _ _ hw _ _ _ hc hq ha => by
    obtain ⟨c', hc, huc⟩ := hc.respelled.whole
    obtain ⟨q', hq, huq⟩ := hq.respelled
    obtain ⟨a', ha', hua⟩ := ha.respelled
    refine ⟨.primary, .conditional word c' q' a', rfl, ?_, ?_⟩
    · rw [Node.spell, if_neg (by simp [ha.isHole_eq])]
      exact .alternative hw rfl rfl rfl hc hq ha'
    · simp only [Node.unstarted, huc, huq, hua]
  | _, _, _, @Expr.function word _ _ _ _ parameters _ hw _ _ hp hb => by
    obtain ⟨b', hb, hub⟩ := hb.respelled
    refine ⟨.primary, .function word parameters b', rfl, ?_, ?_⟩
    · rw [Node.spell]
      exact .function hw rfl rfl hp.respelled hb
    · simp only [Node.unstarted, hub]
  | _, _, _, @Expr.array lb _ _ _ hl _ he => by
    obtain ⟨es, he, hue⟩ := he.respelled
    refine ⟨.primary, .array lb es, rfl, ?_, ?_⟩
    · rw [Node.spell]
      exact .array hl rfl he
    · simp only [Node.unstarted, hue]

theorem Elements.respelled : ∀ {ts : List Token} {es : List Node}, Elements ts es →
    ∃ es', Elements (separated (Node.spellAll es)) es' ∧ Node.unstartedAll es' = Node.unstartedAll es
  | _, _, .none => ⟨[], .none, rfl⟩
  | _, _, .some h => by
    obtain ⟨es, h, hu⟩ := h.respelled
    exact ⟨es, .some h, hu⟩

theorem Exprs.respelled : ∀ {ts : List Token} {es : List Node}, Exprs ts es →
    ∃ es', Exprs (separated (Node.spellAll es)) es' ∧ Node.unstartedAll es' = Node.unstartedAll es
  | _, _, .one h => by
    obtain ⟨e', h, hu⟩ := h.respelled.whole
    refine ⟨[e'], ?_, by simp only [Node.unstartedAll, hu]⟩
    rw [Node.spellAll, Node.spellAll, separated_singleton]
    exact .one h
  | _, _, .cons _ he h => by
    obtain ⟨e', he, hue⟩ := he.respelled.whole
    obtain ⟨es', hs, hus⟩ := h.respelled
    refine ⟨e' :: es', ?_, by simp only [Node.unstartedAll, hue, hus]⟩
    rw [Node.spellAll, separated_cons h.spellAll_ne_nil]
    exact .cons rfl he hs

/-- A statement is spelled with its semicolon. -/
theorem Statement.respelled : ∀ {closed : Bool} {ts : List Token} {s : Node}, Statement closed ts s →
    ∃ s', Statement true s.spell s' ∧ s'.unstarted = s.unstarted
  | _, _, _, @Statement.letStatement _ word name _ _ _ _ hw hn _ he _ => by
    obtain ⟨e', he, hu⟩ := he.respelled.whole
    refine ⟨.letStatement word (some (.ofToken name)) e', ?_, by simp only [Node.unstarted, hu]⟩
    rw [Node.spell]
    exact .letStatement hw hn rfl he (.semicolon rfl)
  | _, _, _, @Statement.returnStatement _ word _ _ _ hw he _ => by
    obtain ⟨e', he, hu⟩ := he.respelled.whole
    refine ⟨.returnStatement word e', ?_, by simp only [Node.unstarted, hu]⟩
    rw [Node.spell]
    exact .returnStatement hw he (.semicolon rfl)
  | _, _, _, .expressionStatement he _ => by
    obtain ⟨e', he, hu⟩ := he.respelled.whole
    -- The statement now begins with the first token of its spelling, which need not be the one it had.
    obtain ⟨first, ts, hts⟩ := List.exists_cons_of_ne_nil he.ne_nil
    refine ⟨.expressionStatement first e', ?_, by simp only [Node.unstarted, hu]⟩
    rw [Node.spell, hts]
    rw [hts] at he
    exact .expressionStatement he (.semicolon rfl)

theorem Statements.respelled : ∀ {ts : List Token} {ss : List Node}, Statements ts ss →
    ∃ ss', Statements (Node.spellAll ss).flatten ss' ∧ Node.unstartedAll ss' = Node.unstartedAll ss
  | _, _, .nil => ⟨[], .nil, rfl⟩
  | _, _, .cons hs h _ => by
    obtain ⟨s', hs, hu⟩ := hs.respelled
    obtain ⟨ss', h, hus⟩ := h.respelled
    refine ⟨s' :: ss', ?_, by simp only [Node.unstartedAll, hu, hus]⟩
    rw [Node.spellAll, List.flatten_cons]
    exact .cons hs h nofun

theorem Block.respelled : ∀ {ts : List Token} {e : Node}, Block ts e →
    ∃ e', Block e.spell e' ∧ e'.unstarted = e.unstarted
  | _, _, @Block.braces lb _ _ _ hl _ h => by
    obtain ⟨ss, h, hu⟩ := h.respelled
    refine ⟨.block lb ss, ?_, by simp only [Node.unstarted, hu]⟩
    rw [Node.spell]
    exact .braces hl rfl h

end

/-! ### The tokens of a spelling -/

section

variable {P : Token → Prop}

theorem forall_mem_enclosed {needed : Bool} {ts : List Token} (hm : ∀ t ∈ Token.marks, P t)
    (h : ∀ t ∈ ts, P t) : ∀ t ∈ enclosed needed ts, P t := by
  cases needed with
  | false => exact h
  | true =>
    show ∀ t ∈ Token.mark .lparen :: (ts ++ [.mark .rparen]), P t
    simp only [List.forall_mem_cons, List.forall_mem_append]
    exact ⟨hm _ (by decide), h, hm _ (by decide), by simp⟩

theorem Names.forall_mem_spelled {ts : List Token} {ids : List Identifier}
    (hm : ∀ t ∈ Token.marks, P t) (h : Names ts ids) (ht : ∀ t ∈ ts, P t) :
    ∀ t ∈ separated (ids.map fun id => [id.token]), P t := by
  induction h with
  | one hn => exact ht
  | cons hn _ h ih =>
    rw [List.map_cons, separated_cons h.rows_ne_nil]
    simp only [List.forall_mem_cons, List.forall_mem_append] at ht ⊢
    exact ⟨⟨ht.1, by simp⟩, hm _ (by decide), ih ht.2.2⟩

theorem Parameters.forall_mem_spelled {ts : List Token} {ids : List Identifier}
    (hm : ∀ t ∈ Token.marks, P t) (h : Parameters ts ids) (ht : ∀ t ∈ ts, P t) :
    ∀ t ∈ separated (ids.map fun id => [id.token]), P t := by
  cases h with
  | none => simp
  | some h => exact h.forall_mem_spelled hm ht

mutual

/-- A tree is spelled by the tokens it was read from and by marks. -/
theorem Expr.forall_mem_spell (hm : ∀ t ∈ Token.marks, P t) :
    ∀ {level : Level} {ts : List Token} {e : Node}, Expr level ts e → (∀ t ∈ ts, P t) → ∀ t ∈ e.spell, P t
  | _, _, _, .tighter h, ht => h.forall_mem_spell hm ht
  | _, _, _, .grouped _ _ h, ht => by
    simp only [List.forall_mem_cons, List.forall_mem_append] at ht
    exact h.forall_mem_spell hm ht.2.1
  | _, _, _, .infixOp _ ha hb, ht => by
    simp only [Node.spell, List.forall_mem_cons, List.forall_mem_append] at ht ⊢
    exact ⟨forall_mem_enclosed hm (ha.forall_mem_spell hm ht.1), ht.2.1,
      forall_mem_enclosed hm (hb.forall_mem_spell hm ht.2.2)⟩
  | _, _, _, .prefixOp _ h, ht => by
    simp only [Node.spell, List.forall_mem_cons] at ht ⊢
    exact ⟨ht.1, forall_mem_enclosed hm (h.forall_mem_spell hm ht.2)⟩
  | _, _, _, .call _ _ hf ha, ht => by
    simp only [Node.spell, List.forall_mem_cons, List.forall_mem_append] at ht ⊢
    exact ⟨forall_mem_enclosed hm (hf.forall_mem_spell hm ht.1), ht.2.1,
      ha.forall_mem_spell hm ht.2.2.1, hm _ (by decide), by simp⟩
  | _, _, _, .index _ _ ha he, ht => by
    simp only [Node.spell, List.forall_mem_cons, List.forall_mem_append] at ht ⊢
    exact ⟨forall_mem_enclosed hm (ha.forall_mem_spell hm ht.1), ht.2.1,
      he.forall_mem_spell hm ht.2.2.1, hm _ (by decide), by simp⟩
  | _, _, _, .identifier _, ht | _, _, _, .integer _ _, ht | _, _, _, .string _, ht
  | _, _, _, .trueWord _, ht | _, _, _, .falseWord _, ht => ht
  | _, _, _, .conditional _ _ _ hc hq, ht => by
    simp only [Node.spell, List.forall_mem_cons, List.forall_mem_append] at ht ⊢
    exact ⟨ht.1, hm _ (by decide), hc.forall_mem_spell hm ht.2.2.1, hm _ (by decide),
      hq.forall_mem_spell hm ht.2.2.2.2, nofun⟩
  | _, _, _, .alternative _ _ _ _ hc hq ha, ht => by
    rw [Node.spell, if_neg (by simp [ha.isHole_eq])]
    simp only [List.forall_mem_cons, List.forall_mem_append] at ht ⊢
    exact ⟨ht.1, hm _ (by decide), hc.forall_mem_spell hm ht.2.2.1, hm _ (by decide),
      hq.forall_mem_spell hm ht.2.2.2.2.1, hm _ (by decide), ha.forall_mem_spell hm ht.2.2.2.2.2.2⟩
  | _, _, _, .function _ _ _ hp hb, ht => by
    simp only [Node.spell, List.forall_mem_cons, List.forall_mem_append] at ht ⊢
    exact ⟨ht.1, hm _ (by decide), hp.forall_mem_spelled hm ht.2.2.1, hm _ (by decide),
      hb.forall_mem_spell hm ht.2.2.2.2⟩
  | _, _, _, .array _ _ he, ht => by
    simp only [Node.spell, List.forall_mem_cons, List.forall_mem_append] at ht ⊢
    exact ⟨ht.1, he.forall_mem_spell hm ht.2.1, hm _ (by decide), by simp⟩

theorem Elements.forall_mem_spell (hm : ∀ t ∈ Token.marks, P t) :
    ∀ {ts : List Token} {es : List Node}, Elements ts es → (∀ t ∈ ts, P t) → ∀ t ∈ separated (Node.spellAll es), P t
  | _, _, .none, _ => by simp [Node.spellAll]
  | _, _, .some h, ht => h.forall_mem_spell hm ht

theorem Exprs.forall_mem_spell (hm : ∀ t ∈ Token.marks, P t) :
    ∀ {ts : List Token} {es : List Node}, Exprs ts es → (∀ t ∈ ts, P t) → ∀ t ∈ separated (Node.spellAll es), P t
  | _, _, .one h, ht => by
    rw [Node.spellAll, Node.spellAll, separated_singleton]
    exact h.forall_mem_spell hm ht
  | _, _, .cons _ he h, ht => by
    rw [Node.spellAll, separated_cons h.spellAll_ne_nil]
    simp only [List.forall_mem_cons, List.forall_mem_append] at ht ⊢
    exact ⟨he.forall_mem_spell hm ht.1, hm _ (by decide), h.forall_mem_spell hm ht.2.2⟩

theorem Statement.forall_mem_spell (hm : ∀ t ∈ Token.marks, P t) :
    ∀ {closed : Bool} {ts : List Token} {s : Node}, Statement closed ts s → (∀ t ∈ ts, P t) → ∀ t ∈ s.spell, P t
  | _, _, _, .letStatement _ _ _ he _, ht => by
    simp only [Node.spell, List.forall_mem_cons, List.forall_mem_append] at ht ⊢
    exact ⟨ht.1, by simpa [Identifier.ofToken] using ht.2.1, hm _ (by decide), he.forall_mem_spell hm ht.2.2.2.1,
      hm _ (by decide), by simp⟩
  | _, _, _, .returnStatement _ he _, ht => by
    simp only [Node.spell, List.forall_mem_cons, List.forall_mem_append] at ht ⊢
    exact ⟨ht.1, he.forall_mem_spell hm ht.2.1, hm _ (by decide), by simp⟩
  | _, _, _, .expressionStatement he _, ht => by
    rw [Node.spell]
    rw [List.forall_mem_append] at ht ⊢
    exact ⟨he.forall_mem_spell hm ht.1, by simpa using hm _ (by decide)⟩

theorem Statements.forall_mem_spell (hm : ∀ t ∈ Token.marks, P t) :
    ∀ {ts : List Token} {ss : List Node}, Statements ts ss → (∀ t ∈ ts, P t) → ∀ t ∈ (Node.spellAll ss).flatten, P t
  | _, _, .nil, _ => by simp [Node.spellAll]
  | _, _, .cons hs h _, ht => by
    rw [Node.spellAll, List.flatten_cons]
    rw [List.forall_mem_append] at ht ⊢
    exact ⟨hs.forall_mem_spell hm ht.1, h.forall_mem_spell hm ht.2⟩

theorem Block.forall_mem_spell (hm : ∀ t ∈ Token.marks, P t) :
    ∀ {ts : List Token} {e : Node}, Block ts e → (∀ t ∈ ts, P t) → ∀ t ∈ e.spell, P t
  | _, _, .braces _ _ h, ht => by
    simp only [Node.spell, List.forall_mem_cons, List.forall_mem_append] at ht ⊢
    exact ⟨ht.1, h.forall_mem_spell hm ht.2.1, hm _ (by decide), by simp⟩

end

end

theorem Program.respelled {ts : List Token} {p : Node} (h : Program ts p) :
    ∃ q, Program (p.spell ++ [Token.endOfInput]) q ∧ q.unstarted = p.unstarted := by
  cases h with
  | statements _ h =>
    obtain ⟨ss, h, hu⟩ := h.respelled
    refine ⟨.program ss, ?_, by simp only [Node.unstarted, hu]⟩
    rw [Node.spell]
    exact .statements rfl h

theorem Program.forall_mem_spell {P : Token → Prop} {ts : List Token} {p : Node} (h : Program ts p)
    (hm : ∀ t ∈ Token.marks, P t) (ht : ∀ t ∈ ts, t.kind ≠ .eof → P t) : ∀ t ∈ p.spell, P t := by
  cases h with
  | statements _ h =>
    rw [Node.spell]
    exact h.forall_mem_spell hm fun t hmem => ht t (List.mem_append_left _ hmem) (h.inner t hmem)

end Grammar

/-- Every token of the spelling of a program can be read. -/
theorem readable_of_mem_spell {limits : Limits} {source : String} {p : Node}
    (h : parse limits source = .ok ⟨p, []⟩) : ∀ t ∈ p.spell, t.WellFormed ∧ t.Short := by
  refine (program_of_parse h).forall_mem_spell (fun t ht => ?_) fun t ht hk => ?_
  · exact ⟨Token.wellFormed_of_mem_marks ht, fun hi => absurd hi (Token.ne_int_of_mem_marks ht)⟩
  · refine ⟨(wellFormed_of_mem_tokensOf ht).resolve_right ?_, short_of_parse h t ht⟩
    rintro rfl
    exact hk rfl

/-- The parser undoes the spelling of programs. A program that was read from some source without syntax
errors is read from its own spelling, with the parentheses that are needed and no others, without syntax
errors and with all its tokens but those that expression statements begin with, unless its expressions are
nested too deep; and they are not where the limit allows for all tokens of the spelling. -/
theorem parse_inverts_spelling {limits : Limits} {source : String} {p : Node}
    (h : parse limits source = .ok ⟨p, []⟩) (limits' : Limits)
    (hdeep : parse limits' p.spelled ≠ .error .tooDeep ∨
      (tokenize p.spelled).length ≤ limits'.reading) :
    ∃ q, parse limits' p.spelled = .ok ⟨q, []⟩ ∧ q.unstarted = p.unstarted := by
  have hread := readable_of_mem_spell h
  have htokens : tokenize p.spelled = p.spell ++ [Token.endOfInput] :=
    Node.tokenize_spelled fun t ht => (hread t ht).1
  obtain ⟨q, hq, hu⟩ := (program_of_parse h).respelled
  have hshort : ∀ t ∈ tokenize p.spelled, t.kind = .int → t.literal.length ≤ maxDigits := by
    rw [htokens, List.forall_mem_append]
    exact ⟨fun t ht => (hread t ht).2, by simp [Token.endOfInput]⟩
  rw [← htokens] at hq
  rcases parse_of_program hshort hq with hok | ⟨herror, hlimit⟩
  · exact ⟨q, hok, hu⟩
  · rcases hdeep with hdeep | hdeep
    · exact absurd herror hdeep
    · omega

/-- Of these parentheses only those around the second subtraction are needed. -/
theorem spelling_with_fewer_parentheses_inverted :
    ∃ p, p = .program [.expressionStatement ⟨.lparen, "("⟩ (.infixOp ⟨.minus, "-"⟩ "-"
        (.identifier ⟨⟨.ident, "a"⟩, "a"⟩)
        (.index ⟨.lbracket, "["⟩
          (.infixOp ⟨.minus, "-"⟩ "-" (.identifier ⟨⟨.ident, "b"⟩, "b"⟩)
            (.prefixOp ⟨.bang, "!"⟩ "!" (.identifier ⟨⟨.ident, "c"⟩, "c"⟩)))
          (.integer ⟨.int, "0"⟩ 0)))] ∧
      parse Limits.standard "(a) - (b - !(c))[(0)]" = .ok ⟨p, []⟩ ∧
      p.spelled = "a - ( b - ! c ) [ 0 ] ;" ∧
      ∃ q, parse Limits.standard p.spelled = .ok ⟨q, []⟩ ∧ q.unstarted = p.unstarted := by
  refine ⟨_, rfl, rfl, by decide +kernel, ?_⟩
  exact @parse_inverts_spelling Limits.standard "(a) - (b - !(c))[(0)]" _ rfl Limits.standard
    (.inr (by decide +kernel))

end Scriptlet
