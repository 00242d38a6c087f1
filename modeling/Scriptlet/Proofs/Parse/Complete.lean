import Scriptlet.Proofs.Parse.Levels
import Scriptlet.Proofs.Parse.Source

/-!
# Completeness of the parser

Tokens that have a derivation are read as its tree, without an error and up to the last of them. The
derivation of an expression is not the order in which it is read: the leftmost operand comes first, and
the operators above it are rounds of one loop. So what a derivation gives is a first construct and a
number of rounds that lead from there to the whole (`Begins`).

The only thing that can come in between is that expressions are nested too deep. They never are if the
depth allowed is the number of tokens.
-/

namespace Scriptlet

open Scriptlet.Grammar

/-- If the token is an integer, it is not overlong. -/
def Token.Short (token : Token) : Prop := token.kind = .int → token.literal.length ≤ maxDigits

namespace Window

variable {σ : Type} [TokenSource σ] {w w' : Window σ} {deep : Prop} {depth m n : Nat}

/-- The next `n` tokens can be read with expressions nested at most `depth` deep, or it may be `deep`. -/
structure Fits (deep : Prop) (depth : Nat) (w : Window σ) (n : Nat) : Prop where
  numerals : w.All Token.Numeral
  short : w.All Token.Short
  budget : n ≤ w.budget
  depth : depth < n → deep

namespace Fits

theorem part (h : w.Fits deep depth n) (hs : w.Slides w') (hm : m ≤ n) : w'.Fits deep depth m where
  numerals := h.numerals.slides hs
  short := h.short.slides hs
  budget := by
    have hb := h.budget
    rw [hs.budget]
    omega
  depth hd := h.depth (by omega)

theorem inner (h : w.Fits deep (depth + 1) n) (hs : w.Slides w') (hm : m < n) : w'.Fits deep depth m where
  __ := h.part hs (Nat.le_of_lt hm)
  depth hd := h.depth (by omega)

end Fits

end Window

/-! ### Parsers with a known result -/

namespace Parser

variable {σ : Type} {α β : Type} {deep : Prop} {w w' w'' : Window σ}

/-- From `w` the parser gets to `w'` with the result `a`, or it may be `deep` and the input too deep. -/
def Yields (deep : Prop) (p : Parser σ α) (w : Window σ) (a : α) (w' : Window σ) : Prop :=
  wp (fun cause => cause = .tooDeep ∧ deep) p (fun b v => b = a ∧ v = w') w

namespace Yields

theorem pure (a : α) : Yields deep (Pure.pure a) w a w := ⟨rfl, rfl⟩

theorem bind {p : Parser σ α} {f : α → Parser σ β} {a : α} {b : β} (hp : Yields deep p w a w')
    (hf : Yields deep (f a) w' b w'') : Yields deep (p >>= f) w b w'' := by
  unfold Yields
  rw [wp_bind]
  refine wp_mono hp ?_
  rintro _ _ ⟨rfl, rfl⟩
  exact hf

variable {more : α → Window σ → Bool} {body : α → Parser σ α} {a a' b : α}

theorem round {n : Nat} (hm : more a w = true) (hb : Yields deep (body a) w a' w')
    (h : Yields deep (repeatAtMost more body n a') w' b w'') :
    Yields deep (repeatAtMost more body (n + 1) a) w b w'' := by
  unfold Yields
  rw [wp_congr (repeatAtMost_of_more hm n)]
  exact bind hb h

theorem done (n : Nat) (hm : more a w = false) :
    Yields deep (repeatAtMost more body n a) w a w := by
  unfold Yields
  rw [wp, repeatAtMost_of_stop hm]
  exact ⟨rfl, rfl⟩

variable [TokenSource σ]

theorem current {f : Token → Parser σ α} (h : Yields deep (f w.current) w a w') :
    Yields deep (Parser.current >>= f) w a w' := h

theorem advance {f : Unit → Parser σ α} (h : Yields deep (f ()) w.advance a w') :
    Yields deep (Parser.advance >>= f) w a w' := h

variable [LawfulTokenSource σ] {kind : TokenKind}

theorem expect {p q : Parser σ α} (hk : w.advance.current.kind = kind)
    (h : Yields deep p w.advance a w') :
    Yields deep (Parser.expectNext kind >>= fun c => if c = true then p else q) w a w' := by
  unfold Yields
  rw [wp_bind, wp_expectNext, Window.upcoming_eq, if_pos hk]
  exact h

theorem comes {p q : Parser σ α} (hk : w.advance.current.kind = kind) (h : Yields deep p w a w') :
    Yields deep (Parser.comesNext kind >>= fun c => if c = true then p else q) w a w' := by
  unfold Yields
  rw [wp_bind, wp_comesNext, Window.upcoming_eq, hk, beq_self_eq_true]
  exact h

theorem stays {p q : Parser σ α} (hk : w.advance.current.kind ≠ kind) (h : Yields deep q w a w') :
    Yields deep (Parser.comesNext kind >>= fun c => if c = true then p else q) w a w' := by
  unfold Yields
  rw [wp_bind, wp_comesNext, Window.upcoming_eq, beq_false_of_ne hk]
  exact h

theorem pass {f : Unit → Parser σ α} (hk : w.advance.current.kind = kind)
    (h : Yields deep (f ()) w.advance a w') : Yields deep (Parser.passNext kind >>= f) w a w' := by
  unfold Yields
  rw [wp_bind, wp_passNext, Window.upcoming_eq, if_pos hk]
  exact h

theorem noPass {f : Unit → Parser σ α} (hk : w.advance.current.kind ≠ kind)
    (h : Yields deep (f ()) w a w') : Yields deep (Parser.passNext kind >>= f) w a w' := by
  unfold Yields
  rw [wp_bind, wp_passNext, Window.upcoming_eq, if_neg hk]
  exact h

end Yields

/-! ### Rounds of operators -/

variable [TokenSource σ] {expr : Precedence → Parser σ Node} {precedence : Precedence}
  {level : Level} {left e : Node} {k n : Nat}

/-- After `k` rounds of the loop over operators, `left` has become `e`. -/
def Climbs (deep : Prop) (expr : Precedence → Parser σ Node) (precedence : Precedence) (k : Nat)
    (left : Node) (w : Window σ) (e : Node) (w' : Window σ) : Prop :=
  ∀ r b w'',
    Yields deep (repeatAtMost (fun _ v => goesOn Rules.standard precedence v)
      (goOn Rules.standard expr) r e) w' b w'' →
    Yields deep (repeatAtMost (fun _ v => goesOn Rules.standard precedence v)
      (goOn Rules.standard expr) (k + r) left) w b w''

namespace Climbs

theorem refl : Climbs deep expr precedence 0 e w e w := by
  intro r b w'' h
  rwa [Nat.zero_add]

theorem trans {k' : Nat} {e' : Node} (h : Climbs deep expr precedence k left w e w')
    (h' : Climbs deep expr precedence k' e w' e' w'') :
    Climbs deep expr precedence (k + k') left w e' w'' := by
  intro r b v hr
  rw [Nat.add_assoc]
  exact h _ _ _ (h' _ _ _ hr)

variable [LawfulTokenSource σ]

/-- One operator that binds tighter than the place. -/
theorem one {next : Continuation} (hr : precedence.rank < w.advance.current.kind.precedence.rank)
    (hn : Rules.standard.following w.advance.current.kind = some next)
    (h : Yields deep (continuation expr left next) w.advance e w') :
    Climbs deep expr precedence 1 left w e w' := by
  intro r b w'' hb
  rw [Nat.add_comm]
  refine .round ?_ (.advance (.current ?_)) hb
  · rw [goesOn_eq, Window.upcoming_eq]
    exact decide_eq_true hr
  · rw [hn]
    exact h

end Climbs

/-- From `w` on, a first construct and fewer than `n` rounds of operators lead to `e`, wherever
expressions of the level may stand. -/
def Begins (deep : Prop) (expr : Precedence → Parser σ Node) (level : Level) (n : Nat)
    (w : Window σ) (e : Node) (w' : Window σ) : Prop :=
  ∃ first left w₁ k, Rules.standard.beginning w.current.kind = some first ∧
    Yields deep (construct expr first) w left w₁ ∧ w₁.budget = w.budget ∧ k < n ∧
    ∀ precedence : Precedence, precedence.rank ≤ level.floor → Climbs deep expr precedence k left w₁ e w'

namespace Begins

theorem construct {first : Construct} (hf : Rules.standard.beginning w.current.kind = some first)
    (h : Yields deep (Parser.construct expr first) w e w') (hb : w'.budget = w.budget) (hn : 0 < n) :
    Begins deep expr level n w e w' :=
  ⟨first, e, w', 0, hf, h, hb, hn, fun _ _ => .refl⟩

theorem loosen (h : Begins deep expr level.tighter n w e w') : Begins deep expr level n w e w' := by
  obtain ⟨first, left, w₁, k, hf, hy, hb, hk, hc⟩ := h
  exact ⟨first, left, w₁, k, hf, hy, hb, hk, fun p hp => hc p (hp.trans level.floor_le_tighter)⟩

/-- One more operator. -/
theorem goOn {m : Nat} {e' : Node} (h : Begins deep expr level m w e w') (hm : m < n)
    (hc : ∀ precedence : Precedence, precedence.rank ≤ level.floor →
      Climbs deep expr precedence 1 e w' e' w'') : Begins deep expr level n w e' w'' := by
  obtain ⟨first, left, w₁, k, hf, hy, hb, hk, hcl⟩ := h
  exact ⟨first, left, w₁, k + 1, hf, hy, hb, by omega, fun p hp => (hcl p hp).trans (hc p hp)⟩

/-- All operators have been read where the next one belongs to a wider expression. -/
theorem climb [LawfulTokenSource σ] (h : Begins deep expr level n w e w') (hn : n ≤ w.budget)
    (hp : precedence.rank ≤ level.floor)
    (hnext : w'.advance.current.kind.precedence.rank ≤ precedence.rank) :
    Yields deep (Parser.climb Rules.standard expr precedence) w e w' := by
  obtain ⟨first, left, w₁, k, hf, hy, hb, hk, hc⟩ := h
  refine .current ?_
  simp only [hf]
  refine .bind hy ?_
  -- The budget is enough for the `k` rounds, and the next token ends the loop before it is used up.
  have hloop := hc precedence hp (w₁.budget - k) e w' (.done _ ?_)
  · rw [Nat.add_sub_cancel' (by omega)] at hloop
    exact hloop
  · rw [goesOn_eq, Window.upcoming_eq]
    exact decide_eq_false (Nat.not_lt.2 hnext)

end Begins

/-- A token that ends an expression: it is no operator above the given rank, and no `else`, which would
go on with a conditional. -/
structure Follows (rank : Nat) (t : Token) : Prop where
  rank_le : t.kind.precedence.rank ≤ rank
  ne_else : t.kind ≠ .elseWord

namespace Follows

theorem mono {m n : Nat} {t : Token} (h : Follows m t) (hn : t.kind.precedence.rank ≤ n) : Follows n t :=
  ⟨hn, h.ne_else⟩

theorem of_kind {n : Nat} {t : Token} {kind : TokenKind} (h : t.kind = kind)
    (hk : kind.precedence.rank ≤ n ∧ kind ≠ .elseWord) : Follows n t := by
  subst h
  exact ⟨hk.1, hk.2⟩

end Follows

/-! ### Leaves -/

variable {ts : List Token}

/-- The tokens are read as the expression `e`, as far as the level goes. -/
def CompleteExpr (σ : Type) [TokenSource σ] (deep : Prop) (level : Level) (ts : List Token) (e : Node) :
    Prop :=
  ∀ (depth : Nat) (w w' : Window σ), w.Spans ts w' → w.Fits deep (depth + 1) ts.length →
    Follows level.reach w'.advance.current →
    Begins deep (expression Rules.standard depth) level ts.length w e w'

theorem complete_leaf {t : Token} {first : Construct} {e : Node}
    (hf : Rules.standard.beginning t.kind = some first)
    (h : ∀ (depth : Nat) (w : Window σ), w.current = t → w.Fits deep (depth + 1) 1 →
      Yields deep (construct (expression Rules.standard depth) first) w e w) :
    CompleteExpr σ deep .primary [t] e := by
  intro depth w w' hs hfit _
  obtain ⟨rfl, rfl⟩ := Window.Spans.singleton_iff.1 hs
  exact .construct hf (h depth _ rfl hfit) rfl (by simp)

theorem complete_identifier {t : Token} (hk : t.kind = .ident) :
    CompleteExpr σ deep .primary [t] (.identifier (.ofToken t)) := by
  have hfirst : Rules.standard.beginning t.kind = some .identifier := by rw [hk]; rfl
  refine complete_leaf hfirst fun depth w hw _ => ?_
  subst hw
  exact .current (.pure _)

theorem complete_string {t : Token} (hk : t.kind = .string) :
    CompleteExpr σ deep .primary [t] (.string t t.literal) := by
  have hfirst : Rules.standard.beginning t.kind = some .string := by rw [hk]; rfl
  refine complete_leaf hfirst fun depth w hw _ => ?_
  subst hw
  exact .current (.pure _)

theorem complete_integer {t : Token} (hk : t.kind = .int) (hm : decimal t.literal.toList < 2 ^ 63) :
    CompleteExpr σ deep .primary [t] (.integer t (decimal t.literal.toList)) := by
  refine complete_leaf (by rw [hk]; rfl) fun depth w hw hfit => ?_
  subst hw
  have hshort := hfit.short.current hk
  show Yields deep integer w _ w
  unfold Yields
  rw [wp_integer hk hfit.numerals.current, if_neg (by omega), if_pos hm]
  exact ⟨rfl, rfl⟩

theorem complete_boolean {t : Token} {value : Bool} (hk : t.kind = .trueWord ∨ t.kind = .falseWord)
    (hv : (t.kind == .trueWord) = value) : CompleteExpr σ deep .primary [t] (.boolean t value) := by
  have hfirst : Rules.standard.beginning t.kind = some .boolean := by
    rcases hk with hk | hk <;> rw [hk] <;> rfl
  refine complete_leaf hfirst fun depth w hw _ => ?_
  subst hw hv
  exact .current (.pure _)

/-! ### Names -/

section

variable [LawfulTokenSource σ]

theorem complete_names {ids : List Identifier} (h : Names ts ids) (acc : List Identifier)
    (hs : w.Spans ts w') (hnext : w'.advance.current.kind ≠ .comma) (hn : ts.length ≤ n + 1) :
    Yields deep (repeatAtMost
      (fun names v => names.isSome && v.upcoming.kind == .comma)
      (fun names => do
        advance
        if ← expectNext .ident then
          let token ← current
          return names.map (Identifier.ofToken token :: ·)
        else return none)
      n (some (Identifier.ofToken w.current :: acc))) w (some (ids.reverse ++ acc)) w' := by
  induction h generalizing w acc n with
  | one hk =>
    obtain ⟨rfl, rfl⟩ := Window.Spans.singleton_iff.1 hs
    refine .done _ ?_
    rw [Window.upcoming_eq, beq_false_of_ne hnext, Bool.and_false]
  | cons hk hc h ih =>
    obtain ⟨rfl, hs₁⟩ := hs.cons_ne_nil (by simp)
    obtain ⟨rfl, hs₂⟩ := hs₁.cons_ne_nil h.ne_nil
    rw [List.length_cons, List.length_cons] at hn
    obtain ⟨m, rfl⟩ : ∃ m, n = m + 1 := ⟨n - 1, by omega⟩
    have hident := h.begins _ hs₂.head?
    have hrest := ih (.ofToken w.current :: acc) hs₂ (n := m) (by omega)
    rw [List.reverse_cons, List.append_assoc]
    refine .round ?_ (.advance (.expect hident (.current (.pure _)))) hrest
    rw [Window.upcoming_eq, hc]
    rfl

theorem complete_parameters {ids : List Identifier} {rp : Token} (h : Parameters ts ids)
    (hs : w.advance.Spans (ts ++ [rp]) w') (hr : rp.kind = .rparen) (hn : ts.length ≤ w.budget) :
    Yields deep parameters w (some ids) w' := by
  cases h with
  | none =>
    obtain ⟨rfl, rfl⟩ := Window.Spans.singleton_iff.1 hs
    exact .comes hr (.advance (.pure _))
  | some h =>
    obtain ⟨w₁, hs₁, rfl, rfl⟩ := hs.split_last h.ne_nil
    have hident := h.begins _ hs₁.head?
    refine .stays (by rw [hident]; decide) (.expect hident (.current ?_))
    refine .bind (complete_names h [] hs₁ (by rw [hr]; decide) (Nat.le_succ_of_le hn)) (.expect hr ?_)
    rw [List.append_nil, List.reverse_reverse]
    exact .pure _

/-! ### Constructs -/

variable {depth : Nat}

theorem CompleteExpr.yields (h : CompleteExpr σ deep level ts e) (hs : w.Spans ts w')
    (hf : w.Fits deep depth ts.length) (hp : precedence.rank ≤ level.floor)
    (hnext : Follows precedence.rank w'.advance.current) :
    Yields deep (expression Rules.standard depth precedence) w e w' := by
  cases depth with
  | zero => exact ⟨rfl, hf.depth (List.length_pos_iff.2 hs.ne_nil)⟩
  | succ depth =>
    have hreach := (hnext.rank_le.trans hp).trans level.floor_le_reach
    exact (h depth w w' hs hf (hnext.mono hreach)).climb hf.budget hp hnext.rank_le

/-- An expression in brackets, a condition or a value: nothing that comes next goes on with it. -/
theorem CompleteExpr.whole (h : CompleteExpr σ deep .equality ts e) (hs : w.Spans ts w')
    (hf : w.Fits deep depth ts.length) (hnext : Follows 1 w'.advance.current) :
    Yields deep (expression Rules.standard depth .lowest) w e w' :=
  h.yields hs hf (by decide) hnext

theorem complete_prefixOp {op : Token} (ho : op.kind = .bang ∨ op.kind = .minus)
    (ht : ts ≠ []) (h : CompleteExpr σ deep .unary ts e) :
    CompleteExpr σ deep .unary (op :: ts) (.prefixOp op op.literal e) := by
  intro depth w w' hs hfit hnext
  obtain ⟨rfl, hs₁⟩ := hs.cons_ne_nil ht
  have hfirst : Rules.standard.beginning w.current.kind = some .prefixOp := by
    rcases ho with ho | ho <;> rw [ho] <;> rfl
  have hinner : Yields deep (expression Rules.standard depth .prefixed) w.advance e w' :=
    h.yields hs₁ (hfit.inner (Window.Slides.refl w).advance (by simp)) (by decide) hnext
  exact .construct hfirst (.current (.advance (.bind hinner (.pure _)))) hs₁.budget_eq (by simp)

theorem complete_grouped {lp rp : Token} (hl : lp.kind = .lparen) (hr : rp.kind = .rparen)
    (ht : ts ≠ []) (h : CompleteExpr σ deep .equality ts e) :
    CompleteExpr σ deep .primary (lp :: (ts ++ [rp])) e := by
  intro depth w w' hs hfit _
  obtain ⟨rfl, hs₁⟩ := hs.cons_ne_nil (by simp)
  obtain ⟨w₁, hs₂, rfl, rfl⟩ := hs₁.split_last ht
  have hfirst : Rules.standard.beginning w.current.kind = some .grouped := by rw [hl]; rfl
  have hinner := h.whole hs₂ (hfit.inner (Window.Slides.refl w).advance (by grind))
    (.of_kind hr (by decide))
  exact .construct hfirst (.advance (.bind hinner (.expect hr (.pure _)))) hs₂.budget_eq (by simp)

theorem complete_infixOp {left right : List Token} {op : Token} {a b : Node}
    (ho : op.kind ∈ level.operators) (hl : left ≠ []) (hr : right ≠ [])
    (ha : CompleteExpr σ deep level left a) (hb : CompleteExpr σ deep level.tighter right b) :
    CompleteExpr σ deep level (left ++ op :: right) (.infixOp op op.literal a b) := by
  intro depth w w' hs hfit hnext
  obtain ⟨w₁, hs₁, hs₂⟩ := hs.split hl (by simp)
  obtain ⟨rfl, hs₃⟩ := hs₂.cons_ne_nil hr
  obtain ⟨hfollow, hrank, hfloor, htight, helse⟩ := TokenKind.following_of_mem_operators ho
  -- The left operand is read at the same depth and by the same loop; the operator is one more round.
  have hleft := ha depth w w₁ hs₁ (hfit.part (.refl w) (by simp)) ⟨hrank.le, helse⟩
  have hright : Yields deep (expression Rules.standard depth w₁.advance.current.kind.precedence)
      w₁.advance.advance b w' :=
    hb.yields hs₃ (hfit.inner hs₁.slides.advance.advance (by grind)) htight
      (hnext.mono (hrank ▸ hnext.rank_le))
  exact hleft.goOn (by simp) fun p hp =>
    .one (by omega) hfollow (.current (.advance (.bind hright (.pure _))))

theorem complete_index {left : List Token} {lb rb : Token} {a : Node} (hl : lb.kind = .lbracket)
    (hr : rb.kind = .rbracket) (hn : left ≠ []) (ht : ts ≠ []) (ha : CompleteExpr σ deep .applied left a)
    (he : CompleteExpr σ deep .equality ts e) :
    CompleteExpr σ deep .applied (left ++ lb :: (ts ++ [rb])) (.index lb a e) := by
  intro depth w w' hs hfit hnext
  obtain ⟨w₁, hs₁, hs₂⟩ := hs.split hn (by simp)
  obtain ⟨rfl, hs₃⟩ := hs₂.cons_ne_nil (by simp)
  obtain ⟨w₂, hs₄, rfl, rfl⟩ := hs₃.split_last ht
  have hleft := ha depth w w₁ hs₁ (hfit.part (.refl w) (by simp)) (.of_kind hl (by decide))
  have hinner := he.whole hs₄ (hfit.inner hs₁.slides.advance.advance (by grind))
    (.of_kind hr (by decide))
  refine hleft.goOn (by simp) fun p hp => .one ?_ (TokenKind.following_eq_index_iff.2 hl)
    (.current (.advance (.bind hinner (.expect hr (.pure _)))))
  rw [hl]
  exact Nat.lt_of_le_of_lt hp (by decide)

/-- The tokens are read as a first expression, and then in rounds as the others. -/
def CompleteExprs (σ : Type) [TokenSource σ] (deep : Prop) (ts : List Token) (es : List Node) : Prop :=
  ∀ (depth : Nat) (w w' : Window σ), w.Spans ts w' → w.Fits deep depth ts.length →
    Follows 1 w'.advance.current → w'.advance.current.kind ≠ .comma →
    ∃ first w₁, Yields deep (expression Rules.standard depth .lowest) w first w₁ ∧
      w₁.budget = w.budget ∧ ∀ n acc, ts.length ≤ n + 1 →
        Yields deep (repeatAtMost (fun _ v => v.upcoming.kind == .comma)
          (fun elements => do
            advance
            advance
            return (← expression Rules.standard depth .lowest) :: elements)
          n (first :: acc)) w₁ (es.reverse ++ acc) w'

theorem complete_exprs_one (h : CompleteExpr σ deep .equality ts e) : CompleteExprs σ deep ts [e] := by
  intro depth w w' hs hfit hnext hcomma
  refine ⟨e, w', h.whole hs hfit hnext, hs.budget_eq, fun n acc _ => .done _ ?_⟩
  rw [Window.upcoming_eq]
  exact beq_false_of_ne hcomma

theorem complete_exprs_cons {us : List Token} {comma : Token} {es : List Node}
    (hc : comma.kind = .comma) (ht : ts ≠ []) (hu : us ≠ []) (he : CompleteExpr σ deep .equality ts e)
    (h : CompleteExprs σ deep us es) : CompleteExprs σ deep (ts ++ comma :: us) (e :: es) := by
  intro depth w w' hs hfit hnext hcomma
  obtain ⟨w₁, hs₁, hs₂⟩ := hs.split ht (by simp)
  obtain ⟨rfl, hs₃⟩ := hs₂.cons_ne_nil hu
  have hfirst := he.whole hs₁ (hfit.part (.refl w) (by simp)) (.of_kind hc (by decide))
  obtain ⟨second, w₂, hsecond, -, hloop⟩ := h depth _ _ hs₃
    (hfit.part hs₁.slides.advance.advance (by grind)) hnext hcomma
  refine ⟨e, w₁, hfirst, hs₁.budget_eq, fun n acc hn => ?_⟩
  have hpos := List.length_pos_iff.2 ht
  rw [List.length_append, List.length_cons] at hn
  obtain ⟨m, rfl⟩ : ∃ m, n = m + 1 := ⟨n - 1, by omega⟩
  rw [List.reverse_cons, List.append_assoc]
  refine .round ?_ (.advance (.advance (.bind hsecond (.pure _)))) (hloop m (e :: acc) (by omega))
  rw [Window.upcoming_eq, hc]
  rfl

/-- The tokens are read as arguments or elements, after the token that opens them and up to the one
that closes them. -/
def CompleteElements (σ : Type) [TokenSource σ] (deep : Prop) (ts : List Token) (es : List Node) : Prop :=
  ∀ (depth : Nat) (w w' : Window σ) (last : Token), w.advance.Spans (ts ++ [last]) w' →
    w.Fits deep depth ts.length → last.kind = .rparen ∨ last.kind = .rbracket →
    Yields deep (expressionList (expression Rules.standard depth) last.kind) w (some es) w'

theorem complete_elements_none : CompleteElements σ deep [] [] := by
  intro depth w w' last hs _ _
  obtain ⟨rfl, rfl⟩ := Window.Spans.singleton_iff.1 hs
  exact .comes rfl (.advance (.pure _))

theorem complete_elements_some {es : List Node} (hd : Exprs ts es) (h : CompleteExprs σ deep ts es) :
    CompleteElements σ deep ts es := by
  intro depth w w' last hs hfit hlast
  obtain ⟨w₁, hs₁, rfl, rfl⟩ := hs.split_last hd.ne_nil
  have hother : w.advance.current.kind ≠ w₁.advance.current.kind := by
    intro hk
    have hb := hd.begins _ hs₁.head?
    rw [hk] at hb
    rcases hlast with hlast | hlast <;> rw [hlast] at hb <;> exact absurd hb (by decide)
  have hnext : Follows 1 w₁.advance.current ∧ w₁.advance.current.kind ≠ .comma := by
    rcases hlast with hlast | hlast <;> exact ⟨.of_kind hlast (by decide), by rw [hlast]; decide⟩
  obtain ⟨first, w₂, hfirst, hb, hloop⟩ := h depth _ _ hs₁
    (hfit.part (Window.Slides.refl w).advance le_rfl) hnext.1 hnext.2
  have hn : ts.length ≤ w₂.budget + 1 := by
    rw [hb]
    exact Nat.le_succ_of_le hfit.budget
  refine .stays hother (.advance (.bind hfirst (.bind (hloop w₂.budget [] hn) (.expect rfl ?_))))
  rw [List.append_nil, List.reverse_reverse]
  exact .pure _

omit [LawfulTokenSource σ] in
theorem complete_array {lb rb : Token} {es : List Node} (hl : lb.kind = .lbracket)
    (hr : rb.kind = .rbracket) (h : CompleteElements σ deep ts es) :
    CompleteExpr σ deep .primary (lb :: (ts ++ [rb])) (.array lb es) := by
  intro depth w w' hs hfit _
  obtain ⟨rfl, hs₁⟩ := hs.cons_ne_nil (by simp)
  have hfirst : Rules.standard.beginning w.current.kind = some .array := by rw [hl]; rfl
  have hinner := h depth w w' rb hs₁ (hfit.inner (.refl w) (by grind)) (.inr hr)
  rw [hr] at hinner
  exact .construct hfirst (.current (.bind hinner (.pure _))) hs₁.budget_eq (by simp)

theorem complete_call {callee : List Token} {lp rp : Token} {f : Node} {es : List Node}
    (hl : lp.kind = .lparen) (hr : rp.kind = .rparen) (hn : callee ≠ [])
    (hf : CompleteExpr σ deep .applied callee f) (h : CompleteElements σ deep ts es) :
    CompleteExpr σ deep .applied (callee ++ lp :: (ts ++ [rp])) (.call lp f es) := by
  intro depth w w' hs hfit hnext
  obtain ⟨w₁, hs₁, hs₂⟩ := hs.split hn (by simp)
  obtain ⟨rfl, hs₃⟩ := hs₂.cons_ne_nil (by simp)
  have hleft := hf depth w w₁ hs₁ (hfit.part (.refl w) (by simp)) (.of_kind hl (by decide))
  have hinner := h depth w₁.advance w' rp hs₃ (hfit.inner hs₁.slides.advance (by grind)) (.inl hr)
  rw [hr] at hinner
  refine hleft.goOn (by simp) fun p hp => .one ?_ (TokenKind.following_eq_call_iff.2 hl)
    (.current (.bind hinner (.pure _)))
  rw [hl]
  exact Nat.lt_of_le_of_lt hp (by decide)

/-! ### Statements -/

/-- What may come after a statement: any token if it is closed, and none that goes on with it if it is
not. -/
def Stops (closed : Bool) (next : Token) : Prop :=
  closed = false → Follows 1 next ∧ next.kind ≠ .semicolon

def CompleteStatement (σ : Type) [TokenSource σ] (deep : Prop) (closed : Bool) (ts : List Token)
    (s : Node) : Prop :=
  ∀ (depth : Nat) (w w' : Window σ), w.Spans ts w' → w.Fits deep depth ts.length →
    Stops closed w'.advance.current → Yields deep (statement (expression Rules.standard depth)) w s w'

/-- The value of a statement and its semicolon. -/
theorem complete_ending {closed : Bool} {us : List Token} {f : Node → Node} (ht : ts ≠ [])
    (he : CompleteExpr σ deep .equality ts e) (hend : Ending closed us) (hs : w.Spans (ts ++ us) w')
    (hfit : w.Fits deep depth ts.length) (hstop : Stops closed w'.advance.current) :
    Yields deep (do let e ← expression Rules.standard depth .lowest; passNext .semicolon; return f e)
      w (f e) w' := by
  cases hend with
  | missing =>
    rw [List.append_nil] at hs
    obtain ⟨hnext, hsemi⟩ := hstop rfl
    exact .bind (he.whole hs hfit hnext) (.noPass hsemi (.pure _))
  | semicolon hk =>
    obtain ⟨w₁, hs₁, rfl, rfl⟩ := hs.split_last ht
    exact .bind (he.whole hs₁ hfit (.of_kind hk (by decide))) (.pass hk (.pure _))

theorem complete_letStatement {closed : Bool} {word name assign : Token} {us : List Token}
    (hw : word.kind = .letWord) (hn : name.kind = .ident) (ha : assign.kind = .assign)
    (hd : Expr .equality ts e) (he : CompleteExpr σ deep .equality ts e) (hend : Ending closed us) :
    CompleteStatement σ deep closed (word :: name :: assign :: (ts ++ us))
      (.letStatement word (some (.ofToken name)) e) := by
  intro depth w w' hs hfit hstop
  have ht := hd.ne_nil
  obtain ⟨rfl, hs₁⟩ := hs.cons_ne_nil (by simp)
  obtain ⟨rfl, hs₂⟩ := hs₁.cons_ne_nil (by simp)
  obtain ⟨rfl, hs₃⟩ := hs₂.cons_ne_nil (by simp [ht])
  have hvalue := complete_ending (f := fun value => if value.isHole then .hole else
      .letStatement w.current (some (.ofToken w.advance.current)) value) ht he hend hs₃
    (hfit.part (Window.Slides.refl w).advance.advance.advance (by grind)) hstop
  rw [hd.isHole_eq] at hvalue
  refine .current ?_
  simp only [hw]
  exact .current (.expect hn (.current (.expect ha (.advance hvalue))))

theorem complete_returnStatement {closed : Bool} {word : Token} {us : List Token}
    (hw : word.kind = .returnWord) (hd : Expr .equality ts e) (he : CompleteExpr σ deep .equality ts e)
    (hend : Ending closed us) :
    CompleteStatement σ deep closed (word :: (ts ++ us)) (.returnStatement word e) := by
  intro depth w w' hs hfit hstop
  have ht := hd.ne_nil
  obtain ⟨rfl, hs₁⟩ := hs.cons_ne_nil (by simp [ht])
  have hvalue := complete_ending (f := fun value => if value.isHole then .hole else
      .returnStatement w.current value) ht he hend hs₁
    (hfit.part (Window.Slides.refl w).advance (by grind)) hstop
  rw [hd.isHole_eq] at hvalue
  refine .current ?_
  simp only [hw]
  exact .current (.advance hvalue)

theorem complete_expressionStatement {closed : Bool} {first : Token} {us : List Token}
    (hd : Expr .equality (first :: ts) e) (he : CompleteExpr σ deep .equality (first :: ts) e)
    (hend : Ending closed us) :
    CompleteStatement σ deep closed (first :: ts ++ us) (.expressionStatement first e) := by
  intro depth w w' hs hfit hstop
  have hfirst := Window.Spans.head? hs
  rw [hd.head?_append, List.head?_cons, Option.some.injEq] at hfirst
  have hvalue := complete_ending (f := fun value => if value.isHole then .hole else
      .expressionStatement w.current value) hd.ne_nil he hend hs (hfit.part (.refl w) (by simp)) hstop
  rw [hd.isHole_eq] at hvalue
  have hbegin := hd.begins first rfl
  subst hfirst
  refine .current ?_
  split
  · next hk => rw [hk] at hbegin; cases hbegin
  · next hk => rw [hk] at hbegin; cases hbegin
  · exact .current hvalue

end

/-! ### Rows of statements -/

/-- What a statement begins with neither ends a row of statements nor goes on with the one before. -/
theorem ne_of_begins {kind : TokenKind} (h : kind = .letWord ∨ kind = .returnWord ∨
    (Rules.standard.beginning kind).isSome = true) :
    kind ≠ .rbrace ∧ kind ≠ .eof ∧ kind ≠ .semicolon ∧ kind ≠ .elseWord := by
  revert h
  cases kind <;> decide

def CompleteStatements (σ : Type) [TokenSource σ] (deep : Prop) (ts : List Token) (ss : List Node) :
    Prop :=
  ∀ (depth n : Nat) (ends : TokenKind → Bool) (seen : List Node) (w w' : Window σ), w.Passes ts w' →
    w.Fits deep depth ts.length → (∀ kind, ends kind = true → kind = .rbrace ∨ kind = .eof) →
    ends w'.current.kind = true → ts.length ≤ n →
    Yields deep (repeatAtMost (fun _ v => !ends v.current.kind)
      (fun seen => do
        let next ← statement (expression Rules.standard depth)
        advance
        return if next.isHole then seen else next :: seen)
      n seen) w (ss.reverse ++ seen) w'

theorem complete_statements_nil : CompleteStatements σ deep [] [] := by
  intro depth n ends seen w w' hs _ _ hend _
  rcases hs.cases with ⟨-, rfl⟩ | h
  · exact .done n (by rw [hend]; rfl)
  · cases h

theorem complete_statements_cons {closed : Bool} {us : List Token} {s : Node} {ss : List Node}
    (hd : Statement closed ts s) (hds : Statements us ss)
    (ho : closed = false → ∀ t ∈ us.head?, t.kind ∉ continuers)
    (h : CompleteStatement σ deep closed ts s) (hrest : CompleteStatements σ deep us ss) :
    CompleteStatements σ deep (ts ++ us) (s :: ss) := by
  intro depth n ends seen w w' hs hfit hends hend hn
  obtain ⟨w₁, hs₁, hs₂⟩ := hs.split hd.ne_nil
  have hmore : ends w.current.kind = false := by
    obtain ⟨hbrace, heof, -⟩ := ne_of_begins (hd.begins _ hs₁.head?)
    refine Bool.eq_false_iff.2 fun hk => ?_
    rcases hends _ hk with hk | hk
    · exact hbrace hk
    · exact heof hk
  have hstop : Stops closed w₁.advance.current := by
    intro hc
    rcases hs₂.cases with ⟨-, rfl⟩ | hhead
    · rcases hends _ hend with hk | hk <;> exact ⟨.of_kind hk (by decide), by rw [hk]; decide⟩
    · obtain ⟨-, -, hsemi, helse⟩ := ne_of_begins (hds.begins _ hhead)
      exact ⟨⟨TokenKind.rank_precedence_le_one_iff.2 (ho hc _ hhead), helse⟩, hsemi⟩
  have hpos := List.length_pos_iff.2 hd.ne_nil
  rw [List.length_append] at hn
  obtain ⟨m, rfl⟩ : ∃ m, n = m + 1 := ⟨n - 1, by omega⟩
  have hs := h depth w w₁ hs₁ (hfit.part (.refl w) (by simp)) hstop
  have hss := hrest depth m ends (s :: seen) _ _ hs₂ (hfit.part hs₁.slides.advance (by simp)) hends hend
    (by omega)
  rw [List.reverse_cons, List.append_assoc]
  refine .round (by rw [hmore]; rfl) (.bind hs (.advance (.pure _))) ?_
  rw [hd.isHole_eq]
  exact hss

def CompleteBlock (σ : Type) [TokenSource σ] (deep : Prop) (ts : List Token) (e : Node) : Prop :=
  ∀ (depth : Nat) (w w' : Window σ), w.Spans ts w' → w.Fits deep depth ts.length →
    Yields deep (block (expression Rules.standard depth)) w e w'

theorem complete_block {lb rb : Token} {ss : List Node} (hr : rb.kind = .rbrace)
    (h : CompleteStatements σ deep ts ss) : CompleteBlock σ deep (lb :: (ts ++ [rb])) (.block lb ss) := by
  intro depth w w' hs hfit
  obtain ⟨rfl, hs₁⟩ := hs.cons_ne_nil (by simp)
  obtain ⟨rfl, hs₂⟩ := hs₁.passes
  have hbudget := hfit.budget
  have hloop := h depth w.budget (fun kind => kind == .rbrace || kind == .eof) [] _ _ hs₂
    (hfit.part (Window.Slides.refl w).advance (by grind)) (by simp) (by rw [hr]; rfl)
    (by grind)
  rw [List.append_nil] at hloop
  refine .current (.advance (.bind (.bind hloop (.pure _)) (.current ?_)))
  rw [List.reverse_reverse, if_neg (by rw [hr]; decide)]
  exact .pure _

section

variable [LawfulTokenSource σ]

theorem complete_conditional {word lp rp : Token} {us : List Token} {consequence : Node}
    (hw : word.kind = .ifWord) (hl : lp.kind = .lparen) (hr : rp.kind = .rparen) (ht : ts ≠ [])
    (hd : Block us consequence) (hc : CompleteExpr σ deep .equality ts e)
    (hq : CompleteBlock σ deep us consequence) :
    CompleteExpr σ deep .primary (word :: lp :: (ts ++ rp :: us))
      (.conditional word e consequence .hole) := by
  intro depth w w' hs hfit hnext
  obtain ⟨rfl, hs₁⟩ := hs.cons_ne_nil (by simp)
  obtain ⟨rfl, hs₂⟩ := hs₁.cons_ne_nil (by simp)
  obtain ⟨w₁, hs₃, hs₄⟩ := hs₂.split ht (by simp)
  obtain ⟨rfl, hs₅⟩ := hs₄.cons_ne_nil hd.ne_nil
  have hslide₂ := (Window.Slides.refl w).advance.advance
  have hslide₅ := (hslide₂.trans hs₃.slides).advance.advance
  have hfirst : Rules.standard.beginning w.current.kind = some .conditional := by rw [hw]; rfl
  have hcond := hc.whole hs₃ (hfit.inner hslide₂ (by grind)) (.of_kind hr (by decide))
  have hblock := hq depth _ _ hs₅ (hfit.inner hslide₅ (by grind))
  refine .construct hfirst ?_ (hs₅.slides.budget.trans hslide₅.budget) (by simp)
  refine .current (.expect hl (.advance (.bind hcond ?_)))
  refine .expect hr (.expect (hd.begins _ hs₅.head?) (.bind hblock ?_))
  exact .stays hnext.ne_else (.pure _)

theorem complete_alternative {word lp rp other : Token} {us vs : List Token}
    {consequence alternative : Node} (hw : word.kind = .ifWord) (hl : lp.kind = .lparen)
    (hr : rp.kind = .rparen) (ho : other.kind = .elseWord) (ht : ts ≠ []) (hdq : Block us consequence)
    (hda : Block vs alternative) (hc : CompleteExpr σ deep .equality ts e)
    (hq : CompleteBlock σ deep us consequence) (ha : CompleteBlock σ deep vs alternative) :
    CompleteExpr σ deep .primary (word :: lp :: (ts ++ rp :: (us ++ other :: vs)))
      (.conditional word e consequence alternative) := by
  intro depth w w' hs hfit hnext
  obtain ⟨rfl, hs₁⟩ := hs.cons_ne_nil (by simp)
  obtain ⟨rfl, hs₂⟩ := hs₁.cons_ne_nil (by simp)
  obtain ⟨w₁, hs₃, hs₄⟩ := hs₂.split ht (by simp)
  obtain ⟨rfl, hs₅⟩ := hs₄.cons_ne_nil (by simp)
  obtain ⟨w₂, hs₆, hs₇⟩ := hs₅.split hdq.ne_nil (by simp)
  obtain ⟨rfl, hs₈⟩ := hs₇.cons_ne_nil hda.ne_nil
  have hslide₂ := (Window.Slides.refl w).advance.advance
  have hslide₅ := (hslide₂.trans hs₃.slides).advance.advance
  have hslide₈ := (hslide₅.trans hs₆.slides).advance.advance
  have hfirst : Rules.standard.beginning w.current.kind = some .conditional := by rw [hw]; rfl
  have hcond := hc.whole hs₃ (hfit.inner hslide₂ (by grind)) (.of_kind hr (by decide))
  have hblock := hq depth _ _ hs₆ (hfit.inner hslide₅ (by grind))
  have helse := ha depth _ _ hs₈ (hfit.inner hslide₈ (by grind))
  refine .construct hfirst ?_ (hs₈.slides.budget.trans hslide₈.budget) (by simp)
  refine .current (.expect hl (.advance (.bind hcond ?_)))
  refine .expect hr (.expect (hdq.begins _ hs₆.head?) (.bind hblock ?_))
  refine .comes ho (.advance (.expect (hda.begins _ hs₈.head?) ?_))
  exact .bind helse (.pure _)

theorem complete_function {word lp rp : Token} {us : List Token} {ids : List Identifier} {body : Node}
    (hw : word.kind = .fnWord) (hl : lp.kind = .lparen) (hr : rp.kind = .rparen)
    (hp : Parameters ts ids) (hd : Block us body) (hb : CompleteBlock σ deep us body) :
    CompleteExpr σ deep .primary (word :: lp :: (ts ++ rp :: us)) (.function word ids body) := by
  intro depth w w' hs hfit hnext
  obtain ⟨rfl, hs₁⟩ := hs.cons_ne_nil (by simp)
  obtain ⟨rfl, hs₂⟩ := hs₁.cons_ne_nil (by simp)
  rw [List.append_cons] at hs₂
  obtain ⟨w₁, hs₃, hs₄⟩ := hs₂.split (by simp) hd.ne_nil
  have hslide₁ := (Window.Slides.refl w).advance
  have hslide₄ := (hslide₁.advance.trans hs₃.slides).advance
  have hbudget : ts.length ≤ w.budget := by
    have hall := hfit.budget
    grind
  have hfirst : Rules.standard.beginning w.current.kind = some .function := by rw [hw]; rfl
  have hnames : Yields deep parameters w.advance (some ids) w₁ := complete_parameters hp hs₃ hr hbudget
  have hblock := hb depth _ _ hs₄ (hfit.inner hslide₄ (by grind))
  refine .construct hfirst ?_ (hs₄.slides.budget.trans hslide₄.budget) (by simp)
  refine .current (.expect hl (.bind hnames ?_))
  exact .expect (hd.begins _ hs₄.head?) (.bind hblock (.pure _))

end

/-! ### All derivations -/

mutual

theorem complete_expr [LawfulTokenSource σ] : ∀ {level : Level} {ts : List Token} {e : Node}, Expr level ts e →
    CompleteExpr σ deep level ts e
  | level, _, _, .tighter h => fun depth w w' hs hfit hnext =>
    (complete_expr h depth w w' hs hfit
      (hnext.mono (hnext.rank_le.trans level.reach_le_tighter))).loosen
  | _, _, _, .infixOp ho ha hb =>
    complete_infixOp ho ha.ne_nil hb.ne_nil (complete_expr ha) (complete_expr hb)
  | _, _, _, .prefixOp ho h => complete_prefixOp ho h.ne_nil (complete_expr h)
  | _, _, _, .call hl hr hf ha =>
    complete_call hl hr hf.ne_nil (complete_expr hf) (complete_elements ha)
  | _, _, _, .index hl hr ha he =>
    complete_index hl hr ha.ne_nil he.ne_nil (complete_expr ha) (complete_expr he)
  | _, _, _, .identifier h => complete_identifier h
  | _, _, _, .integer h hm => complete_integer h hm
  | _, _, _, .string h => complete_string h
  | _, _, _, .trueWord h => complete_boolean (.inl h) (by rw [h]; rfl)
  | _, _, _, .falseWord h => complete_boolean (.inr h) (by rw [h]; rfl)
  | _, _, _, .grouped hl hr h => complete_grouped hl hr h.ne_nil (complete_expr h)
  | _, _, _, .conditional hw hl hr hc hq =>
    complete_conditional hw hl hr hc.ne_nil hq (complete_expr hc) (complete_braces hq)
  | _, _, _, .alternative hw hl hr ho hc hq ha =>
    complete_alternative hw hl hr ho hc.ne_nil hq ha (complete_expr hc) (complete_braces hq)
      (complete_braces ha)
  | _, _, _, .function hw hl hr hp hb => complete_function hw hl hr hp hb (complete_braces hb)
  | _, _, _, .array hl hr he => complete_array hl hr (complete_elements he)

theorem complete_elements [LawfulTokenSource σ] : ∀ {ts : List Token} {es : List Node}, Elements ts es →
    CompleteElements σ deep ts es
  | _, _, .none => complete_elements_none
  | _, _, .some h => complete_elements_some h (complete_exprs h)

theorem complete_exprs [LawfulTokenSource σ] : ∀ {ts : List Token} {es : List Node}, Exprs ts es →
    CompleteExprs σ deep ts es
  | _, _, .one h => complete_exprs_one (complete_expr h)
  | _, _, .cons hc he h =>
    complete_exprs_cons hc he.ne_nil h.ne_nil (complete_expr he) (complete_exprs h)

theorem complete_statement [LawfulTokenSource σ] : ∀ {closed : Bool} {ts : List Token} {s : Node}, Statement closed ts s →
    CompleteStatement σ deep closed ts s
  | _, _, _, .letStatement hw hn ha he hs => complete_letStatement hw hn ha he (complete_expr he) hs
  | _, _, _, .returnStatement hw he hs => complete_returnStatement hw he (complete_expr he) hs
  | _, _, _, .expressionStatement he hs => complete_expressionStatement he (complete_expr he) hs

theorem complete_statements [LawfulTokenSource σ] : ∀ {ts : List Token} {ss : List Node}, Statements ts ss →
    CompleteStatements σ deep ts ss
  | _, _, .nil => complete_statements_nil
  | _, _, .cons hs h ho =>
    complete_statements_cons hs h ho (complete_statement hs) (complete_statements h)

theorem complete_braces [LawfulTokenSource σ] : ∀ {ts : List Token} {e : Node}, Block ts e → CompleteBlock σ deep ts e
  | _, _, .braces _ hr h => complete_block hr (complete_statements h)

end

theorem complete_program [LawfulTokenSource σ] {depth : Nat} (h : Program ts e) (hs : w.Spans ts w')
    (hfit : w.Fits deep depth ts.length) :
    Yields deep (program (expression Rules.standard depth)) w e w' := by
  cases h with
  | statements hl h =>
    obtain ⟨rfl, hpass⟩ := hs.passes
    have hbudget := hfit.budget
    rw [List.length_append, List.length_singleton] at hbudget
    have hloop := complete_statements h depth w.budget (· == .eof) [] w w' hpass
      (hfit.part (.refl w) (by simp)) (fun kind hk => .inr (beq_iff_eq.1 hk)) (beq_iff_eq.2 hl) (by omega)
    rw [List.append_nil] at hloop
    refine .bind (.bind hloop (.pure _)) ?_
    rw [List.reverse_reverse]
    exact .pure _

end Parser

end Scriptlet
