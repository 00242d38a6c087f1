import Scriptlet.Proofs.Parse.Accepts
import Scriptlet.Proofs.Parse.Holes
import Scriptlet.Proofs.Token.Spelling

/-!
# Integers of a program

An overlong integer ends all reading, so a tree that was read has none (`Node.Brief`). In a source without
syntax errors every integer token is a node of the tree. Hence no token of a program is overlong, and the
condition that the completeness of the parser puts on integers holds of everything that was read before.
-/

namespace Scriptlet

open Scriptlet.Grammar

/-- If the token is an integer, it does not begin with too many digits. -/
def Token.Brief (token : Token) : Prop :=
  token.kind = .int → (token.literal.toList.takeWhile Text.isDecimal).length ≤ maxDigits

theorem Token.Brief.short {token : Token} (h : token.Brief) (hn : token.Numeral) : token.Short := by
  intro hk
  have hdecimal : ∀ c ∈ token.literal.toList, Text.isDecimal c = true :=
    fun c hc => Text.isDecimal_of_isDigit ((hn hk).2 c hc)
  have hle := h hk
  rwa [List.takeWhile_eq_self_iff.2 hdecimal, String.length_toList] at hle

namespace Node

/-- No integer in the tree begins with too many digits. -/
inductive Brief : Node → Prop
  | mk {node : Node} (own : ∀ token value, node = .integer token value → token.Brief)
    (below : ∀ child ∈ node.children, Brief child) : Brief node

variable {node outer : Node}

theorem Brief.child (h : node.Brief) : ∀ child ∈ node.children, child.Brief := by
  cases h with
  | mk _ below => exact below

theorem Brief.own {token : Token} {value : Int} (h : (Node.integer token value).Brief) : token.Brief := by
  cases h with
  | mk own _ => exact own token value rfl

theorem Brief.hole : Node.hole.Brief := .mk nofun nofun

theorem Brief.unless (h : outer.Brief) : (if node.isHole then .hole else outer).Brief := by
  split
  · exact .hole
  · exact h

end Node

/-! ### Reading -/

namespace Parser

variable {σ : Type} [TokenSource σ] {α : Type}

/-- Whatever the parser gives is as `P` says. -/
def Gives (p : Parser σ α) (P : α → Prop) : Prop := Records p fun a _ => P a

theorem gives_parameters : Gives (σ := σ) parameters fun _ => True :=
  records_parameters.mono fun _ _ _ => trivial

theorem gives_integer : Gives (σ := σ) integer Node.Brief := by
  refine .current fun token => ?_
  dsimp only
  split
  · exact .report (.pure .hole)
  split
  · exact .fault
  next hlong =>
    split
    · exact .fault
    · split
      · exact .report (.pure .hole)
      · refine .pure (.mk ?_ nofun)
        rintro _ _ ⟨⟩ -
        exact Nat.le_of_not_lt hlong

section

variable {expr : Precedence → Parser σ Node} (hexpr : ∀ precedence, Gives (expr precedence) Node.Brief)
include hexpr

theorem gives_letStatement : Gives (letStatement expr) Node.Brief := by
  refine .current fun token => .expect (.current fun name => .expect (.advance (.bind (hexpr _)
    fun value _ hv => .pass (.pure (.unless (.mk nofun ?_))))) .hole) .hole
  simpa [Node.children] using hv

theorem gives_returnStatement : Gives (returnStatement expr) Node.Brief := by
  refine .current fun token => .advance (.bind (hexpr _) fun value _ hv =>
    .pass (.pure (.unless (.mk nofun ?_))))
  simpa [Node.children] using hv

theorem gives_expressionStatement : Gives (expressionStatement expr) Node.Brief := by
  refine .current fun token => .bind (hexpr _) fun value _ hv =>
    .pass (.pure (.unless (.mk nofun ?_)))
  simpa [Node.children] using hv

theorem gives_statement : Gives (statement expr) Node.Brief := by
  refine .current fun token => ?_
  split
  · exact gives_letStatement hexpr
  · exact gives_returnStatement hexpr
  · exact gives_expressionStatement hexpr

theorem gives_statements (ends : TokenKind → Bool) :
    Gives (statements expr ends) fun ss => ∀ s ∈ ss, s.Brief := by
  refine .bind (.repeatWhile (R := fun seen _ => ∀ s ∈ seen, s.Brief) (by simp) fun seen _ hseen => ?_)
    fun seen _ hseen => .pure fun s hs => hseen s (List.mem_reverse.1 hs)
  refine .bind (gives_statement hexpr) fun s _ hs => .advance (.pure ?_)
  split
  · exact hseen
  · exact List.forall_mem_cons.2 ⟨hs, hseen⟩

theorem gives_program : Gives (program expr) Node.Brief :=
  .bind (gives_statements hexpr _) fun _ _ hss => .pure (.mk nofun hss)

theorem gives_block : Gives (block expr) Node.Brief := by
  refine .current fun token => .advance (.bind (gives_statements hexpr _) fun ss _ hss =>
    .current fun last => ?_)
  split
  · exact .report (.pure (.mk nofun hss))
  · exact .pure (.mk nofun hss)

theorem gives_prefixOp : Gives (prefixOp expr) Node.Brief := by
  refine .current fun token => .advance (.bind (hexpr _) fun right _ hr => .pure (.mk nofun ?_))
  simpa [Node.children] using hr

theorem gives_grouped : Gives (grouped expr) Node.Brief :=
  .advance (.bind (hexpr _) fun _ _ he => .expect (.pure he) .hole)

theorem gives_conditional : Gives (conditional expr) Node.Brief := by
  refine .current fun token => .expect (.advance (.bind (hexpr _) fun c _ hc => .expect (.expect
    (.bind (gives_block hexpr) fun q _ hq => .comesNext (.advance (.expect
      (.bind (gives_block hexpr) fun a _ ha => .pure (.mk nofun ?_)) .hole)) (.pure (.mk nofun ?_)))
    .hole) .hole)) .hole
  · simpa [Node.children] using ⟨hc, hq, ha⟩
  · simpa [Node.children] using ⟨hc, hq, Node.Brief.hole⟩

theorem gives_function : Gives (function expr) Node.Brief := by
  refine .current fun token => .expect (.bind gives_parameters fun names _ _ => ?_) .hole
  cases names with
  | none => exact .pure .hole
  | some names =>
    refine .expect (.bind (gives_block hexpr) fun body _ hb => .pure (.mk nofun ?_)) .hole
    simpa [Node.children] using hb

theorem gives_expressionList (close : TokenKind) :
    Gives (expressionList expr close) fun elements => ∀ es, elements = some es → ∀ e ∈ es, e.Brief := by
  refine .comesNext (.advance (.pure (by rintro _ ⟨⟩; simp)))
    (.advance (.bind (hexpr _) fun first _ hf => ?_))
  refine .bind (.repeatWhile (R := fun elements _ => ∀ e ∈ elements, e.Brief) (by simpa using hf)
    fun elements _ he => ?_) fun elements _ he => .expect (.pure ?_) nofun
  · exact .advance (.advance (.bind (hexpr _) fun e _ hk => .pure (List.forall_mem_cons.2 ⟨hk, he⟩)))
  · rintro _ ⟨⟩ e hm
    exact he e (List.mem_reverse.1 hm)

theorem gives_array : Gives (array expr) Node.Brief := by
  refine .current fun token => .bind (gives_expressionList hexpr _) fun elements _ he => ?_
  cases elements with
  | none => exact .pure .hole
  | some elements => exact .pure (.mk nofun (he elements rfl))

theorem gives_continuation (left : Node) (hl : left.Brief) (next : Continuation) :
    Gives (continuation expr left next) Node.Brief := by
  cases next with
  | infixOp =>
    refine .current fun token => .advance (.bind (hexpr _) fun right _ hr => .pure (.mk ?_ ?_))
    · rintro _ _ ⟨⟩
    · simpa [Node.children] using ⟨hl, hr⟩
  | call =>
    refine .current fun token => .bind (gives_expressionList hexpr _) fun arguments _ ha => ?_
    cases arguments with
    | none => exact .pure .hole
    | some arguments =>
      refine .pure (.mk ?_ (List.forall_mem_cons.2 ⟨hl, ha arguments rfl⟩))
      rintro _ _ ⟨⟩
  | index =>
    refine .current fun token => .advance (.bind (hexpr _) fun subscript _ hs =>
      .expect (.pure (.mk ?_ ?_)) .hole)
    · rintro _ _ ⟨⟩
    · simpa [Node.children] using ⟨hl, hs⟩

theorem gives_beginning {kind : TokenKind} {first : Construct}
    (hf : Rules.standard.beginning kind = some first) : Gives (construct expr first) Node.Brief := by
  cases kind <;> cases hf
  case int => exact gives_integer
  case bang => exact gives_prefixOp hexpr
  case minus => exact gives_prefixOp hexpr
  case lparen => exact gives_grouped hexpr
  case ifWord => exact gives_conditional hexpr
  case fnWord => exact gives_function hexpr
  case lbracket => exact gives_array hexpr
  all_goals exact .current fun token => .pure (.mk nofun nofun)

theorem gives_climb (precedence : Precedence) :
    Gives (climb Rules.standard expr precedence) Node.Brief := by
  refine .current fun token => ?_
  dsimp only
  split
  · exact .report (.pure .hole)
  · next first hf =>
    refine .bind (gives_beginning hexpr hf) fun left _ hl => .repeatWhile hl fun left _ hl => ?_
    refine .advance (.current fun token => ?_)
    split
    · exact .pure hl
    · next next _ => exact gives_continuation hexpr left hl next

end

theorem gives_expression (depth : Nat) (precedence : Precedence) :
    Gives (σ := σ) (expression Rules.standard depth precedence) Node.Brief := by
  induction depth generalizing precedence with
  | zero => exact .fault
  | succ depth ih => exact gives_climb ih precedence

end Parser

theorem brief_of_parse {limits : Limits} {source : String} {p : Node}
    (h : parse limits source = .ok ⟨p, []⟩) : p.Brief := by
  obtain ⟨w', hrun, -⟩ := parse_eq_ok_iff.1 h
  have hgives := Parser.gives_program (Parser.gives_expression (σ := Feed) limits.reading)
  obtain ⟨_, -, hp⟩ := Parser.wp_true_iff.1 (hgives (Feed.window source)) p w' hrun
  exact hp

/-! ### Integers of a derivation -/

namespace Grammar

/-- None of the tokens is an integer with too many digits. -/
def Brief (ts : List Token) : Prop := ∀ t ∈ ts, t.Brief

@[simp] theorem brief_nil : Brief [] := by simp [Brief]

@[simp] theorem brief_cons {t : Token} {ts : List Token} : Brief (t :: ts) ↔ t.Brief ∧ Brief ts :=
  List.forall_mem_cons

@[simp] theorem brief_append {ts us : List Token} : Brief (ts ++ us) ↔ Brief ts ∧ Brief us :=
  List.forall_mem_append

theorem brief_of_kind {t : Token} {kind : TokenKind} (h : t.kind = kind) (hk : kind ≠ .int) : t.Brief :=
  fun hi => absurd (h.symm.trans hi) hk

variable {ts : List Token}

theorem Names.brief {ids : List Identifier} (h : Names ts ids) : Brief ts := by
  induction h with
  | one hn => simp [brief_of_kind hn]
  | cons hn hc _ ih => simp [brief_of_kind hn, brief_of_kind hc, ih]

theorem Parameters.brief {ids : List Identifier} (h : Parameters ts ids) : Brief ts := by
  cases h with
  | none => simp
  | some h => exact h.brief

theorem Ending.brief {closed : Bool} (h : Ending closed ts) : Brief ts := by
  cases h with
  | missing => simp
  | semicolon hs => simp [brief_of_kind hs]

theorem brief_of_mem_operators {level : Level} {t : Token} (h : t.kind ∈ level.operators) : t.Brief := by
  have hint : TokenKind.int ∉ level.operators := by cases level <;> decide
  exact brief_of_kind rfl fun hk => hint (hk ▸ h)

mutual

theorem Expr.brief : ∀ {level : Level} {ts : List Token} {e : Node}, Expr level ts e → e.Brief → Brief ts
  | _, _, _, .tighter h, hb => h.brief hb
  | _, _, _, .infixOp ho ha hb, he => by
    have hc := he.child
    simp only [Node.children, List.forall_mem_cons] at hc
    simp [brief_of_mem_operators ho, ha.brief hc.1, hb.brief hc.2.1]
  | _, _, _, .prefixOp ho h, he => by
    have hop := h.brief (he.child _ (List.mem_singleton_self _))
    rcases ho with ho | ho <;> simp [brief_of_kind ho, hop]
  | _, _, _, .call hl hr hf ha, he => by
    have hc := he.child
    simp only [Node.children, List.forall_mem_cons] at hc
    simp [brief_of_kind hl, brief_of_kind hr, hf.brief hc.1, ha.brief hc.2]
  | _, _, _, .index hl hr ha hs, he => by
    have hc := he.child
    simp only [Node.children, List.forall_mem_cons] at hc
    simp [brief_of_kind hl, brief_of_kind hr, ha.brief hc.1, hs.brief hc.2.1]
  | _, _, _, .integer _ _, he => by simp [he.own]
  | _, _, _, .identifier h, _ | _, _, _, .string h, _ | _, _, _, .trueWord h, _
  | _, _, _, .falseWord h, _ => by simp [brief_of_kind h]
  | _, _, _, .grouped hl hr h, he => by simp [brief_of_kind hl, brief_of_kind hr, h.brief he]
  | _, _, _, .conditional hw hl hr hc hq, he => by
    have hb := he.child
    simp only [Node.children, List.forall_mem_cons] at hb
    simp [brief_of_kind hw, brief_of_kind hl, brief_of_kind hr, hc.brief hb.1, hq.brief hb.2.1]
  | _, _, _, .alternative hw hl hr ho hc hq ha, he => by
    have hb := he.child
    simp only [Node.children, List.forall_mem_cons] at hb
    simp [brief_of_kind hw, brief_of_kind hl, brief_of_kind hr, brief_of_kind ho, hc.brief hb.1,
      hq.brief hb.2.1, ha.brief hb.2.2.1]
  | _, _, _, .function hw hl hr hp hb, he => by
    have hbody := hb.brief (he.child _ (List.mem_singleton_self _))
    simp [brief_of_kind hw, brief_of_kind hl, brief_of_kind hr, hp.brief, hbody]
  | _, _, _, .array hl hr hs, he => by simp [brief_of_kind hl, brief_of_kind hr, hs.brief he.child]

theorem Elements.brief : ∀ {ts : List Token} {es : List Node}, Elements ts es → (∀ e ∈ es, e.Brief) →
    Brief ts
  | _, _, .none, _ => by simp
  | _, _, .some h, he => h.brief he

theorem Exprs.brief : ∀ {ts : List Token} {es : List Node}, Exprs ts es → (∀ e ∈ es, e.Brief) → Brief ts
  | _, _, .one h, he => h.brief (he _ (List.mem_singleton_self _))
  | _, _, .cons hc h hs, he => by
    obtain ⟨hfirst, hrest⟩ := List.forall_mem_cons.1 he
    simp [brief_of_kind hc, h.brief hfirst, hs.brief hrest]

theorem Statement.brief : ∀ {closed : Bool} {ts : List Token} {s : Node}, Statement closed ts s →
    s.Brief → Brief ts
  | _, _, _, .letStatement hw hn ha he hs, hb => by
    have hvalue := he.brief (hb.child _ (List.mem_singleton_self _))
    simp [brief_of_kind hw, brief_of_kind hn, brief_of_kind ha, hvalue, hs.brief]
  | _, _, _, .returnStatement hw he hs, hb => by
    have hvalue := he.brief (hb.child _ (List.mem_singleton_self _))
    simp [brief_of_kind hw, hvalue, hs.brief]
  | _, _, _, .expressionStatement he hs, hb => by
    rw [brief_append]
    exact ⟨he.brief (hb.child _ (List.mem_singleton_self _)), hs.brief⟩

theorem Statements.brief : ∀ {ts : List Token} {ss : List Node}, Statements ts ss →
    (∀ s ∈ ss, s.Brief) → Brief ts
  | _, _, .nil, _ => by simp
  | _, _, .cons hs h _, hb => by
    obtain ⟨hfirst, hrest⟩ := List.forall_mem_cons.1 hb
    simp [hs.brief hfirst, h.brief hrest]

theorem Block.brief : ∀ {ts : List Token} {e : Node}, Block ts e → e.Brief → Brief ts
  | _, _, .braces hl hr h, hb => by simp [brief_of_kind hl, brief_of_kind hr, h.brief hb.child]

end

theorem Program.brief {p : Node} (h : Program ts p) (hb : p.Brief) : Brief ts := by
  cases h with
  | statements hl h => simp [brief_of_kind hl, h.brief hb.child]

end Grammar

theorem Token.WellFormed.numeral {t : Token} (h : t.WellFormed) : t.Numeral := by
  cases h with
  | fixed h =>
    rintro rfl
    exact absurd h (by decide)
  | @word c cs => exact fun hk => absurd hk (TokenKind.ofWord_ne _).1
  | @integer c cs h =>
    intro _
    rw [String.toList_ofList]
    exact ⟨List.cons_ne_nil c cs, h⟩
  | string => exact nofun
  | illegal => exact nofun

theorem numeral_of_mem_tokenize {source : String} {t : Token} (h : t ∈ tokenize source) : t.Numeral := by
  rcases wellFormed_of_mem_tokensOf h with hw | rfl
  · exact hw.numeral
  · exact nofun

/-- A source that is read without syntax errors has no overlong integers. -/
theorem short_of_parse {limits : Limits} {source : String} {p : Node}
    (h : parse limits source = .ok ⟨p, []⟩) : ∀ t ∈ tokenize source, t.Short := by
  intro t ht
  exact ((program_of_parse h).brief (brief_of_parse h) t ht).short (numeral_of_mem_tokenize ht)

end Scriptlet
