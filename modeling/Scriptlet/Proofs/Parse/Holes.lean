import Scriptlet.Proofs.Node.Formed
import Scriptlet.Proofs.Parse.Keeps
import Scriptlet.Session

/-!
# Holes and errors

Reading goes on after a syntax error and leaves a hole. `Parser.Records p R` says what a parser gives
together with the number of errors that it records; whatever is read is formed, and has at most as
many holes as errors were recorded on the way (`records_expression`).
-/

namespace Scriptlet

namespace Parser

variable {σ : Type} {α β : Type}

/-- From any window the parser gives an `a` and records `n` errors such that `R a n`. -/
def Records (p : Parser σ α) (R : α → Nat → Prop) : Prop :=
  ∀ w, wp (fun _ => True) p (fun a w' => ∃ n, w'.errors.size = w.errors.size + n ∧ R a n) w

namespace Records

variable {R : α → Nat → Prop}

theorem pure {a : α} (h : R a 0) : Records (σ := σ) (Pure.pure a) R := fun _ => ⟨0, rfl, h⟩

theorem bind {p : Parser σ α} {f : α → Parser σ β} {R' : β → Nat → Prop} (hp : Records p R)
    (hf : ∀ a n, R a n → Records (f a) fun b m => R' b (n + m)) : Records (p >>= f) R' := by
  intro w
  rw [wp_bind]
  refine wp_mono (hp w) ?_
  rintro a w' ⟨n, hn, ha⟩
  refine wp_mono (hf a n ha w') ?_
  rintro b w'' ⟨m, hm, hb⟩
  exact ⟨n + m, by omega, hb⟩

theorem mono {p : Parser σ α} {R' : α → Nat → Prop} (h : Records p R) (hr : ∀ a n, R a n → R' a n) :
    Records p R' :=
  fun w => wp_mono (h w) fun a _ ⟨n, hn, ha⟩ => ⟨n, hn, hr a n ha⟩

theorem report {error : SyntaxError} {f : Unit → Parser σ α} (h : Records (f ()) fun a n => R a (1 + n)) :
    Records (Parser.report error >>= f) R := by
  intro w
  rw [wp_bind, wp_report]
  refine wp_mono (h _) ?_
  rintro a w' ⟨n, hn, ha⟩
  rw [Window.size_errors_report] at hn
  exact ⟨1 + n, by omega, ha⟩

theorem fault {cause : Fault} : Records (σ := σ) (Parser.fault cause) R := fun _ => trivial

theorem repeatWhile {more : α → Window σ → Bool} {body : α → Parser σ α} {a : α} (h : R a 0)
    (step : ∀ a n, R a n → Records (body a) fun a' m => R a' (n + m)) :
    Records (Parser.repeatWhile more body a) R := by
  intro w
  refine wp_repeatWhile (fun a w' => ∃ n, w'.errors.size = w.errors.size + n ∧ R a n) ?_ ⟨0, rfl, h⟩
  rintro a w' ⟨n, hn, ha⟩ -
  refine wp_mono (step a n ha w') ?_
  rintro a' w'' ⟨m, hm, ha'⟩
  exact ⟨n + m, by omega, ha'⟩

variable [TokenSource σ]

theorem current {f : Token → Parser σ α} (h : ∀ t, Records (f t) R) :
    Records (Parser.current >>= f) R :=
  fun w => h w.current w

theorem advance {f : Unit → Parser σ α} (h : Records (f ()) R) : Records (Parser.advance >>= f) R :=
  fun w => h w.advance

theorem comesNext {kind : TokenKind} {p q : Parser σ α} (hp : Records p R) (hq : Records q R) :
    Records (Parser.comesNext kind >>= fun b => if b = true then p else q) R := by
  intro w
  rw [wp_bind, wp_comesNext]
  split
  · exact hp w
  · exact hq w

/-- A token that has to come next. Without it one error is recorded. -/
theorem expect {kind : TokenKind} {p : Parser σ α} {a : α} (h : Records p R) (ha : R a 1) :
    Records (Parser.expectNext kind >>= fun b => if b = true then p else Pure.pure a) R := by
  intro w
  rw [wp_bind, wp_expectNext]
  split
  · exact h w.advance
  · exact ⟨1, Window.size_errors_report _ _, ha⟩

theorem pass {kind : TokenKind} {f : Unit → Parser σ α} (h : Records (f ()) R) :
    Records (Parser.passNext kind >>= f) R := by
  intro w
  rw [wp_bind, wp_passNext]
  split
  · exact h w.advance
  · exact h w

end Records

end Parser

/-- A formed tree with at most `n` holes. -/
structure Node.Within (node : Node) (n : Nat) : Prop where
  formed : node.FormedOrHole
  holes_le : node.holes ≤ n

/-- Formed trees with at most `n` holes in all. -/
structure Node.AllWithin (nodes : List Node) (n : Nat) : Prop where
  formed : ∀ node ∈ nodes, node.FormedOrHole
  holes_le : Node.holesOfAll nodes ≤ n

namespace Node

variable {n m : Nat} {node : Node} {nodes : List Node}

theorem Within.hole (h : 1 ≤ n) : Node.hole.Within n := ⟨nofun, h⟩

theorem Within.mk' (made : node.wellMade = true) (below : ∀ child ∈ node.children, child.FormedOrHole)
    (h : node.holes ≤ n) : node.Within n :=
  ⟨fun _ => .mk made below, h⟩

/-- A construct that is left out where its only part is missing. -/
theorem Within.unless (h : node.Within n) {outer : Node} (ho : node.isHole = false → outer.Within n) :
    (if node.isHole then .hole else outer).Within n := by
  split
  · next hh =>
    have hle := h.holes_le
    rw [holes_of_isHole hh] at hle
    exact .hole hle
  · next hh => exact ho (Bool.eq_false_iff.2 hh)

theorem AllWithin.nil : AllWithin [] n := ⟨by simp, by simp [holesOfAll]⟩

theorem AllWithin.cons (h : node.Within n) (hs : AllWithin nodes m) : AllWithin (node :: nodes) (m + n) := by
  refine ⟨List.forall_mem_cons.2 ⟨h.formed, hs.formed⟩, ?_⟩
  have h₁ := h.holes_le
  have h₂ := hs.holes_le
  rw [holesOfAll]
  omega

theorem AllWithin.reverse (h : AllWithin nodes n) : AllWithin nodes.reverse n :=
  ⟨fun node hm => h.formed node (List.mem_reverse.1 hm), by rw [holesOfAll_reverse]; exact h.holes_le⟩

end Node

namespace Parser

variable {σ : Type} [TokenSource σ]

theorem records_parameters :
    Records (σ := σ) parameters (fun names n => names = none → 1 ≤ n) := by
  refine .comesNext (.advance (.pure nofun)) (.expect (.current fun first => ?_) fun _ => Nat.le_refl 1)
  refine .bind (.repeatWhile (R := fun names n => names = none → 1 ≤ n) nofun fun names n hn => ?_)
    fun names n hn => ?_
  · refine .advance (.expect (.current fun token => .pure fun hm => ?_) fun _ => by omega)
    exact hn (Option.map_eq_none_iff.1 hm)
  · cases names with
    | none => exact .pure hn
    | some names => exact .expect (.pure nofun) fun _ => by omega

theorem records_integer : Records (σ := σ) integer Node.Within := by
  refine .current fun token => ?_
  dsimp only
  split
  · exact .report (.pure (.hole (Nat.le_refl 1)))
  split
  · exact .fault
  split
  · exact .fault
  · split
    · exact .report (.pure (.hole (Nat.le_refl 1)))
    · exact .pure (.mk' rfl nofun (Nat.le_refl 0))

section

variable {expr : Precedence → Parser σ Node} (hexpr : ∀ precedence, Records (expr precedence) Node.Within)
include hexpr

theorem records_letStatement : Records (letStatement expr) Node.Within := by
  refine .current fun token => .expect (.current fun name => .expect (.advance (.bind (hexpr _)
    fun value n hv => .pass (.pure (hv.unless fun hh => .mk' ?_ ?_ ?_)))) (.hole (Nat.le_refl 1)))
    (.hole (Nat.le_refl 1))
  · simp [Node.wellMade, hh]
  · simpa [Node.children] using hv.formed
  · simpa [Node.holes] using hv.holes_le

theorem records_returnStatement : Records (returnStatement expr) Node.Within := by
  refine .current fun token => .advance (.bind (hexpr _) fun value n hv =>
    .pass (.pure (hv.unless fun hh => .mk' ?_ ?_ ?_)))
  · simp [Node.wellMade, hh]
  · simpa [Node.children] using hv.formed
  · simpa [Node.holes] using hv.holes_le

theorem records_expressionStatement : Records (expressionStatement expr) Node.Within := by
  refine .current fun token => .bind (hexpr _) fun value n hv =>
    .pass (.pure (hv.unless fun hh => .mk' ?_ ?_ ?_))
  · simp [Node.wellMade, hh]
  · simpa [Node.children] using hv.formed
  · simpa [Node.holes] using hv.holes_le

theorem records_statement : Records (statement expr) Node.Within := by
  refine .current fun token => ?_
  split
  · exact records_letStatement hexpr
  · exact records_returnStatement hexpr
  · exact records_expressionStatement hexpr

theorem records_statements (ends : TokenKind → Bool) :
    Records (statements expr ends)
      (fun ss n => (∀ s ∈ ss, s.isHole = false) ∧ Node.AllWithin ss n) := by
  refine .bind (.repeatWhile (R := fun seen n => (∀ s ∈ seen, s.isHole = false) ∧ Node.AllWithin seen n)
    ⟨by simp, .nil⟩ fun seen n hseen => ?_) fun seen n hseen => .pure ?_
  · refine .bind (records_statement hexpr) fun s m hs => .advance (.pure ?_)
    -- A missing statement is not kept; its errors only leave room.
    split
    · exact ⟨hseen.1, hseen.2.formed, by have := hseen.2.holes_le; omega⟩
    · next hh =>
      exact ⟨List.forall_mem_cons.2 ⟨Bool.eq_false_iff.2 hh, hseen.1⟩, .cons hs hseen.2⟩
  · exact ⟨fun s hm => hseen.1 s (List.mem_reverse.1 hm), hseen.2.reverse⟩

theorem records_program : Records (program expr) (fun e n => e.isHole = false ∧ e.Within n) := by
  refine .bind (records_statements hexpr _) fun ss n hss => .pure ⟨rfl, .mk' ?_ hss.2.formed ?_⟩
  · simpa [Node.wellMade] using hss.1
  · simpa [Node.holes] using hss.2.holes_le

theorem records_block : Records (block expr) (fun e n => e.isHole = false ∧ e.Within n) := by
  refine .current fun token => .advance (.bind (records_statements hexpr _) fun ss n hss =>
    .current fun last => ?_)
  have hblock : ∀ m, n ≤ m → (Node.block token ss).Within m := by
    intro m hm
    refine .mk' ?_ hss.2.formed ?_
    · simpa [Node.wellMade] using hss.1
    · simpa [Node.holes] using Nat.le_trans hss.2.holes_le hm
  split
  · exact .report (.pure ⟨rfl, hblock _ (by omega)⟩)
  · exact .pure ⟨rfl, hblock _ (by omega)⟩

theorem records_prefixOp : Records (prefixOp expr) Node.Within := by
  refine .current fun token => .advance (.bind (hexpr _) fun right n hr => .pure (.mk' rfl ?_ ?_))
  · simpa [Node.children] using hr.formed
  · simpa [Node.holes] using hr.holes_le

theorem records_grouped : Records (grouped expr) Node.Within :=
  .advance (.bind (hexpr _) fun _ _ he => .expect (.pure he) (.hole (Nat.le_add_left 1 _)))

theorem records_conditional : Records (conditional expr) Node.Within := by
  have hole : ∀ n, Node.hole.Within (n + 1) := fun n => .hole (Nat.le_add_left 1 n)
  refine .current fun token => .expect (.advance (.bind (hexpr _) fun c n hc => ?_)) (hole 0)
  refine .expect (.expect (.bind (records_block hexpr) fun q m hq => ?_) (hole n)) (hole n)
  refine .comesNext (.advance (.expect (.bind (records_block hexpr) fun a k ha => .pure ?_) ?_)) (.pure ?_)
  · refine .mk' ?_ ?_ ?_
    · simp [Node.wellMade, hq.1]
    · simpa [Node.children] using ⟨hc.formed, hq.2.formed, ha.2.formed⟩
    · have h₁ := hc.holes_le
      have h₂ := hq.2.holes_le
      have h₃ := ha.2.holes_le
      simp only [Node.holes, ha.1, Bool.false_eq_true, if_false]
      omega
  · exact .hole (by omega)
  · refine .mk' ?_ ?_ ?_
    · simp [Node.wellMade, hq.1]
    · have hnone : Node.hole.FormedOrHole := by rintro ⟨⟩
      simpa [Node.children] using ⟨hc.formed, hq.2.formed, hnone⟩
    · have h₁ := hc.holes_le
      have h₂ := hq.2.holes_le
      simp only [Node.holes, Node.isHole, if_true]
      omega

theorem records_function : Records (function expr) Node.Within := by
  refine .current fun token => .expect (.bind records_parameters fun names n hn => ?_)
    (.hole (Nat.le_refl 1))
  cases names with
  | none => exact .pure (.hole (hn rfl))
  | some names =>
    refine .expect (.bind (records_block hexpr) fun body m hb => .pure (.mk' ?_ ?_ ?_))
      (.hole (Nat.le_add_left 1 n))
    · simp [Node.wellMade, hb.1]
    · simpa [Node.children] using hb.2.formed
    · have h := hb.2.holes_le
      rw [Node.holes]
      omega

theorem records_expressionList (close : TokenKind) :
    Records (expressionList expr close)
      (fun elements n => (elements = none → 1 ≤ n) ∧ ∀ es, elements = some es → Node.AllWithin es n) := by
  refine .comesNext (.advance (.pure ⟨nofun, ?_⟩)) (.advance (.bind (hexpr _) fun first n hf => ?_))
  · rintro _ ⟨⟩
    exact .nil
  refine .bind (.repeatWhile (R := fun elements m => Node.AllWithin elements (n + m)) ?_
    fun elements m he => ?_) fun elements m he =>
      .expect (.pure ⟨nofun, ?_⟩) ⟨fun _ => by omega, nofun⟩
  · simpa using Node.AllWithin.cons hf (.nil (n := 0))
  · refine .advance (.advance (.bind (hexpr _) fun e k hk => .pure ?_))
    simpa [Nat.add_assoc] using Node.AllWithin.cons hk he
  · rintro _ ⟨⟩
    exact he.reverse

theorem records_array : Records (array expr) Node.Within := by
  refine .current fun token => .bind (records_expressionList hexpr _) fun elements n he => ?_
  cases elements with
  | none => exact .pure (.hole (he.1 rfl))
  | some elements =>
    have h := he.2 elements rfl
    refine .pure (.mk' rfl h.formed ?_)
    simpa [Node.holes] using h.holes_le

/-- Going on with an operand adds the holes of what follows to its own. -/
theorem records_continuation (left : Node) (k : Nat) (hl : left.Within k) (next : Continuation) :
    Records (continuation expr left next) (fun e n => e.Within (k + n)) := by
  have hleft := hl.holes_le
  cases next with
  | infixOp =>
    refine .current fun token => .advance (.bind (hexpr _) fun right n hr => .pure (.mk' rfl ?_ ?_))
    · simpa [Node.children] using ⟨hl.formed, hr.formed⟩
    · have h := hr.holes_le
      rw [Node.holes]
      omega
  | call =>
    refine .current fun token => .bind (records_expressionList hexpr _) fun arguments n ha => ?_
    cases arguments with
    | none => exact .pure (.hole (by have := ha.1 rfl; omega))
    | some arguments =>
      have h := ha.2 arguments rfl
      refine .pure (.mk' rfl (List.forall_mem_cons.2 ⟨hl.formed, h.formed⟩) ?_)
      have hle := h.holes_le
      rw [Node.holes]
      omega
  | index =>
    refine .current fun token => .advance (.bind (hexpr _) fun subscript n hs =>
      .expect (.pure (.mk' rfl ?_ ?_)) (.hole (by omega)))
    · simpa [Node.children] using ⟨hl.formed, hs.formed⟩
    · have h := hs.holes_le
      rw [Node.holes]
      omega

/-- Whatever the rules of the language let an expression begin with. -/
theorem records_beginning {kind : TokenKind} {first : Construct}
    (hf : Rules.standard.beginning kind = some first) : Records (construct expr first) Node.Within := by
  cases kind <;> cases hf
  case int => exact records_integer
  case bang => exact records_prefixOp hexpr
  case minus => exact records_prefixOp hexpr
  case lparen => exact records_grouped hexpr
  case ifWord => exact records_conditional hexpr
  case fnWord => exact records_function hexpr
  case lbracket => exact records_array hexpr
  all_goals exact .current fun token => .pure (.mk' rfl nofun (Nat.le_refl 0))

theorem records_climb (precedence : Precedence) :
    Records (climb Rules.standard expr precedence) Node.Within := by
  refine .current fun token => ?_
  dsimp only
  split
  · exact .report (.pure (.hole (Nat.le_refl 1)))
  · next first hf =>
    refine .bind (records_beginning hexpr hf) fun left n hl => .repeatWhile hl fun left m hl => ?_
    refine .advance (.current fun token => ?_)
    split
    · exact .pure hl
    · next next _ => exact (records_continuation hexpr left _ hl next).mono fun e k he => by rwa [← Nat.add_assoc]

end

theorem records_expression (depth : Nat) (precedence : Precedence) :
    Records (σ := σ) (expression Rules.standard depth precedence) Node.Within := by
  induction depth generalizing precedence with
  | zero => exact .fault
  | succ depth ih => exact records_climb ih precedence

end Parser

/-- What is read is formed, with syntax errors or without, and has at most as many holes as syntax
errors. -/
theorem parse_formed {limits : Limits} {source : String} {parsed : Parsed}
    (h : parse limits source = .ok parsed) :
    parsed.program.Formed ∧ parsed.program.holes ≤ parsed.errors.length := by
  have hrec := Parser.records_program (Parser.records_expression (σ := Feed) limits.reading)
    (Feed.window source)
  unfold parse parseWindow at h
  unfold Parser.wp at hrec
  split at h
  · cases h
  · next program w' hrun =>
    cases h
    rw [hrun] at hrec
    obtain ⟨n, hn, hh, hw⟩ := hrec
    refine ⟨hw.formed hh, ?_⟩
    have hstart : (Feed.window source).errors.size = 0 := rfl
    have hsize : w'.errors.toList.length = n := by
      rw [Array.length_toList, hn, hstart, Nat.zero_add]
    show program.holes ≤ w'.errors.toList.length
    rw [hsize]
    exact hw.holes_le

theorem parse_complete {limits : Limits} {source : String} {parsed : Parsed}
    (h : parse limits source = .ok parsed) (he : parsed.errors = []) : parsed.program.Complete := by
  obtain ⟨hf, hh⟩ := parse_formed h
  rw [he] at hh
  exact ⟨hf, Nat.le_zero.1 hh⟩

/-- No tree that is read has a hole without an error, whatever the source. Statements are never missing, nor
are the name and the value of a `let`, the value of a `return`, the expression of a statement, the consequence of
a conditional and the body of a function, anywhere in the tree. All other children that are missing are counted,
and there are no more of them than errors. -/
theorem parse_holes_reported {limits : Limits} {source : String} {parsed : Parsed}
    (h : parse limits source = .ok parsed) :
    (∀ statements, parsed.program.Contains (.program statements) → .hole ∉ statements) ∧
    (∀ token statements, parsed.program.Contains (.block token statements) → .hole ∉ statements) ∧
    (∀ token name value, parsed.program.Contains (.letStatement token name value) →
      name ≠ none ∧ value ≠ .hole) ∧
    (∀ token value, parsed.program.Contains (.returnStatement token value) → value ≠ .hole) ∧
    (∀ token expression, parsed.program.Contains (.expressionStatement token expression) → expression ≠ .hole) ∧
    (∀ token condition consequence alternative,
      parsed.program.Contains (.conditional token condition consequence alternative) → consequence ≠ .hole) ∧
    (∀ token parameters body, parsed.program.Contains (.function token parameters body) → body ≠ .hole) ∧
    parsed.program.holes ≤ parsed.errors.length := by
  obtain ⟨hf, hle⟩ := parse_formed h
  have made : ∀ node, parsed.program.Contains node → node.isHole = false → node.wellMade = true :=
    fun node hc hi => (hf.contains hc hi).wellMade
  have there : ∀ {node : Node}, (!node.isHole) = true → node ≠ .hole := by
    rintro node hn rfl
    cases hn
  refine ⟨?_, ?_, ?_, ?_, ?_, ?_, ?_, hle⟩
  · intro statements hc hm
    exact there (List.all_eq_true.1 (made _ hc rfl) _ hm) rfl
  · intro token statements hc hm
    exact there (List.all_eq_true.1 (made _ hc rfl) _ hm) rfl
  · intro token name value hc
    have hboth := Bool.and_eq_true_iff.1 (made _ hc rfl)
    exact ⟨Option.isSome_iff_ne_none.1 hboth.1, there hboth.2⟩
  · exact fun token value hc => there (made _ hc rfl)
  · exact fun token expression hc => there (made _ hc rfl)
  · exact fun token condition consequence alternative hc => there (made _ hc rfl)
  · exact fun token parameters body hc => there (made _ hc rfl)

/-- Three holes and three errors: an operand, a condition and an argument are missing. -/
theorem parse_three_holes :
    ∃ parsed, parse Limits.standard "let x = -@; if (*) \x7b f(#) \x7d" = .ok parsed ∧
      parsed.program.holes = 3 ∧ 3 ≤ parsed.errors.length ∧
      ∀ statements, parsed.program.Contains (.program statements) → .hole ∉ statements := by
  have hreads : ∃ parsed, parse Limits.standard "let x = -@; if (*) \x7b f(#) \x7d" = .ok parsed ∧
      parsed.program.holes = 3 := ⟨_, rfl, rfl⟩
  obtain ⟨parsed, hparsed, hholes⟩ := hreads
  obtain ⟨hprogram, -, -, -, -, -, -, hle⟩ := parse_holes_reported hparsed
  rw [hholes] at hle
  exact ⟨parsed, hparsed, hholes, hle, hprogram⟩

end Scriptlet
