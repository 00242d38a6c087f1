import Scriptlet.Proofs.Parse.Accepts
import Scriptlet.Proofs.Parse.Lookahead
import Scriptlet.Proofs.Parse.Loops
import Scriptlet.Proofs.Parse.Pieces

/-!
# Sources joined at a semicolon

A source that is read without syntax errors and ends with a semicolon can be put in front of any other, one with
syntax errors or faults included: its statements are read as before, and then the other source is read as if it
stood alone.

The two parts are read in a loop over statements. Up to the cut it runs in step with the loop over the first source.
The last statement is the only one that comes near the cut. Its semicolon is the token behind an expression, so the
expression has been read when two tokens are left, and the semicolon itself is passed without a look at what follows
(`Closing`). From the cut on it runs in step with the loop over the second source, for nothing is behind that one.
-/

namespace Scriptlet

open Scriptlet.Grammar

theorem endsClosed_of_suffix {ts ts' : List Token} (h : EndsClosed ts) (hs : ts' <:+ ts) : EndsClosed ts' := by
  obtain ⟨before, rfl⟩ := hs
  cases ts' with
  | nil => exact nofun
  | cons t ts' =>
    intro last hlast
    refine h last ?_
    rwa [List.getLast?_append_of_ne_nil before (List.cons_ne_nil t ts')]

namespace Window

variable {σ τ : Type} [TokenSource σ] [TokenSource τ] {us ts : List Token} {w w' : Window σ} {v : Window τ}

theorem Rests.slides (h : w.Rests ts) (hs : w.Slides w') : ∃ ts', w'.Rests ts' ∧ ts' <:+ ts := by
  obtain ⟨n, hn⟩ := hs.source
  refine ⟨ts.drop n, ⟨fun k => ?_, fun t ht => h.inner t (List.mem_of_mem_drop ht)⟩, List.drop_suffix n ts⟩
  have hcurrent := current_congr (skip_source_congr hn k)
  rw [hcurrent, skip_skip, h.tokens, List.getD_eq_getElem?_getD, List.getD_eq_getElem?_getD, List.getElem?_drop]

theorem Spans.getLast? (h : w.Spans ts w') : ts.getLast? = some w'.current := by
  induction h with
  | one w => rfl
  | cons h ih => rw [List.getLast?_cons_of_ne_nil h.ne_nil, ih]

theorem Abreast.current_eq {t : Token} (h : Abreast us (t :: ts) w v) : w.current = v.current := by
  rw [h.first.current, h.second.current]
  rfl

theorem Lost.upcoming [LawfulTokenSource σ] (h : w.Lost us) : w.upcoming.kind = .eof := by
  obtain ⟨ts, hr, hl⟩ := h.rests
  rw [upcoming_eq, hr.advance.current]
  match ts, hl with
  | [], _ => rfl
  | [t], _ => rfl

end Window

open Window

namespace Parser

variable {σ τ : Type} [TokenSource σ] [TokenSource τ] {α β : Type} {us ts : List Token} {E : Fault → Prop}
  {w : Window σ} {v : Window τ}

/-! ### The last semicolon -/

/-- A reading without syntax errors that ends at a semicolon is the same from the second window, no matter whether
anything is left behind the semicolon in the first. -/
def Closing (us ts : List Token) (w : Window σ) (v : Window τ) (p : Parser σ α) (q : Parser τ α) : Prop :=
  ∀ a w', p w = .ok (a, w') → w'.errors.size = w.errors.size → w'.current.kind = .semicolon →
    ∃ ts' v', q v = .ok (a, v') ∧ ts' <:+ ts ∧ Abreast us ts' w' v'

namespace Closing

theorem current {f : Token → Parser σ α} {g : Token → Parser τ α} (h : w.current = v.current)
    (hf : Closing us ts w v (f w.current) (g w.current)) :
    Closing us ts w v (Parser.current >>= f) (Parser.current >>= g) := by
  intro a w' hrun hsize hsemicolon
  have hg : (Parser.current >>= g) v = g w.current v := by
    rw [h]
    rfl
  rw [hg]
  exact hf a w' hrun hsize hsemicolon

theorem advance {t : Token} {f : Unit → Parser σ α} {g : Unit → Parser τ α}
    (hf : Closing us ts w.advance v.advance (f ()) (g ())) :
    Closing us (t :: ts) w v (Parser.advance >>= f) (Parser.advance >>= g) := by
  intro a w' hrun hsize hsemicolon
  obtain ⟨ts', v', hv, hs, h⟩ := hf a w' hrun hsize hsemicolon
  exact ⟨ts', v', hv, hs.trans (List.suffix_cons t ts), h⟩

variable [LawfulTokenSource σ] [LawfulTokenSource τ]

/-- Where a token has to come next, it does, or else there is a syntax error. -/
theorem expect {kind : TokenKind} {p : Parser σ α} {q : Parser τ α} {a : α} (h : Abreast us ts w v)
    (hk : kind ≠ .eof)
    (hp : ∀ t ts', Abreast us (t :: ts') w.advance v.advance → Closing us (t :: ts') w.advance v.advance p q) :
    Closing us ts w v (expectNext kind >>= fun b => if b = true then p else Pure.pure a)
      (expectNext kind >>= fun b => if b = true then q else Pure.pure a) := by
  intro b w' hrun hsize hsemicolon
  by_cases hnext : w.upcoming.kind = kind
  · rw [bind_of_ok (expectNext_of_eq hnext), if_pos rfl] at hrun
    rcases h.cases with hlost | ⟨hne, -, hupcoming⟩
    · rw [hlost.upcoming] at hnext
      exact absurd hnext.symm hk
    · rw [bind_of_ok (expectNext_of_eq (hupcoming ▸ hnext)), if_pos rfl]
      have habreast := h.advance hne
      rw [upcoming_eq, habreast.first.current] at hnext
      cases hts : ts.tail with
      | nil =>
        rw [hts] at hnext
        exact absurd hnext.symm hk
      | cons t ts' =>
        rw [hts] at habreast
        obtain ⟨ts₁, v', hrun', hs, h'⟩ := hp t ts' habreast b w' hrun hsize hsemicolon
        rw [← hts] at hs
        exact ⟨ts₁, v', hrun', hs.trans (List.tail_suffix ts), h'⟩
  · rw [bind_of_ok (expectNext_of_ne hnext)] at hrun
    cases hrun
    exact absurd hsize (Sound.size_report_ne _)

end Closing

section

variable [LawfulTokenSource σ] [LawfulTokenSource τ] {expr : Precedence → Parser σ Node}
  {expr' : Precedence → Parser τ Node} (hexpr : ∀ precedence, Tracks us E (expr precedence) (expr' precedence))
  (hsound : SoundExpr expr) (hw : w.Sane)
include hexpr hsound hw

/-- No expression ends with a semicolon, so the semicolon is passed behind the expression. -/
theorem closing_ending (h : Abreast us ts w v) {f : Node → Node} :
    Closing us ts w v (do let e ← expr .lowest; passNext .semicolon; return f e)
      (do let e ← expr' .lowest; passNext .semicolon; return f e) := by
  intro s w' hrun hsize hsemicolon
  cases he : expr .lowest w with
  | error cause =>
    rw [bind_of_error he] at hrun
    cases hrun
  | ok result =>
    obtain ⟨e, w₁⟩ := result
    have hmeets := (hexpr .lowest).meets h
    rw [he] at hmeets
    rw [bind_of_ok he] at hrun
    by_cases hnext : w₁.upcoming.kind = .semicolon
    · rw [bind_of_ok (passNext_of_eq hnext)] at hrun
      cases hrun
      -- The semicolon is still to come, so the first window is not lost yet.
      have hseen : ¬ w₁.Lost us := by
        intro hlost
        rw [hlost.upcoming] at hnext
        cases hnext
      obtain ⟨ts₁, v₁, hv, hs, h₁⟩ := hmeets.resolve_left hseen
      obtain ⟨hne, -, hupcoming⟩ := h₁.cases.resolve_left hseen
      refine ⟨ts₁.tail, v₁.advance, ?_, (List.tail_suffix ts₁).trans hs, h₁.advance hne⟩
      rw [bind_of_ok hv, bind_of_ok (passNext_of_eq (hupcoming ▸ hnext))]
      rfl
    · rw [bind_of_ok (passNext_of_ne hnext)] at hrun
      cases hrun
      obtain ⟨-, hreads⟩ := wp_true_iff.1 (hsound .lowest w (by decide) hw) e w' he
      obtain ⟨us₁, hspan, hderived, -⟩ := hreads hsize
      exact absurd hsemicolon (hderived.endsOpen _ hspan.getLast?)

variable {t : Token} (h : Abreast us (t :: ts) w v)
include h

theorem closing_statement : Closing us (t :: ts) w v (statement expr) (statement expr') := by
  refine .current h.current_eq ?_
  split
  · exact .current h.current_eq (.expect h nofun fun _ _ h₁ => .current h₁.current_eq
      (.expect h₁ nofun fun _ _ h₂ => .advance
        (closing_ending hexpr hsound hw.advance.advance.advance h₂.advance_cons)))
  · exact .current h.current_eq (.advance (closing_ending hexpr hsound hw.advance h.advance_cons))
  · exact .current h.current_eq (closing_ending hexpr hsound hw h)

/-- A statement of tokens that end with a semicolon is read in step, the last one included. -/
theorem statement_of_endsClosed (hc : EndsClosed (t :: ts)) {s : Node} {w' : Window σ}
    (hrun : statement expr w = .ok (s, w')) (hsize : w'.errors.size = w.errors.size) :
    ∃ t' ts' v', statement expr' v = .ok (s, v') ∧ t' :: ts' <:+ t :: ts ∧ Abreast us (t' :: ts') w' v' := by
  obtain ⟨hslides, hreads⟩ := wp_true_iff.1 (sound_statement hsound hw) s w' hrun
  obtain ⟨closed, us₁, hspan, hderived, -⟩ := hreads hsize
  have hinner : w'.current.kind ≠ .eof := (hderived.proper _ (List.mem_of_getLast? hspan.getLast?)).1
  obtain ⟨ts', v', hv, hs, h'⟩ :
      ∃ ts' v', statement expr' v = .ok (s, v') ∧ ts' <:+ t :: ts ∧ Abreast us ts' w' v' := by
    by_cases hsemicolon : w'.current.kind = .semicolon
    · exact closing_statement hexpr hsound hw h s w' hrun hsize hsemicolon
    · have hmeets := (tracks_statement hexpr).meets h
      rw [hrun] at hmeets
      refine hmeets.resolve_left fun hlost => ?_
      obtain ⟨ts', hr, hs⟩ := h.first.slides hslides
      match ts', hr, hs with
      | [], hr, _ =>
        rw [hr.current] at hinner
        exact hinner rfl
      | [last], hr, hs =>
        rw [hr.current] at hsemicolon
        exact hsemicolon (endsClosed_of_suffix hc hs last rfl)
      | _ :: t₂ :: _, hr, _ =>
        have hupcoming := hlost.upcoming
        rw [upcoming_eq, hr.advance.current] at hupcoming
        exact hr.inner t₂ (by simp) hupcoming
  cases ts' with
  | nil =>
    rw [h'.first.current] at hinner
    exact absurd rfl hinner
  | cons t' ts' => exact ⟨t', ts', v', hv, hs, h'⟩

end

/-! ### The loop over statements -/

/-- Whether the input goes on. -/
def inInput (_ : List Node) (w : Window σ) : Bool := !(w.current.kind == .eof)

/-- Reads at most `n` statements up to the end of the input. -/
def rounds (depth n : Nat) (seen : List Node) : Parser σ (List Node) := repeatAtMost inInput (round depth) n seen

theorem parseWindow_eq_rounds (depth : Nat) (w : Window σ) :
    parseWindow depth w =
      (rounds depth w.budget [] w).map fun r => ⟨.program r.1.reverse, r.2.errors.toList⟩ := by
  have hprogram : program (expression Rules.standard depth) w =
      (rounds depth w.budget [] w).map fun r => (.program r.1.reverse, r.2) := by
    show (rounds depth w.budget [] w >>= _) >>= _ = _
    cases rounds depth w.budget [] w <;> rfl
  unfold parseWindow
  rw [hprogram]
  cases rounds depth w.budget [] w <;> rfl

section

variable {depth n : Nat} {seen seen' : List Node} {w' : Window σ}

theorem inInput_of_rests {t : Token} (h : w.Rests (t :: ts)) (seen : List Node) : inInput seen w = true := by
  rw [inInput, h.current]
  simpa using h.inner t (by simp)

theorem not_inInput_of_rests (h : w.Rests []) (seen : List Node) : inInput seen w = false := by
  rw [inInput, h.current]
  rfl

theorem round_of_ok {s : Node} (h : statement (expression Rules.standard depth) w = .ok (s, w')) (seen : List Node) :
    round depth seen w = .ok (if s.isHole then seen else s :: seen, w'.advance) := by
  unfold round
  rw [bind_of_ok h]
  rfl

theorem round_of_error {cause : Fault} (h : statement (expression Rules.standard depth) w = .error cause)
    (seen : List Node) : round depth seen w = .error cause :=
  bind_of_error h _

/-- What has been read before stays behind what is read. -/
theorem rounds_append (depth n : Nat) (seen before : List Node) (w : Window σ) :
    rounds depth n (seen ++ before) w = (rounds depth n seen w).map fun r => (r.1 ++ before, r.2) := by
  unfold rounds
  induction n generalizing seen w with
  | zero => rfl
  | succ n ih =>
    cases hgo : inInput seen w with
    | false =>
      rw [repeatAtMost_of_stop hgo, repeatAtMost_of_stop (show inInput (seen ++ before) w = false from hgo)]
      rfl
    | true =>
      rw [repeatAtMost_of_more hgo, repeatAtMost_of_more (show inInput (seen ++ before) w = true from hgo)]
      cases hs : statement (expression Rules.standard depth) w with
      | error cause =>
        rw [bind_of_error (round_of_error hs _), bind_of_error (round_of_error hs _)]
        rfl
      | ok result =>
        rw [bind_of_ok (round_of_ok hs _), bind_of_ok (round_of_ok hs _), ← ih]
        congr 1
        split <;> rfl

theorem slides_of_rounds (h : rounds depth n seen w = .ok (seen', w')) : w.Slides w' := by
  have hround : ∀ seen, (Slides.invariant w).Keeps (round depth seen) := fun _ =>
    (WindowInvariant.keeps_statement (WindowInvariant.keeps_expression depth)).bind fun _ =>
      WindowInvariant.Keeps.advance.bind fun _ => .pure _
  have hrounds : (Slides.invariant w).Keeps (rounds depth n seen) := .repeatAtMost hround n seen
  exact wp_true_iff.1 (hrounds w (.refl w)) seen' w' h

variable [LawfulTokenSource σ] [LawfulTokenSource τ]

/-- Up to the cut the loop over both sources runs in step with the loop over the first. -/
theorem rounds_up_to_cut {m : Nat} (h : Abreast us ts w v) (hw : w.Sane) (hc : EndsClosed ts) (hn : ts.length ≤ n)
    (hm : (ts ++ us).length ≤ m) (hrun : rounds depth n seen w = .ok (seen', w'))
    (hsize : w'.errors.size = w.errors.size) :
    ∃ m' v', rounds depth m seen v = rounds depth m' seen' v' ∧ us.length ≤ m' ∧ Abreast us [] w' v' := by
  induction hl : ts.length using Nat.strong_induction_on generalizing ts n m seen w v with
  | _ l ih =>
    cases ts with
    | nil =>
      rw [rounds, repeatAtMost_of_stop (not_inInput_of_rests h.first seen)] at hrun
      cases hrun
      exact ⟨m, v, rfl, hm, h⟩
    | cons t ts =>
      rw [List.length_append] at hm
      rw [List.length_cons] at hn hm hl
      obtain ⟨n, rfl⟩ : ∃ k, n = k + 1 := Nat.exists_eq_succ_of_ne_zero (by omega)
      obtain ⟨m, rfl⟩ : ∃ k, m = k + 1 := Nat.exists_eq_succ_of_ne_zero (by omega)
      rw [rounds, repeatAtMost_of_more (inInput_of_rests h.first seen)] at hrun
      rw [rounds, repeatAtMost_of_more (inInput_of_rests h.second seen)]
      cases hs : statement (expression Rules.standard depth) w with
      | error cause =>
        rw [bind_of_error (round_of_error hs _)] at hrun
        cases hrun
      | ok result =>
        obtain ⟨s, w₁⟩ := result
        rw [bind_of_ok (round_of_ok hs _)] at hrun
        have hslides := (wp_true_iff.1 (sound_statement (sound_expression depth) hw) s w₁ hs).1
        -- No syntax error is recorded in the end, so the statement has none.
        have hfirst := hslides.size_le
        have hrest : w₁.errors.size ≤ w'.errors.size := (slides_of_rounds hrun).size_le
        have htracks : ∀ precedence, Tracks us (fun _ => True) (expression (σ := σ) Rules.standard depth precedence)
            (expression (σ := τ) Rules.standard depth precedence) := tracks_expression_self depth
        obtain ⟨t', ts', v₁, hv, hsuffix, h₁⟩ :=
          statement_of_endsClosed htracks (sound_expression depth) hw h hc hs (by omega)
        rw [bind_of_ok (round_of_ok hv _)]
        have hlength := hsuffix.length_le
        rw [List.length_cons, List.length_cons] at hlength
        have hclosed : EndsClosed ts' := endsClosed_of_suffix hc ((List.suffix_cons t' ts').trans hsuffix)
        have hroom : (ts' ++ us).length ≤ m := by
          rw [List.length_append]
          omega
        have hnone : w'.errors.size = w₁.advance.errors.size := by
          rw [errors_advance]
          omega
        have hsane : w₁.advance.Sane := (hw.slides hslides).advance
        exact ih ts'.length (by omega) h₁.advance_cons hsane hclosed (by omega) hroom hrun hnone rfl

/-- Windows that show the same tokens for good are read the same. -/
theorem meets_rounds (depth : Nat) {m : Nat} (h : Abreast [] ts w v) (hn : ts.length ≤ n) (hm : ts.length ≤ m)
    (seen : List Node) :
    Meets [] (fun _ => True) ts (rounds depth n seen w) (rounds depth m seen v) := by
  have hguard : SameGuard (inInput (σ := σ)) (inInput (σ := τ)) :=
    ⟨fun _ w v hcurrent _ => by rw [inInput, inInput, hcurrent], fun seen w hr => not_inInput_of_rests hr seen⟩
  have hround : ∀ seen, TracksOn [] (fun _ => True) (round (σ := σ) depth seen) (round (σ := τ) depth seen) :=
    fun _ => .concat (tracks_statement (tracks_expression_self depth)) _
  exact meets_repeatAtMost hguard hround h hn (by rwa [List.append_nil])

end

end Parser

/-! ### Sources -/

open Scriptlet.Parser

/-- The windows on two sources together and on the first of them, which ends with a semicolon. -/
theorem abreast_window {a : String} (hc : EndsClosed (tokenize a).dropLast) (b : String) :
    Abreast (tokenize b).dropLast (tokenize a).dropLast (Feed.window a) (Feed.window (a ++ b)) := by
  have htokens : (tokenize (a ++ b)).dropLast = (tokenize a).dropLast ++ (tokenize b).dropLast := by
    have hne : tokenize b ≠ [] := tokensOf_ne_nil b.toList
    rw [tokenize_append hc, List.dropLast_append_of_ne_nil hne]
  refine ⟨rests_window a, ?_, rfl, length_dropLast_tokenize_le a, ?_⟩
  · rw [← htokens]
    exact rests_window (a ++ b)
  · rw [← htokens]
    exact length_dropLast_tokenize_le (a ++ b)

/-- Behind the cut the window on both sources shows what a window on the second one shows. -/
theorem abreast_behind_cut {b : String} {w' v : Window Feed} (h : Abreast (tokenize b).dropLast [] w' v)
    (he : w'.errors = #[]) : Abreast [] (tokenize b).dropLast (Feed.window b) v := by
  refine ⟨rests_window b, ?_, ?_, length_dropLast_tokenize_le b, ?_⟩
  · rw [List.append_nil]
    exact h.second
  · rw [← h.errors, he]
    rfl
  · rw [List.append_nil]
    exact h.budget'

/-- A source that is read without syntax errors, and the last token of which is a semicolon if it has one, can be put
in front of any other source. Together they are read as its statements and then those of the other source, with the
syntax errors of the other source; and if that one cannot be read at all, neither can they, for the same fault. -/
theorem parse_joined_at_semicolon {limits : Limits} {a : String} {ss : List Node}
    (ha : parse limits a = .ok ⟨.program ss, []⟩) (hc : EndsClosed (tokenize a).dropLast) (b : String) :
    match parse limits b with
    | .error cause => parse limits (a ++ b) = .error cause
    | .ok parsed => ∃ ss', parsed.program = .program ss' ∧
        parse limits (a ++ b) = .ok ⟨.program (ss ++ ss'), parsed.errors⟩ := by
  have hparse : ∀ source, parse limits source =
      (rounds limits.reading (Feed.window source).budget [] (Feed.window source)).map
        fun r => ⟨.program r.1.reverse, r.2.errors.toList⟩ :=
    fun source => parseWindow_eq_rounds limits.reading (Feed.window source)
  rw [hparse] at ha
  cases hfirst : rounds limits.reading (Feed.window a).budget [] (Feed.window a) with
  | error cause =>
    rw [hfirst] at ha
    cases ha
  | ok result =>
    obtain ⟨seen, w'⟩ := result
    rw [hfirst] at ha
    simp only [Except.map, Except.ok.injEq, Parsed.mk.injEq, Node.program.injEq] at ha
    obtain ⟨rfl, herrors⟩ := ha
    have hnone : w'.errors = #[] := Array.toList_eq_nil_iff.1 herrors
    have hwhole := abreast_window hc b
    obtain ⟨m, v, hrounds, hm, hcut⟩ := rounds_up_to_cut hwhole (sane_window a) hc hwhole.budget hwhole.budget' hfirst
      (by rw [hnone]; rfl)
    have hmeets := meets_rounds limits.reading (abreast_behind_cut hcut hnone) (length_dropLast_tokenize_le b) hm []
    -- The statements of the first source have been read, so from here on it is as if there were none.
    rw [hparse (a ++ b), hrounds, ← List.nil_append seen, rounds_append, hparse b]
    cases hb : rounds limits.reading (Feed.window b).budget [] (Feed.window b) with
    | error cause =>
      rw [hb] at hmeets
      rw [hmeets rfl trivial]
      rfl
    | ok result =>
      obtain ⟨seen', u⟩ := result
      rw [hb] at hmeets
      obtain ⟨ts', v', hv, -, hlast⟩ := hmeets.resolve_left fun hlost => hlost.behind rfl
      rw [hv]
      refine ⟨seen'.reverse, rfl, ?_⟩
      simp [Except.map, hlast.errors]

/-- A binding in front of a source with syntax errors. -/
theorem binding_joined_to_errors :
    ∃ bound, bound = Node.letStatement ⟨.letWord, "let"⟩ (some ⟨⟨.ident, "x"⟩, "x"⟩) (.integer ⟨.int, "1"⟩ 1) ∧
      parse Limits.standard "let x = 1;" = .ok ⟨.program [bound], []⟩ ∧
      EndsClosed (tokenize "let x = 1;").dropLast ∧
      ∃ parsed, parse Limits.standard "( ) let = x" = .ok parsed ∧
        parsed.errors = [.noExpression .rparen, .unexpected .rparen .letWord, .unexpected .ident .assign,
          .noExpression .assign] ∧
        ∃ ss', parsed.program = .program ss' ∧
          parse Limits.standard ("let x = 1;" ++ "( ) let = x") = .ok ⟨.program ([bound] ++ ss'), parsed.errors⟩ := by
  refine ⟨_, rfl, rfl, by decide +kernel, _, rfl, rfl, ?_⟩
  exact @parse_joined_at_semicolon Limits.standard "let x = 1;" [_] rfl (by decide +kernel) "( ) let = x"

end Scriptlet
