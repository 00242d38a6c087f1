import Mathlib.Data.List.Infix
import Scriptlet.Proofs.Parse.Examined

/-!
# How far parsers look ahead

A parser decides by the current token and the one that comes next. So two windows that show the same tokens up to
some point are read in step for as long as two of these tokens are left, whatever follows in the second one.
`Window.Abreast` relates the two windows: the tokens of the first up to the end of the input are `ts`, and the
second has `us` behind them. `Window.Lost` says that the first window has come so near to its end that the second
may see something else. It never gets away from there again, so of a reading that ends before that point every part
was in step (`Parser.Tracks`).

With nothing behind, the windows show the same tokens for good, and then the readings agree in full, faults
included. The faults in question are those that `E` allows, for the second parser may be allowed to nest expressions
deeper than the first.
-/

namespace Scriptlet

namespace Window

variable {σ τ : Type} [TokenSource σ] [TokenSource τ] {us ts : List Token} {w : Window σ} {v : Window τ}

/-- At most one token is left in front of those that only another window has. -/
structure Lost (us : List Token) (w : Window σ) : Prop where
  behind : us ≠ []
  rests : ∃ ts, w.Rests ts ∧ ts.length ≤ 1

theorem Lost.advance (h : w.Lost us) : w.advance.Lost us := by
  obtain ⟨ts, hr, hl⟩ := h.rests
  exact ⟨h.behind, ts.tail, hr.advance, by rw [List.length_tail]; omega⟩

theorem Lost.report (h : w.Lost us) (error : SyntaxError) : (w.report error).Lost us := by
  obtain ⟨ts, hr, hl⟩ := h.rests
  exact ⟨h.behind, ts, hr.congr rfl, hl⟩

/-- A window that is lost stays lost, whatever is read. -/
def lost (us : List Token) : WindowInvariant σ where
  holds := Lost us
  fault _ := True
  advance := Lost.advance
  report error h := h.report error
  tooDeep := trivial
  integer _ _ _ := trivial

/-- The windows have the same tokens up to the end of the input of the first, and `us` are behind them in the
second. Both have recorded the same syntax errors. -/
structure Abreast (us ts : List Token) (w : Window σ) (v : Window τ) : Prop where
  first : w.Rests ts
  second : v.Rests (ts ++ us)
  errors : w.errors = v.errors
  budget : ts.length ≤ w.budget
  budget' : (ts ++ us).length ≤ v.budget

namespace Abreast

theorem report (h : Abreast us ts w v) (error : SyntaxError) :
    Abreast us ts (w.report error) (v.report error) where
  first := h.first.congr rfl
  second := h.second.congr rfl
  errors := by rw [Window.report, Window.report, h.errors]
  budget := h.budget
  budget' := h.budget'

theorem advance (h : Abreast us ts w v) (hne : ts = [] → us = []) :
    Abreast us ts.tail w.advance v.advance := by
  have hb := h.budget
  have hb' := h.budget'
  refine ⟨h.first.advance, ?_, h.errors, ?_, ?_⟩
  · cases ts with
    | nil =>
      have hright := h.second.advance
      rw [hne rfl] at hright ⊢
      exact hright
    | cons t ts => exact h.second.advance
  · rw [List.length_tail, budget_advance]
    omega
  · rw [List.length_append] at hb' ⊢
    rw [List.length_tail, budget_advance]
    omega

theorem advance_cons {t : Token} (h : Abreast us (t :: ts) w v) : Abreast us ts w.advance v.advance :=
  h.advance nofun

theorem advance_or_lost (h : Abreast us ts w v) :
    w.advance.Lost us ∨ Abreast us ts.tail w.advance v.advance := by
  by_cases hne : ts = [] → us = []
  · exact .inr (h.advance hne)
  · rw [Classical.not_imp] at hne
    refine .inl (Lost.advance ⟨hne.2, ts, h.first, ?_⟩)
    rw [hne.1]
    exact Nat.zero_le 1

/-- Unless the first window is lost, the windows show the same two tokens. -/
theorem cases [LawfulTokenSource σ] [LawfulTokenSource τ] (h : Abreast us ts w v) :
    w.Lost us ∨ (ts = [] → us = []) ∧ w.current = v.current ∧ w.upcoming = v.upcoming := by
  have hw := h.first.advance.current
  have hv := h.second.advance.current
  rw [upcoming_eq, upcoming_eq, h.first.current, h.second.current, hw, hv]
  by_cases hus : us = []
  · subst hus
    rw [List.append_nil]
    exact .inr ⟨fun _ => rfl, rfl, rfl⟩
  · match ts, h.first with
    | [], hr => exact .inl ⟨hus, [], hr, by simp⟩
    | [t], hr => exact .inl ⟨hus, [t], hr, by simp⟩
    | t :: t' :: ts, _ => exact .inr ⟨nofun, rfl, rfl⟩

end Abreast

end Window

open Window

namespace Parser

variable {σ τ : Type} {α β : Type}

variable [TokenSource σ] [TokenSource τ] {us ts : List Token} {E : Fault → Prop}

section

variable {kind : TokenKind} {w : Window σ}

theorem expectNext_of_eq (h : w.upcoming.kind = kind) : expectNext kind w = .ok (true, w.advance) := by
  unfold expectNext
  rw [if_pos h]

theorem expectNext_of_ne (h : w.upcoming.kind ≠ kind) :
    expectNext kind w = .ok (false, w.report (.unexpected kind w.upcoming.kind)) := by
  unfold expectNext
  rw [if_neg h]

theorem passNext_of_eq (h : w.upcoming.kind = kind) : passNext kind w = .ok ((), w.advance) := by
  unfold passNext
  rw [if_pos h]

theorem passNext_of_ne (h : w.upcoming.kind ≠ kind) : passNext kind w = .ok ((), w) := by
  unfold passNext
  rw [if_neg h]

end

/-- Two readings of which the second follows the first: it ends with the same result and the windows abreast, at
most `ts` being left, unless the first window is lost. With nothing behind, it ends with the same fault. -/
def Meets (us : List Token) (E : Fault → Prop) (ts : List Token) :
    Except Fault (α × Window σ) → Except Fault (α × Window τ) → Prop
  | .ok (a, w'), result => w'.Lost us ∨
      ∃ ts' v', result = .ok (a, v') ∧ ts' <:+ ts ∧ Abreast us ts' w' v'
  | .error cause, result => us = [] → E cause → result = .error cause

/-- From windows abreast the second parser follows the first. -/
structure Tracks (us : List Token) (E : Fault → Prop) (p : Parser σ α) (q : Parser τ α) : Prop where
  keeps : (lost us).Keeps p
  meets : ∀ {ts w v}, Abreast us ts w v → Meets us E ts (p w) (q v)

/-- The same for parsers that pass a token, if there is one left. -/
structure TracksOn (us : List Token) (E : Fault → Prop) (p : Parser σ α) (q : Parser τ α) : Prop where
  keeps : (lost us).Keeps p
  meets : ∀ {t ts w v}, Abreast us (t :: ts) w v → Meets us E ts (p w) (q v)

namespace Meets

variable {p : Parser σ α} {q : Parser τ α} {w : Window σ} {v : Window τ}

theorem mono {ts' : List Token} {r : Except Fault (α × Window σ)} {r' : Except Fault (α × Window τ)}
    (h : Meets us E ts r r') (hs : ts <:+ ts') : Meets us E ts' r r' := by
  cases r with
  | error cause => exact h
  | ok result =>
    rcases h with h | ⟨ts₁, v', hr, hs₁, h⟩
    · exact .inl h
    · exact .inr ⟨ts₁, v', hr, hs₁.trans hs, h⟩

theorem of_lost (hp : (lost us).Keeps p) (h : w.Lost us) (r : Except Fault (α × Window τ)) :
    Meets us E ts (p w) r := by
  have hkept := hp w h
  unfold wp at hkept
  cases hr : p w with
  | error cause => exact fun hus => absurd hus h.behind
  | ok result =>
    rw [hr] at hkept
    exact .inl hkept

theorem bind {f : α → Parser σ β} {g : α → Parser τ β} {ts₀ : List Token} (hp : Meets us E ts (p w) (q v))
    (hf : ∀ a, (lost us).Keeps (f a))
    (h : ∀ a ts' w' v', ts' <:+ ts → Abreast us ts' w' v' → Meets us E ts₀ (f a w') (g a v')) :
    Meets us E ts₀ ((p >>= f) w) ((q >>= g) v) := by
  cases hr : p w with
  | error cause =>
    rw [hr] at hp
    rw [bind_of_error hr]
    intro hus he
    rw [bind_of_error (hp hus he)]
  | ok result =>
    obtain ⟨a, w'⟩ := result
    rw [hr] at hp
    rw [bind_of_ok hr]
    rcases hp with hlost | ⟨ts', v', hv, hs, habreast⟩
    · exact of_lost (hf a) hlost _
    · rw [bind_of_ok hv]
      exact h a ts' w' v' hs habreast

end Meets

namespace Tracks

variable {p : Parser σ α} {q : Parser τ α}

theorem pure (a : α) : Tracks us E (Pure.pure a : Parser σ α) (Pure.pure a : Parser τ α) where
  keeps := .pure a
  meets h := .inr ⟨_, _, rfl, List.suffix_rfl, h⟩

theorem fault (cause : Fault) :
    Tracks us E (Parser.fault cause : Parser σ α) (Parser.fault cause : Parser τ α) where
  keeps _ _ := trivial
  meets _ _ _ := rfl

theorem bind {f : α → Parser σ β} {g : α → Parser τ β} (hp : Tracks us E p q)
    (hf : ∀ a, Tracks us E (f a) (g a)) : Tracks us E (p >>= f) (q >>= g) where
  keeps := hp.keeps.bind fun a => (hf a).keeps
  meets h := (hp.meets h).bind (fun a => (hf a).keeps) fun a _ _ _ hs h' => ((hf a).meets h').mono hs

theorem ite {c : Prop} [Decidable c] {p' : Parser σ α} {q' : Parser τ α} (hp : Tracks us E p q)
    (hp' : Tracks us E p' q') : Tracks us E (if c then p else p') (if c then q else q') := by
  split
  · exact hp
  · exact hp'

theorem report (error : SyntaxError) :
    Tracks us E (Parser.report error : Parser σ Unit) (Parser.report error : Parser τ Unit) where
  keeps := .report error
  meets h := .inr ⟨_, _, rfl, List.suffix_rfl, h.report error⟩

theorem advance : Tracks us E (Parser.advance : Parser σ Unit) (Parser.advance : Parser τ Unit) where
  keeps := .advance
  meets {ts _ _} h := h.advance_or_lost.imp_right fun h' => ⟨_, _, rfl, List.tail_suffix ts, h'⟩

variable [LawfulTokenSource σ] [LawfulTokenSource τ]

/-- It is enough to look at windows that show the same tokens. -/
theorem of_cases (keeps : (lost us).Keeps p)
    (h : ∀ {ts w v}, Abreast us ts w v → (ts = [] → us = []) → w.current = v.current → w.upcoming = v.upcoming →
      Meets us E ts (p w) (q v)) : Tracks us E p q where
  keeps := keeps
  meets habreast := by
    rcases habreast.cases with hlost | ⟨hne, hcurrent, hupcoming⟩
    · exact .of_lost keeps hlost _
    · exact h habreast hne hcurrent hupcoming

theorem current : Tracks us E (Parser.current : Parser σ Token) (Parser.current : Parser τ Token) :=
  of_cases .current fun {ts w v} h _ hcurrent _ => by
    refine .inr ⟨ts, v, ?_, List.suffix_rfl, h⟩
    rw [hcurrent]
    rfl

theorem comesNext (kind : TokenKind) :
    Tracks us E (Parser.comesNext kind : Parser σ Bool) (Parser.comesNext kind : Parser τ Bool) :=
  of_cases (.comesNext kind) fun {ts w v} h _ _ hupcoming => by
    refine .inr ⟨ts, v, ?_, List.suffix_rfl, h⟩
    rw [hupcoming]
    rfl

theorem expectNext (kind : TokenKind) :
    Tracks us E (Parser.expectNext kind : Parser σ Bool) (Parser.expectNext kind : Parser τ Bool) :=
  of_cases (.expectNext kind) fun {ts w v} h hne _ hupcoming => by
    unfold Parser.expectNext
    rw [hupcoming]
    split
    · exact .inr ⟨_, _, rfl, List.tail_suffix ts, h.advance hne⟩
    · exact .inr ⟨_, _, rfl, List.suffix_rfl, h.report _⟩

theorem passNext (kind : TokenKind) :
    Tracks us E (Parser.passNext kind : Parser σ Unit) (Parser.passNext kind : Parser τ Unit) :=
  of_cases (.passNext kind) fun {ts w v} h hne _ hupcoming => by
    unfold Parser.passNext
    rw [hupcoming]
    split
    · exact .inr ⟨_, _, rfl, List.tail_suffix ts, h.advance hne⟩
    · exact .inr ⟨_, _, rfl, List.suffix_rfl, h⟩

theorem expect {kind : TokenKind} (hp : Tracks us E p q) (a : α) :
    Tracks us E (Parser.expectNext kind >>= fun b => if b = true then p else Pure.pure a)
      (Parser.expectNext kind >>= fun b => if b = true then q else Pure.pure a) :=
  (expectNext kind).bind fun _ => hp.ite (pure a)

end Tracks

/-! ### Loops -/

namespace TracksOn

theorem advance {f : Unit → Parser σ α} {g : Unit → Parser τ α} (h : Tracks us E (f ()) (g ())) :
    TracksOn us E (Parser.advance >>= f) (Parser.advance >>= g) where
  keeps := WindowInvariant.Keeps.advance.bind fun _ => h.keeps
  meets habreast := h.meets habreast.advance_cons

/-- A parser that passes a token in the end. -/
theorem concat {p : Parser σ α} {q : Parser τ α} (hp : Tracks us E p q) (f : α → β) :
    TracksOn us E (p >>= fun a => Parser.advance >>= fun _ => Pure.pure (f a))
      (q >>= fun a => Parser.advance >>= fun _ => Pure.pure (f a)) where
  keeps := hp.keeps.bind fun _ => WindowInvariant.Keeps.advance.bind fun _ => .pure _
  meets {_ ts _ _} habreast := by
    refine (hp.meets habreast).bind (fun _ => WindowInvariant.Keeps.advance.bind fun _ => .pure _) ?_
    intro a ts' w' v' hs h'
    refine h'.advance_or_lost.imp_right fun h'' => ⟨_, _, rfl, ?_, h''⟩
    rcases List.suffix_cons_iff.1 hs with rfl | hs
    · exact List.suffix_rfl
    · exact (List.tail_suffix ts').trans hs

end TracksOn

section

variable [LawfulTokenSource σ] [LawfulTokenSource τ]
  {more : α → Window σ → Bool} {more' : α → Window τ → Bool} {body : α → Parser σ α} {body' : α → Parser τ α}

/-- Whether a loop goes on is told by the two tokens that the window shows, and at the end of the input it does
not. -/
structure SameGuard (more : α → Window σ → Bool) (more' : α → Window τ → Bool) : Prop where
  eq : ∀ a w v, w.current = v.current → w.upcoming = v.upcoming → more a w = more' a v
  stops : ∀ a w, w.Rests [] → more a w = false

/-- The rounds of two loops that pass tokens in step. Neither of them runs out of rounds before it runs out of
tokens. -/
theorem meets_repeatAtMost (hmore : SameGuard more more') (hbody : ∀ a, TracksOn us E (body a) (body' a))
    {n m : Nat} {a : α} {w : Window σ} {v : Window τ} (h : Abreast us ts w v) (hn : ts.length ≤ n)
    (hm : (ts ++ us).length ≤ m) :
    Meets us E ts (repeatAtMost more body n a w) (repeatAtMost more' body' m a v) := by
  have hkeeps : ∀ n a, (lost us).Keeps (repeatAtMost more body n a) := fun n a =>
    WindowInvariant.Keeps.repeatAtMost (fun a => (hbody a).keeps) n a
  induction hl : ts.length using Nat.strong_induction_on generalizing ts n m a w v with
  | _ l ih =>
    rcases h.cases with hlost | ⟨-, hcurrent, hupcoming⟩
    · exact .of_lost (hkeeps n a) hlost _
    have hsame := hmore.eq a w v hcurrent hupcoming
    cases hgo : more a w with
    | false =>
      rw [hgo] at hsame
      rw [repeatAtMost_of_stop hgo, repeatAtMost_of_stop hsame.symm]
      exact .inr ⟨ts, v, rfl, List.suffix_rfl, h⟩
    | true =>
      rw [hgo] at hsame
      cases ts with
      | nil =>
        rw [hmore.stops a w h.first] at hgo
        cases hgo
      | cons t ts =>
        rw [List.length_append] at hm
        rw [List.length_cons] at hn hm hl
        obtain ⟨n, rfl⟩ := Nat.exists_eq_add_of_le' (Nat.le_trans (Nat.le_add_left 1 _) hn)
        obtain ⟨m, rfl⟩ : ∃ k, m = k + 1 := Nat.exists_eq_succ_of_ne_zero (by omega)
        rw [repeatAtMost_of_more hgo, repeatAtMost_of_more hsame.symm]
        refine ((hbody a).meets h).bind (hkeeps n) fun a' ts' w' v' hs h' => ?_
        have hlength := hs.length_le
        refine (ih ts'.length (by omega) h' (by omega) ?_ rfl).mono (hs.trans (List.suffix_cons t ts))
        rw [List.length_append]
        omega

theorem Tracks.repeatWhile (hmore : SameGuard more more') (hbody : ∀ a, TracksOn us E (body a) (body' a)) (a : α) :
    Tracks us E (Parser.repeatWhile more body a) (Parser.repeatWhile more' body' a) where
  keeps := .repeatWhile (fun a => (hbody a).keeps) a
  meets h := meets_repeatAtMost hmore hbody h h.budget h.budget'

end

/-! ### Constructs -/

section

variable [LawfulTokenSource σ] [LawfulTokenSource τ]

omit [LawfulTokenSource τ] in
theorem sameGuard_comma {α : Type} :
    SameGuard (σ := σ) (τ := τ) (fun (_ : α) w => w.upcoming.kind == .comma) fun _ v => v.upcoming.kind == .comma where
  eq _ w v _ hupcoming := by rw [hupcoming]
  stops _ w h := by
    rw [Window.upcoming_eq, h.advance.current]
    rfl

theorem tracks_integer : Tracks us E (integer : Parser σ Node) (integer : Parser τ Node) := by
  refine Tracks.current.bind fun token => ?_
  refine .ite ((Tracks.report _).bind fun _ => .pure _) (.ite (.fault _) ?_)
  split
  · exact .fault _
  · exact .ite ((Tracks.report _).bind fun _ => .pure _) (.pure _)

theorem tracks_parameters : Tracks us E (parameters (σ := σ)) (parameters (σ := τ)) := by
  refine (Tracks.comesNext _).bind fun _ => .ite (Tracks.advance.bind fun _ => .pure _) (.expect ?_ _)
  refine Tracks.current.bind fun first => (Tracks.repeatWhile ⟨?_, ?_⟩ (fun names => ?_) _).bind fun names => ?_
  · intro names w v _ hupcoming
    rw [hupcoming]
  · intro names w h
    rw [Window.upcoming_eq, h.advance.current]
    exact Bool.and_false _
  · exact .advance (.expect (Tracks.current.bind fun _ => .pure _) _)
  · cases names with
    | none => exact .pure _
    | some names => exact .expect (.pure _) _

variable {expr : Precedence → Parser σ Node} {expr' : Precedence → Parser τ Node}
  (hexpr : ∀ precedence, Tracks us E (expr precedence) (expr' precedence))
include hexpr

theorem tracks_letStatement : Tracks us E (letStatement expr) (letStatement expr') :=
  Tracks.current.bind fun _ => .expect (Tracks.current.bind fun _ => .expect (Tracks.advance.bind fun _ =>
    (hexpr _).bind fun _ => (Tracks.passNext _).bind fun _ => .pure _) _) _

theorem tracks_returnStatement : Tracks us E (returnStatement expr) (returnStatement expr') :=
  Tracks.current.bind fun _ => Tracks.advance.bind fun _ => (hexpr _).bind fun _ =>
    (Tracks.passNext _).bind fun _ => .pure _

theorem tracks_expressionStatement : Tracks us E (expressionStatement expr) (expressionStatement expr') :=
  Tracks.current.bind fun _ => (hexpr _).bind fun _ => (Tracks.passNext _).bind fun _ => .pure _

theorem tracks_statement : Tracks us E (statement expr) (statement expr') := by
  refine Tracks.current.bind fun token => ?_
  split
  · exact tracks_letStatement hexpr
  · exact tracks_returnStatement hexpr
  · exact tracks_expressionStatement hexpr

theorem tracks_statements {ends : TokenKind → Bool} (hends : ends .eof = true) :
    Tracks us E (statements expr ends) (statements expr' ends) := by
  refine (Tracks.repeatWhile ⟨?_, ?_⟩ (fun seen => .concat (tracks_statement hexpr) _) _).bind fun _ => .pure _
  · intro seen w v hcurrent _
    rw [hcurrent]
  · intro seen w h
    rw [h.current]
    simp [Token.endOfInput, hends]

theorem tracks_block : Tracks us E (block expr) (block expr') := by
  refine Tracks.current.bind fun token => Tracks.advance.bind fun _ =>
    (tracks_statements hexpr rfl).bind fun body => Tracks.current.bind fun last => ?_
  split
  · exact (Tracks.report _).bind fun _ => .pure _
  · exact .pure _

theorem tracks_prefixOp : Tracks us E (prefixOp expr) (prefixOp expr') :=
  Tracks.current.bind fun _ => Tracks.advance.bind fun _ => (hexpr _).bind fun _ => .pure _

theorem tracks_grouped : Tracks us E (grouped expr) (grouped expr') :=
  Tracks.advance.bind fun _ => (hexpr _).bind fun _ => .expect (.pure _) _

theorem tracks_conditional : Tracks us E (conditional expr) (conditional expr') := by
  refine Tracks.current.bind fun token => .expect (Tracks.advance.bind fun _ => (hexpr _).bind fun condition =>
    .expect (.expect ((tracks_block hexpr).bind fun consequence => ?_) _) _) _
  refine (Tracks.comesNext _).bind fun _ => .ite ?_ (.pure _)
  exact Tracks.advance.bind fun _ => .expect ((tracks_block hexpr).bind fun _ => .pure _) _

theorem tracks_function : Tracks us E (function expr) (function expr') := by
  refine Tracks.current.bind fun token => .expect (tracks_parameters.bind fun names => ?_) _
  cases names with
  | none => exact .pure _
  | some names => exact .expect ((tracks_block hexpr).bind fun _ => .pure _) _

theorem tracks_expressionList (close : TokenKind) :
    Tracks us E (expressionList expr close) (expressionList expr' close) := by
  refine (Tracks.comesNext _).bind fun _ => .ite (Tracks.advance.bind fun _ => .pure _) ?_
  refine Tracks.advance.bind fun _ => (hexpr _).bind fun first =>
    (Tracks.repeatWhile sameGuard_comma (fun elements => .advance ?_) _).bind fun elements => .expect (.pure _) _
  exact Tracks.advance.bind fun _ => (hexpr _).bind fun _ => .pure _

theorem tracks_array : Tracks us E (array expr) (array expr') := by
  refine Tracks.current.bind fun token => (tracks_expressionList hexpr _).bind fun elements => ?_
  cases elements <;> exact .pure _

theorem tracks_continuation (left : Node) (next : Continuation) :
    Tracks us E (continuation expr left next) (continuation expr' left next) := by
  cases next with
  | infixOp => exact Tracks.current.bind fun _ => Tracks.advance.bind fun _ => (hexpr _).bind fun _ => .pure _
  | call =>
    refine Tracks.current.bind fun token => (tracks_expressionList hexpr _).bind fun arguments => ?_
    cases arguments <;> exact .pure _
  | index =>
    exact Tracks.current.bind fun _ => Tracks.advance.bind fun _ => (hexpr _).bind fun _ => .expect (.pure _) _

theorem tracks_construct (first : Construct) : Tracks us E (construct expr first) (construct expr' first) := by
  cases first with
  | program => exact (tracks_statements hexpr rfl).bind fun _ => .pure _
  | statement => exact tracks_statement hexpr
  | letStatement => exact tracks_letStatement hexpr
  | returnStatement => exact tracks_returnStatement hexpr
  | expressionStatement => exact tracks_expressionStatement hexpr
  | block => exact tracks_block hexpr
  | identifier => exact Tracks.current.bind fun _ => .pure _
  | integer => exact tracks_integer
  | string => exact Tracks.current.bind fun _ => .pure _
  | boolean => exact Tracks.current.bind fun _ => .pure _
  | prefixOp => exact tracks_prefixOp hexpr
  | grouped => exact tracks_grouped hexpr
  | conditional => exact tracks_conditional hexpr
  | function => exact tracks_function hexpr
  | parameters =>
    refine tracks_parameters.bind fun names => ?_
    cases names <;> exact .pure _
  | array => exact tracks_array hexpr
  | skip => exact Tracks.advance.bind fun _ => .pure _

theorem tracks_climb (precedence : Precedence) :
    Tracks us E (climb Rules.standard expr precedence) (climb Rules.standard expr' precedence) := by
  refine Tracks.current.bind fun token => ?_
  dsimp only
  split
  · exact (Tracks.report _).bind fun _ => .pure _
  · refine (tracks_construct hexpr _).bind fun left => .repeatWhile ⟨?_, ?_⟩ (fun left => .advance ?_) _
    · intro left w v _ hupcoming
      rw [goesOn_eq, goesOn_eq, hupcoming]
    · intro left w h
      rw [goesOn_eq, Window.upcoming_eq, h.advance.current]
      cases precedence <;> rfl
    · refine Tracks.current.bind fun token => ?_
      split
      · exact .pure _
      · exact tracks_continuation hexpr _ _

end

/-- The second parser may nest expressions deeper, if it does not matter where the first one finds them too deep. -/
theorem tracks_expression [LawfulTokenSource σ] [LawfulTokenSource τ] {depth depth' : Nat} (hle : depth ≤ depth')
    (hdeep : E .tooDeep → depth = depth') (precedence : Precedence) :
    Tracks us E (expression (σ := σ) Rules.standard depth precedence)
      (expression (σ := τ) Rules.standard depth' precedence) := by
  induction depth generalizing depth' precedence with
  | zero =>
    refine ⟨fun _ _ => trivial, fun {ts w v} _ _ he => ?_⟩
    rw [← hdeep he]
    rfl
  | succ depth ih =>
    obtain ⟨depth', rfl⟩ := Nat.exists_eq_add_of_le' (Nat.le_trans (Nat.le_add_left 1 _) hle)
    exact tracks_climb (fun precedence => ih (by omega) (fun he => by have := hdeep he; omega) precedence) precedence

theorem tracks_expression_self [LawfulTokenSource σ] [LawfulTokenSource τ] (depth : Nat) (precedence : Precedence) :
    Tracks us E (expression (σ := σ) Rules.standard depth precedence)
      (expression (σ := τ) Rules.standard depth precedence) :=
  tracks_expression (Nat.le_refl depth) (fun _ => rfl) precedence

end Parser

end Scriptlet
