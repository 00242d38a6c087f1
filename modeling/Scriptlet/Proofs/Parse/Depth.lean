import Mathlib.Data.List.Forall2
import Mathlib.Data.List.Perm.Subperm
import Scriptlet.Proofs.Parse.Examined
import Scriptlet.Proofs.Parse.Loops

/-!
# Reading comes to an end

A source of `n` tokens, the end of the input counted, is read to the end whatever it is. The loops end by themselves
(`Parser.LoopsEnd`). The expressions that are being read at one moment, one inside the other (`Parser.Stack`), begin at
tokens further and further on, and none begins inside one that stands at the end of the input; so there are at most
`n` of them, and a limit of `n` on their depth is never reached.

Which expressions are being read is told without retelling how constructs are read: one is asked for if the reading
would end in another way, had it been read in another way (`Parser.Asks`). No fault is caught, so every expression
that is read can make a difference.
-/

namespace Scriptlet

open Window

/-! ### Loops -/

namespace Parser

section

variable {σ : Type} [TokenSource σ] {n : Nat} {w : Window σ}

/-- Whatever is read, no more is left of the input. -/
theorem wp_endsWithin {α : Type} {p : Parser σ α} (hp : ∀ v, (Slides.invariant v).Keeps p) (h : w.EndsWithin n) :
    wp (fun _ => True) p (fun _ w' => w'.EndsWithin n) w :=
  wp_mono (hp w w (.refl w)) fun _ _ hs => h.slides hs

theorem wp_round (h : w.EndsWithin (n + 1)) (depth : Nat) (seen : List Node) :
    wp (fun _ => True) (round depth seen) (fun _ w' => w'.EndsWithin n) w := by
  have hkeeps : ∀ v, (Slides.invariant v).Keeps (statement (σ := σ) (expression Rules.standard depth)) :=
    fun _ => WindowInvariant.keeps_statement (WindowInvariant.keeps_expression depth)
  rw [round, wp_bind]
  exact wp_mono (wp_endsWithin hkeeps h) fun _ _ h' => h'.advance

theorem wp_nextName (h : w.EndsWithin (n + 1)) (names : Option (List Identifier)) :
    wp (fun _ => True) (nextName names) (fun _ w' => w'.EndsWithin n) w := by
  rw [nextName, wp_bind, wp_advance, wp_bind]
  refine wp_mono (wp_endsWithin (fun _ => .expectNext .ident) h.advance) fun named w' h' => ?_
  split <;> exact h'

theorem wp_nextElement (h : w.EndsWithin (n + 1)) (depth : Nat) (elements : List Node) :
    wp (fun _ => True) (nextElement (expression Rules.standard depth) elements) (fun _ w' => w'.EndsWithin n) w := by
  have hnext : w.advance.advance.EndsWithin n := h.advance.slides (Slides.refl _).advance
  rw [nextElement, wp_bind, wp_advance, wp_bind, wp_advance, wp_bind]
  exact wp_endsWithin (fun _ => WindowInvariant.keeps_expression depth .lowest) hnext

theorem wp_goOn (h : w.EndsWithin (n + 1)) (depth : Nat) (left : Node) :
    wp (fun _ => True) (goOn Rules.standard (expression Rules.standard depth) left) (fun _ w' => w'.EndsWithin n) w := by
  rw [goOn, wp_bind, wp_advance, wp_bind, wp_current]
  split
  · exact h.advance
  · next next _ =>
    have hkeeps : ∀ v, (Slides.invariant v).Keeps (continuation (σ := σ) (expression Rules.standard depth) left next) :=
      fun _ => WindowInvariant.keeps_continuation (WindowInvariant.keeps_expression depth) left next
    exact wp_endsWithin hkeeps h.advance

/-- All loops that start at the window, wherever in a construct, end by themselves. -/
structure LoopsEnd (depth : Nat) (w : Window σ) : Prop where
  statements : ∀ ends : TokenKind → Bool, ends .eof = true → ∀ seen,
    Loops (moreStatements ends) (round depth) seen w (repeatWhile (moreStatements ends) (round depth) seen w)
  names : ∀ names, Loops moreNames nextName names w (repeatWhile moreNames nextName names w)
  elements : ∀ elements, Loops moreElements (nextElement (expression Rules.standard depth)) elements w
    (repeatWhile moreElements (nextElement (expression Rules.standard depth)) elements w)
  operators : ∀ precedence left,
    Loops (fun _ => goesOn Rules.standard precedence) (goOn Rules.standard (expression Rules.standard depth)) left w
      (repeatWhile (fun _ => goesOn Rules.standard precedence) (goOn Rules.standard (expression Rules.standard depth))
        left w)

theorem loopsEnd_of_endsWithin [LawfulTokenSource σ] (h : w.EndsWithin w.budget) (depth : Nat) : LoopsEnd depth w where
  statements ends hends seen := by
    refine loops_repeatAtMost EndsWithin (fun seen v hv => ?_) (fun n seen v hv => wp_round hv depth seen) h
    rw [moreStatements, hv.current, hends]
    rfl
  names names := by
    refine loops_repeatAtMost EndsWithin (fun names v hv => ?_) (fun n names v hv => wp_nextName hv names) h
    rw [moreNames, hv.upcoming]
    exact Bool.and_false _
  elements elements := by
    refine loops_repeatAtMost EndsWithin (fun elements v hv => ?_) (fun n _ v hv => wp_nextElement hv depth _) h
    rw [moreElements, hv.upcoming]
    rfl
  operators precedence left := by
    refine loops_repeatAtMost EndsWithin (fun left v hv => ?_) (fun n left v hv => wp_goOn hv depth left) h
    rw [goesOn_eq, hv.upcoming]
    cases precedence <;> rfl

end

end Parser

/-! ### Expressions inside expressions -/

/-- An expression that is to be read. -/
structure Reading (σ : Type) where
  depth : Nat
  precedence : Precedence
  window : Window σ

namespace Parser

variable {σ : Type} [TokenSource σ] {α : Type}

/-- `whole`, which reads expressions by its argument, asks for `part`: with another answer to `part` alone it could
end differently. -/
def Asks (whole : (Precedence → Parser σ Node) → Parser σ α) (w : Window σ) (part : Reading σ) : Prop :=
  ∃ expr : Precedence → Parser σ Node,
    (∀ precedence v, ¬ (precedence = part.precedence ∧ v = part.window) →
      expr precedence v = expression Rules.standard part.depth precedence v) ∧
    whole expr w ≠ whole (expression Rules.standard part.depth) w

/-- The expressions that are being read at some moment of the reading of a program, the innermost one first. -/
inductive Stack (depth : Nat) (w : Window σ) : List (Reading σ) → Prop
  | nil : Stack depth w []
  | outermost {part : Reading σ} (hd : part.depth = depth) (h : Asks program w part) : Stack depth w [part]
  | inside {part outer : Reading σ} {rest : List (Reading σ)} (hs : Stack depth w (outer :: rest))
    (hd : outer.depth = part.depth + 1)
    (h : Asks (fun expr => climb Rules.standard expr outer.precedence) outer.window part) :
    Stack depth w (part :: outer :: rest)

/-- At the end of the input no expression begins. -/
theorem climb_at_end {w : Window σ} (h : w.current.kind = .eof) (expr : Precedence → Parser σ Node)
    (precedence : Precedence) :
    climb Rules.standard expr precedence w = .ok (.hole, w.report (.noExpression .eof)) := by
  have hnone : Rules.standard.beginning w.current.kind = none := by
    rw [h]
    rfl
  rw [climb_of_none hnone, h]

theorem not_asks_at_end {w : Window σ} {part : Reading σ} {precedence : Precedence} (h : w.current.kind = .eof) :
    ¬ Asks (fun expr => climb Rules.standard expr precedence) w part := by
  rintro ⟨expr, -, hne⟩
  exact hne ((climb_at_end h _ _).trans (climb_at_end h _ _).symm)

/-- Whatever makes a reading fault where it faults itself is asked for. -/
theorem asks_of_fault {whole : (Precedence → Parser σ Node) → Parser σ α} {w : Window σ} {part : Reading σ}
    (h : ∀ expr cause, expr part.precedence part.window = .error cause → whole expr w = .error cause) :
    Asks whole w part := by
  classical
  -- A fault with which the reading does not end yet.
  obtain ⟨cause, hne⟩ := Fault.exists_ne (whole (expression Rules.standard part.depth) w)
  refine ⟨fun precedence v => if precedence = part.precedence ∧ v = part.window then .error cause
    else expression Rules.standard part.depth precedence v, fun precedence v hv => if_neg hv, ?_⟩
  rw [h _ cause (if_pos ⟨rfl, rfl⟩)]
  exact hne.symm

/-- An operator asks for its operand. -/
theorem asks_operand {w : Window σ} (h : Rules.standard.beginning w.current.kind = some .prefixOp) (depth : Nat)
    (precedence : Precedence) :
    Asks (fun expr => climb Rules.standard expr precedence) w ⟨depth, .prefixed, w.advance⟩ := by
  refine asks_of_fault fun expr cause he => ?_
  have hfirst : construct expr .prefixOp w = .error cause := by
    show (expr .prefixed >>= fun operand => pure (Node.prefixOp w.current w.current.literal operand)) w.advance = _
    exact bind_of_error he _
  show climb Rules.standard expr precedence w = _
  rw [climb_of_some h]
  exact bind_of_error hfirst _

/-- A program asks for the expression it begins with. -/
theorem asks_first {w : Window σ} (h : Rules.standard.beginning w.current.kind ≠ none) (hb : w.budget ≠ 0)
    (depth : Nat) : Asks program w ⟨depth, .lowest, w⟩ := by
  refine asks_of_fault fun expr cause he => ?_
  have hcurrent : (current : Parser σ Token) w = .ok (w.current, w) := rfl
  have hstatement : statement expr w = expressionStatement expr w := by
    rw [statement, bind_of_ok hcurrent]
    cases hk : w.current.kind <;> first | rfl | (rw [hk] at h; exact absurd rfl h)
  have hexpression : statement expr w = .error cause := by
    rw [hstatement, expressionStatement, bind_of_ok hcurrent]
    exact bind_of_error he _
  have hmore : (!(w.current.kind == .eof)) = true := by
    cases hk : w.current.kind <;> first | rfl | (rw [hk] at h; exact absurd rfl h)
  obtain ⟨rounds, hrounds⟩ := Nat.exists_eq_succ_of_ne_zero hb
  refine bind_of_error (bind_of_error ?_ _) _
  rw [repeatWhile, hrounds, repeatAtMost_of_more hmore]
  exact bind_of_error (bind_of_error hexpression _) _

end Parser

open Scriptlet.Parser

namespace Nesting

variable {σ : Type} [TokenSource σ] {α : Type}

/-- Where a construct may stand is an invariant, if all depths are allowed to be too deep. -/
def invariant (N : Nesting σ) (h : N.fault .tooDeep) : WindowInvariant σ where
  holds := N.outside
  fault := N.fault
  advance hw := N.outside_of_inside (N.advance hw)
  report := N.report
  tooDeep := h
  integer := N.integer

/-- What a construct asks for begins where expressions inside it may begin. -/
theorem inside_of_asks {N : Nesting σ} (hdeep : N.fault .tooDeep) {P Q : Window σ → Prop}
    {whole : (Precedence → Parser σ Node) → Parser σ α}
    (hwhole : ∀ expr expr', (∀ precedence, N.Enters (expr precedence) (expr' precedence)) →
      Agree N.fault P Q (whole expr) (whole expr'))
    {w : Window σ} {part : Reading σ} (hw : P w) (h : Asks whole w part) : N.inside part.window := by
  by_contra hout
  obtain ⟨expr, hexpr, hne⟩ := h
  -- The two ways to read expressions differ at `part` only, and a construct cannot tell what is outside.
  have henters : ∀ precedence, N.Enters (expr precedence) (expression Rules.standard part.depth precedence) := by
    intro precedence v hv
    have heq := hexpr precedence v fun hpart => hout (hpart.2 ▸ hv)
    have hkeeps := WindowInvariant.keeps_expression (I := N.invariant hdeep) part.depth precedence
    exact ⟨heq, (wp_congr heq).2 (hkeeps v (N.outside_of_inside hv))⟩
  exact hne (hwhole expr _ henters w hw).1

end Nesting

/-! ### Places in the input -/

namespace Window

variable {σ : Type} [TokenSource σ] {w : Window σ} {tokens : List Token} {k : Nat}

/-- The window stands at the token number `k`: what it shows are the tokens from there on, and then ends of the
input for good. -/
def StandsAt (tokens : List Token) (k : Nat) (w : Window σ) : Prop :=
  ∀ j, (w.skip j).current = tokens.getD (k + j) Token.endOfInput

theorem StandsAt.advance (h : w.StandsAt tokens k) : w.advance.StandsAt tokens (k + 1) := by
  intro j
  have hj := h (j + 1)
  rwa [← Nat.add_assoc, Nat.add_right_comm] at hj

theorem StandsAt.report (h : w.StandsAt tokens k) (error : SyntaxError) : (w.report error).StandsAt tokens k := by
  have hsource : (w.report error).source = w.source := rfl
  intro j
  rw [← h j]
  exact current_congr (skip_source_congr hsource j)

/-- Constructs that stand at the token number `k` or further on, and expressions further on. -/
def beyond (tokens : List Token) (k : Nat) : Nesting σ where
  outside w := ∃ m, k ≤ m ∧ w.StandsAt tokens m
  inside w := ∃ m, k < m ∧ w.StandsAt tokens m
  fault _ := True
  outside_of_inside := fun ⟨m, hm, h⟩ => ⟨m, hm.le, h⟩
  advance := fun ⟨m, hm, h⟩ => ⟨m + 1, by omega, h.advance⟩
  report := fun error ⟨m, hm, h⟩ => ⟨m, hm, h.report error⟩
  integer _ _ _ := trivial

end Window

section

variable {σ : Type} [TokenSource σ] {source : String} {k m : Nat}

theorem standsAt_window (source : String) : (Feed.window source).StandsAt (tokenize source) 0 := by
  intro j
  rw [current_skip_text (source_window source), Nat.zero_add]
  rfl

/-- Behind the tokens every place is like that of the last one. -/
theorem Window.StandsAt.min {w : Window σ} (h : w.StandsAt (tokenize source) m) :
    w.StandsAt (tokenize source) (Nat.min m (tokenize source).dropLast.length) := by
  rcases Nat.le_total m (tokenize source).dropLast.length with hm | hm
  · have hmin : Nat.min m (tokenize source).dropLast.length = m := Nat.min_eq_left hm
    rwa [hmin]
  · have hmin : Nat.min m (tokenize source).dropLast.length = (tokenize source).dropLast.length := Nat.min_eq_right hm
    intro j
    rw [h j, hmin, getD_tokenize_of_le (by omega), getD_tokenize_of_le (by omega)]

theorem min_lt_length_tokenize : Nat.min m (tokenize source).dropLast.length < (tokenize source).length := by
  rw [length_tokenize]
  exact Nat.lt_succ_of_le (Nat.min_le_right _ _)

/-- What a program asks for begins at one of the tokens. -/
theorem Parser.Asks.place_of_program {w : Window σ} {part : Reading σ} (hw : w.StandsAt (tokenize source) 0)
    (h : Asks program w part) : ∃ m, m < (tokenize source).length ∧ part.window.StandsAt (tokenize source) m := by
  obtain ⟨m, -, hm⟩ := Nesting.inside_of_asks (N := ((beyond (tokenize source) 0).invariant trivial).nesting) trivial
    (fun _ _ => Nesting.enters_program) ⟨0, Nat.le_refl 0, hw⟩ h
  exact ⟨_, min_lt_length_tokenize, hm.min⟩

/-- What an expression asks for begins further on, which leaves out the end of the input as its own beginning. -/
theorem Parser.Asks.place_of_climb {w : Window σ} {part : Reading σ} {precedence : Precedence}
    (hw : w.StandsAt (tokenize source) k) (hk : k < (tokenize source).length)
    (h : Asks (fun expr => climb Rules.standard expr precedence) w part) :
    ∃ m, k < m ∧ m < (tokenize source).length ∧ part.window.StandsAt (tokenize source) m := by
  rw [length_tokenize] at hk
  have hne : k ≠ (tokenize source).dropLast.length := by
    intro hlast
    have hcurrent : w.current = (tokenize source).getD k Token.endOfInput := hw 0
    refine not_asks_at_end ?_ h
    rw [hcurrent, getD_tokenize_of_le hlast.ge]
    rfl
  obtain ⟨m, hm, hplace⟩ := Nesting.inside_of_asks (N := beyond (tokenize source) k) trivial
    (fun _ _ hexpr => Nesting.agrees_climb hexpr precedence) ⟨k, Nat.le_refl k, hw⟩ h
  have hlater : k < Nat.min m (tokenize source).dropLast.length := Nat.lt_min.2 ⟨hm, by omega⟩
  exact ⟨_, hlater, min_lt_length_tokenize, hplace.min⟩

/-- One inside the other, expressions begin at tokens further and further on. -/
theorem Parser.Stack.places {w : Window σ} {depth : Nat} {stack : List (Reading σ)} (h : Stack depth w stack)
    (hw : w.StandsAt (tokenize source) 0) :
    ∃ places, List.Forall₂ (fun part k => part.window.StandsAt (tokenize source) k) stack places ∧
      places.Pairwise (· > ·) ∧ ∀ k ∈ places, k < (tokenize source).length := by
  induction h with
  | nil => exact ⟨[], .nil, .nil, by simp⟩
  | outermost hd h =>
    obtain ⟨m, hm, hplace⟩ := h.place_of_program hw
    exact ⟨[m], .cons hplace .nil, List.pairwise_singleton _ _, by simpa using hm⟩
  | inside hs hd h ih =>
    obtain ⟨places, hplaces, hordered, hbound⟩ := ih
    cases hplaces with
    | @cons _ k _ ks hk hrest =>
      obtain ⟨hfirst, -⟩ := List.pairwise_cons.1 hordered
      obtain ⟨m, hlater, hm, hplace⟩ := h.place_of_climb hk (hbound k (by simp))
      have hall : ∀ k' ∈ k :: ks, m > k' :=
        List.forall_mem_cons.2 ⟨hlater, fun k' hk' => (hfirst k' hk').trans hlater⟩
      exact ⟨m :: k :: ks, .cons hplace (.cons hk hrest), List.pairwise_cons.2 ⟨hall, hordered⟩,
        List.forall_mem_cons.2 ⟨hm, hbound⟩⟩

end

/-- Numbers in descending order are no more than what bounds them. -/
theorem length_le_of_pairwise_gt {places : List Nat} {n : Nat} (h : places.Pairwise (· > ·))
    (hn : ∀ k ∈ places, k < n) : places.length ≤ n := by
  have hsub : places ⊆ List.range n := fun k hk => List.mem_range.2 (hn k hk)
  have hnodup : places.Nodup := h.imp fun hgt => Nat.ne_of_gt hgt
  have hle := (List.subperm_of_subset hnodup hsub).length_le
  rwa [List.length_range] at hle

/-! ### How deep is deep enough -/

section

variable {σ : Type} [TokenSource σ] {w : Window σ}

theorem Parser.integer_ne_tooDeep : integer w ≠ .error .tooDeep := by
  have h : wp (· ≠ .tooDeep) integer (fun _ _ => True) w := by
    unfold integer
    simp only [wp_bind, wp_current, wp_ite, wp_report, wp_pure, wp_fault]
    split
    · trivial
    split
    · simp
    split
    · simp
    · simp only [wp_ite, wp_bind, wp_report, wp_pure, ite_self]
  intro he
  rw [wp, he] at h
  exact h rfl

/-- Constructs with at most `n` tokens left, and one less for expressions inside. -/
def Nesting.ending (n : Nat) : Nesting σ where
  outside := EndsWithin n
  inside := EndsWithin (n - 1)
  fault := (· ≠ .tooDeep)
  outside_of_inside h := h.mono (Nat.sub_le n 1)
  advance h := fun k hk => h (k + 1) (by omega)
  report error h := h.slides ((Slides.refl _).report error)
  integer := by
    rintro w cause - - h rfl
    exact integer_ne_tooDeep h

/-- All depths that are greater than the number of tokens left are the same, and none of them is too deep. -/
theorem agree_depths {n depth depth' : Nat} (hd : n < depth) (hd' : n < depth') (precedence : Precedence) :
    Agree (· ≠ .tooDeep) (EndsWithin n) (EndsWithin n) (expression (σ := σ) Rules.standard depth precedence)
      (expression Rules.standard depth' precedence) := by
  obtain ⟨depth, rfl⟩ : ∃ d, depth = d + 1 := Nat.exists_eq_succ_of_ne_zero (by omega)
  obtain ⟨depth', rfl⟩ : ∃ d, depth' = d + 1 := Nat.exists_eq_succ_of_ne_zero (by omega)
  induction n generalizing depth depth' precedence with
  | zero =>
    intro w h
    have hend : ∀ depth, expression Rules.standard (depth + 1) precedence w =
        .ok (.hole, w.report (.noExpression .eof)) := fun _ => climb_at_end h.current _ precedence
    rw [wp, hend depth, hend depth']
    exact ⟨rfl, h.slides ((Slides.refl w).report _)⟩
  | succ n ih =>
    refine Nesting.agrees_climb (N := .ending (n + 1)) (fun precedence => ?_) precedence
    obtain ⟨depth, rfl⟩ : ∃ d, depth = d + 1 := Nat.exists_eq_succ_of_ne_zero (by omega)
    obtain ⟨depth', rfl⟩ : ∃ d, depth' = d + 1 := Nat.exists_eq_succ_of_ne_zero (by omega)
    have hinner := ih precedence depth (by omega) depth' (by omega)
    exact hinner.weaken (fun _ h => h) fun _ h => h.mono (Nat.le_succ n)

end

theorem parse_of_tokens_le {source : String} {limits limits' : Limits} (h : (tokenize source).length ≤ limits.reading)
    (h' : (tokenize source).length ≤ limits'.reading) :
    parse limits source ≠ .error .tooDeep ∧ parse limits' source = parse limits source := by
  rw [length_tokenize] at h h'
  have hagree := Nesting.enters_program (σ := Feed) (N := .ending ((tokenize source).dropLast.length + 1))
    (fun precedence => (agree_depths h h' precedence).weaken (fun _ hw => hw) fun _ hw => hw.mono (Nat.le_succ _))
  obtain ⟨heq, hends⟩ := hagree (Feed.window source) (endsWithin_window source)
  unfold parse parseWindow
  rw [← heq]
  unfold wp at hends
  cases hp : program (expression Rules.standard limits.reading) (Feed.window source) with
  | ok result => exact ⟨nofun, rfl⟩
  | error cause =>
    rw [hp] at hends
    refine ⟨fun he => hends ?_, rfl⟩
    cases he
    rfl

/-- Reading ends on every source, whatever its `n` tokens. The constructs run four loops, and wherever one of them
starts, it ends by itself. At every moment the expressions that are being read, the innermost one first, stand at
tokens in descending order, so that they are at most `n`, and at the end of the input one ends at once. If `n`
expressions may be nested then nothing is too deep, and it makes no difference how many more may be. -/
theorem reading_ends_within_tokens (source : String) :
    (∀ depth, RunsLoops Feed depth ∧ ∀ w, (Feed.window source).Slides w → LoopsEnd depth w) ∧
    (∀ depth stack, Stack depth (Feed.window source) stack →
      stack.length ≤ (tokenize source).length ∧
      ∃ places, List.Forall₂ (fun part k => part.window.StandsAt (tokenize source) k) stack places ∧
        places.Pairwise (· > ·) ∧ ∀ k ∈ places, k < (tokenize source).length) ∧
    (∀ (w : Window Feed) depth precedence, w.current.kind = .eof →
      expression Rules.standard (depth + 1) precedence w = .ok (.hole, w.report (.noExpression .eof))) ∧
    ∀ limits limits' : Limits, (tokenize source).length ≤ limits.reading →
      (tokenize source).length ≤ limits'.reading →
      parse limits source ≠ .error .tooDeep ∧ parse limits' source = parse limits source := by
  refine ⟨fun depth => ⟨runsLoops depth, fun w hs => ?_⟩, fun depth stack h => ?_, fun w depth precedence h => climb_at_end h _ precedence,
    fun limits limits' => parse_of_tokens_le⟩
  · have hsane : w.Sane := (sane_window source).slides hs
    exact loopsEnd_of_endsWithin hsane.ends depth
  · obtain ⟨places, hplaces, hordered, hbound⟩ := h.places (standsAt_window source)
    have hlength := length_le_of_pairwise_gt hordered hbound
    rw [← hplaces.length_eq] at hlength
    exact ⟨hlength, places, hplaces, hordered, hbound⟩

/-- Two signs without an operand: the third expression begins at the end of the input, and a limit of two is met. -/
theorem signs_nest_to_the_end :
    ∃ stack, Stack 3 (Feed.window "--") stack ∧ stack.length = (tokenize "--").length ∧
      stack.length ≤ (tokenize "--").length ∧
      parse ⟨3, 0, 0, 0⟩ "--" ≠ .error .tooDeep ∧ parse ⟨2, 0, 0, 0⟩ "--" = .error .tooDeep := by
  have hlength : (tokenize "--").length = 3 := by decide +kernel
  obtain ⟨-, hstack, -, hdeep⟩ := reading_ends_within_tokens "--"
  have hnested : Stack 3 (Feed.window "--") [⟨1, .prefixed, (Feed.window "--").advance.advance⟩,
      ⟨2, .prefixed, (Feed.window "--").advance⟩, ⟨3, .lowest, Feed.window "--"⟩] :=
    .inside (.inside (.outermost rfl (asks_first (by decide) (by decide) 3)) rfl (asks_operand rfl 2 .lowest)) rfl
      (asks_operand rfl 1 .prefixed)
  exact ⟨_, hnested, hlength.symm, (hstack 3 _ hnested).1, (hdeep ⟨3, 0, 0, 0⟩ ⟨3, 0, 0, 0⟩ hlength.le hlength.le).1,
    rfl⟩

end Scriptlet
