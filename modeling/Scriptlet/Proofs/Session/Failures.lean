import Scriptlet.Proofs.Eval.Scoped
import Scriptlet.Proofs.Parse.Holes
import Scriptlet.Proofs.Parse.Source
import Scriptlet.Proofs.Session.Arrival

/-!
# What can end a run

A run ends without a result only if something is nested too deep or an integer literal is overlong.
The first half of this is about reading: integers are made of digits, so the only thing left to be
wrong with one is its length. The second half is about evaluation: what is read without syntax errors is
complete, and so are the bodies of all functions that were ever made from it.

A tree with syntax errors may be evaluated all the same. Then an evaluation may also end at a hole.
-/

namespace Scriptlet

/-! ### Reading -/

/-- The integers ahead are among the given tokens and made of digits. -/
def WindowInvariant.integersOf (σ : Type) [TokenSource σ] (tokens : List Token) : WindowInvariant σ where
  holds w := w.All fun t => t.Numeral ∧ (t.kind = .int → t ∈ tokens)
  fault cause := cause = .tooDeep ∨ ∃ t ∈ tokens, t.kind = .int ∧ maxDigits < t.literal.length ∧
    cause = .overlongInteger t.literal.length
  advance h := h.slides (Window.Slides.refl _).advance
  report error h := h.slides ((Window.Slides.refl _).report error)
  tooDeep := .inl rfl
  integer := by
    intro w cause h hk hc
    obtain ⟨hn, hm⟩ := h.current
    have hw : Parser.wp (fun cause => ∃ t ∈ tokens, t.kind = .int ∧ maxDigits < t.literal.length ∧
        cause = .overlongInteger t.literal.length) Parser.integer (fun _ _ => True) w := by
      rw [Parser.wp_integer hk hn]
      split
      · next hlong => exact ⟨_, hm hk, hk, hlong, rfl⟩
      · split <;> trivial
    unfold Parser.wp at hw
    rw [hc] at hw
    exact .inr hw

theorem integersOf_window (source : String) :
    (WindowInvariant.integersOf Feed (tokenize source)).holds (Feed.window source) := by
  have hmem : (Feed.window source).All fun t => t.kind = .int → t ∈ tokenize source :=
    Window.all_window (fun t ht _ => ht) nofun
  exact fun n => ⟨Window.all_numeral_text (Window.source_window source) n, hmem n⟩

/-- A source cannot be read only if it is nested too deep or has an overlong integer. -/
theorem parse_fault {limits : Limits} {source : String} {cause : Fault}
    (h : parse limits source = .error cause) :
    cause = .tooDeep ∨ ∃ t ∈ tokenize source, t.kind = .int ∧ maxDigits < t.literal.length ∧
      cause = .overlongInteger t.literal.length := by
  have hk := WindowInvariant.keeps_program
    (WindowInvariant.keeps_expression (I := .integersOf Feed (tokenize source)) limits.reading)
    (Feed.window source) (integersOf_window source)
  unfold parse parseWindow at h
  unfold Parser.wp at hk
  split at h
  · next hrun =>
    cases h
    rw [hrun] at hk
    exact hk
  · cases h

/-! ### Evaluating -/

/-- Scopes lie inside older ones, and every function that is bound somewhere, also in an array, has a
complete body and a scope that exists. -/
structure Store.Intact (store : Store) : Prop where
  scopes : store.WellScoped
  closures : ∀ scope ∈ store.scopes, ∀ binding ∈ scope.bindings,
    ∀ (identity : Identity) (parameters : List Identifier) (body : Node) (i : ScopeId),
      (Value.function identity parameters body i).Occurs binding.2 →
      body.Complete ∧ i < store.scopes.size

namespace Discipline

variable {n : ℕ} {store : Store}

theorem Holds.intact (h : (ofRegime .complete).Holds n store) : store.Intact where
  scopes := h.world.2
  closures := by
    intro scope hs binding hb identity parameters body i ho
    obtain ⟨-, -, hbody, hi⟩ := h.bound scope hs binding hb _ ho
    have hn : store.scopes.size = n := h.world.1
    rw [hn]
    exact ⟨hbody, hi⟩

theorem holds_initial (R : Regime) : (ofRegime R).Holds 1 Store.initial :=
  ⟨⟨rfl, .initial⟩, by simp [Store.initial]⟩

theorem complete_governs (limits : Limits) : (ofRegime .complete).Governs limits 1 where
  initial := holds_initial .complete
  scope := Nat.one_pos
  program _ _ hp he := parse_complete hp he

theorem forced_allows {limits : Limits} {source : String} {parsed : Parsed}
    (h : parse limits source = .ok parsed) :
    (ofRegime .forced).Allows 1 (Session.initial.evaluation limits parsed.program) :=
  ⟨holds_initial .forced, fun _ => (parse_formed h).1, Nat.one_pos⟩

theorem Ends.intact {α : Type} {post : ℕ → α → Prop} {outcome : Except Fault α × Store}
    (h : (ofRegime .complete).Ends n post outcome) : outcome.2.Intact := by
  obtain ⟨_, _, hs⟩ := h.holds
  exact hs.intact

end Discipline

/-- The faults of a run are those of reading its source, or the limit on nesting. -/
theorem run_fault {limits : Limits} {sources : List String} {source : String} {cause : Fault}
    (h : ((Session.runs limits sources).run limits source).1 = .fault cause) :
    cause = .tooDeep ∨ parse limits source = .error cause := by
  have hg := Discipline.complete_governs limits
  obtain ⟨u, hu, hs⟩ := hg.holds_runs sources
  rcases Session.run_cases limits (Session.runs limits sources) source with ⟨found, hp, hr⟩ |
    ⟨parsed, -, -, hr⟩ | ⟨parsed, found, store, hp, he, ho, hr⟩ | ⟨parsed, value, store, -, -, -, hr⟩
  · rw [hr] at h
    cases h
    exact .inr hp
  · rw [hr] at h
    cases h
  · rw [hr] at h
    cases h
    have hend := hg.ends hu hs hp he
    rw [ho] at hend
    exact .inl hend.1
  · rw [hr] at h
    cases h

open Discipline in
/-- No failure of the host escapes a run. After any runs, one more ends with a fault only if something
is nested too deep or its source has an overlong integer. Nothing that is evaluated in its course
is missing a part or the scope it is evaluated in, the bodies of functions from earlier runs included.
And what a source with syntax errors is read as, evaluated all the same, can end with one more fault:
that there is nothing to evaluate at a hole. -/
theorem no_host_failure_escapes (limits : Limits) :
    (∀ sources source cause, ((Session.runs limits sources).run limits source).1 = .fault cause →
      cause = .tooDeep ∨ ∃ t ∈ tokenize source, t.kind = .int ∧ maxDigits < t.literal.length ∧
        cause = .overlongInteger t.literal.length) ∧
    (∀ sources, (Session.runs limits sources).store.Intact ∧
      ∀ source (e : Evaluation), (Session.runs limits sources).Performs limits source e →
        e.node.Complete ∧ e.scope < e.store.scopes.size ∧ e.store.Intact ∧ e.outcome.2.Intact ∧
        ∀ cause, e.outcome.1 = .error cause → cause = .tooDeep) ∧
    (∀ source parsed cause, parse limits source = .ok parsed →
      (Session.initial.evaluation limits parsed.program).outcome.1 = .error cause →
      cause = .tooDeep ∨
        cause = .cannotEvaluate .hole ∧ cause.message? = some "Cannot evaluate None") := by
  have hg := complete_governs limits
  refine ⟨fun sources source cause h => ?_, fun sources => ⟨?_, fun source e he => ?_⟩, ?_⟩
  · rcases run_fault h with h | h
    · exact .inl h
    · exact parse_fault h
  · obtain ⟨n, -, hs⟩ := hg.holds_runs sources
    exact hs.intact
  · obtain ⟨n, -, ha⟩ := hg.performs sources he
    have hsize : e.store.scopes.size = n := ha.store.world.1
    have hscope : e.scope < n := ha.scope
    exact ⟨ha.node, hsize ▸ hscope, ha.store.intact, ha.ends.intact, fun cause hc => ha.ends.fault hc⟩
  · intro source parsed cause hp hc
    rcases (forced_allows hp).ends.fault hc with h | h
    · exact .inl h
    · exact .inr ⟨h, by rw [h]; rfl⟩

/-- The session after a function has been made that calls itself forever. -/
abbrev endless : Session := Session.runs ⟨9, 9, 9, 9⟩ ["let f = fn() \x7b f() \x7d"]

/-- The evaluation of `f()` as a statement of the next run. -/
def endlessCall : Evaluation where
  depth := 7
  node := .call ⟨.lparen, "("⟩ (.identifier ⟨⟨.ident, "f"⟩, "f"⟩) []
  scope := globalScope
  store := endless.store

/-- The next run is cut off, and in it the body of the function, which has all its parts and its scope. What is read
of a `let` whose value is a sign without an operand ends at the hole. -/
theorem endless_call_and_hole :
    ∃ (body : Evaluation) (cause : Fault) (parsed : Parsed),
      (endless.run ⟨9, 9, 9, 9⟩ "f()").1 = .fault cause ∧
      (cause = .tooDeep ∨ ∃ t ∈ tokenize "f()", t.kind = .int ∧ maxDigits < t.literal.length ∧
        cause = .overlongInteger t.literal.length) ∧
      endless.Performs ⟨9, 9, 9, 9⟩ "f()" body ∧ body.node.Complete ∧ body.scope < body.store.scopes.size ∧
      body.outcome.1 = .error cause ∧ body.outcome.2.Intact ∧
      parse ⟨9, 9, 9, 9⟩ "let x = -@" = .ok parsed ∧
      (Session.initial.evaluation ⟨9, 9, 9, 9⟩ parsed.program).outcome.1 = .error (.cannotEvaluate .hole) ∧
      (Fault.cannotEvaluate .hole).message? = some "Cannot evaluate None" := by
  obtain ⟨hfault, hsessions, hforced⟩ := no_host_failure_escapes ⟨9, 9, 9, 9⟩
  obtain ⟨-, hperformed⟩ := hsessions ["let f = fn() \x7b f() \x7d"]
  have hrun : (endless.run ⟨9, 9, 9, 9⟩ "f()").1 = .fault .tooDeep := rfl
  have hcall : endless.Performs ⟨9, 9, 9, 9⟩ "f()" endlessCall :=
    Session.performs_of_expression rfl rfl rfl
  have happ : endlessCall.Applies (.function 0 [] (.block ⟨.lbrace, "\x7b"⟩
      [.expressionStatement ⟨.ident, "f"⟩ endlessCall.node]) 0) [] endlessCall.store :=
    ⟨6, _, _, _, _, rfl, rfl, rfl, rfl, .nil _⟩
  have hbody := hcall.inside happ rfl
  obtain ⟨hcomplete, hscope, -, hintact, -⟩ := hperformed _ _ hbody
  have hread : parse ⟨9, 9, 9, 9⟩ "let x = -@" = .ok ⟨.program [.letStatement ⟨.letWord, "let"⟩
    (some ⟨⟨.ident, "x"⟩, "x"⟩) (.prefixOp ⟨.minus, "-"⟩ "-" .hole)], _⟩ := rfl
  have hhole := hforced _ _ (.cannotEvaluate .hole) hread rfl
  exact ⟨_, .tooDeep, _, hrun, hfault _ _ _ hrun, hbody, hcomplete, hscope, rfl, hintact, hread, rfl,
    (hhole.resolve_left nofun).2⟩

end Scriptlet
