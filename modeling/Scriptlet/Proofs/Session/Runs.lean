import Scriptlet.Proofs.Eval.Course

/-!
# Sessions of runs

`Session.runs` is the session that a list of sources leads to, and `Session.Performs` tells the
evaluations that one more run is made up of. A discipline that allows the empty store and every
program that is read without syntax errors holds through all runs.
-/

namespace Scriptlet

namespace Session

/-- The session after the sources have been run one after another. -/
def runs (limits : Limits) (sources : List String) : Session :=
  sources.foldl (fun session source => (session.run limits source).2) initial

/-- The evaluation of a program in the global scope. -/
def evaluation (limits : Limits) (session : Session) (program : Node) : Evaluation :=
  ⟨limits.evaluation, program, globalScope, session.store⟩

/-- The evaluation takes place in the course of a run of the source. -/
def Performs (limits : Limits) (session : Session) (source : String) (e : Evaluation) : Prop :=
  ∃ parsed, parse limits source = .ok parsed ∧ parsed.errors = [] ∧
    (session.evaluation limits parsed.program).Includes e

variable {limits : Limits} {session : Session} {source : String}

/-- What one more run does to what holds of a session, it does all the way. -/
theorem runs_append_induction {P : Session → Prop} {earlier : List String} (h₀ : P (runs limits earlier))
    (hs : ∀ session source, P session → P (session.run limits source).2) (later : List String) :
    P (runs limits (earlier ++ later)) := by
  have key : ∀ session, P session →
      P (later.foldl (fun session source => (session.run limits source).2) session) := by
    induction later with
    | nil => exact fun _ h => h
    | cons source later ih => exact fun session h => ih _ (hs session source h)
  rw [runs, List.foldl_append]
  exact key _ h₀

theorem runs_concat (sources : List String) (source : String) :
    runs limits (sources ++ [source]) = ((runs limits sources).run limits source).2 := by
  rw [runs, List.foldl_append]
  rfl

/-- A run ends in one of four ways: the source cannot be read, it has syntax errors, its evaluation
is cut off by a fault, or it has a value. -/
theorem run_cases (limits : Limits) (session : Session) (source : String) :
    (∃ cause, parse limits source = .error cause ∧
      session.run limits source = (.fault cause, session)) ∨
    (∃ parsed, parse limits source = .ok parsed ∧ parsed.errors ≠ [] ∧
      session.run limits source =
        (.rejected, { session with errors := parsed.errors, hasErrors := true })) ∨
    (∃ parsed cause store, parse limits source = .ok parsed ∧ parsed.errors = [] ∧
      (session.evaluation limits parsed.program).outcome = (.error cause, store) ∧
      session.run limits source = (.fault cause, { session with store, errors := [] })) ∨
    (∃ parsed value store, parse limits source = .ok parsed ∧ parsed.errors = [] ∧
      (session.evaluation limits parsed.program).outcome = (.ok value, store) ∧
      session.run limits source = (.value value, ⟨store, [], value.isError⟩)) := by
  unfold run
  cases hp : parse limits source with
  | error cause => exact .inl ⟨cause, rfl, rfl⟩
  | ok parsed =>
    by_cases he : parsed.errors = []
    · have hempty : parsed.errors.isEmpty = true := by rw [he]; rfl
      simp only [hempty, if_true]
      cases ho : eval limits.evaluation parsed.program globalScope session.store with
      | mk result store =>
        cases result with
        | error cause => exact .inr (.inr (.inl ⟨parsed, cause, store, rfl, he, ho, rfl⟩))
        | ok value => exact .inr (.inr (.inr ⟨parsed, value, store, rfl, he, ho, rfl⟩))
    · have hempty : parsed.errors.isEmpty = false := by simpa using he
      simp only [hempty, Bool.false_eq_true, if_false]
      exact .inr (.inl ⟨parsed, rfl, he, rfl⟩)

/-- A run leaves the store as it is, or as the evaluation of a program leaves it. -/
theorem store_run {P : Store → Prop} (h₀ : P session.store)
    (heval : ∀ program, P (session.evaluation limits program).outcome.2) (source : String) :
    P (session.run limits source).2.store := by
  rcases run_cases limits session source with ⟨cause, -, hr⟩ | ⟨parsed, -, -, hr⟩ |
    ⟨parsed, cause, store, -, -, ho, hr⟩ | ⟨parsed, value, store, -, -, ho, hr⟩ <;> rw [hr]
  · exact h₀
  · exact h₀
  · have hstore := heval parsed.program
    rwa [ho] at hstore
  · have hstore := heval parsed.program
    rwa [ho] at hstore

theorem parse_program {parsed : Parsed} (h : parse limits source = .ok parsed) :
    ∃ statements, parsed.program = .program statements := by
  unfold parse parseWindow Parser.program at h
  simp only [bind, StateT.bind, Except.bind] at h
  cases hs : Parser.statements (Parser.expression Rules.standard limits.reading) (· == .eof)
      (Feed.window source) with
  | error cause => rw [hs] at h; cases h
  | ok result => rw [hs] at h; cases h; exact ⟨_, rfl⟩

end Session

namespace Discipline

variable {W : Type} [Preorder W] {D : Discipline W} {limits : Limits} {w : W}

/-- A session can be started in the world `w`, and whatever it is given may be evaluated. -/
structure Governs (D : Discipline W) (limits : Limits) (w : W) : Prop where
  initial : D.Holds w Store.initial
  scope : D.scope w globalScope
  program : ∀ source parsed, parse limits source = .ok parsed → parsed.errors = [] →
    D.runs parsed.program

namespace Governs

theorem allows (h : D.Governs limits w) {w' : W} (hw : w ≤ w') {session : Session}
    (hs : D.Holds w' session.store) {source : String} {parsed : Parsed}
    (hp : parse limits source = .ok parsed) (he : parsed.errors = []) :
    D.Allows w' (session.evaluation limits parsed.program) :=
  ⟨hs, h.program source parsed hp he, D.scope_mono hw h.scope⟩

theorem ends (h : D.Governs limits w) {w' : W} (hw : w ≤ w') {session : Session}
    (hs : D.Holds w' session.store) {source : String} {parsed : Parsed}
    (hp : parse limits source = .ok parsed) (he : parsed.errors = []) :
    D.Ends w' D.Answer (session.evaluation limits parsed.program).outcome := by
  obtain ⟨statements, hst⟩ := Session.parse_program hp
  have hr := h.program source parsed hp he
  rw [hst] at hr ⊢
  exact (agree_eval_program _ hr (D.scope_mono hw h.scope) session.store hs).2

/-- One run keeps the discipline, however it ends. -/
theorem holds_run (h : D.Governs limits w) {w' : W} (hw : w ≤ w') {session : Session}
    (hs : D.Holds w' session.store) (source : String) :
    ∃ u, w' ≤ u ∧ D.Holds u (session.run limits source).2.store := by
  rcases Session.run_cases limits session source with ⟨cause, -, hr⟩ | ⟨parsed, -, -, hr⟩ |
    ⟨parsed, cause, store, hp, he, ho, hr⟩ | ⟨parsed, value, store, hp, he, ho, hr⟩
  · rw [hr]; exact ⟨w', le_rfl, hs⟩
  · rw [hr]; exact ⟨w', le_rfl, hs⟩
  · have hend := (h.ends hw hs hp he).holds
    rw [ho] at hend
    rw [hr]; exact hend
  · have hend := (h.ends hw hs hp he).holds
    rw [ho] at hend
    rw [hr]; exact hend

theorem holds_runs_append (h : D.Governs limits w) {w' : W} (hw : w ≤ w') {earlier : List String}
    (hs : D.Holds w' (Session.runs limits earlier).store) (later : List String) :
    ∃ u, w' ≤ u ∧ D.Holds u (Session.runs limits (earlier ++ later)).store := by
  refine Session.runs_append_induction (P := fun session => ∃ u, w' ≤ u ∧ D.Holds u session.store)
    ⟨w', le_rfl, hs⟩ ?_ later
  rintro session source ⟨u, hu, hs⟩
  obtain ⟨u', hu', hs'⟩ := h.holds_run (hw.trans hu) hs source
  exact ⟨u', hu.trans hu', hs'⟩

theorem holds_runs (h : D.Governs limits w) (sources : List String) :
    ∃ u, w ≤ u ∧ D.Holds u (Session.runs limits sources).store :=
  @holds_runs_append _ _ _ _ _ h _ le_rfl [] h.initial sources

/-- Every evaluation in the course of any run is one that the discipline allows. -/
theorem performs (h : D.Governs limits w) (sources : List String) {source : String} {e : Evaluation}
    (hp : (Session.runs limits sources).Performs limits source e) : ∃ u, w ≤ u ∧ D.Allows u e := by
  obtain ⟨u, hu, hs⟩ := h.holds_runs sources
  obtain ⟨parsed, hparse, he, hi⟩ := hp
  obtain ⟨u', hu', ha⟩ := (h.allows hu hs hparse he).includes hi
  exact ⟨u', hu.trans hu', ha⟩

/-- What a run gives is an answer in the store that it leaves. -/
theorem holds_run_value (h : D.Governs limits w) {w' : W} (hw : w ≤ w') {session : Session}
    (hs : D.Holds w' session.store) {source : String} {value : Value}
    (hv : (session.run limits source).1 = .value value) :
    ∃ u, w' ≤ u ∧ D.Holds u (session.run limits source).2.store ∧ D.Answer u value := by
  rcases Session.run_cases limits session source with ⟨cause, -, hr⟩ | ⟨parsed, -, -, hr⟩ |
    ⟨parsed, cause, store, -, -, -, hr⟩ | ⟨parsed, found, store, hp, he, ho, hr⟩
  · rw [hr] at hv; cases hv
  · rw [hr] at hv; cases hv
  · rw [hr] at hv; cases hv
  · rw [hr] at hv ⊢; cases hv
    have hend := h.ends hw hs hp he
    rw [ho] at hend
    exact hend

theorem run_value (h : D.Governs limits w) (sources : List String) {source : String} {value : Value}
    (hv : ((Session.runs limits sources).run limits source).1 = .value value) :
    ∃ u, w ≤ u ∧ D.Answer u value := by
  obtain ⟨u, hu, hs⟩ := h.holds_runs sources
  obtain ⟨u', hu', -, ha⟩ := h.holds_run_value hu hs hv
  exact ⟨u', hu.trans hu', ha⟩

end Governs

end Discipline

end Scriptlet
