import Scriptlet.Proofs.Eval.Truncated
import Scriptlet.Proofs.Parse.Layout
import Scriptlet.Proofs.Session.Pieces

/-!
# Deeper limits

The limits on nesting only cut off. What ends under one limit, with a result or with any fault but that it went too
deep, ends so under every deeper one, and with the same store. What is cut off has by then printed the beginning of
what is printed under a deeper limit.
-/

namespace Scriptlet

open Window Scriptlet.Parser

/-! ### Reading -/

/-- Read under a deeper limit, a source gives the same tree and the same syntax errors, or the same fault, unless it
is nested too deep for the first. -/
theorem parse_of_le {limits limits' : Limits} (h : limits.reading ≤ limits'.reading) (source : String) :
    parse limits source = .error .tooDeep ∨ parse limits' source = parse limits source := by
  have hself : Abreast [] (tokenize source).dropLast (Feed.window source) (Feed.window source) := by
    refine ⟨rests_window source, ?_, rfl, length_dropLast_tokenize_le source, ?_⟩ <;> rw [List.append_nil]
    · exact rests_window source
    · exact length_dropLast_tokenize_le source
  have htracks : Tracks [] (· ≠ .tooDeep) (program (σ := Feed) (expression Rules.standard limits.reading))
      (program (σ := Feed) (expression Rules.standard limits'.reading)) :=
    tracks_construct (fun precedence => tracks_expression h (fun he => absurd rfl he) precedence) .program
  have hmeets := htracks.meets hself
  unfold parse parseWindow
  cases hp : program (expression Rules.standard limits.reading) (Feed.window source) with
  | error cause =>
    rw [hp] at hmeets
    by_cases hc : cause = .tooDeep
    · exact .inl (hc ▸ rfl)
    · rw [hmeets rfl hc]
      exact .inr rfl
  | ok result =>
    obtain ⟨tree, w⟩ := result
    rw [hp] at hmeets
    obtain ⟨ts, v, hv, -, habreast⟩ := hmeets.resolve_left fun hlost => hlost.behind rfl
    rw [hv]
    refine .inr ?_
    show Except.ok (Parsed.mk tree v.errors.toList) = Except.ok (Parsed.mk tree w.errors.toList)
    rw [habreast.errors]

/-! ### Ends -/

/-- Of two ends from the same store, the second is that under a deeper limit: they are the same, unless the first is
that it went too deep; and then what was printed by then is the beginning of what is printed in the end. -/
structure CutOff {α : Type} (store : Store) (cut whole : Except Fault α × Store) : Prop where
  same : cut.1 ≠ .error .tooDeep → whole = cut
  printed : ∃ lines, cut.2.output = store.output ++ lines ∧ ∃ more, whole.2.output = store.output ++ (lines ++ more)

/-- The second store comes from the first by printing on, and the third from the second. -/
theorem Store.PrintsOn.split {store cut whole : Store} (h : store.PrintsOn cut) (h' : cut.PrintsOn whole) :
    ∃ lines, cut.output = store.output ++ lines ∧ ∃ more, whole.output = store.output ++ (lines ++ more) := by
  obtain ⟨lines, hlines⟩ := h
  obtain ⟨more, hmore⟩ := h'
  exact ⟨lines, hlines, more, by rw [hmore, hlines, Array.append_assoc]⟩

theorem Action.Truncates.cutOff {α : Type} {act act' : Action α} (hself : act.Truncates act)
    (h : act.Truncates act') (store : Store) : CutOff store (act store) (act' store) := by
  rcases (h store).1 with hsame | ⟨hdeep, hbegin⟩
  · refine ⟨fun _ => hsame, (hself store).2.split ?_⟩
    rw [hsame]
    exact .refl _
  · exact ⟨fun hne => absurd hdeep hne, (hself store).2.split hbegin⟩

theorem cutOff_eval {depth depth' : Nat} (h : depth ≤ depth') (node : Node) (i : ScopeId) (store : Store) :
    CutOff store (eval depth node i store) (eval depth' node i store) :=
  (truncates_eval (Nat.le_refl depth) node i).cutOff (truncates_eval h node i) store

theorem cutOff_applyFunction {depth depth' room room' : Nat} (h : depth ≤ depth') (hroom : room ≤ room')
    (callee : Value) (arguments : List Value) (store : Store) :
    CutOff store (applyFunction (eval depth) room callee arguments store)
      (applyFunction (eval depth') room' callee arguments store) :=
  (truncates_applyFunction (truncates_eval (Nat.le_refl depth)) (Nat.le_refl room) callee arguments).cutOff
    (truncates_applyFunction (truncates_eval h) hroom callee arguments) store

/-! ### Runs -/

namespace Session

variable {limits limits' : Limits}

theorem store_conclude (session : Session) (result : Except Fault Value × Store) :
    (session.conclude result).2.store = result.2 := by
  rcases result with ⟨cause | value, store⟩ <;> rfl

theorem printsOn_run (session : Session) (source : String) :
    session.store.PrintsOn (session.run limits source).2.store :=
  store_run (.refl _) (fun program =>
    (truncates_eval (Nat.le_refl limits.evaluation) program globalScope session.store).2) source

/-- A run under deeper limits is the same, unless the first one went too deep. -/
theorem run_of_le (hr : limits.reading ≤ limits'.reading) (he : limits.evaluation ≤ limits'.evaluation)
    (session : Session) (source : String) :
    session.run limits' source = session.run limits source ∨ (session.run limits source).1 = .fault .tooDeep ∧
      (session.run limits source).2.store.PrintsOn (session.run limits' source).2.store := by
  rcases parse_of_le hr source with hp | hp
  · have hrun : session.run limits source = (.fault .tooDeep, session) := by
      unfold run
      rw [hp]
    rw [hrun]
    exact .inr ⟨rfl, printsOn_run session source⟩
  · cases hread : parse limits source with
    | error cause =>
      rw [hread] at hp
      unfold run
      rw [hp, hread]
      exact .inl rfl
    | ok parsed =>
      rw [hread] at hp
      obtain ⟨program, _ | ⟨error, errors⟩⟩ := parsed
      · rw [run_of_parse hp, run_of_parse hread, store_conclude, store_conclude, fault_conclude]
        exact (truncates_eval he program globalScope session.store).1.imp_left (congrArg session.conclude)
      · unfold run
        rw [hp, hread]
        exact .inl rfl

end Session

/-- The limits only cut off. Let the evaluation of a node in a scope, or a call, be allowed to go deeper. If it has not
gone too deep before, it ends as before, with the same result or fault, and leaves the same store. If it has, then all
that it had printed by then comes first in what it prints now. If a source has not been nested too deep to be read, it
is read as before. So runs of a session are the same, or cut off. -/
theorem deeper_limits_go_on :
    (∀ (depth depth' : Nat) (node : Node) (i : ScopeId) (store : Store), depth ≤ depth' →
      CutOff store (eval depth node i store) (eval depth' node i store)) ∧
    (∀ (depth depth' room room' : Nat) (callee : Value) (arguments : List Value) (store : Store), depth ≤ depth' →
      room ≤ room' → CutOff store (applyFunction (eval depth) room callee arguments store)
        (applyFunction (eval depth') room' callee arguments store)) ∧
    (∀ (limits limits' : Limits) (source : String), limits.reading ≤ limits'.reading →
      parse limits source ≠ .error .tooDeep → parse limits' source = parse limits source) ∧
    ∀ (limits limits' : Limits) (session : Session) (source : String), limits.reading ≤ limits'.reading →
      limits.evaluation ≤ limits'.evaluation →
      ((session.run limits source).1 ≠ .fault .tooDeep →
        session.run limits' source = session.run limits source) ∧
      ∃ lines, (session.run limits source).2.store.output = session.store.output ++ lines ∧
        ∃ more, (session.run limits' source).2.store.output = session.store.output ++ (lines ++ more) := by
  refine ⟨fun depth depth' node i store h => cutOff_eval h node i store,
    fun depth depth' room room' callee arguments store h hroom => cutOff_applyFunction h hroom callee arguments store,
    fun limits limits' source h hne => ?_, fun limits limits' session source hr he => ?_⟩
  · exact (parse_of_le h source).resolve_left hne
  · have hprints : session.store.PrintsOn (session.run limits source).2.store := session.printsOn_run source
    rcases session.run_of_le hr he source with hsame | ⟨hdeep, hbegin⟩
    · refine ⟨fun _ => hsame, hprints.split ?_⟩
      rw [hsame]
      exact .refl _
    · exact ⟨fun hne => absurd hdeep hne, hprints.split hbegin⟩

def twoLines : String := "spit(\"a\"); spit(\"b\" + (\"c\" + \"d\"))"

/-- The program prints two lines if its evaluation may go six deep. If it may only go four deep, it is cut off behind
the first line, and if it may go deeper than six, nothing changes. -/
theorem cut_off_between_two_lines :
    (Session.initial.run ⟨9, 4, 9, 9⟩ twoLines).1 = .fault .tooDeep ∧
    (Session.initial.run ⟨9, 4, 9, 9⟩ twoLines).2.store.output = #["a"] ∧
    (∃ more, (Session.initial.run ⟨9, 6, 9, 9⟩ twoLines).2.store.output = #["a"] ++ more) ∧
    Session.initial.run ⟨12, 12, 9, 9⟩ twoLines = Session.initial.run ⟨9, 6, 9, 9⟩ twoLines ∧
    parse ⟨12, 12, 9, 9⟩ twoLines = parse ⟨9, 6, 9, 9⟩ twoLines ∧
    eval 12 (.prefixOp .blank "!" (.boolean .blank true)) 0 .initial =
      eval 2 (.prefixOp .blank "!" (.boolean .blank true)) 0 .initial ∧
    applyFunction (eval 12) 12 (.builtin .spit) [.string "a"] .initial =
      applyFunction (eval 0) 1 (.builtin .spit) [.string "a"] .initial := by
  obtain ⟨heval, happly, hparse, hrun⟩ := deeper_limits_go_on
  have hprinted : (Session.initial.run ⟨9, 4, 9, 9⟩ twoLines).2.store.output = #["a"] := by decide +kernel
  have hends : (Session.initial.run ⟨9, 6, 9, 9⟩ twoLines).1 ≠ .fault .tooDeep := nofun
  obtain ⟨-, lines, hlines, more, hmore⟩ :=
    hrun ⟨9, 4, 9, 9⟩ ⟨9, 6, 9, 9⟩ .initial twoLines (by decide) (by decide)
  have hfirst : #[] ++ lines = #["a"] := hlines.symm.trans hprinted
  have hboth : #[] ++ (lines ++ more) = #["a"] ++ more := by rw [← hfirst, Array.append_assoc]
  obtain ⟨hsame, -⟩ := hrun ⟨9, 6, 9, 9⟩ ⟨12, 12, 9, 9⟩ .initial twoLines (by decide) (by decide)
  refine ⟨rfl, hprinted, ⟨more, hmore.trans hboth⟩, hsame hends, ?_, ?_, ?_⟩
  · exact hparse _ _ _ (by decide) nofun
  · exact (heval 2 12 _ 0 .initial (by decide)).same nofun
  · exact (happly 0 12 1 12 _ _ .initial (by decide) (by decide)).same nofun

end Scriptlet
