import Mathlib.Data.List.TakeWhile
import Scriptlet.CommandLine.Run
import Scriptlet.Proofs.Parse.Examined
import Scriptlet.Proofs.Session.Failures
import Scriptlet.Proofs.Value.Literal

/-!
# The exit status

A source that is given with `-c` should end the program with status 0 or 1: 0 where it is read without syntax
errors and evaluated to a value that is no runtime error, and 1 in all other cases, the limit on nesting
included. This holds but for three kinds of sources. What looks like an option is not taken for a source; an
overlong integer ends the reading with a fault that nobody reports, for only that of too deep a nesting is
reported; and a value may be nested too deep to be written, which is noticed after the last place where even that
fault is reported.

`exit_status_of_source` says that these are all, and what happens then.
-/

namespace Scriptlet

namespace CommandLine

/-! ### Arguments -/

/-- Whether what follows a dash begins as an option does: with its letter, or with another dash and a name,
which may be cut short. -/
def beginsOption : List Char → Bool
  | '-' :: rest =>
    let name := rest.takeWhile (· != '=')
    name.isPrefixOf "help".toList || name.isPrefixOf "print-ast".toList
  | letter :: _ => letter == 'h' || letter == 'c'
  | [] => false

/-- Whether a text after `-c` is taken for the source. If it begins with a dash, it is so only if it is a negative
number or has a space in it, and does not begin as an option does. -/
def standsForSource (text : String) : Bool :=
  match text.toList with
  | '-' :: letter :: rest =>
    !beginsOption (letter :: rest) && (isNegativeNumber text.toList || text.toList.contains ' ')
  | _ => true

theorem beginsOption_tail : ∀ spelling ∈ Flag.spellings, beginsOption spelling.1.toList.tail = true := by
  decide

theorem exactly?_eq_none {rest : List Char} (h : beginsOption rest = false) : exactly? ('-' :: rest) = none := by
  rw [exactly?, Option.map_eq_none_iff, List.find?_eq_none]
  intro spelling hm hs
  have hbegins := beginsOption_tail spelling hm
  rw [beq_iff_eq.1 hs, List.tail_cons, h] at hbegins
  cases hbegins

theorem beginsOption_cons {letter : Char} (h : letter ≠ '-') (rest : List Char) :
    beginsOption (letter :: rest) = (letter == 'h' || letter == 'c') := by
  unfold beginsOption
  split
  · next heq =>
    cases heq
    exact absurd rfl h
  · next heq =>
    cases heq
    rfl
  · next heq => cases heq

theorem beginsOption_takeWhile (cs : List Char) :
    beginsOption (cs.takeWhile (· != '=')) = beginsOption cs := by
  cases cs with
  | nil => rfl
  | cons letter rest =>
    by_cases he : letter = '='
    · subst he
      rfl
    rw [List.takeWhile_cons_of_pos (by simpa using he)]
    by_cases hd : letter = '-'
    · subst hd
      show (List.isPrefixOf _ _ || List.isPrefixOf _ _) = (List.isPrefixOf _ _ || List.isPrefixOf _ _)
      rw [List.takeWhile_idem]
    · rw [beginsOption_cons hd, beginsOption_cons hd]

theorem filter_spellings_eq_nil_iff (rest : List Char) :
    (Flag.spellings.filter fun (spelling, _) =>
      ('-' :: ('-' :: rest).takeWhile (· != '=')).isPrefixOf spelling.toList) = [] ↔
      beginsOption ('-' :: rest) = false := by
  rw [← Bool.not_eq_true]
  simp [Flag.spellings, beginsOption]

/-- A text with a dash in front is an option, or something else, as its beginning says. -/
theorem wordOf_dash {text : String} {letter : Char} {rest : List Char} (ht : text.toList = '-' :: letter :: rest) :
    (beginsOption (letter :: rest) = false → wordOf text = .ok (wordOfOther text)) ∧
    (beginsOption (letter :: rest) = true → ∀ content, wordOf text ≠ .ok (.text content)) := by
  have hlong : ['-', '-'].isPrefixOf ('-' :: letter :: rest) = decide (letter = '-') := by
    simp [List.isPrefixOf, beq_eq_decide, eq_comm]
  have hname : ('-' :: letter :: rest).takeWhile (· != '=') = '-' :: (letter :: rest).takeWhile (· != '=') := rfl
  unfold wordOf
  rw [ht]
  dsimp only
  rw [hlong, hname]
  simp only [decide_eq_true_eq]
  constructor
  · intro h
    have h' := beginsOption_takeWhile (letter :: rest)
    rw [h] at h'
    rw [exactly?_eq_none h, exactly?_eq_none h']
    by_cases hd : letter = '-'
    · subst hd
      simp only [if_true, (filter_spellings_eq_nil_iff rest).2 h]
    · -- With one dash it is the letter alone that decides.
      rw [beginsOption_cons hd, ← beginsOption_cons hd []] at h
      simp only [if_neg hd, exactly?_eq_none h]
  · intro h content heq
    split at heq
    · cases heq
    · cases heq
    split at heq
    · next hd =>
      subst hd
      split at heq
      · next hnil =>
        rw [(filter_spellings_eq_nil_iff rest).1 hnil] at h
        cases h
      · cases heq
      · cases heq
    · next hd =>
      rw [beginsOption_cons hd, Bool.or_eq_true_iff, beq_iff_eq, beq_iff_eq] at h
      rcases h with rfl | rfl <;> cases heq

theorem wordOf_eq_text (text : String) (h : standsForSource text = true) : wordOf text = .ok (.text text) := by
  unfold standsForSource at h
  split at h
  · next letter rest ht =>
    rw [Bool.and_eq_true_iff, Bool.not_eq_true'] at h
    rw [(wordOf_dash ht).1 h.1, wordOfOther, if_pos h.2]
  · next hno =>
    unfold wordOf
    dsimp only
    split
    · next second rest ht => exact absurd ht (hno second rest)
    · rfl

theorem wordOf_ne_text (text : String) (h : standsForSource text = false) (content : String) :
    wordOf text ≠ .ok (.text content) := by
  unfold standsForSource at h
  split at h
  · next letter rest ht =>
    by_cases hb : beginsOption (letter :: rest) = true
    · exact (wordOf_dash ht).2 hb content
    · rw [Bool.not_eq_true] at hb
      rw [hb, Bool.not_false, Bool.true_and] at h
      rw [(wordOf_dash ht).1 hb, wordOfOther, h]
      exact nofun
  · cases h

/-- After `-c` a text is the source, or else the arguments make no sense. -/
theorem ofArguments_source (text : String) :
    (standsForSource text = true → Request.ofArguments ["-c", text] = .source text false) ∧
    (standsForSource text = false → ∃ error, Request.ofArguments ["-c", text] = .misuse error) := by
  by_cases hsep : text = "--"
  · subst hsep
    exact ⟨nofun, fun _ => ⟨_, rfl⟩⟩
  have hwords : wordsOf ["-c", text] =
      match wordOf text with
      | .error error => .error error
      | .ok word => .ok [.flag .source false none, word] := by
    have hc : wordOf "-c" = .ok (.flag .source false none) := rfl
    rw [wordsOf.eq_3 _ _ (by decide), wordsOf.eq_3 _ _ hsep, wordsOf.eq_1, hc]
    cases wordOf text <;> rfl
  unfold Request.ofArguments
  rw [hwords]
  constructor
  · intro h
    rw [wordOf_eq_text text h]
    rfl
  · intro h
    have hno := wordOf_ne_text text h
    cases hw : wordOf text with
    | error error => exact ⟨error, rfl⟩
    | ok word =>
      cases word with
      | text content => exact absurd hw (hno content)
      | _ => exact ⟨_, rfl⟩

/-! ### Runs -/

section

variable {limits : Limits} {source : String} {value : Value}

/-- The source is read without syntax errors, and evaluated to the value. -/
def EvaluatesTo (limits : Limits) (source : String) (value : Value) : Prop :=
  ∃ parsed store, parse limits source = .ok parsed ∧ parsed.errors = [] ∧
    eval limits.evaluation parsed.program globalScope Store.initial = (.ok value, store)

/-- The source is evaluated to a value that is no runtime error. -/
def Succeeds (limits : Limits) (source : String) : Prop :=
  ∃ value, EvaluatesTo limits source value ∧ value.isError = false

/-- The source is evaluated to a value that is to be written and nested too deep for that. -/
def OutgrowsWriting (limits : Limits) (source : String) : Prop :=
  ∃ value, EvaluatesTo limits source value ∧ value.isError = false ∧ value ≠ .null ∧
    value.obstacle? limits.writing = some .tooDeep

theorem EvaluatesTo.run (h : EvaluatesTo limits source value) :
    ∃ session, Session.initial.run limits source = (.value value, session) := by
  obtain ⟨parsed, store, hp, he, ho⟩ := h
  rcases Session.run_cases limits .initial source with ⟨cause, hp', -⟩ | ⟨parsed', hp', he', -⟩ |
    ⟨parsed', cause, store', hp', -, ho', -⟩ | ⟨parsed', value', store', hp', -, ho', hr⟩ <;>
    rw [hp] at hp' <;> cases hp'
  · exact absurd he he'
  · cases ho.symm.trans ho'
  · cases ho.symm.trans ho'
    exact ⟨_, hr⟩

/-- What a source is evaluated to, if no error, is data: it is there, and the functions in it are complete. -/
theorem EvaluatesTo.data (h : EvaluatesTo limits source value) (hv : value.isError = false) :
    ∃ n, (Discipline.ofRegime .complete).Data n value := by
  obtain ⟨session, hr⟩ := h.run
  have hvalue : ((Session.runs limits []).run limits source).1 = .value value := congrArg Prod.fst hr
  obtain ⟨n, -, hanswer⟩ := (Discipline.complete_governs limits).run_value [] hvalue
  rcases hanswer with herror | hdata
  · rw [hv] at herror
    cases herror
  · exact ⟨n, hdata⟩

/-- A value that is no error and not null is written, or else the reason why it cannot be written escapes. -/
theorem EvaluatesTo.ending (h : EvaluatesTo limits source value) (hv : value.isError = false)
    (hn : value ≠ .null) :
    (reportRun limits source).ending = (value.obstacle? limits.writing).elim (.exit 0) .fault := by
  obtain ⟨session, hr⟩ := h.run
  obtain ⟨n, hdata⟩ := h.data hv
  have hwrite : value.inspectWithin limits.writing =
      (value.obstacle? limits.writing).elim (.ok value.inspect) .error := by
    unfold Value.inspectWithin
    cases value.obstacle? limits.writing <;> rfl
  unfold reportRun
  rw [hr]
  cases value with
  | error => cases hv
  | null => exact absurd rfl hn
  | absent => cases hdata.isAbsent_eq
  | _ =>
    dsimp only
    rw [hwrite]
    generalize Value.obstacle? limits.writing _ = obstacle
    cases obstacle <;> rfl

theorem EvaluatesTo.outcome_eq {outcome : Outcome} {session : Session} (h : EvaluatesTo limits source value)
    (hr : Session.initial.run limits source = (outcome, session)) : outcome = .value value := by
  obtain ⟨session', hr'⟩ := h.run
  rw [hr] at hr'
  exact congrArg Prod.fst hr'

/-- Status 0 is for sources that are evaluated without an error, and 1 for all others. -/
def KeepsStatus (limits : Limits) (source : String) (ending : Ending) : Prop :=
  Succeeds limits source ∧ ending = .exit 0 ∨ ¬ Succeeds limits source ∧ ending = .exit 1

/-- A source without a value ends with status 1. -/
theorem keepsStatus_of_outcome {outcome : Outcome} {session : Session}
    (hr : Session.initial.run limits source = (outcome, session))
    (ho : outcome = .rejected ∨ outcome = .fault .tooDeep) :
    ¬ OutgrowsWriting limits source ∧ KeepsStatus limits source (reportRun limits source).ending := by
  have hno : ∀ value, ¬ EvaluatesTo limits source value := by
    intro value hv
    have hvalue := hv.outcome_eq hr
    rcases ho with rfl | rfl <;> cases hvalue
  refine ⟨fun ⟨value, hv, _⟩ => hno value hv, .inr ⟨fun ⟨value, hv, _⟩ => hno value hv, ?_⟩⟩
  unfold reportRun
  rw [hr]
  rcases ho with rfl | rfl <;> rfl

theorem EvaluatesTo.unique {other : Value} (h : EvaluatesTo limits source value)
    (h' : EvaluatesTo limits source other) : other = value := by
  obtain ⟨session, hr⟩ := h.run
  cases h'.outcome_eq hr
  rfl

theorem EvaluatesTo.succeeds_iff (h : EvaluatesTo limits source value) :
    Succeeds limits source ↔ value.isError = false := by
  refine ⟨?_, fun hv => ⟨value, h, hv⟩⟩
  rintro ⟨other, hother, hv⟩
  rwa [h.unique hother] at hv

theorem EvaluatesTo.outgrowsWriting_iff (h : EvaluatesTo limits source value) :
    OutgrowsWriting limits source ↔
      value.isError = false ∧ value ≠ .null ∧ value.obstacle? limits.writing = some .tooDeep := by
  refine ⟨?_, fun hall => ⟨value, h, hall⟩⟩
  rintro ⟨other, hother, hall⟩
  rwa [h.unique hother] at hall

/-- A source with a value ends with the status that the value asks for, unless the value cannot be written. -/
theorem EvaluatesTo.keepsStatus (h : EvaluatesTo limits source value) :
    OutgrowsWriting limits source ∧ (reportRun limits source).ending = .fault .tooDeep ∨
    ¬ OutgrowsWriting limits source ∧ KeepsStatus limits source (reportRun limits source).ending := by
  obtain ⟨session, hr⟩ := h.run
  rw [KeepsStatus, h.outgrowsWriting_iff, h.succeeds_iff]
  by_cases hv : value.isError = true
  · refine .inr ⟨by simp [hv], .inr ⟨by simp [hv], ?_⟩⟩
    unfold reportRun
    rw [hr]
    cases value with
    | error => rfl
    | _ => cases hv
  rw [Bool.not_eq_true] at hv
  by_cases hnull : value = .null
  · refine .inr ⟨by simp [hnull], .inl ⟨hv, ?_⟩⟩
    subst hnull
    unfold reportRun
    rw [hr]
  have hending := h.ending hv hnull
  cases ho : value.obstacle? limits.writing with
  | none =>
    rw [ho] at hending
    exact .inr ⟨by simp, .inl ⟨hv, hending⟩⟩
  | some cause =>
    obtain ⟨n, hdata⟩ := h.data hv
    cases Discipline.unwritten_scopedObject .complete hdata ho
    rw [ho] at hending
    exact .inl ⟨⟨hv, hnull, rfl⟩, hending⟩

/-- The run of a source ends with a fault where an integer is overlong or its value cannot be written, and else
with the status that it should end with. -/
theorem reportRun_cases (limits : Limits) (source : String) :
    (∃ digits, parse limits source = .error (.overlongInteger digits) ∧
      (reportRun limits source).ending = .fault (.overlongInteger digits)) ∨
    (∀ digits, parse limits source ≠ .error (.overlongInteger digits)) ∧
      (OutgrowsWriting limits source ∧ (reportRun limits source).ending = .fault .tooDeep ∨
        ¬ OutgrowsWriting limits source ∧ KeepsStatus limits source (reportRun limits source).ending) := by
  rcases Session.run_cases limits .initial source with ⟨cause, hp, hr⟩ | ⟨parsed, hp, -, hr⟩ |
    ⟨parsed, cause, store, hp, -, -, hr⟩ | ⟨parsed, value, store, hp, he, ho, -⟩
  · rcases parse_fault hp with rfl | ⟨t, -, -, -, rfl⟩
    · exact .inr ⟨fun digits => by rw [hp]; exact nofun, .inr (keepsStatus_of_outcome hr (.inr rfl))⟩
    · refine .inl ⟨_, hp, ?_⟩
      unfold reportRun
      rw [hr]
  · exact .inr ⟨fun digits => by rw [hp]; exact nofun, .inr (keepsStatus_of_outcome hr (.inl rfl))⟩
  · have hfault : ((Session.runs limits []).run limits source).1 = .fault cause := congrArg Prod.fst hr
    have hdeep : cause = .tooDeep := by
      refine (run_fault hfault).resolve_right ?_
      rw [hp]
      exact nofun
    subst hdeep
    exact .inr ⟨fun digits => by rw [hp]; exact nofun, .inr (keepsStatus_of_outcome hr (.inr rfl))⟩
  · refine .inr ⟨fun digits => by rw [hp]; exact nofun, ?_⟩
    exact EvaluatesTo.keepsStatus ⟨parsed, store, hp, he, ho⟩

end

/-- How the program ends that is given a source with `-c`. -/
theorem run_source (limits : Limits) (files : String → FileContent) (source : String) :
    (standsForSource source = true → run limits files ["-c", source] = reportRun limits source) ∧
    (standsForSource source = false → (run limits files ["-c", source]).ending = .exit 2) := by
  obtain ⟨hstands, hmisuse⟩ := ofArguments_source source
  constructor
  · intro h
    rw [run, hstands h]
    rfl
  · intro h
    obtain ⟨error, he⟩ := hmisuse h
    rw [run, he]
    rfl

/-- The exit status of a source that is given with `-c`. It is 0 for a source that is read without syntax errors and
evaluated to a value that is no runtime error, and 1 for any other, just if the source is taken for one, no integer
in it is overlong, and its value is not nested too deep to be written. Else the status is 2, for what looks like an
option, or a fault escapes. -/
theorem exit_status_of_source (limits : Limits) (files : String → FileContent) (source : String) :
    (KeepsStatus limits source (run limits files ["-c", source]).ending ↔
      standsForSource source = true ∧ (∀ digits, parse limits source ≠ .error (.overlongInteger digits)) ∧
        ¬ OutgrowsWriting limits source) ∧
    (standsForSource source = false → (run limits files ["-c", source]).ending = .exit 2) ∧
    (standsForSource source = true →
      (∀ digits, parse limits source = .error (.overlongInteger digits) →
        (run limits files ["-c", source]).ending = .fault (.overlongInteger digits)) ∧
      (OutgrowsWriting limits source → (run limits files ["-c", source]).ending = .fault .tooDeep)) := by
  obtain ⟨hrun, hmisuse⟩ := run_source limits files source
  have not_fault : ∀ cause, ¬ KeepsStatus limits source (.fault cause) := by
    rintro cause (⟨-, h⟩ | ⟨-, h⟩) <;> cases h
  by_cases hs : standsForSource source = true
  · rw [hrun hs]
    refine ⟨?_, fun hfalse => absurd (hs.symm.trans hfalse) nofun, fun _ => ?_⟩
    · rcases reportRun_cases limits source with ⟨digits, hp, hend⟩ | ⟨hd, ⟨ho, hend⟩ | ⟨ho, hk⟩⟩
      · rw [hend]
        exact ⟨fun hk => absurd hk (not_fault _), fun hall => absurd hp (hall.2.1 digits)⟩
      · rw [hend]
        exact ⟨fun hk => absurd hk (not_fault _), fun hall => absurd ho hall.2.2⟩
      · exact ⟨fun _ => ⟨hs, hd, ho⟩, fun _ => hk⟩
    · rcases reportRun_cases limits source with ⟨digits, hp, hend⟩ | ⟨hd, hrest⟩
      · constructor
        · intro digits' hp'
          rw [hp] at hp'
          cases hp'
          exact hend
        · rintro ⟨value, ⟨parsed, store, hok, -⟩, -⟩
          rw [hp] at hok
          cases hok
      · refine ⟨fun digits hp => absurd hp (hd digits), fun ho => ?_⟩
        rcases hrest with ⟨-, hend⟩ | ⟨hno, -⟩
        · exact hend
        · exact absurd ho hno
  · rw [Bool.not_eq_true] at hs
    refine ⟨⟨fun hk => ?_, fun hall => absurd (hs.symm.trans hall.1) nofun⟩, hmisuse,
      fun htrue => absurd (hs.symm.trans htrue) nofun⟩
    rw [hmisuse hs] at hk
    rcases hk with ⟨-, h⟩ | ⟨-, h⟩ <;> cases h

/-- A source that looks like an option, and one whose value is nested deeper than it may be to be written. -/
theorem exit_status_of_option_and_deep_value :
    (run ⟨20, 20, 2, 20⟩ (fun _ => .error .notFound) ["-c", "-x"]).ending = .exit 2 ∧
    (run ⟨20, 20, 2, 20⟩ (fun _ => .error .notFound) ["-c", "[[1]]"]).ending = .fault .tooDeep := by
  have hdeep : OutgrowsWriting ⟨20, 20, 2, 20⟩ "[[1]]" :=
    ⟨_, ⟨_, _, rfl, rfl, rfl⟩, rfl, nofun, rfl⟩
  constructor
  · exact (exit_status_of_source _ _ "-x").2.1 (by decide)
  · exact ((exit_status_of_source _ _ "[[1]]").2.2 (by decide)).2 hdeep

end CommandLine

/-! ### Overlong integers -/

namespace Parser

variable {σ : Type} [TokenSource σ] {E : Fault → Prop} {w : Window σ} {expr : Precedence → Parser σ Node}

/-- A row of statements ends with the fault of its first statement. -/
theorem wp_statements_fault {ends : TokenKind → Bool} (hb : w.budget ≠ 0) (he : ends w.current.kind = false)
    (h : wp E (statement expr) (fun _ _ => False) w) :
    wp E (statements expr ends) (fun _ _ => False) w := by
  unfold statements
  rw [wp_bind]
  -- No round of the loop comes to its end, so the invariant is that none has been made.
  refine wp_mono (wp_repeatAtMost (fun n _ w' => n = w.budget ∧ w' = w) ?_ ⟨rfl, rfl⟩) ?_
  · rintro n seen w' ⟨-, rfl⟩ -
    rw [wp_bind]
    exact wp_mono h fun _ _ hf => hf.elim
  · rintro seen w' ⟨n, ⟨rfl, rfl⟩, hm | hn⟩
    · rw [he] at hm
      cases hm
    · exact hb hn

theorem wp_program_overlong (hb : w.budget ≠ 0) (ho : w.current.isOverlong = true) (hn : w.current.Numeral)
    (depth : Nat) :
    wp (fun cause => cause = .overlongInteger w.current.literal.length)
      (program (expression Rules.standard (depth + 1))) (fun _ _ => False) w := by
  obtain ⟨hk, hl⟩ := Bool.and_eq_true_iff.1 ho
  rw [beq_iff_eq] at hk
  rw [decide_eq_true_iff] at hl
  unfold program
  rw [wp_bind]
  refine wp_mono (wp_statements_fault hb (by rw [hk]; rfl) ?_) fun _ _ hf => hf.elim
  unfold statement
  rw [wp_bind, wp_current, hk]
  unfold expressionStatement
  rw [wp_bind, wp_current, wp_bind]
  show wp _ (climb Rules.standard (expression Rules.standard depth) .lowest) _ w
  unfold climb
  rw [wp_bind, wp_current, hk]
  show wp _ (integer >>= _) _ w
  rw [wp_bind, wp_integer hk hn, if_pos hl]

end Parser

/-- A source that begins with an overlong integer cannot be read. -/
theorem parse_overlong {limits : Limits} {source : String} {t : Token} {ts : List Token}
    (hreading : limits.reading ≠ 0) (ht : tokenize source = t :: ts) (ho : t.isOverlong = true) :
    parse limits source = .error (.overlongInteger t.literal.length) := by
  obtain ⟨depth, hdepth⟩ := Nat.exists_eq_succ_of_ne_zero hreading
  have hcurrent : (Feed.window source).current = t := by
    have hskip := Window.current_skip_text (Window.source_window source) 0
    rw [← tokenize, ht] at hskip
    exact hskip
  have hwp := Parser.wp_program_overlong (w := Feed.window source) (Nat.succ_ne_zero _) (by rwa [hcurrent])
    (Window.sane_window source).numerals.current depth
  rw [hcurrent] at hwp
  unfold parse parseWindow
  unfold Parser.wp at hwp
  rw [hdepth]
  generalize Parser.program (Parser.expression Rules.standard (depth + 1)) (Feed.window source) = result at hwp ⊢
  cases result with
  | error cause => exact congrArg Except.error hwp
  | ok read => exact hwp.elim

theorem tokenize_digits {cs : List Char} (hne : cs ≠ []) (h : ∀ c ∈ cs, isDigit c = true) :
    tokenize (String.ofList cs) = [⟨.int, String.ofList cs⟩, .endOfInput] := by
  have hstops : Stops [] := nofun
  have htokens := tokensOf_digits_append hstops hne h
  rw [List.append_nil] at htokens
  rw [tokenize, String.toList_ofList, htokens]
  rfl

namespace CommandLine

/-- A numeral with too many digits ends the program without any status. -/
theorem ending_numeral {limits : Limits} (hreading : limits.reading ≠ 0) (files : String → FileContent)
    {cs : List Char} (h : ∀ c ∈ cs, isDigit c = true) (hlong : maxDigits < cs.length) :
    (run limits files ["-c", String.ofList cs]).ending = .fault (.overlongInteger cs.length) := by
  have hne : cs ≠ [] := by
    rintro rfl
    cases hlong
  have hparse : parse limits (String.ofList cs) = .error (.overlongInteger cs.length) := by
    have hover : (Token.mk .int (String.ofList cs)).isOverlong = true := by simp [Token.isOverlong, hlong]
    rw [parse_overlong hreading (tokenize_digits hne h) hover, String.length_ofList]
  have hstands : standsForSource (String.ofList cs) = true := by
    unfold standsForSource
    rw [String.toList_ofList]
    split
    · exact absurd (h '-' (by simp)) (by decide)
    · rfl
  rw [(run_source limits files _).1 hstands]
  rcases reportRun_cases limits (String.ofList cs) with ⟨digits, hp, hend⟩ | ⟨hnone, -⟩
  · rw [hparse] at hp
    cases hp
    exact hend
  · exact absurd hparse (hnone _)

/-- A source of 4301 digits ends the program with a fault, where it should end with status 1. -/
theorem long_numeral_breaks_status :
    (run Limits.standard (fun _ => .error .notFound) ["-c", String.ofList (List.replicate 4301 '1')]).ending =
      .fault (.overlongInteger 4301) ∧
    ¬ KeepsStatus Limits.standard (String.ofList (List.replicate 4301 '1'))
      (run Limits.standard (fun _ => .error .notFound) ["-c", String.ofList (List.replicate 4301 '1')]).ending := by
  have hdigits : ∀ c ∈ List.replicate 4301 '1', isDigit c = true := by
    intro c hc
    rw [List.eq_of_mem_replicate hc]
    rfl
  have hlength : (List.replicate 4301 '1').length = 4301 := List.length_replicate
  have hreading : Limits.standard.reading ≠ 0 := by decide
  have hlong : maxDigits < (List.replicate 4301 '1').length := by
    rw [hlength]
    decide
  have hending := ending_numeral hreading (fun _ => .error .notFound) hdigits hlong
  rw [hlength] at hending
  rw [hending]
  refine ⟨rfl, ?_⟩
  rintro (⟨-, h⟩ | ⟨-, h⟩) <;> cases h

end CommandLine

end Scriptlet
