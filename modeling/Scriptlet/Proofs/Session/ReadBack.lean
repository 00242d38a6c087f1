import Scriptlet.Proofs.Eval.Handing
import Scriptlet.Proofs.Session.Pieces
import Scriptlet.Proofs.Value.Literal

/-!
# Reading values back

The text of a plain value is a program: it is read as the literal of the value, and the literal evaluates to
a value like the first one. All that the evaluation does to the store is to give out identities.
-/

namespace Scriptlet

/-! ### Evaluating literals -/

/-- The stores have the same scopes and the same output. -/
structure Store.Untouched (store store' : Store) : Prop where
  scopes : store'.scopes = store.scopes
  output : store'.output = store.output

theorem Store.Untouched.trans {a b c : Store} (h : a.Untouched b) (h' : b.Untouched c) : a.Untouched c :=
  ⟨h'.scopes.trans h.scopes, h'.output.trans h.output⟩

theorem Value.Alike.isSignal_eq {a b : Value} (h : a.Alike b) : b.isSignal = false := by
  cases b with
  | error | returned => cases a <;> cases h
  | _ => rfl

section

variable {depth : Nat} {i : ScopeId} {store store' : Store} {value result : Value}

theorem eval_numeral {n : Nat} (h : eval depth (Node.numeral n) i store = (.ok result, store')) :
    result = .integer (Int64.ofInt n) ∧ store' = store := by
  cases depth with
  | zero => cases h
  | succ depth =>
    cases h
    exact ⟨Value.ofInt_eq_integer n, rfl⟩

theorem eval_ofInt {z : Int} (h : eval depth (Node.ofInt z) i store = (.ok result, store')) :
    result = .integer (Int64.ofInt z) ∧ store' = store := by
  cases z with
  | ofNat n => exact eval_numeral h
  | negSucc n =>
    cases depth with
    | zero => cases h
    | succ depth =>
      change evalThen (eval depth) (Node.numeral (n + 1)) i _ store = _ at h
      rw [evalThen, Action.bind_run] at h
      cases hn : eval depth (Node.numeral (n + 1)) i store with
      | mk found store₁ =>
        rw [hn] at h
        cases found with
        | error cause => cases h
        | ok found =>
          obtain ⟨rfl, rfl⟩ := eval_numeral hn
          cases h
          refine ⟨?_, rfl⟩
          rw [Value.ofInt_eq_integer, Int64.ofInt_neg, Int64.ofInt_toInt, ← Int64.ofInt_neg]
          rfl

theorem alike_of_gives {elements values : List Value}
    (hg : Evaluation.Gives depth i (Value.literals elements) store values store')
    (h : ∀ element ∈ elements, ∀ {before after : Store} {result : Value},
      eval depth element.literal i before = (.ok result, after) →
      element.Alike result ∧ before.Untouched after) :
    Value.AllAlike elements values ∧ store.Untouched store' := by
  induction elements generalizing store values with
  | nil =>
    cases hg
    exact ⟨trivial, rfl, rfl⟩
  | cons element elements ih =>
    obtain ⟨hfirst, hothers⟩ := List.forall_mem_cons.1 h
    cases hg with
    | cons hv _ hg =>
      obtain ⟨halike, hstore⟩ := hfirst hv
      obtain ⟨hall, hstore'⟩ := ih hg hothers
      exact ⟨⟨halike, hall⟩, hstore.trans hstore'⟩

/-- What the literal of a plain value evaluates to is like the value. -/
theorem alike_of_eval (h : value.Plain) (he : eval depth value.literal i store = (.ok result, store')) :
    value.Alike result ∧ store.Untouched store' := by
  induction h generalizing depth store store' result with
  | integer n =>
    obtain ⟨rfl, rfl⟩ := eval_ofInt he
    exact ⟨(Int64.ofInt_toInt n).symm, rfl, rfl⟩
  | boolean b =>
    cases depth with
    | zero => cases he
    | succ depth =>
      cases b <;> cases he <;> exact ⟨rfl, rfl, rfl⟩
  | @array identity elements _ ih =>
    cases depth with
    | zero => cases he
    | succ depth =>
      change evalAllThen (eval depth) i Action.newArray (Value.literals elements) [] store = _ at he
      rcases Evaluation.evalAllThen_cases he with ⟨hsignal, node, hm, store₁, hnode⟩ |
        ⟨values, store₁, hg, hnext⟩
      · rw [Value.literals_eq_map] at hm
        obtain ⟨element, hmem, rfl⟩ := List.mem_map.1 hm
        rw [(ih element hmem hnode).1.isSignal_eq] at hsignal
        cases hsignal
      · obtain ⟨hall, hstore⟩ := alike_of_gives hg fun element hmem => ih element hmem
        -- The new array takes an identity, which is neither in a scope nor in the output.
        cases hnext
        exact ⟨hall, hstore.scopes, hstore.output⟩

theorem alike_of_eval_program {token : Token} (h : value.Plain)
    (he : eval depth (.program [.expressionStatement token value.literal]) i store = (.ok result, store')) :
    value.Alike result ∧ store.Untouched store' := by
  match depth with
  | 0 | 1 => cases he
  | depth + 2 =>
    cases ho : eval depth value.literal i store with
    | mk found store₁ =>
      have hstatement : eval (depth + 1) (.expressionStatement token value.literal) i store = (found, store₁) := ho
      rw [eval_program, evalSequence, Action.bind_run, Action.bind_run, hstatement] at he
      cases found with
      | error cause => cases he
      | ok found =>
        obtain ⟨halike, hstore⟩ := alike_of_eval h ho
        simp only [halike.isSignal_eq] at he
        have hsame : found.unwrapped = found := by
          cases found with
          | returned => cases halike.isSignal_eq
          | _ => rfl
        cases he
        exact ⟨hsame.symm ▸ halike, hstore⟩

end

/-! ### Reading literals -/

section

variable {value : Value}

theorem natAbs_toInt_le (n : Int64) : n.toInt.natAbs ≤ 2 ^ 63 := by
  have hlow := n.le_toInt
  have hhigh := n.toInt_lt
  omega

theorem short_of_mem_inspect (h : value.Plain) {t : Token} (ht : t ∈ tokenize value.inspect)
    (hk : t.kind = .int) : t.literal.length ≤ maxDigits := by
  rw [tokenize_inspect h, List.mem_append, List.mem_singleton] at ht
  rcases ht with ht | rfl
  · obtain ⟨n, -, rfl⟩ := (mem_spell_literal_iff h hk).1 ht
    exact length_toString_le (natAbs_toInt_le n)
  · cases hk

theorem program_inspect (h : value.Plain) (hm : ¬ (Value.integer Int64.minValue).Occurs value) :
    ∃ token, Grammar.Program (tokenize value.inspect) (.program [.expressionStatement token value.literal]) := by
  have hexpr := expr_literal h hm
  obtain ⟨token, ts, hts⟩ := List.exists_cons_of_ne_nil hexpr.ne_nil
  rw [hts] at hexpr
  refine ⟨token, ?_⟩
  have hstatements : Grammar.Statements (token :: ts ++ [] ++ []) [.expressionStatement token value.literal] :=
    .cons (.expressionStatement hexpr .missing) .nil (by simp)
  rw [tokenize_inspect h, hts]
  rw [List.append_nil, List.append_nil] at hstatements
  exact .statements rfl hstatements

/-- With the least integer in it, the text of a plain value is no program. -/
theorem not_program_inspect (h : value.Plain) (hm : (Value.integer Int64.minValue).Occurs value) (p : Node) :
    ¬ Grammar.Program (tokenize value.inspect) p := by
  intro hp
  have ht : ⟨.int, toString Int64.minValue.toInt.natAbs⟩ ∈ tokenize value.inspect := by
    rw [tokenize_inspect h]
    exact List.mem_append_left _ ((mem_spell_literal_iff h rfl).2 ⟨_, hm, rfl⟩)
  have hlt := hp.decimal_lt ht rfl
  rw [decimal_toString, Int64.toInt_minValue] at hlt
  exact absurd hlt (by decide)

end

namespace Session

variable {limits : Limits} {session : Session} {value : Value}

theorem run_of_parse_tooDeep {source : String} (h : parse limits source = .error .tooDeep) :
    (session.run limits source).1 = .fault .tooDeep := by
  unfold run
  rw [h]

theorem rejected_of_occurs (h : value.Plain) (hm : (Value.integer Int64.minValue).Occurs value)
    (hdeep : (session.run limits value.inspect).1 ≠ .fault .tooDeep) :
    (session.run limits value.inspect).1 = .rejected ∧ (session.run limits value.inspect).2.errors ≠ [] := by
  -- What is read without a syntax error has a derivation, and there is none.
  have hread : ∀ parsed, parse limits value.inspect = .ok parsed → parsed.errors ≠ [] := by
    rintro ⟨p, errors⟩ hp rfl
    exact not_program_inspect h hm p (program_of_parse hp)
  rcases run_cases limits session value.inspect with ⟨cause, hp, -⟩ | ⟨parsed, -, herrors, hrun⟩ |
    ⟨parsed, -, -, hp, hnil, -⟩ | ⟨parsed, -, -, hp, hnil, -⟩
  · rcases parse_fault hp with rfl | ⟨t, ht, hk, hlong, -⟩
    · exact absurd (run_of_parse_tooDeep hp) hdeep
    · exact absurd (short_of_mem_inspect h ht hk) (Nat.not_le.2 hlong)
  · rw [hrun]
    exact ⟨rfl, herrors⟩
  · exact absurd hnil (hread parsed hp)
  · exact absurd hnil (hread parsed hp)

theorem alike_of_run {sources : List String} (h : value.Plain)
    (hm : ¬ (Value.integer Int64.minValue).Occurs value)
    (hdeep : ((runs limits sources).run limits value.inspect).1 ≠ .fault .tooDeep) :
    ∃ result store,
      (runs limits sources).run limits value.inspect = (.value result, ⟨store, [], result.isError⟩) ∧
      value.Alike result ∧ (runs limits sources).store.Untouched store := by
  obtain ⟨token, hprogram⟩ := program_inspect h hm
  have hshort : ∀ t ∈ tokenize value.inspect, t.kind = .int → t.literal.length ≤ maxDigits :=
    fun t ht hk => short_of_mem_inspect h ht hk
  rcases parse_of_program hshort hprogram with hp | ⟨hp, -⟩
  · have hvalue := eval_ne_error hp hdeep
    rw [run_of_parse hp]
    cases ho : eval limits.evaluation (.program [.expressionStatement token value.literal]) globalScope
        (runs limits sources).store with
    | mk found store =>
      rw [ho] at hvalue
      cases found with
      | error cause => exact absurd rfl (hvalue cause)
      | ok result => exact ⟨result, store, rfl, alike_of_eval_program h ho⟩
  · exact absurd (run_of_parse_tooDeep hp) hdeep

end Session

open Session in
/-- Plain values survive being written and read back. Take a value made of integers, truth values and arrays,
and run its text in any session that runs lead to, and let that not be nested too deep. The source has no
syntax error if and only if the least integer is not in the value. Then the run gives a value of the same
shape with the same integers and truth values, prints nothing, and leaves all scopes as they are. -/
theorem plain_values_read_back {limits : Limits} (sources : List String) {value : Value} (h : value.Plain)
    (hdeep : ((runs limits sources).run limits value.inspect).1 ≠ .fault .tooDeep) :
    (((runs limits sources).run limits value.inspect).2.errors = [] ↔
      ¬ (Value.integer Int64.minValue).Occurs value) ∧
    ((Value.integer Int64.minValue).Occurs value →
      ((runs limits sources).run limits value.inspect).1 = .rejected) ∧
    (¬ (Value.integer Int64.minValue).Occurs value → ∃ result,
      ((runs limits sources).run limits value.inspect).1 = .value result ∧ value.Alike result ∧
      ((runs limits sources).run limits value.inspect).2.store.output = (runs limits sources).store.output ∧
      ((runs limits sources).run limits value.inspect).2.store.scopes = (runs limits sources).store.scopes) := by
  by_cases hm : (Value.integer Int64.minValue).Occurs value
  · obtain ⟨hrejected, herrors⟩ := rejected_of_occurs h hm hdeep
    exact ⟨iff_of_false herrors (not_not_intro hm), fun _ => hrejected, fun hno => absurd hm hno⟩
  · obtain ⟨result, store, hrun, halike, hstore⟩ := alike_of_run h hm hdeep
    rw [hrun]
    exact ⟨iff_of_true rfl hm, fun hyes => absurd hyes hm,
      fun _ => ⟨result, rfl, halike, hstore.output, hstore.scopes⟩⟩

open Session in
/-- A nested array is read back after a name has been bound. The least integer is written like any other, and
its text has a syntax error. -/
theorem nested_array_reads_back :
    (∃ result, ((runs Limits.standard ["let x = 1"]).run Limits.standard
        (Value.array 7 [.integer (-5), .array 3 [.boolean true]]).inspect).1 = .value result ∧
      (Value.array 7 [.integer (-5), .array 3 [.boolean true]]).Alike result) ∧
    ((runs Limits.standard ["let x = 1"]).run Limits.standard (Value.integer Int64.minValue).inspect).2.errors ≠
      [] := by
  have hplain : (Value.array 7 [.integer (-5), .array 3 [.boolean true]]).Plain :=
    .array (List.forall_mem_cons.2 ⟨.integer _, List.forall_mem_singleton.2
      (.array (List.forall_mem_singleton.2 (.boolean true)))⟩)
  have habsent : ¬ (Value.integer Int64.minValue).Occurs (.array 7 [.integer (-5), .array 3 [.boolean true]]) := by
    simp [Value.occurs_array_iff, Value.occurs_iff_eq]
  have hdeep : ((runs Limits.standard ["let x = 1"]).run Limits.standard
      (Value.array 7 [.integer (-5), .array 3 [.boolean true]]).inspect).1 =
      .value (.array 1 [.integer (-5), .array 0 [.boolean true]]) := rfl
  have hleast : ((runs Limits.standard ["let x = 1"]).run Limits.standard
      (Value.integer Int64.minValue).inspect).1 = .rejected := rfl
  obtain ⟨-, -, hback⟩ := plain_values_read_back ["let x = 1"] hplain (by rw [hdeep]; exact nofun)
  obtain ⟨result, hresult, halike, -⟩ := hback habsent
  refine ⟨⟨result, hresult, halike⟩, fun hnil => ?_⟩
  exact (plain_values_read_back ["let x = 1"] (.integer Int64.minValue) (by rw [hleast]; exact nofun)).1.1 hnil .self

end Scriptlet
