import Mathlib.Data.List.Basic
import Scriptlet.Proofs.Eval.Mirror

/-!
# Evaluations in lockstep

From stores that are twins, evaluation takes the same course on both sides: it ends with the same value but
for the shift, or with the same fault, in stores that are twins again. `M.Lockstep n post act act'` says so
of two actions; the rules follow the operations that evaluation is put together from, `lockstep_evalNode`
is one step and `lockstep_eval` goes through to any depth.
-/

namespace Scriptlet

namespace Mirror

variable (M : Mirror) {α β γ δ : Type}

/-- How two actions may end that started from stores with at least `n` scopes. -/
def Meet (n : Nat) (post : Nat → α → β → Prop) :
    Except Fault α × Store → Except Fault β × Store → Prop
  | (.ok a, store), (.ok b, store') => ∃ m, n ≤ m ∧ M.Twin m store store' ∧ post m a b
  | (.error cause, store), (.error cause', store') =>
    cause' = cause ∧ ∃ m, n ≤ m ∧ M.Twin m store store'
  | _, _ => False

/-- From twins with `n` scopes, the two actions end in the same way, as `post` says. -/
def Lockstep (n : Nat) (post : Nat → α → β → Prop) (act : Action α) (act' : Action β) : Prop :=
  ∀ store store', M.Twin n store store' → M.Meet n post (act store) (act' store')

/-- The second value is the first but for the shift. -/
def Same (n : Nat) (value value' : Value) : Prop := value' = M.value value ∧ M.Reads n value

variable {M} {n m : Nat} {post : Nat → α → β → Prop} {i : ScopeId} {value : Value}

theorem Meet.mono (hn : n ≤ m) {outcome : Except Fault α × Store} {outcome' : Except Fault β × Store}
    (h : M.Meet m post outcome outcome') : M.Meet n post outcome outcome' := by
  obtain ⟨cause | a, store⟩ := outcome <;> obtain ⟨cause' | b, store'⟩ := outcome'
  · obtain ⟨hc, k, hk, ht⟩ := h
    exact ⟨hc, k, Nat.le_trans hn hk, ht⟩
  · exact h
  · exact h
  · obtain ⟨k, hk, ht⟩ := h
    exact ⟨k, Nat.le_trans hn hk, ht⟩

theorem Meet.twin {outcome : Except Fault α × Store} {outcome' : Except Fault β × Store}
    (h : M.Meet n post outcome outcome') : ∃ m, n ≤ m ∧ M.Twin m outcome.2 outcome'.2 := by
  obtain ⟨cause | a, store⟩ := outcome <;> obtain ⟨cause' | b, store'⟩ := outcome'
  · exact h.2
  · exact h.elim
  · exact h.elim
  · obtain ⟨m, hm, ht, -⟩ := h
    exact ⟨m, hm, ht⟩

theorem Meet.result {outcome outcome' : Except Fault Value × Store}
    (h : M.Meet n M.Same outcome outcome') : outcome'.1 = M.result outcome.1 := by
  obtain ⟨cause | a, store⟩ := outcome <;> obtain ⟨cause' | b, store'⟩ := outcome'
  · exact congrArg Except.error h.1
  · exact h.elim
  · exact h.elim
  · obtain ⟨_, -, -, hs, -⟩ := h
    exact congrArg Except.ok hs

theorem Reads.same (h : M.Reads n value) : M.Same n value (M.value value) := ⟨rfl, h⟩

theorem same_error (cause : RuntimeError) : M.Same n (.error cause) (.error cause) := ⟨rfl, .error cause⟩

namespace Lockstep

theorem pure {a : α} {b : β} (h : post n a b) : M.Lockstep n post (Pure.pure a) (Pure.pure b) :=
  fun _ _ ht => ⟨n, Nat.le_refl n, ht, h⟩

theorem fault (cause : Fault) : M.Lockstep n post (Action.fault cause) (Action.fault cause) :=
  fun _ _ ht => ⟨rfl, n, Nat.le_refl n, ht⟩

theorem bind {act : Action α} {act' : Action β} {next : α → Action γ} {next' : β → Action δ}
    {post' : Nat → γ → δ → Prop} (h : M.Lockstep n post act act')
    (hn : ∀ m a b, n ≤ m → post m a b → M.Lockstep m post' (next a) (next' b)) :
    M.Lockstep n post' (act >>= next) (act' >>= next') := by
  intro store store' ht
  have hend := h store store' ht
  rw [Action.bind_run, Action.bind_run]
  generalize act store = outcome at hend
  generalize act' store' = outcome' at hend
  obtain ⟨cause | a, after⟩ := outcome <;> obtain ⟨cause' | b, after'⟩ := outcome'
  · exact hend
  · exact hend.elim
  · exact hend.elim
  · obtain ⟨m, hm, ht', hab⟩ := hend
    exact (hn m a b hm hab after after' ht').mono hm

/-- A result that is the same on both sides and has nothing to do with the stores. -/
theorem ofExcept (result : Except Fault α) :
    M.Lockstep n (fun _ a b => b = a) (Action.ofExcept result) (Action.ofExcept result) := by
  cases result with
  | error cause => exact fault cause
  | ok a => exact fun _ _ ht => ⟨n, Nat.le_refl n, ht, rfl⟩

theorem ofResult {result : Except Fault Value} (h : ∀ value, result = .ok value → M.Reads n value) :
    M.Lockstep n M.Same (Action.ofExcept result) (Action.ofExcept (M.result result)) := by
  cases result with
  | error cause => exact fault cause
  | ok value => exact fun _ _ ht => ⟨n, Nat.le_refl n, ht, rfl, h value rfl⟩

/-- An error that names the type of a value. -/
theorem complain (value : Value) (make : ValueType → RuntimeError) :
    M.Lockstep n M.Same (Action.ofExcept value.type >>= fun t => Pure.pure (Value.error (make t)))
      (Action.ofExcept (M.value value).type >>= fun t => Pure.pure (Value.error (make t))) := by
  rw [Shift.type_value]
  refine (ofExcept value.type).bind fun m t t' _ h => ?_
  rw [h]
  exact .pure (same_error _)

theorem lookup (hi : M.Seen n i) (name : String) :
    M.Lockstep n (fun m found found' => found' = found.map M.value ∧
        ∀ value, found = some value → M.Reads m value)
      (Action.lookup i name) (Action.lookup (M.scope i) name) :=
  fun _ _ ht => ⟨n, Nat.le_refl n, ht, ht.lookup hi name, fun _ hv => ht.reads_lookup hi hv⟩

theorem bindName (i : ScopeId) (name : String) (hv : M.Reads n value) :
    M.Lockstep n (fun _ _ _ => True) (Action.bindName i name value)
      (Action.bindName (M.scope i) name (M.value value)) :=
  fun _ _ ht => ⟨n, Nat.le_refl n, ht.set i name hv, trivial⟩

theorem enclose (hi : M.Seen n i) {bindings : Bindings}
    (hb : ∀ binding ∈ bindings, M.Reads n binding.2) :
    M.Lockstep n (fun m j j' => j' = M.scope j ∧ M.Seen m j) (Action.enclose i bindings)
      (Action.enclose (M.scope i) (M.bindings bindings)) := by
  intro store store' ht
  rw [Action.enclose_run, Action.enclose_run, ht.size, ht.size']
  have hnew : M.scope n = n + M.scopeGap := movedUp_of_le ht.start
  exact ⟨n + 1, Nat.le_succ n, ht.addScope hi hb, hnew.symm, seen_new ht.start⟩

theorem newArray {elements : List Value} (h : ∀ element ∈ elements, M.Reads n element) :
    M.Lockstep n M.Same (Action.newArray elements) (Action.newArray (M.values elements)) := by
  intro store store' ht
  rw [Action.newArray_run, Action.newArray_run, ht.identity]
  exact ⟨n, Nat.le_refl n, ht.takeIdentity, rfl, .array h⟩

theorem newFunction (parameters : List Identifier) (body : Node) (hi : M.Seen n i) :
    M.Lockstep n M.Same (Action.newFunction parameters body i)
      (Action.newFunction parameters body (M.scope i)) := by
  intro store store' ht
  rw [Action.newFunction_run, Action.newFunction_run, ht.identity]
  exact ⟨n, Nat.le_refl n, ht.takeIdentity, rfl, .function hi⟩

theorem print (line : String) :
    M.Lockstep n (fun _ _ _ => True) (Action.print line) (Action.print line) :=
  fun _ _ ht => ⟨n, Nat.le_refl n, ht.print line, trivial⟩

end Lockstep

/-! ### Operators -/

theorem Reads.flat (h : value.isAtom = true ∨ value.isError = true) : M.Reads n value := by
  rcases h with h | h
  · exact .atom h
  · cases value with
    | error cause => exact .error cause
    | _ => cases h

end Mirror

theorem isError_of_complaint {checked value : Value} {make : ValueType → RuntimeError}
    (h : (checked.type >>= fun t => Except.ok (Value.error (make t))) = .ok value) :
    value.isError = true := by
  cases ht : checked.type with
  | error cause => rw [ht] at h; cases h
  | ok t => rw [ht] at h; cases h; rfl

/-- Only a subscript gives something that was there before. The other operators make an atom or an
error. -/
theorem isAtom_or_isError_applyPrefixOp {operator : String} {right value : Value}
    (h : applyPrefixOp operator right = .ok value) : value.isAtom = true ∨ value.isError = true := by
  unfold applyPrefixOp at h
  split at h
  · cases h
    exact .inl rfl
  · split at h
    · cases h
      exact .inl rfl
    · exact .inr (isError_of_complaint h)
  · exact .inr (isError_of_complaint h)

theorem isAtom_or_isError_applyIntegerOp (operator : String) (left right : Int64) :
    (applyIntegerOp operator left right).isAtom = true ∨
      (applyIntegerOp operator left right).isError = true := by
  unfold applyIntegerOp
  split
  case h_4 =>
    split
    · exact .inr rfl
    · exact .inl rfl
  case h_9 => exact .inr rfl
  all_goals exact .inl rfl

theorem isAtom_or_isError_applyInfixOp {isOne : Bool} {operator : String} {left right value : Value}
    (h : applyInfixOp isOne operator left right = .ok value) :
    value.isAtom = true ∨ value.isError = true := by
  unfold applyInfixOp at h
  split at h
  · cases h
    exact isAtom_or_isError_applyIntegerOp _ _ _
  · cases h
    unfold applyStringOp
    split
    · exact .inl rfl
    · exact .inr rfl
  · split at h
    · cases h
      exact .inl rfl
    · cases h
      exact .inl rfl
    · cases ht : left.type with
      | error cause => rw [ht] at h; cases h
      | ok t =>
        cases ht' : right.type with
        | error cause => rw [ht, ht'] at h; cases h
        | ok t' =>
          rw [ht, ht'] at h
          change (if t = t' then _ else _) = _ at h
          split at h
          · cases h
            exact .inr rfl
          · cases h
            exact .inr rfl

namespace Mirror

variable {M : Mirror} {n : Nat}

theorem reads_elementAt {elements : List Value} (h : ∀ element ∈ elements, M.Reads n element)
    (index : Int64) : M.Reads n (elementAt elements index) := by
  unfold elementAt
  split
  · rw [List.getD_eq_getElem?_getD]
    cases he : elements[index.toInt.toNat]? with
    | none => exact .atom rfl
    | some element => exact h element (List.mem_of_getElem? he)
  · exact .atom rfl

theorem reads_applyIndex {left subscript value : Value} (hl : M.Reads n left)
    (h : applyIndex left subscript = .ok value) : M.Reads n value := by
  unfold applyIndex at h
  split at h
  · cases h
    exact reads_elementAt hl.element _
  · exact .flat (.inr (isError_of_complaint h))

/-! ### Builtins -/

variable {arguments : List Value}

@[simp] theorem length_values (values : List Value) : (M.values values).length = values.length := by
  rw [Shift.values_eq_map, List.length_map]

theorem lockstep_withOne (h : ∀ argument ∈ arguments, M.Reads n argument)
    {body body' : Value → Action Value} (hb : ∀ argument, M.Reads n argument →
      M.Lockstep n M.Same (body argument) (body' (M.value argument))) :
    M.Lockstep n M.Same (Builtin.withOne arguments body) (Builtin.withOne (M.values arguments) body') := by
  match arguments with
  | [] => exact .pure (same_error _)
  | [argument] => exact hb argument (h argument (by simp))
  | first :: second :: rest =>
    simp only [Builtin.withOne, Shift.values, List.length_cons, length_values]
    exact .pure (same_error _)

theorem lockstep_withArray (builtin : Builtin) (h : ∀ argument ∈ arguments, M.Reads n argument)
    {body body' : List Value → Action Value} (hb : ∀ elements, (∀ element ∈ elements, M.Reads n element) →
      M.Lockstep n M.Same (body elements) (body' (M.values elements))) :
    M.Lockstep n M.Same (builtin.withArray arguments body)
      (builtin.withArray (M.values arguments) body') := by
  refine lockstep_withOne h fun argument ha => ?_
  cases argument with
  | array identity elements => exact hb elements ha.element
  | _ => exact .complain _ _

theorem lockstep_printAll (room : Nat) (values : List Value) :
    M.Lockstep n (fun _ _ _ => True) (Builtin.printAll room values)
      (Builtin.printAll room (M.values values)) := by
  induction values generalizing n with
  | nil => exact .pure trivial
  | cons value values ih =>
    show M.Lockstep n _ _ (Action.ofExcept ((M.value value).inspectWithin room) >>= _)
    rw [Shift.inspectWithin_value]
    refine (Lockstep.ofExcept _).bind fun m line line' _ hl => ?_
    rw [hl]
    exact (Lockstep.print line).bind fun _ _ _ _ _ => ih

theorem call_push {room : Nat} {arguments : List Value} (h : arguments.length ≠ 2) :
    Builtin.push.call room arguments = pure (.error (.wrongArgumentCount arguments.length 2)) := by
  simp only [Builtin.call]
  split
  · exact absurd rfl h
  · exact absurd rfl h
  · rfl

theorem lockstep_call (room : Nat) (builtin : Builtin) (h : ∀ argument ∈ arguments, M.Reads n argument) :
    M.Lockstep n M.Same (builtin.call room arguments) (builtin.call room (M.values arguments)) := by
  cases builtin with
  | len =>
    refine lockstep_withOne h fun argument ha => ?_
    cases argument with
    | string text => exact .pure ⟨rfl, .atom rfl⟩
    | array identity elements =>
      show M.Lockstep n _ (pure _) (pure (Value.ofInt (M.values elements).length))
      rw [length_values]
      exact .pure ⟨rfl, .atom rfl⟩
    | _ => exact .complain _ _
  | push =>
    by_cases hlength : arguments.length = 2
    · obtain ⟨argument, value, rfl⟩ := List.length_eq_two.1 hlength
      cases argument with
      | array identity elements =>
        have happend : M.values elements ++ [M.value value] = M.values (elements ++ [value]) := by
          simp only [Shift.values_eq_map, List.map_append, List.map_cons, List.map_nil]
        show M.Lockstep n _ _ (Action.newArray (M.values elements ++ [M.value value]))
        rw [happend]
        refine .newArray fun element he => ?_
        rcases List.mem_append.1 he with he | he
        · exact (h (.array identity elements) (by simp)).element element he
        · rw [List.mem_singleton.1 he]
          exact h value (by simp)
      | _ => exact .complain _ _
    · rw [call_push hlength, call_push (by rwa [length_values]), length_values]
      exact .pure (same_error _)
  | first =>
    refine lockstep_withArray _ h fun elements he => .pure ?_
    cases elements with
    | nil => exact ⟨rfl, .atom rfl⟩
    | cons element elements => exact ⟨rfl, he element (by simp)⟩
  | last =>
    refine lockstep_withArray _ h fun elements he => .pure ?_
    rw [Shift.values_eq_map, List.getLastD_eq_getLast?, List.getLastD_eq_getLast?, List.getLast?_map]
    cases hl : elements.getLast? with
    | none => exact ⟨rfl, .atom rfl⟩
    | some element => exact ⟨rfl, he element (List.mem_of_getLast? hl)⟩
  | rest =>
    refine lockstep_withArray _ h fun elements he => ?_
    cases elements with
    | nil => exact .pure ⟨rfl, .atom rfl⟩
    | cons element elements => exact .newArray fun other ho => he other (by simp [ho])
  | spit => exact (lockstep_printAll room arguments).bind fun _ _ _ _ _ => .pure ⟨rfl, .atom rfl⟩

/-! ### Nodes -/

section

variable {ev : Evaluator}
  (hev : ∀ n node i, M.Seen n i → M.Lockstep n M.Same (ev node i) (ev node (M.scope i)))
include hev

variable {i : ScopeId}

theorem lockstep_evalThen (hi : M.Seen n i) (node : Node) {next next' : Value → Action Value}
    (hn : ∀ m value, n ≤ m → M.Reads m value →
      M.Lockstep m M.Same (next value) (next' (M.value value))) :
    M.Lockstep n M.Same (evalThen ev node i next) (evalThen ev node (M.scope i) next') := by
  refine (hev n node i hi).bind ?_
  rintro m value _ hm ⟨rfl, hv⟩
  rw [Shift.isSignal_value]
  split
  · exact .pure hv.same
  · exact hn m value hm hv

theorem lockstep_evalSequence (hi : M.Seen n i) (nodes : List Node) {last : Value}
    (hl : M.Reads n last) :
    M.Lockstep n M.Same (evalSequence ev i nodes last)
      (evalSequence ev (M.scope i) nodes (M.value last)) := by
  induction nodes generalizing n last with
  | nil => exact .pure hl.same
  | cons node nodes ih =>
    refine (hev n node i hi).bind ?_
    rintro m value _ hm ⟨rfl, hv⟩
    rw [Shift.isSignal_value]
    split
    · exact .pure hv.same
    · exact ih (hi.mono hm) hv

theorem lockstep_evalAllThen (hi : M.Seen n i) (nodes : List Node) {next next' : List Value → Action Value}
    (hn : ∀ m values, n ≤ m → (∀ value ∈ values, M.Reads m value) →
      M.Lockstep m M.Same (next values) (next' (M.values values)))
    {seen : List Value} (hs : ∀ value ∈ seen, M.Reads n value) :
    M.Lockstep n M.Same (evalAllThen ev i next nodes seen)
      (evalAllThen ev (M.scope i) next' nodes (M.values seen)) := by
  induction nodes generalizing n seen with
  | nil =>
    have hreverse : (M.values seen).reverse = M.values seen.reverse := by
      simp only [Shift.values_eq_map, List.map_reverse]
    show M.Lockstep n _ (next seen.reverse) (next' (M.values seen).reverse)
    rw [hreverse]
    exact hn n _ (Nat.le_refl n) fun value hv => hs value (List.mem_reverse.1 hv)
  | cons node nodes ih =>
    refine (hev n node i hi).bind ?_
    rintro m value _ hm ⟨rfl, hv⟩
    rw [Shift.isSignal_value]
    split
    · exact .pure hv.same
    · refine ih (hi.mono hm) (fun k values hk => hn k values (Nat.le_trans hm hk)) ?_
      exact List.forall_mem_cons.2 ⟨hv, fun other ho => (hs other ho).mono hm⟩

omit hev in
theorem lockstep_evalName (hi : M.Seen n i) (name : String) :
    M.Lockstep n M.Same (evalName i name) (evalName (M.scope i) name) := by
  refine (Lockstep.lookup hi name).bind ?_
  rintro m found _ - ⟨rfl, hf⟩
  cases found with
  | some value => exact .pure (hf value rfl).same
  | none =>
    dsimp only [Option.map_none]
    split
    · exact .pure ⟨rfl, .atom rfl⟩
    · exact .pure (same_error _)

theorem lockstep_applyFunction (room : Nat) {callee : Value} (hc : M.Reads n callee)
    {arguments : List Value} (ha : ∀ argument ∈ arguments, M.Reads n argument) :
    M.Lockstep n M.Same (applyFunction ev room callee arguments)
      (applyFunction ev room (M.value callee) (M.values arguments)) := by
  cases callee with
  | function identity parameters body outer =>
    have houter : M.Seen n outer := hc outer .function
    simp only [applyFunction, Shift.value, length_values]
    split
    · rw [Shift.ofArguments_values]
      -- The scope of the call lies in the one that the callee holds, and where the call is made has no part.
      refine (Lockstep.enclose houter fun binding hb => ha _ (Bindings.mem_ofArguments hb)).bind ?_
      rintro m j _ hm ⟨rfl, hj⟩
      refine (hev m body j hj).bind ?_
      rintro k value _ hk ⟨rfl, hv⟩
      rw [Shift.unwrapped_value]
      exact .pure hv.unwrapped.same
    · exact .pure (same_error _)
  | builtin builtin => exact lockstep_call room builtin ha
  | _ => exact .complain _ _

/-- One step: if the parts are evaluated in lockstep, so is the whole node. -/
theorem lockstep_evalNode (room : Nat) (node : Node) (hi : M.Seen n i) :
    M.Lockstep n M.Same (evalNode ev room node i) (evalNode ev room node (M.scope i)) := by
  cases node with
  | hole | bare | parameterList => exact .fault _
  | tokenless node => exact hev n node i hi
  | program statements =>
    refine (lockstep_evalSequence hev hi statements (.atom rfl)).bind ?_
    rintro m value _ - ⟨rfl, hv⟩
    rw [Shift.unwrapped_value]
    exact .pure hv.unwrapped.same
  | block token statements => exact lockstep_evalSequence hev hi statements (.atom rfl)
  | identifier id => exact lockstep_evalName hi _
  | integer | boolean | string => exact .pure ⟨rfl, .atom rfl⟩
  | prefixOp token operator right =>
    refine lockstep_evalThen hev hi right fun m value _ _ => ?_
    rw [Shift.applyPrefixOp_value]
    exact .ofResult fun _ h => .flat (isAtom_or_isError_applyPrefixOp h)
  | infixOp token operator left right =>
    refine lockstep_evalThen hev hi left fun m a hm _ => ?_
    refine lockstep_evalThen hev (hi.mono hm) right fun k b _ _ => ?_
    rw [Shift.applyInfixOp_value]
    exact .ofResult fun _ h => .flat (isAtom_or_isError_applyInfixOp h)
  | conditional token condition consequence alternative =>
    refine lockstep_evalThen hev hi condition fun m value hm _ => ?_
    rw [Shift.isTruthy_value]
    split
    · exact hev m consequence i (hi.mono hm)
    · split
      · exact .pure ⟨rfl, .atom rfl⟩
      · exact hev m alternative i (hi.mono hm)
  | function token parameters body => exact .newFunction parameters body hi
  | call token callee arguments =>
    refine lockstep_evalThen hev hi callee fun m f hm hf => ?_
    refine lockstep_evalAllThen hev (hi.mono hm) arguments (fun k values hk hv => ?_) nofun
    exact lockstep_applyFunction hev room (hf.mono hk) hv
  | array token elements =>
    exact lockstep_evalAllThen hev hi elements (fun _ _ _ hv => .newArray hv) nofun
  | index token left subscript =>
    refine lockstep_evalThen hev hi left fun m a hm ha => ?_
    refine lockstep_evalThen hev (hi.mono hm) subscript fun k b hk _ => ?_
    rw [Shift.applyIndex_value]
    exact .ofResult fun _ h => reads_applyIndex (ha.mono hk) h
  | letStatement token name value =>
    refine lockstep_evalThen hev hi value fun m bound hm hb => ?_
    cases name with
    | none => exact .fault _
    | some id => exact (Lockstep.bindName i id.name hb).bind fun _ _ _ _ _ => .pure ⟨rfl, .atom rfl⟩
  | returnStatement token value =>
    exact lockstep_evalThen hev hi value fun _ _ _ hv => .pure ⟨rfl, hv.returned⟩
  | expressionStatement token expression => exact hev n expression i hi

end

theorem lockstep_eval (depth n : Nat) (node : Node) (i : ScopeId) (hi : M.Seen n i) :
    M.Lockstep n M.Same (eval depth node i) (eval depth node (M.scope i)) := by
  induction depth generalizing n node i with
  | zero => exact .fault _
  | succ depth ih => exact lockstep_evalNode ih depth node hi

end Mirror

end Scriptlet
