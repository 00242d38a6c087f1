import Scriptlet.Proofs.Eval.Discipline

/-!
# Evaluation keeps every discipline

`D.Agree w post act act'`: from a store that the world `w` holds for, both actions do the same. They
end in a store of a later world, with something that `post` says of that world, or with a fault that
is allowed. The rules follow the operations that evaluation is put together from; `agree_evalNode` is
one step, with any two evaluators for the parts that agree on what the discipline allows, and
`agree_eval` goes through to any depth.
-/

namespace Scriptlet

namespace Discipline

variable {W : Type} [Preorder W] (D : Discipline W) {α β : Type}

/-- What an action that starts in the world `w` may end with. -/
def Ends (w : W) (post : W → α → Prop) : Except Fault α × Store → Prop
  | (.ok a, store) => ∃ w', w ≤ w' ∧ D.Holds w' store ∧ post w' a
  | (.error cause, store) => D.fault cause ∧ ∃ w', w ≤ w' ∧ D.Holds w' store

/-- From any store of the world `w`, both actions do the same, and end as `post` says. -/
def Agree (w : W) (post : W → α → Prop) (act act' : Action α) : Prop :=
  ∀ store, D.Holds w store → act' store = act store ∧ D.Ends w post (act store)

variable {D} {w w' : W} {post post' : W → α → Prop}

theorem Ends.mono (hw : w ≤ w') (hp : ∀ u a, w' ≤ u → post u a → post' u a)
    {outcome : Except Fault α × Store} (h : D.Ends w' post outcome) : D.Ends w post' outcome := by
  obtain ⟨cause | a, store⟩ := outcome
  · obtain ⟨hc, u, hu, hs⟩ := h
    exact ⟨hc, u, hw.trans hu, hs⟩
  · obtain ⟨u, hu, hs, ha⟩ := h
    exact ⟨u, hw.trans hu, hs, hp u a hu ha⟩

theorem Ends.holds {outcome : Except Fault α × Store} (h : D.Ends w post outcome) :
    ∃ w', w ≤ w' ∧ D.Holds w' outcome.2 := by
  obtain ⟨cause | a, store⟩ := outcome
  · exact h.2
  · obtain ⟨u, hu, hs, -⟩ := h
    exact ⟨u, hu, hs⟩

theorem Ends.value {outcome : Except Fault α × Store} (h : D.Ends w post outcome) {a : α}
    (ha : outcome.1 = .ok a) : ∃ w', w ≤ w' ∧ post w' a := by
  obtain ⟨result, store⟩ := outcome
  subst ha
  obtain ⟨u, hu, -, hp⟩ := h
  exact ⟨u, hu, hp⟩

theorem Ends.fault {outcome : Except Fault α × Store} (h : D.Ends w post outcome) {cause : Fault}
    (hc : outcome.1 = .error cause) : D.fault cause := by
  obtain ⟨result, store⟩ := outcome
  subst hc
  exact h.1

namespace Agree

theorem mono {act act' : Action α} (h : D.Agree w post act act')
    (hp : ∀ u a, w ≤ u → post u a → post' u a) : D.Agree w post' act act' :=
  fun store hs => ⟨(h store hs).1, (h store hs).2.mono le_rfl hp⟩

theorem pure {a : α} (h : post w a) : D.Agree w post (Pure.pure a) (Pure.pure a) :=
  fun _ hs => ⟨rfl, w, le_rfl, hs, h⟩

theorem fault {cause : Fault} (h : D.fault cause) :
    D.Agree w post (Action.fault cause) (Action.fault cause) :=
  fun _ hs => ⟨rfl, h, w, le_rfl, hs⟩

theorem bind {act act' : Action α} {next next' : α → Action β} {post' : W → β → Prop}
    (h : D.Agree w post act act')
    (hn : ∀ u a, w ≤ u → post u a → D.Agree u post' (next a) (next' a)) :
    D.Agree w post' (act >>= next) (act' >>= next') := by
  intro store hs
  obtain ⟨he, hend⟩ := h store hs
  rw [Action.bind_run, Action.bind_run, he]
  generalize act store = outcome at hend
  obtain ⟨cause | a, store'⟩ := outcome
  · exact ⟨rfl, hend⟩
  · obtain ⟨u, hu, hs', ha⟩ := hend
    obtain ⟨he', hend'⟩ := hn u a hu ha store' hs'
    exact ⟨he', hend'.mono hu fun _ _ _ hp => hp⟩

theorem ofExcept {result : Except Fault α} {a : α} (h : result = .ok a) (ha : post w a) :
    D.Agree w post (Action.ofExcept result) (Action.ofExcept result) :=
  fun _ hs => ⟨rfl, by rw [h]; exact ⟨w, le_rfl, hs, ha⟩⟩

theorem lookup (i : ScopeId) (name : String) :
    D.Agree w (fun u found => ∀ value, found = some value → D.Data u value)
      (Action.lookup i name) (Action.lookup i name) :=
  fun _ hs => ⟨rfl, w, le_rfl, hs, fun _ hv => hs.lookup hv⟩

theorem bindName (i : ScopeId) (name : String) {value : Value} (h : D.Data w value) :
    D.Agree w (fun _ _ => True) (Action.bindName i name value) (Action.bindName i name value) :=
  fun _ hs => ⟨rfl, w, le_rfl, hs.set i name h, trivial⟩

theorem newArray {elements : List Value} (h : ∀ element ∈ elements, D.Data w element) :
    D.Agree w D.Data (Action.newArray elements) (Action.newArray elements) := by
  intro store hs
  obtain ⟨u, hu, hworld, ho⟩ := D.array hs.world h
  rw [Action.newArray_run]
  exact ⟨rfl, u, hu, hs.advance hu rfl hworld, .array ho fun element he => (h element he).mono hu⟩

theorem newFunction {token : Token} {parameters : List Identifier} {body : Node} {i : ScopeId}
    (hi : D.scope w i) (hr : D.runs (.function token parameters body)) :
    D.Agree w D.Data (Action.newFunction parameters body i) (Action.newFunction parameters body i) := by
  intro store hs
  obtain ⟨u, hu, hworld, ho⟩ := D.function hs.world hi hr
  rw [Action.newFunction_run]
  exact ⟨rfl, u, hu, hs.advance hu rfl hworld, .function ho⟩

theorem enclose {identity : Identity} {parameters : List Identifier} {body : Node} {outer : ScopeId}
    (hf : D.Data w (.function identity parameters body outer)) {bindings : Bindings}
    (hb : ∀ binding ∈ bindings, D.Data w binding.2) :
    D.Agree w (fun u i => D.scope u i ∧ D.runs body)
      (Action.enclose outer bindings) (Action.enclose outer bindings) := by
  intro store hs
  obtain ⟨u, hu, hworld, hi, hr⟩ := D.enclose bindings hs.world (hf _ .self).2.2
  rw [Action.enclose_run]
  exact ⟨rfl, u, hu, hs.addScope hu hb hworld, hi, hr⟩

/-- The type of a value that is there. -/
theorem type {value : Value} (h : D.Data w value) :
    D.Agree w (fun _ _ => True) (Action.ofExcept value.type) (Action.ofExcept value.type) := by
  obtain ⟨t, ht⟩ := Value.type_eq_ok h.isAbsent_eq
  exact .ofExcept ht trivial

theorem text {value : Value} (h : D.Data w value) (room : Nat) :
    D.Agree w (fun _ _ => True) (Action.ofExcept (value.inspectWithin room))
      (Action.ofExcept (value.inspectWithin room)) := by
  intro store hs
  refine ⟨rfl, ?_⟩
  cases hi : value.inspectWithin room with
  | error cause => exact ⟨D.unwritten h hi, w, le_rfl, hs⟩
  | ok line => exact ⟨w, le_rfl, hs, trivial⟩

theorem print (line : String) :
    D.Agree w (fun _ _ => True) (Action.print line) (Action.print line) :=
  fun _ hs => ⟨rfl, w, le_rfl, hs.print line, trivial⟩

end Agree

/-! ### Operators and builtins -/

theorem answer_applyPrefixOp (operator : String) {right : Value} (hr : D.Data w right) :
    ∃ value, applyPrefixOp operator right = .ok value ∧ D.Answer w value := by
  obtain ⟨t, ht⟩ := Value.type_eq_ok hr.isAbsent_eq
  unfold applyPrefixOp
  split
  · exact ⟨_, rfl, .inr (.atom rfl)⟩
  · split
    · exact ⟨_, rfl, .inr (.atom rfl)⟩
    · rw [ht]
      exact ⟨_, rfl, .error _⟩
  · rw [ht]
    exact ⟨_, rfl, .error _⟩

theorem answer_applyIntegerOp (operator : String) (left right : Int64) :
    D.Answer w (applyIntegerOp operator left right) := by
  unfold applyIntegerOp
  split
  case h_4 =>
    split
    · exact .error _
    · exact .inr (.atom rfl)
  case h_9 => exact .error _
  all_goals exact .inr (.atom rfl)

theorem answer_applyStringOp (operator left right : String) :
    D.Answer w (applyStringOp operator left right) := by
  unfold applyStringOp
  split
  · exact .inr (.atom rfl)
  · exact .error _

theorem answer_applyInfixOp (operator : String) {left right : Value} (hl : D.Data w left)
    (hr : D.Data w right) :
    ∃ value, applyInfixOp false operator left right = .ok value ∧ D.Answer w value := by
  obtain ⟨t, ht⟩ := Value.type_eq_ok hl.isAbsent_eq
  obtain ⟨t', ht'⟩ := Value.type_eq_ok hr.isAbsent_eq
  unfold applyInfixOp
  split
  · exact ⟨_, rfl, answer_applyIntegerOp _ _ _⟩
  · exact ⟨_, rfl, answer_applyStringOp _ _ _⟩
  · split
    · exact ⟨_, rfl, .inr (.atom rfl)⟩
    · exact ⟨_, rfl, .inr (.atom rfl)⟩
    · rw [ht, ht']
      by_cases h : t = t'
      · exact ⟨_, if_pos h, .error _⟩
      · exact ⟨_, if_neg h, .error _⟩

theorem data_elementAt {elements : List Value} (h : ∀ element ∈ elements, D.Data w element)
    (index : Int64) : D.Data w (elementAt elements index) := by
  unfold elementAt
  split
  · rw [List.getD_eq_getElem?_getD]
    cases he : elements[index.toInt.toNat]? with
    | none => exact .atom rfl
    | some element => exact h element (List.mem_of_getElem? he)
  · exact .atom rfl

theorem answer_applyIndex {left subscript : Value} (hl : D.Data w left) :
    ∃ value, applyIndex left subscript = .ok value ∧ D.Answer w value := by
  unfold applyIndex
  split
  · exact ⟨_, rfl, .inr (data_elementAt hl.element _)⟩
  · obtain ⟨t, ht⟩ := Value.type_eq_ok hl.isAbsent_eq
    rw [ht]
    exact ⟨_, rfl, .error _⟩

theorem agree_withOne {arguments : List Value} (h : ∀ argument ∈ arguments, D.Data w argument)
    {body : Value → Action Value}
    (hb : ∀ argument, D.Data w argument → D.Agree w D.Answer (body argument) (body argument)) :
    D.Agree w D.Answer (Builtin.withOne arguments body) (Builtin.withOne arguments body) := by
  unfold Builtin.withOne
  split
  · exact hb _ (h _ (by simp))
  · exact .pure (.error _)

theorem agree_withArray (builtin : Builtin) {arguments : List Value}
    (h : ∀ argument ∈ arguments, D.Data w argument) {body : List Value → Action Value}
    (hb : ∀ elements, (∀ element ∈ elements, D.Data w element) →
      D.Agree w D.Answer (body elements) (body elements)) :
    D.Agree w D.Answer (builtin.withArray arguments body) (builtin.withArray arguments body) := by
  refine agree_withOne h fun argument ha => ?_
  split
  · exact hb _ ha.element
  · exact (Agree.type ha).bind fun _ _ _ _ => .pure (.error _)

theorem agree_printAll (room : Nat) {values : List Value} (h : ∀ value ∈ values, D.Data w value) :
    D.Agree w (fun _ _ => True) (Builtin.printAll room values) (Builtin.printAll room values) := by
  induction values generalizing w with
  | nil => exact .pure trivial
  | cons value values ih =>
    refine (Agree.text (h value (by simp)) room).bind fun u line hu _ => ?_
    refine (Agree.print line).bind fun u' _ hu' _ => ?_
    exact ih fun value hv => (h value (by simp [hv])).mono (hu.trans hu')

theorem agree_call (room : Nat) (builtin : Builtin) {arguments : List Value}
    (h : ∀ argument ∈ arguments, D.Data w argument) :
    D.Agree w D.Answer (builtin.call room arguments) (builtin.call room arguments) := by
  have data : ∀ {act : Action Value}, D.Agree w D.Data act act → D.Agree w D.Answer act act :=
    fun ha => ha.mono fun _ _ _ hd => hd.answer
  cases builtin with
  | len =>
    refine agree_withOne h fun argument ha => ?_
    split
    · exact .pure (.inr (.atom rfl))
    · exact .pure (.inr (.atom rfl))
    · exact (Agree.type ha).bind fun _ _ _ _ => .pure (.error _)
  | push =>
    simp only [Builtin.call]
    split
    · next identity elements value =>
      refine data (.newArray fun element he => ?_)
      rcases List.mem_append.1 he with he | he
      · exact (h (.array identity elements) (by simp)).element element he
      · rw [List.mem_singleton.1 he]
        exact h value (by simp)
    · next argument value _ =>
      exact (Agree.type (h argument (by simp))).bind fun _ _ _ _ => .pure (.error _)
    · exact .pure (.error _)
  | first =>
    refine agree_withArray _ h fun elements he => .pure (.inr ?_)
    cases elements with
    | nil => exact .atom rfl
    | cons element elements => exact he element (by simp)
  | last =>
    refine agree_withArray _ h fun elements he => .pure (.inr ?_)
    rw [List.getLastD_eq_getLast?]
    cases hl : elements.getLast? with
    | none => exact .atom rfl
    | some element => exact he element (List.mem_of_getLast? hl)
  | rest =>
    refine agree_withArray _ h fun elements he => ?_
    split
    · exact .pure (.inr (.atom rfl))
    · exact data (.newArray fun element hm => he element (by simp [hm]))
  | spit => exact (agree_printAll room h).bind fun _ _ _ _ => .pure (.inr (.atom rfl))

/-! ### Nodes -/

section

variable {ev ev' : Evaluator} {i : ScopeId}

theorem agree_evalThen {node : Node} {next next' : Value → Action Value}
    (h : D.Agree w D.Result (ev node i) (ev' node i))
    (hn : ∀ u value, w ≤ u → D.Data u value → D.Agree u D.Result (next value) (next' value)) :
    D.Agree w D.Result (evalThen ev node i next) (evalThen ev' node i next') := by
  refine h.bind fun u value hu hv => ?_
  split
  · exact .pure hv
  · next hs => exact hn u value hu (hv.data (Bool.eq_false_iff.2 hs))

theorem agree_evalSequence {nodes : List Node}
    (h : ∀ u node, w ≤ u → node ∈ nodes → D.Agree u D.Result (ev node i) (ev' node i))
    {last : Value} (hl : D.Data w last) :
    D.Agree w D.Result (evalSequence ev i nodes last) (evalSequence ev' i nodes last) := by
  induction nodes generalizing w last with
  | nil => exact .pure hl.result
  | cons node nodes ih =>
    refine (h w node le_rfl (by simp)).bind fun u value hu hv => ?_
    split
    · exact .pure hv
    · next hs =>
      exact ih (fun u' node hu' hn => h u' node (hu.trans hu') (by simp [hn]))
        (hv.data (Bool.eq_false_iff.2 hs))

theorem agree_evalAllThen {nodes : List Node} {next next' : List Value → Action Value}
    (h : ∀ u node, w ≤ u → node ∈ nodes → D.Agree u D.Result (ev node i) (ev' node i))
    (hn : ∀ u values, w ≤ u → (∀ value ∈ values, D.Data u value) →
      D.Agree u D.Result (next values) (next' values))
    {seen : List Value} (hs : ∀ value ∈ seen, D.Data w value) :
    D.Agree w D.Result (evalAllThen ev i next nodes seen) (evalAllThen ev' i next' nodes seen) := by
  induction nodes generalizing w seen with
  | nil => exact hn w _ le_rfl fun value hv => hs value (List.mem_reverse.1 hv)
  | cons node nodes ih =>
    refine (h w node le_rfl (by simp)).bind fun u value hu hv => ?_
    split
    · exact .pure hv
    · next hsig =>
      refine ih (fun u' node hu' hm => h u' node (hu.trans hu') (by simp [hm]))
        (fun u' values hu' => hn u' values (hu.trans hu')) fun other ho => ?_
      rcases List.mem_cons.1 ho with rfl | ho
      · exact hv.data (Bool.eq_false_iff.2 hsig)
      · exact (hs other ho).mono hu

theorem agree_evalName (name : String) :
    D.Agree w D.Result (evalName i name) (evalName i name) := by
  refine (Agree.lookup i name).bind fun u found _ hf => ?_
  split
  · exact .pure (hf _ rfl).result
  · split
    · exact .pure (Data.atom rfl).result
    · exact .pure (Answer.error _).result

end

section

variable {ev ev' : Evaluator} {w₀ : W}
  (hev : ∀ w node i, w₀ ≤ w → D.runs node → D.scope w i → D.Agree w D.Result (ev node i) (ev' node i))
include hev

theorem agree_applyFunction (hw : w₀ ≤ w) (room : Nat) {callee : Value} (hc : D.Data w callee)
    {arguments : List Value} (ha : ∀ argument ∈ arguments, D.Data w argument) :
    D.Agree w D.Answer (applyFunction ev room callee arguments)
      (applyFunction ev' room callee arguments) := by
  unfold applyFunction
  split
  · split
    · refine (Agree.enclose hc fun binding hb => ha _ (Bindings.mem_ofArguments hb)).bind ?_
      rintro u scope hu ⟨hs, hr⟩
      exact (hev u _ scope (hw.trans hu) hr hs).bind fun _ _ _ hv => .pure hv.unwrapped
    · exact .pure (.error _)
  · exact agree_call room _ ha
  · exact (Agree.type hc).bind fun _ _ _ _ => .pure (.error _)

/-- A program unwraps what its statements return. -/
theorem agree_evalProgram (hw : w₀ ≤ w) (room : Nat) {statements : List Node}
    (hr : D.runs (.program statements)) {i : ScopeId} (hi : D.scope w i) :
    D.Agree w D.Answer (evalNode ev room (.program statements) i)
      (evalNode ev' room (.program statements) i) := by
  refine (agree_evalSequence (fun u part hu hp => ?_) (.atom rfl)).bind fun _ _ _ hv => .pure hv.unwrapped
  exact hev u part i (hw.trans hu) (D.part hr hp) (D.scope_mono hu hi)

/-- One step of evaluation. -/
theorem agree_evalNode (hw : w₀ ≤ w) (room : Nat) {node : Node} (hr : D.runs node) {i : ScopeId}
    (hi : D.scope w i) :
    D.Agree w D.Result (evalNode ev room node i) (evalNode ev' room node i) := by
  have part : ∀ u part, w ≤ u → part ∈ node.parts → D.Agree u D.Result (ev part i) (ev' part i) :=
    fun u part hu hp => hev u part i (hw.trans hu) (D.part hr hp) (D.scope_mono hu hi)
  have answer : ∀ {u : W} {result : Except Fault Value},
      (∃ value, result = .ok value ∧ D.Answer u value) →
      D.Agree u D.Result (Action.ofExcept result) (Action.ofExcept result) :=
    fun ⟨_, he, ha⟩ => .ofExcept he ha.result
  cases node with
  | hole | bare | parameterList => exact .fault (D.valueless hr rfl)
  | tokenless node => exact part w node le_rfl (by simp [Node.parts, Node.children])
  | program statements =>
    exact (agree_evalProgram hev hw room hr hi).mono fun _ _ _ ha => ha.result
  | block token statements => exact agree_evalSequence part (.atom rfl)
  | identifier id => exact agree_evalName id.name
  | integer | boolean | string => exact .pure (Data.atom rfl).result
  | prefixOp token operator right =>
    refine agree_evalThen (part w right le_rfl (by simp [Node.parts, Node.children])) ?_
    exact fun u value _ hv => answer (answer_applyPrefixOp operator hv)
  | infixOp token operator left right =>
    refine agree_evalThen (part w left le_rfl (by simp [Node.parts, Node.children])) ?_
    intro u value hu hv
    refine agree_evalThen (part u right hu (by simp [Node.parts, Node.children])) ?_
    exact fun u' value' hu' hv' => answer (answer_applyInfixOp operator (hv.mono hu') hv')
  | conditional token condition consequence alternative =>
    have hcond : condition ∈ (Node.conditional token condition consequence alternative).parts := by
      simp only [Node.parts]; split <;> simp
    have hcons : consequence ∈ (Node.conditional token condition consequence alternative).parts := by
      simp only [Node.parts]; split <;> simp
    refine agree_evalThen (part w condition le_rfl hcond) fun u value hu _ => ?_
    split
    · exact part u consequence hu hcons
    · split
      · exact .pure (Data.atom rfl).result
      · next ha => exact part u alternative hu (by simp [Node.parts, ha])
  | function token parameters body =>
    exact (Agree.newFunction hi hr).mono fun _ _ _ hd => hd.result
  | call token callee arguments =>
    refine agree_evalThen (part w callee le_rfl (by simp [Node.parts, Node.children])) ?_
    intro u value hu hv
    refine agree_evalAllThen (fun u' node hu' hn => part u' node (hu.trans hu')
      (by simp [Node.parts, Node.children, hn])) (fun u' values hu' hvs => ?_) (by simp)
    exact (agree_applyFunction hev (hw.trans (hu.trans hu')) room (hv.mono hu') hvs).mono
      fun _ _ _ ha => ha.result
  | array token elements =>
    refine agree_evalAllThen part (fun u values _ hvs => ?_) (by simp)
    exact (Agree.newArray hvs).mono fun _ _ _ hd => hd.result
  | index token left subscript =>
    refine agree_evalThen (part w left le_rfl (by simp [Node.parts, Node.children])) ?_
    intro u value hu hv
    refine agree_evalThen (part u subscript hu (by simp [Node.parts, Node.children])) ?_
    exact fun u' value' hu' _ => answer (answer_applyIndex (hv.mono hu'))
  | letStatement token name value =>
    refine agree_evalThen (part w value le_rfl (by simp [Node.parts, Node.children])) ?_
    intro u value' _ hv
    cases name with
    | none => exact .fault (D.nameless hr)
    | some id => exact (Agree.bindName i id.name hv).bind fun _ _ _ _ => .pure (Data.atom rfl).result
  | returnStatement token value =>
    refine agree_evalThen (part w value le_rfl (by simp [Node.parts, Node.children])) ?_
    exact fun u value' _ hv => .pure (.inr ⟨value', rfl, hv⟩)
  | expressionStatement token expression =>
    exact part w expression le_rfl (by simp [Node.parts, Node.children])

end

theorem agree_eval (depth : Nat) {node : Node} (hr : D.runs node) {i : ScopeId} (hi : D.scope w i) :
    D.Agree w D.Result (eval depth node i) (eval depth node i) := by
  induction depth generalizing w node i with
  | zero => exact .fault D.tooDeep
  | succ depth ih => exact agree_evalNode (fun _ _ _ _ hr hi => ih hr hi) (le_refl w) depth hr hi

theorem agree_eval_program (depth : Nat) {statements : List Node} (hr : D.runs (.program statements))
    {i : ScopeId} (hi : D.scope w i) :
    D.Agree w D.Answer (eval depth (.program statements) i) (eval depth (.program statements) i) := by
  cases depth with
  | zero => exact .fault D.tooDeep
  | succ depth =>
    exact agree_evalProgram (fun _ _ _ _ hr hi => agree_eval depth hr hi) (le_refl w) depth hr hi

end Discipline

end Scriptlet
