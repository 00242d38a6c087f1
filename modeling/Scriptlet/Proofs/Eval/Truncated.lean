import Scriptlet.Proofs.Eval.Action

/-!
# Evaluation cut short

An evaluation that may not go as deep as another one does the same up to the point where it goes too deep.
`Action.Truncates` says so of two actions: what the first does is all that the second does, or the beginning of it.
No fault is ever caught, so a sequence of actions is cut short where one of them is (`Truncates.bind`). In the
sequence the second action goes on from there, and for that reason the relation also says that it takes back nothing
that was printed.
-/

namespace Scriptlet

/-- What was printed in `before` is the beginning of what is printed in `after`. -/
def Store.PrintsOn (before after : Store) : Prop := ∃ lines, after.output = before.output ++ lines

namespace Store.PrintsOn

variable {a b c : Store}

theorem of_output_eq (h : b.output = a.output) : a.PrintsOn b := ⟨#[], by simp [h]⟩

theorem refl (a : Store) : a.PrintsOn a := of_output_eq rfl

theorem trans (hab : a.PrintsOn b) (hbc : b.PrintsOn c) : a.PrintsOn c := by
  obtain ⟨lines, hb⟩ := hab
  obtain ⟨lines', hc⟩ := hbc
  exact ⟨lines ++ lines', by rw [hc, hb, Array.append_assoc]⟩

theorem print (a : Store) (line : String) : a.PrintsOn (a.print line) := ⟨#[line], by simp [Store.print]⟩

end Store.PrintsOn

/-! ### Obstacles to writing -/

/-- With more room a list has the same first obstacle, unless it is the lack of room itself. -/
theorem findSome?_of_less_room {α β : Type} {f g : α → Option β} {short : β}
    (h : ∀ a, f a = some short ∨ g a = f a) (as : List α) :
    as.findSome? f = some short ∨ as.findSome? g = as.findSome? f := by
  induction as with
  | nil => exact .inr rfl
  | cons a as ih =>
    rw [List.findSome?_cons, List.findSome?_cons]
    rcases h a with ha | ha
    · rw [ha]
      exact .inl rfl
    · rw [ha]
      cases f a with
      | none => exact ih
      | some cause => exact .inr rfl

theorem Node.obstacle?_of_le {limit limit' : Nat} (h : limit ≤ limit') (node : Node) :
    node.obstacle? limit = some .tooDeep ∨ node.obstacle? limit' = node.obstacle? limit := by
  induction limit generalizing limit' node with
  | zero => exact .inl rfl
  | succ limit ih =>
    obtain ⟨limit', rfl⟩ := Nat.exists_eq_add_of_le' (Nat.le_trans (Nat.le_add_left 1 _) h)
    have hchildren := findSome?_of_less_room (ih (Nat.le_of_succ_le_succ h)) node.children
    cases node with
    | tokenless => exact .inr rfl
    | _ => exact hchildren

theorem Value.obstacle?_of_le {limit limit' : Nat} (h : limit ≤ limit') (value : Value) :
    value.obstacle? limit = some .tooDeep ∨ value.obstacle? limit' = value.obstacle? limit := by
  induction limit generalizing limit' value with
  | zero => exact .inl rfl
  | succ limit ih =>
    obtain ⟨limit', rfl⟩ := Nat.exists_eq_add_of_le' (Nat.le_trans (Nat.le_add_left 1 _) h)
    have hle : limit ≤ limit' := Nat.le_of_succ_le_succ h
    cases value with
    | array identity elements => exact findSome?_of_less_room (ih hle) elements
    | function identity parameters body scope => exact Node.obstacle?_of_le hle body
    | returned value => exact ih hle value
    | _ => exact .inr rfl

theorem Value.inspectWithin_of_le {room room' : Nat} (h : room ≤ room') (value : Value) :
    value.inspectWithin room = .error .tooDeep ∨ value.inspectWithin room' = value.inspectWithin room := by
  unfold inspectWithin
  rcases value.obstacle?_of_le h with ho | ho
  · rw [ho]
    exact .inl rfl
  · rw [ho]
    exact .inr rfl

/-! ### Actions -/

namespace Action

variable {α β : Type}

/-- From any store `act` does all that `act'` does, or goes too deep when it has printed the beginning of what `act'`
prints; and `act'` only prints on. -/
def Truncates (act act' : Action α) : Prop :=
  ∀ store, (act' store = act store ∨ (act store).1 = .error .tooDeep ∧ (act store).2.PrintsOn (act' store).2) ∧
    store.PrintsOn (act' store).2

namespace Truncates

/-- What prints nothing is cut short nowhere. -/
theorem of_output_eq {act : Action α} (h : ∀ store, (act store).2.output = store.output) : act.Truncates act :=
  fun store => ⟨.inl rfl, .of_output_eq (h store)⟩

theorem pure (a : α) : Truncates (Pure.pure a : Action α) (Pure.pure a) := of_output_eq fun _ => rfl

theorem fault (cause : Fault) : Truncates (Action.fault cause : Action α) (Action.fault cause) :=
  of_output_eq fun _ => rfl

theorem ofExcept (result : Except Fault α) : Truncates (Action.ofExcept result) (Action.ofExcept result) :=
  of_output_eq fun _ => rfl

theorem newArray (elements : List Value) : Truncates (Action.newArray elements) (Action.newArray elements) :=
  of_output_eq fun _ => rfl

theorem print (line : String) : Truncates (Action.print line) (Action.print line) :=
  fun store => ⟨.inl rfl, .print store line⟩

/-- To go too deep at once is to be cut short at the very beginning. -/
theorem tooDeep {act act' : Action α} (h : act.Truncates act') : Truncates (Action.fault .tooDeep) act' :=
  fun store => ⟨.inr ⟨rfl, (h store).2⟩, (h store).2⟩

theorem bind {act act' : Action α} {next next' : α → Action β} (h : act.Truncates act')
    (hn : ∀ a, (next a).Truncates (next' a)) : (act >>= next).Truncates (act' >>= next') := by
  intro store
  obtain ⟨hdo, hprints⟩ := h store
  have hon : (act' store).2.PrintsOn ((act' >>= next') store).2 := by
    rw [bind_run]
    rcases act' store with ⟨cause | a, store'⟩
    · exact .refl store'
    · exact (hn a store').2
  refine ⟨?_, hprints.trans hon⟩
  rcases hdo with hsame | ⟨hdeep, hbegin⟩
  · rw [bind_run, bind_run, hsame]
    rcases act store with ⟨cause | a, store'⟩
    · exact .inl rfl
    · exact (hn a store').1
  · have hcut : (act >>= next) store = (.error .tooDeep, (act store).2) := by
      rw [bind_run]
      rcases hact : act store with ⟨result, store'⟩
      rw [hact] at hdeep
      cases hdeep
      rfl
    rw [hcut]
    exact .inr ⟨rfl, hbegin.trans hon⟩

theorem inspectWithin {room room' : Nat} (h : room ≤ room') (value : Value) :
    Truncates (Action.ofExcept (value.inspectWithin room)) (Action.ofExcept (value.inspectWithin room')) := by
  rcases value.inspectWithin_of_le h with hv | hv <;> rw [hv]
  · exact (ofExcept (value.inspectWithin room')).tooDeep
  · exact ofExcept _

end Truncates

end Action

open Scriptlet.Action (Truncates)

/-! ### Builtins -/

namespace Builtin

theorem truncates_withOne (arguments : List Value) {body : Value → Action Value}
    (h : ∀ argument, (body argument).Truncates (body argument)) :
    (withOne arguments body).Truncates (withOne arguments body) := by
  unfold withOne
  split
  · exact h _
  · exact .pure _

theorem truncates_withArray (builtin : Builtin) (arguments : List Value) {body : List Value → Action Value}
    (h : ∀ elements, (body elements).Truncates (body elements)) :
    (withArray builtin arguments body).Truncates (withArray builtin arguments body) := by
  refine truncates_withOne arguments fun argument => ?_
  split
  · exact h _
  · exact (Truncates.ofExcept _).bind fun _ => .pure _

variable {room room' : Nat} (h : room ≤ room')
include h

theorem truncates_printAll (values : List Value) : (printAll room values).Truncates (printAll room' values) := by
  induction values with
  | nil => exact .pure _
  | cons value values ih => exact (Truncates.inspectWithin h value).bind fun line => (Truncates.print line).bind fun _ => ih

theorem truncates_call (builtin : Builtin) (arguments : List Value) :
    (builtin.call room arguments).Truncates (builtin.call room' arguments) := by
  cases builtin with
  | len =>
    refine truncates_withOne arguments fun argument => ?_
    split
    · exact .pure _
    · exact .pure _
    · exact (Truncates.ofExcept _).bind fun _ => .pure _
  | push =>
    simp only [call]
    split
    · exact .newArray _
    · exact (Truncates.ofExcept _).bind fun _ => .pure _
    · exact .pure _
  | first => exact truncates_withArray _ arguments fun _ => .pure _
  | last => exact truncates_withArray _ arguments fun _ => .pure _
  | rest =>
    refine truncates_withArray _ arguments fun elements => ?_
    split
    · exact .pure _
    · exact .newArray _
  | spit => exact (truncates_printAll h arguments).bind fun _ => .pure _

end Builtin

/-! ### Nodes -/

section

variable {ev ev' : Evaluator} (hev : ∀ node i, (ev node i).Truncates (ev' node i)) (i : ScopeId)
include hev

theorem truncates_evalThen (node : Node) {next next' : Value → Action Value}
    (hn : ∀ value, (next value).Truncates (next' value)) :
    (evalThen ev node i next).Truncates (evalThen ev' node i next') := by
  refine (hev node i).bind fun value => ?_
  split
  · exact .pure _
  · exact hn value

theorem truncates_evalSequence (nodes : List Node) (last : Value) :
    (evalSequence ev i nodes last).Truncates (evalSequence ev' i nodes last) := by
  induction nodes generalizing last with
  | nil => exact .pure _
  | cons node nodes ih => exact truncates_evalThen hev i node ih

theorem truncates_evalAllThen (nodes : List Node) {next next' : List Value → Action Value}
    (hn : ∀ values, (next values).Truncates (next' values)) (seen : List Value) :
    (evalAllThen ev i next nodes seen).Truncates (evalAllThen ev' i next' nodes seen) := by
  induction nodes generalizing seen with
  | nil => exact hn _
  | cons node nodes ih => exact truncates_evalThen hev i node fun value => ih (value :: seen)

omit hev in
theorem truncates_evalName (name : String) : (evalName i name).Truncates (evalName i name) := by
  refine Truncates.bind (.of_output_eq fun _ => rfl) fun found => ?_
  split
  · exact .pure _
  · split <;> exact .pure _

variable {room room' : Nat} (hroom : room ≤ room')
include hroom

omit i in
theorem truncates_applyFunction (callee : Value) (arguments : List Value) :
    (applyFunction ev room callee arguments).Truncates (applyFunction ev' room' callee arguments) := by
  unfold applyFunction
  split
  · split
    · exact Truncates.bind (.of_output_eq fun _ => rfl) fun scope => (hev _ scope).bind fun _ => .pure _
    · exact .pure _
  · exact Builtin.truncates_call hroom _ _
  · exact (Truncates.ofExcept _).bind fun _ => .pure _

/-- One step: if the evaluation of every part is cut short, so is that of the node. -/
theorem truncates_evalNode (node : Node) : (evalNode ev room node i).Truncates (evalNode ev' room' node i) := by
  cases node with
  | hole | bare | parameterList => exact .fault _
  | tokenless node => exact hev node i
  | program statements => exact (truncates_evalSequence hev i statements _).bind fun _ => .pure _
  | block token statements => exact truncates_evalSequence hev i statements _
  | identifier id => exact truncates_evalName i id.name
  | integer | boolean | string => exact .pure _
  | prefixOp token operator right => exact truncates_evalThen hev i right fun _ => .ofExcept _
  | infixOp token operator left right =>
    exact truncates_evalThen hev i left fun _ => truncates_evalThen hev i right fun _ => .ofExcept _
  | conditional token condition consequence alternative =>
    refine truncates_evalThen hev i condition fun value => ?_
    split
    · exact hev consequence i
    · split
      · exact .pure _
      · exact hev alternative i
  | function token parameters body => exact .of_output_eq fun _ => rfl
  | call token callee arguments =>
    exact truncates_evalThen hev i callee fun value =>
      truncates_evalAllThen hev i arguments (truncates_applyFunction hev hroom value) []
  | array token elements => exact truncates_evalAllThen hev i elements (fun _ => .newArray _) []
  | index token left subscript =>
    exact truncates_evalThen hev i left fun _ => truncates_evalThen hev i subscript fun _ => .ofExcept _
  | letStatement token name value =>
    refine truncates_evalThen hev i value fun value' => ?_
    cases name with
    | none => exact .fault _
    | some id => exact Truncates.bind (.of_output_eq fun _ => rfl) fun _ => .pure _
  | returnStatement token value => exact truncates_evalThen hev i value fun _ => .pure _
  | expressionStatement token expression => exact hev expression i

end

/-- An evaluation is cut short by a limit that is lower. -/
theorem truncates_eval {depth depth' : Nat} (h : depth ≤ depth') (node : Node) (i : ScopeId) :
    (eval depth node i).Truncates (eval depth' node i) := by
  induction depth' generalizing depth node i with
  | zero =>
    obtain rfl : depth = 0 := Nat.le_zero.1 h
    exact .fault _
  | succ depth' ih =>
    cases depth with
    | zero => exact (truncates_evalNode (fun node i => ih (Nat.le_refl _) node i) i (Nat.le_refl _) node).tooDeep
    | succ depth =>
      have hle : depth ≤ depth' := Nat.le_of_succ_le_succ h
      exact truncates_evalNode (fun node i => ih hle node i) i hle node

end Scriptlet
