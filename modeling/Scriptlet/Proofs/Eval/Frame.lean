import Mathlib.Tactic.ByContra
import Scriptlet.Proofs.Eval.Action

/-!
# Evaluation writes to one scope

`Store.Rewrites may before after`: every scope of `before` is still there in `after`, inside the same
outer scope and with all its names, and only what `may` allows is bound anew. The evaluation of a node
in a scope may bind in that scope the names of the `let` statements of the node; those inside a
function literal belong to the calls of the function. A call binds in a scope of its own, which is new,
so nothing at all changes in the scopes that were there before it.
-/

namespace Scriptlet

namespace Node

def isFunction : Node → Bool
  | .function _ _ _ => true
  | _ => false

/-- The node holds a `let` of the name outside every function literal. -/
inductive Lets (name : String) : Node → Prop
  | here {token : Token} {id : Identifier} {value : Node} (h : id.name = name) :
    Lets name (.letStatement token (some id) value)
  | inside {node child : Node} (hf : node.isFunction = false) (hc : child ∈ node.children)
    (h : Lets name child) : Lets name node

end Node

/-- The scope `new` comes from `old` by binding some of the names that `may` allows. -/
structure Scope.Rebinds (may : String → Prop) (old new : Scope) : Prop where
  outer : new.outer = old.outer
  kept : ∀ name, (old.bindings.get? name).isSome → (new.bindings.get? name).isSome
  others : ∀ name, ¬ may name → new.bindings.get? name = old.bindings.get? name
  same : (∀ name, ¬ may name) → new = old

namespace Scope.Rebinds

variable {may may' : String → Prop} {a b c : Scope}

theorem refl (may : String → Prop) (a : Scope) : a.Rebinds may a :=
  ⟨rfl, fun _ h => h, fun _ _ => rfl, fun _ => rfl⟩

theorem trans (hab : a.Rebinds may b) (hbc : b.Rebinds may c) : a.Rebinds may c where
  outer := hbc.outer.trans hab.outer
  kept name h := hbc.kept name (hab.kept name h)
  others name h := (hbc.others name h).trans (hab.others name h)
  same h := (hbc.same h).trans (hab.same h)

theorem mono (h : a.Rebinds may b) (hm : ∀ name, may name → may' name) : a.Rebinds may' b :=
  ⟨h.outer, h.kept, fun name hn => h.others name (mt (hm name) hn),
    fun hn => h.same fun name => mt (hm name) (hn name)⟩

theorem bind {name : String} (h : may name) (value : Value) (a : Scope) :
    a.Rebinds may { a with bindings := a.bindings.set name value } where
  outer := rfl
  kept other hs := by
    show ((a.bindings.set name value).get? other).isSome = true
    rw [Bindings.get?_set]
    split
    · rfl
    · exact hs
  others other hn := by
    show (a.bindings.set name value).get? other = a.bindings.get? other
    rw [Bindings.get?_set, if_neg]
    rintro rfl
    exact hn h
  same hn := absurd h (hn name)

end Scope.Rebinds

namespace Store

/-- From `before` to `after`, only names that `may` allows for a scope are bound anew in it. -/
def Rewrites (may : ScopeId → String → Prop) (before after : Store) : Prop :=
  ∀ (i : ScopeId) (old : Scope), before.scopes[i]? = some old →
    ∃ new, after.scopes[i]? = some new ∧ old.Rebinds (may i) new

/-- From `before` to `after`, no scope changes; there may be new ones. -/
def Keeps (before after : Store) : Prop :=
  ∀ (i : ScopeId) (old : Scope), before.scopes[i]? = some old → after.scopes[i]? = some old

namespace Rewrites

variable {may may' : ScopeId → String → Prop} {a b c : Store}

theorem of_scopes_eq (h : b.scopes = a.scopes) : a.Rewrites may b :=
  fun i old ho => ⟨old, by rw [h]; exact ho, .refl _ _⟩

theorem trans (hab : a.Rewrites may b) (hbc : b.Rewrites may c) : a.Rewrites may c := by
  intro i old ho
  obtain ⟨mid, hm, h₁⟩ := hab i old ho
  obtain ⟨new, hn, h₂⟩ := hbc i mid hm
  exact ⟨new, hn, h₁.trans h₂⟩

theorem mono (h : a.Rewrites may b) (hm : ∀ i name, may i name → may' i name) :
    a.Rewrites may' b := by
  intro i old ho
  obtain ⟨new, hn, hr⟩ := h i old ho
  exact ⟨new, hn, hr.mono (hm i)⟩

theorem of_keeps (h : a.Keeps b) : a.Rewrites may b :=
  fun i old ho => ⟨old, h i old ho, .refl _ _⟩

/-- A scope in which nothing may be bound is as it was. -/
theorem getElem?_eq (h : a.Rewrites may b) {i : ScopeId} (hi : ∀ name, ¬ may i name) {old : Scope}
    (ho : a.scopes[i]? = some old) : b.scopes[i]? = some old := by
  obtain ⟨new, hn, hr⟩ := h i old ho
  rw [hn, hr.same hi]

theorem set {scope : ScopeId} {name : String} (h : may scope name) (value : Value) (a : Store) :
    a.Rewrites may (a.set scope name value) := by
  intro i old ho
  show ∃ new, (a.scopes.modify scope _)[i]? = some new ∧ _
  rw [Array.getElem?_modify]
  split
  · next hi =>
    subst hi
    exact ⟨_, by rw [ho]; rfl, .bind h value old⟩
  · exact ⟨old, ho, .refl _ _⟩

end Rewrites

theorem Keeps.addScope (a : Store) (scope : Scope) : a.Keeps (a.addScope scope).2 := by
  intro i old ho
  show (a.scopes.push scope)[i]? = some old
  obtain ⟨hi, -⟩ := Array.getElem?_eq_some_iff.1 ho
  rw [Array.getElem?_push, if_neg (by omega)]
  exact ho

end Store

/-- Whatever the store, the action binds only what `may` allows, also when it ends in a fault. -/
def Action.Writes {α : Type} (may : ScopeId → String → Prop) (act : Action α) : Prop :=
  ∀ store : Store, store.Rewrites may (act store).2

namespace Action.Writes

variable {α β : Type} {may may' : ScopeId → String → Prop}

theorem of_scopes_eq {act : Action α} (h : ∀ store, (act store).2.scopes = store.scopes) :
    act.Writes may :=
  fun store => .of_scopes_eq (h store)

theorem pure (a : α) : (Pure.pure a : Action α).Writes may := of_scopes_eq fun _ => rfl

theorem fault (cause : Fault) : (Action.fault cause : Action α).Writes may := of_scopes_eq fun _ => rfl

theorem ofExcept (result : Except Fault α) : (Action.ofExcept result).Writes may :=
  of_scopes_eq fun _ => rfl

theorem newArray (elements : List Value) : (Action.newArray elements).Writes may :=
  of_scopes_eq fun _ => rfl

theorem mono {act : Action α} (h : act.Writes may) (hm : ∀ i name, may i name → may' i name) :
    act.Writes may' :=
  fun store => (h store).mono hm

theorem bind {act : Action α} {next : α → Action β} (h : act.Writes may)
    (hn : ∀ a, (next a).Writes may) : (act >>= next).Writes may := by
  intro store
  have h₁ := h store
  rw [bind_run]
  generalize act store = r at h₁
  obtain ⟨cause | a, store'⟩ := r
  · exact h₁
  · exact h₁.trans (hn a store')

end Action.Writes

open Scriptlet.Action (Writes)

variable {may : ScopeId → String → Prop}

namespace Builtin

theorem writes_withOne {arguments : List Value} {body : Value → Action Value}
    (h : ∀ argument, (body argument).Writes may) : (withOne arguments body).Writes may := by
  unfold withOne
  split
  · exact h _
  · exact .pure _

theorem writes_withArray (builtin : Builtin) {arguments : List Value}
    {body : List Value → Action Value} (h : ∀ elements, (body elements).Writes may) :
    (withArray builtin arguments body).Writes may := by
  refine writes_withOne fun argument => ?_
  split
  · exact h _
  · exact (Writes.ofExcept _).bind fun _ => .pure _

theorem writes_printAll (room : Nat) (values : List Value) : (printAll room values).Writes may := by
  induction values with
  | nil => exact .pure _
  | cons value values ih =>
    exact (Writes.ofExcept _).bind fun line => Writes.bind (.of_scopes_eq fun _ => rfl) fun _ => ih

/-- A builtin binds nothing. -/
theorem writes_call (room : Nat) (builtin : Builtin) (arguments : List Value) :
    (builtin.call room arguments).Writes may := by
  cases builtin with
  | len =>
    refine writes_withOne fun argument => ?_
    split
    · exact .pure _
    · exact .pure _
    · exact (Writes.ofExcept _).bind fun _ => .pure _
  | push =>
    simp only [call]
    split
    · exact .newArray _
    · exact (Writes.ofExcept _).bind fun _ => .pure _
    · exact .pure _
  | first => exact writes_withArray _ fun _ => .pure _
  | last => exact writes_withArray _ fun _ => .pure _
  | rest =>
    refine writes_withArray _ fun elements => ?_
    split
    · exact .pure _
    · exact .newArray _
  | spit => exact (writes_printAll room arguments).bind fun _ => .pure _

end Builtin

section

variable {ev : Evaluator} {scope : ScopeId}

theorem writes_evalThen {node : Node} {next : Value → Action Value} (h : (ev node scope).Writes may)
    (hn : ∀ value, (next value).Writes may) : (evalThen ev node scope next).Writes may := by
  refine h.bind fun value => ?_
  split
  · exact .pure _
  · exact hn value

theorem writes_evalSequence {nodes : List Node} (h : ∀ node ∈ nodes, (ev node scope).Writes may)
    (last : Value) : (evalSequence ev scope nodes last).Writes may := by
  induction nodes generalizing last with
  | nil => exact .pure _
  | cons node nodes ih =>
    refine (h node (by simp)).bind fun value => ?_
    split
    · exact .pure _
    · exact ih (fun node hn => h node (by simp [hn])) value

theorem writes_evalAllThen {nodes : List Node} {next : List Value → Action Value}
    (h : ∀ node ∈ nodes, (ev node scope).Writes may) (hn : ∀ values, (next values).Writes may)
    (seen : List Value) : (evalAllThen ev scope next nodes seen).Writes may := by
  induction nodes generalizing seen with
  | nil => exact hn _
  | cons node nodes ih =>
    refine (h node (by simp)).bind fun value => ?_
    split
    · exact .pure _
    · exact ih (fun node hn => h node (by simp [hn])) (value :: seen)

theorem writes_evalName (name : String) : (evalName scope name).Writes may := by
  refine Writes.bind (.of_scopes_eq fun _ => rfl) fun found => ?_
  split
  · exact .pure _
  · split <;> exact .pure _

end

/-- What the evaluation of a node in a scope may bind. -/
def ownLets (node : Node) (scope i : ScopeId) (name : String) : Prop := i = scope ∧ node.Lets name

section

variable {ev : Evaluator} (hev : ∀ node scope, (ev node scope).Writes (ownLets node scope))
include hev

/-- The body of a function is evaluated in a scope that was not there before the call. -/
theorem keeps_applyFunction (room : Nat) (callee : Value) (arguments : List Value) (store : Store) :
    store.Keeps (applyFunction ev room callee arguments store).2 := by
  have nothing : ∀ {act : Action Value}, act.Writes (fun _ _ => False) → store.Keeps (act store).2 :=
    fun h _ _ ho => (h store).getElem?_eq (fun _ => id) ho
  unfold applyFunction
  split
  · next parameters body outer =>
    split
    · intro i old ho
      obtain ⟨hi, -⟩ := Array.getElem?_eq_some_iff.1 ho
      rw [Action.bind_run_ok (Action.enclose_run outer _ store)]
      have hbody : (ev body store.scopes.size >>= fun value => pure value.unwrapped).Writes _ :=
        (hev body store.scopes.size).bind fun _ => .pure _
      refine (hbody _).getElem?_eq (fun name h => ?_) (Store.Keeps.addScope store _ i old ho)
      exact absurd h.1 (Nat.ne_of_lt hi)
    · exact nothing (.pure _)
  · exact nothing (Builtin.writes_call room _ _)
  · exact nothing ((Writes.ofExcept _).bind fun _ => .pure _)

theorem writes_applyFunction (room : Nat) (callee : Value) (arguments : List Value) :
    (applyFunction ev room callee arguments).Writes may :=
  fun store => .of_keeps (keeps_applyFunction hev room callee arguments store)

/-- One step: if every part binds only its own `let` names in the scope it is evaluated in, so does
the whole node. -/
theorem writes_evalNode (room : Nat) (node : Node) (scope : ScopeId) :
    (evalNode ev room node scope).Writes (ownLets node scope) := by
  have part : node.isFunction = false → ∀ child ∈ node.children,
      (ev child scope).Writes (ownLets node scope) := fun hf child hc =>
    (hev child scope).mono fun i name h => ⟨h.1, .inside hf hc h.2⟩
  cases node with
  | hole | bare | parameterList => exact .fault _
  | tokenless node => exact part rfl node (by simp [Node.children])
  | program statements =>
    exact (writes_evalSequence (part rfl) _).bind fun _ => .pure _
  | block token statements => exact writes_evalSequence (part rfl) _
  | identifier id => exact writes_evalName _
  | integer | boolean | string => exact .pure _
  | prefixOp token operator right =>
    exact writes_evalThen (part rfl right (by simp [Node.children])) fun _ => .ofExcept _
  | infixOp token operator left right =>
    exact writes_evalThen (part rfl left (by simp [Node.children])) fun _ =>
      writes_evalThen (part rfl right (by simp [Node.children])) fun _ => .ofExcept _
  | conditional token condition consequence alternative =>
    refine writes_evalThen (part rfl condition (by simp [Node.children])) fun value => ?_
    split
    · exact part rfl consequence (by simp [Node.children])
    · split
      · exact .pure _
      · exact part rfl alternative (by simp [Node.children])
  | function token parameters body => exact .of_scopes_eq fun _ => rfl
  | call token callee arguments =>
    refine writes_evalThen (part rfl callee (by simp [Node.children])) fun value => ?_
    exact writes_evalAllThen (fun node hn => part rfl node (by simp [Node.children, hn]))
      (fun _ => writes_applyFunction hev room _ _) []
  | array token elements => exact writes_evalAllThen (part rfl) (fun _ => .newArray _) []
  | index token left subscript =>
    exact writes_evalThen (part rfl left (by simp [Node.children])) fun _ =>
      writes_evalThen (part rfl subscript (by simp [Node.children])) fun _ => .ofExcept _
  | letStatement token name value =>
    refine writes_evalThen (part rfl value (by simp [Node.children])) fun value' => ?_
    cases name with
    | none => exact .fault _
    | some id =>
      exact Writes.bind (fun store => .set ⟨rfl, .here rfl⟩ value' store) fun _ => .pure _
  | returnStatement token value =>
    exact writes_evalThen (part rfl value (by simp [Node.children])) fun _ => .pure _
  | expressionStatement token expression => exact part rfl expression (by simp [Node.children])

end

theorem writes_eval (depth : Nat) (node : Node) (scope : ScopeId) :
    (eval depth node scope).Writes (ownLets node scope) := by
  induction depth generalizing node scope with
  | zero => exact .fault _
  | succ depth ih => exact writes_evalNode ih depth node scope

/-- Evaluation leaves all other scopes as they are, never changes where a scope stands, and binds in
its own scope only names of its own `let` statements; a call changes no scope at all. All this holds
also of an evaluation that ends in a fault. -/
theorem eval_writes_own_scope_only (depth : Nat) (node : Node) (scope : ScopeId) (store : Store) :
    (∀ (i : ScopeId) (old : Scope), store.scopes[i]? = some old → i ≠ scope →
      (eval depth node scope store).2.scopes[i]? = some old) ∧
    (∀ (i : ScopeId) (old : Scope), store.scopes[i]? = some old →
      ∃ new, (eval depth node scope store).2.scopes[i]? = some new ∧ new.outer = old.outer) ∧
    (∀ old : Scope, store.scopes[scope]? = some old →
      ∃ new, (eval depth node scope store).2.scopes[scope]? = some new ∧
        (∀ name, (old.bindings.get? name).isSome → (new.bindings.get? name).isSome) ∧
        ∀ name, new.bindings.get? name ≠ old.bindings.get? name → node.Lets name) ∧
    ∀ room callee arguments (i : ScopeId) (old : Scope), store.scopes[i]? = some old →
      (applyFunction (eval depth) room callee arguments store).2.scopes[i]? = some old := by
  have h := writes_eval depth node scope store
  refine ⟨fun i old ho hi => ?_, fun i old ho => ?_, fun old ho => ?_, ?_⟩
  · exact h.getElem?_eq (fun name hn => hi hn.1) ho
  · obtain ⟨new, hn, hr⟩ := h i old ho
    exact ⟨new, hn, hr.outer⟩
  · obtain ⟨new, hn, hr⟩ := h scope old ho
    refine ⟨new, hn, hr.kept, fun name hne => ?_⟩
    by_contra hl
    exact hne (hr.others name fun h => hl h.2)
  · exact fun room callee arguments => keeps_applyFunction (writes_eval depth) room callee arguments store

end Scriptlet
