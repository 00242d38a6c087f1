import Scriptlet.Proofs.Eval.Course
import Scriptlet.Proofs.Eval.Frame
import Scriptlet.Proofs.Eval.Scoped

/-!
# Handing values on

Names, parameters, returned values and elements of arrays never copy anything: what comes out is the
value that went in, identity included. `Evaluation.HandsOn` says so of one evaluation, for every
construct that hands a value on, and `handsOn_of_allows` proves it of all evaluations in which scopes exist
and no value is absent.

A returned value is a signal on its way to the call or the program around it, and every construct in between
passes it on (`Evaluation.outcome_of_asks`). What is in between is what asks for a part that gives a signal.
-/

namespace Scriptlet

/-! ### Names -/

namespace Bindings

theorem get?_foldl_set {pairs : List (Identifier × Value)} {name : String}
    (h : ∀ pair ∈ pairs, pair.1.name ≠ name) (bindings : Bindings) :
    Bindings.get? (pairs.foldl (fun bindings pair => set pair.1.name pair.2 bindings) bindings) name =
      bindings.get? name := by
  induction pairs generalizing bindings with
  | nil => rfl
  | cons pair pairs ih =>
    obtain ⟨hfirst, hrest⟩ := List.forall_mem_cons.1 h
    rw [List.foldl_cons, ih hrest, get?_set, if_neg hfirst]

/-- A parameter is bound to the argument at its place, unless a later parameter has the same name. -/
theorem get?_ofArguments {parameters : List Identifier} {arguments : List Value} {i : Nat}
    {id : Identifier} {value : Value} (hp : parameters[i]? = some id) (ha : arguments[i]? = some value)
    (hlast : ∀ j other, i < j → parameters[j]? = some other → other.name ≠ id.name) :
    (ofArguments parameters arguments).get? id.name = some value := by
  have key : ∀ bindings : Bindings, Bindings.get? ((parameters.zip arguments).foldl
      (fun bindings pair => set pair.1.name pair.2 bindings) bindings) id.name = some value := by
    induction parameters generalizing arguments i with
    | nil => cases hp
    | cons first parameters ih =>
      cases arguments with
      | nil => cases ha
      | cons argument arguments =>
        intro bindings
        rw [List.zip_cons_cons, List.foldl_cons]
        cases i with
        | zero =>
          cases hp
          cases ha
          rw [get?_foldl_set, get?_set, if_pos rfl]
          intro pair hm
          obtain ⟨j, hj⟩ := List.mem_iff_getElem?.1 (List.of_mem_zip hm).1
          exact hlast (j + 1) pair.1 (Nat.succ_pos j) hj
        | succ i =>
          exact ih hp ha (fun j other hj ho => hlast (j + 1) other (Nat.succ_lt_succ hj) ho) _
  exact key []

end Bindings

namespace Store

variable {store : Store} {i : ScopeId} {name : String} {value : Value}

/-- A name that a scope itself binds is found there. -/
theorem lookup_of_get? {scope : Scope} (hs : store.scopes[i]? = some scope)
    (hb : scope.bindings.get? name = some value) (ha : value.isAbsent = false) :
    store.lookup i name = some value := by
  simp [lookup, lookupWithin, hs, hb, ha]

theorem lookup_set (hi : i < store.scopes.size) (ha : value.isAbsent = false) :
    (store.set i name value).lookup i name = some value := by
  have hs : (store.set i name value).scopes[i]? =
      some { store.scopes[i] with bindings := store.scopes[i].bindings.set name value } := by
    simp [set, Array.getElem?_modify, Array.getElem?_eq_getElem hi]
  refine lookup_of_get? hs ?_ ha
  show (store.scopes[i].bindings.set name value).get? name = some value
  rw [Bindings.get?_set, if_pos rfl]

theorem lookup_addScope {scope : Scope} (hb : scope.bindings.get? name = some value)
    (ha : value.isAbsent = false) :
    (store.addScope scope).2.lookup store.scopes.size name = some value :=
  lookup_of_get? (by simp [addScope]) hb ha

end Store

/-! ### Signals -/

theorem Store.Rewrites.size_le {may : ScopeId → String → Prop} {before after : Store}
    (h : before.Rewrites may after) : before.scopes.size ≤ after.scopes.size := by
  by_contra hlt
  obtain ⟨new, hnew, -⟩ := h after.scopes.size _ (Array.getElem?_eq_getElem (Nat.lt_of_not_le hlt))
  exact absurd (Array.getElem?_eq_some_iff.1 hnew).1 (Nat.lt_irrefl _)

/-- In stores with more than `i` scopes, the second action does what the first does, unless the first ends
with `stop`. -/
def Action.StopsOrAgrees (i : ScopeId) (stop : Except Fault Value × Store) (act act' : Action Value) : Prop :=
  ∀ store, i < store.scopes.size → act store = stop ∨ act' store = act store

namespace Evaluation

/-! An evaluator `ev` that differs from `eval` in its answer to `part` only, where `eval` answers with a
signal. Whatever is evaluated in the scope of `part` stops with that signal, or never comes to `part`. -/

section

variable {part : Evaluation} {ev : Evaluator} {signal : Value} {after : Store}
  (hev : ∀ node i store, ¬ (node = part.node ∧ i = part.scope ∧ store = part.store) →
    ev node i store = eval part.depth node i store)
  (hpart : part.outcome = (.ok signal, after)) (hs : signal.isSignal = true)

include hev hpart

theorem stopsOrAgrees_eval (node : Node) (i : ScopeId) :
    Action.StopsOrAgrees part.scope (.ok signal, after) (eval part.depth node i) (ev node i) := by
  intro store _
  by_cases hsame : node = part.node ∧ i = part.scope ∧ store = part.store
  · obtain ⟨rfl, rfl, rfl⟩ := hsame
    exact .inl hpart
  · exact .inr (hev node i store hsame)

include hs

theorem stopsOrAgrees_bind {node : Node} {i : ScopeId} {next next' : Value → Action Value}
    (hnext : ∀ value, Action.StopsOrAgrees part.scope (.ok signal, after) (next value) (next' value)) :
    Action.StopsOrAgrees part.scope (.ok signal, after)
      (eval part.depth node i >>= fun value => if value.isSignal then pure value else next value)
      (ev node i >>= fun value => if value.isSignal then pure value else next' value) := by
  intro store hi
  rcases stopsOrAgrees_eval hev hpart node i store hi with hstop | hagree
  · refine .inl ?_
    rw [Action.bind_run_ok hstop, if_pos hs]
    rfl
  · have hsize := (writes_eval part.depth node i store).size_le
    rw [Action.bind_run, Action.bind_run, hagree]
    cases ho : eval part.depth node i store with
    | mk result store' =>
      rw [ho] at hsize
      cases result with
      | error cause => exact .inr rfl
      | ok value =>
        dsimp only
        split
        · exact .inr rfl
        · exact hnext value store' (hi.trans_le hsize)

theorem stopsOrAgrees_evalSequence (i : ScopeId) (nodes : List Node) (last : Value) :
    Action.StopsOrAgrees part.scope (.ok signal, after) (evalSequence (eval part.depth) i nodes last)
      (evalSequence ev i nodes last) := by
  induction nodes generalizing last with
  | nil => exact fun _ _ => .inr rfl
  | cons node nodes ih => exact stopsOrAgrees_bind hev hpart hs ih

theorem stopsOrAgrees_evalAllThen {next next' : List Value → Action Value}
    (hnext : ∀ values, Action.StopsOrAgrees part.scope (.ok signal, after) (next values) (next' values))
    (i : ScopeId) (nodes : List Node) (seen : List Value) :
    Action.StopsOrAgrees part.scope (.ok signal, after) (evalAllThen (eval part.depth) i next nodes seen)
      (evalAllThen ev i next' nodes seen) := by
  induction nodes generalizing seen with
  | nil => exact hnext seen.reverse
  | cons node nodes ih => exact stopsOrAgrees_bind hev hpart hs fun value => ih (value :: seen)

omit hpart hs in
/-- A call evaluates its body in a scope that is new, which is not that of `part`. -/
theorem stopsOrAgrees_applyFunction (room : Nat) (callee : Value) (arguments : List Value) :
    Action.StopsOrAgrees part.scope (.ok signal, after) (applyFunction (eval part.depth) room callee arguments)
      (applyFunction ev room callee arguments) := by
  intro store hi
  refine .inr ?_
  cases callee with
  | function k parameters body outer =>
    have hbody : ∀ store', ev body store.scopes.size store' = eval part.depth body store.scopes.size store' :=
      fun store' => hev _ _ _ fun hsame => absurd hsame.2.1 (Nat.ne_of_gt hi)
    simp only [applyFunction]
    split
    · rw [Action.bind_run_ok (Action.enclose_run ..), Action.bind_run_ok (Action.enclose_run ..),
        Action.bind_run, Action.bind_run, hbody]
    · rfl
  | _ => rfl

/-- A node that is no program stops with the signal of a part in its own scope. -/
theorem stopsOrAgrees_evalNode (node : Node) (i : ScopeId) (hnode : ∀ statements, node ≠ .program statements) :
    Action.StopsOrAgrees part.scope (.ok signal, after) (evalNode (eval part.depth) part.depth node i)
      (evalNode ev part.depth node i) := by
  have same : ∀ act : Action Value, Action.StopsOrAgrees part.scope (.ok signal, after) act act :=
    fun _ _ _ => .inr rfl
  have one := stopsOrAgrees_eval hev hpart
  cases node with
  | program statements => exact absurd rfl (hnode statements)
  | block _ statements => exact stopsOrAgrees_evalSequence hev hpart hs i statements .null
  | expressionStatement _ expression => exact one expression i
  | tokenless node => exact one node i
  | returnStatement | letStatement | prefixOp => exact stopsOrAgrees_bind hev hpart hs fun _ => same _
  | infixOp | index =>
    exact stopsOrAgrees_bind hev hpart hs fun _ => stopsOrAgrees_bind hev hpart hs fun _ => same _
  | conditional _ condition consequence alternative =>
    refine stopsOrAgrees_bind hev hpart hs fun value => ?_
    split
    · exact one consequence i
    · split
      · exact same _
      · exact one alternative i
  | call _ callee arguments =>
    exact stopsOrAgrees_bind hev hpart hs fun value =>
      stopsOrAgrees_evalAllThen hev hpart hs (stopsOrAgrees_applyFunction hev part.depth value) i arguments []
  | array _ elements => exact stopsOrAgrees_evalAllThen hev hpart hs (fun _ => same _) i elements []
  | _ => exact same _

end

/-- A signal that a part gives in the scope of the whole is what the whole gives; a program unwraps it. -/
theorem outcome_of_asks {e part : Evaluation} {signal : Value} {after : Store} (ha : e.Asks part)
    (hscope : part.scope = e.scope) (hsize : e.scope < e.store.scopes.size)
    (hpart : part.outcome = (.ok signal, after)) (hs : signal.isSignal = true) :
    e.outcome = (.ok signal, after) ∨
      (∃ statements, e.node = .program statements) ∧ e.outcome = (.ok signal.unwrapped, after) := by
  obtain ⟨hdepth, ev, hev, hne⟩ := ha
  have heval : e.outcome = evalNode (eval part.depth) part.depth e.node e.scope e.store := by
    rw [outcome, hdepth]
    rfl
  rw [heval] at hne ⊢
  rw [← hscope] at hsize
  by_cases hnode : ∃ statements, e.node = .program statements
  · refine .inr ⟨hnode, ?_⟩
    obtain ⟨statements, hnode⟩ := hnode
    rw [hnode] at hne ⊢
    rcases stopsOrAgrees_evalSequence hev hpart hs e.scope statements .null e.store hsize with hstop | hagree
    · show (evalSequence _ _ _ _ >>= _) _ = _
      rw [Action.bind_run_ok hstop]
      rfl
    · refine absurd ?_ hne
      show (evalSequence _ _ _ _ >>= _) _ = (evalSequence _ _ _ _ >>= _) _
      rw [Action.bind_run, Action.bind_run, hagree]
  · refine .inl ((stopsOrAgrees_evalNode hev hpart hs e.node e.scope ?_ e.store hsize).resolve_right hne)
    exact fun statements heq => hnode ⟨statements, heq⟩

end Evaluation

/-! ### One evaluation -/

namespace Evaluation

variable {depth : Nat} {i : ScopeId} {node : Node} {nodes : List Node} {store store' : Store}
  {value : Value} {values : List Value} {e : Evaluation}

theorem Gives.evalThen (h : Gives depth i (node :: nodes) store (value :: values) store')
    (next : Value → Action Value) : ∃ store₁, evalThen (eval depth) node i next store = next value store₁ ∧
      Gives depth i nodes store₁ values store' := by
  cases h with
  | cons hv hs h => exact ⟨_, evalThen_value hv hs next, h⟩

/-- The value of a list of nodes is a signal that one of them gave, or all have values to go on with. -/
theorem evalAllThen_cases {next : List Value → Action Value} {seen : List Value}
    (h : evalAllThen (eval depth) i next nodes seen store = (.ok value, store')) :
    (value.isSignal = true ∧ ∃ node ∈ nodes, ∃ store₁, eval depth node i store₁ = (.ok value, store')) ∨
    ∃ values store₁, Gives depth i nodes store values store₁ ∧
      next (seen.reverse ++ values) store₁ = (.ok value, store') := by
  induction nodes generalizing seen store with
  | nil =>
    refine .inr ⟨[], store, .nil store, ?_⟩
    rw [List.append_nil]
    exact h
  | cons node nodes ih =>
    rw [evalAllThen, Action.bind_run] at h
    cases ho : eval depth node i store with
    | mk result store₁ =>
      rw [ho] at h
      cases result with
      | error cause => cases h
      | ok first =>
        dsimp only at h
        by_cases hs : first.isSignal = true
        · rw [if_pos hs] at h
          cases h
          exact .inl ⟨hs, node, by simp, store, ho⟩
        · rw [if_neg hs] at h
          rcases ih h with ⟨hsignal, other, hm, hother⟩ | ⟨values, store₂, hg, hnext⟩
          · exact .inl ⟨hsignal, other, by simp [hm], hother⟩
          · refine .inr ⟨first :: values, store₂, .cons ho (Bool.eq_false_iff.2 hs) hg, ?_⟩
            rw [List.reverse_cons, List.append_assoc] at hnext
            exact hnext

theorem outcome_eq (h : e.depth ≠ 0) :
    e.outcome = evalNode (eval (e.depth - 1)) (e.depth - 1) e.node e.scope e.store := by
  obtain ⟨depth, hd⟩ := Nat.exists_eq_succ_of_ne_zero h
  rw [outcome, hd]
  rfl

/-- What has parts that are evaluated is not at the bottom. -/
theorem Gives.depth_ne_zero (h : Gives (e.depth - 1) i (node :: nodes) store values store') : e.depth ≠ 0 := by
  intro hzero
  rw [hzero] at h
  cases h with
  | cons hv => cases hv

/-- The evaluation of the body of a function that is called with the arguments. -/
def inside (e : Evaluation) (parameters : List Identifier) (body : Node) (outer : ScopeId)
    (arguments : List Value) (store : Store) : Evaluation where
  depth := e.depth - 1
  node := body
  scope := store.scopes.size
  store := (store.addScope ⟨some outer, Bindings.ofArguments parameters arguments⟩).2

/-- A call gives what the body of the function gives, unwrapped. -/
theorem Applies.outcome_of_inside {k : Identity} {parameters : List Identifier} {body : Node} {outer : ScopeId}
    {arguments : List Value} (h : e.Applies (.function k parameters body outer) arguments store)
    (hlength : arguments.length = parameters.length)
    (hbody : (e.inside parameters body outer arguments store).outcome = (.ok value, store')) :
    e.outcome = (.ok value.unwrapped, store') := by
  have heval : eval (e.depth - 1) body store.scopes.size
      (store.addScope ⟨some outer, Bindings.ofArguments parameters arguments⟩).2 = (.ok value, store') := hbody
  rw [h.outcome_eq, applyFunction, if_pos hlength, Action.bind_run_ok (Action.enclose_run ..),
    Action.bind_run_ok heval]
  rfl

/-- Whatever the evaluation hands on is the very value that it was given: what `let` binds to a name, what a
name stands for, what an argument is inside the call, what `return` gives through all that is around it up to
the call or the program, and what is taken out of an array. -/
structure HandsOn (e : Evaluation) : Prop where
  letStatement : ∀ {token id node value store}, e.node = .letStatement token (some id) node →
    Gives (e.depth - 1) e.scope [node] e.store [value] store →
    e.outcome.1 = .ok .null ∧ e.outcome.2.lookup e.scope id.name = some value
  identifier : ∀ {id value}, e.depth ≠ 0 → e.node = .identifier id →
    e.store.lookup e.scope id.name = some value → e.outcome = (.ok value, e.store)
  parameter : ∀ {k parameters body outer arguments store} {i : Nat} {id : Identifier} {argument : Value},
    e.Applies (.function k parameters body outer) arguments store → parameters[i]? = some id →
    arguments[i]? = some argument →
    (∀ (j : Nat) (other : Identifier), i < j → parameters[j]? = some other → other.name ≠ id.name) →
    (e.inside parameters body outer arguments store).store.lookup
      (e.inside parameters body outer arguments store).scope id.name = some argument
  returnStatement : ∀ {token node value store}, e.node = .returnStatement token node →
    Gives (e.depth - 1) e.scope [node] e.store [value] store → e.outcome = (.ok (.returned value), store)
  call : ∀ {k parameters body outer arguments store value store'},
    e.Applies (.function k parameters body outer) arguments store →
    arguments.length = parameters.length →
    (e.inside parameters body outer arguments store).outcome = (.ok value, store') →
    e.outcome = (.ok value.unwrapped, store')
  returned : ∀ {part value store}, e.Asks part → part.scope = e.scope →
    part.outcome = (.ok (.returned value), store) → e.outcome = (.ok (.returned value), store) ∨
      (∃ statements, e.node = .program statements) ∧ e.outcome = (.ok value, store)
  index : ∀ {token left subscript k elements n value store}, e.node = .index token left subscript →
    Gives (e.depth - 1) e.scope [left, subscript] e.store [.array k elements, .integer n] store →
    0 ≤ n → elements[n.toInt.toNat]? = some value → e.outcome = (.ok value, store)
  first : ∀ {k elements value store}, e.Applies (.builtin .first) [.array k elements] store →
    elements.head? = some value → e.outcome = (.ok value, store)
  last : ∀ {k elements value store}, e.Applies (.builtin .last) [.array k elements] store →
    elements.getLast? = some value → e.outcome = (.ok value, store)

end Evaluation

namespace Discipline

open Evaluation

variable {e : Evaluation}

/-- The scope of an evaluation is still there when a part has been evaluated. -/
theorem scope_lt_of_gives {R : Regime} {n : ℕ} {nodes : List Node} {values : List Value} {store : Store}
    (h : (ofRegime R).Allows n e) (hn : ∀ node ∈ nodes, node ∈ e.node.parts)
    (hg : Gives (e.depth - 1) e.scope nodes e.store values store) :
    e.scope < store.scopes.size ∧ ∀ value ∈ values, value.isAbsent = false := by
  obtain ⟨u, hu, hs, hv⟩ := data_of_gives hg h.store (fun node hm => (ofRegime R).part h.node (hn node hm)) h.scope
  have hscope : e.scope < n := h.scope
  have hsize : store.scopes.size = u := hs.world.1
  exact ⟨hsize ▸ hscope.trans_le hu, fun value hm => (hv value hm).isAbsent_eq⟩

theorem handsOn_of_allows {R : Regime} {n : ℕ} (h : (ofRegime R).Allows n e) : e.HandsOn where
  letStatement := by
    intro token id node value store hnode hg
    obtain ⟨hscope, habsent⟩ := scope_lt_of_gives h (by simp [hnode, Node.parts, Node.children]) hg
    obtain ⟨store₁, heval, hnil⟩ := hg.evalThen fun value => do
      Action.bindName e.scope id.name value
      return .null
    cases hnil
    have hout : e.outcome = (.ok .null, store.set e.scope id.name value) := by
      rw [outcome_eq hg.depth_ne_zero, hnode]
      exact heval
    rw [hout]
    exact ⟨rfl, Store.lookup_set hscope (habsent value (by simp))⟩
  identifier := by
    intro id value hd hnode hl
    have hfound : Action.lookup e.scope id.name e.store = (.ok (some value), e.store) := by
      rw [← hl]
      rfl
    rw [outcome_eq hd, hnode]
    show evalName e.scope id.name e.store = _
    rw [evalName, Action.bind_run_ok hfound]
    rfl
  parameter := by
    intro k parameters body outer arguments store i id argument happ hp ha hlast
    obtain ⟨u, -, -, -, hargs, -⟩ := h.applies happ
    exact Store.lookup_addScope (Bindings.get?_ofArguments hp ha hlast)
      (hargs argument (List.mem_of_getElem? ha)).isAbsent_eq
  returnStatement := by
    intro token node value store hnode hg
    obtain ⟨store₁, heval, hnil⟩ := hg.evalThen fun value => return .returned value
    cases hnil
    rw [outcome_eq hg.depth_ne_zero, hnode]
    exact heval
  call := fun happ hlength hbody => happ.outcome_of_inside hlength hbody
  returned := by
    intro part value store ha hscope hpart
    have hsize : e.store.scopes.size = n := h.store.world.1
    exact outcome_of_asks ha hscope (hsize ▸ h.scope) hpart rfl
  index := by
    intro token left subscript k elements n value store hnode hg hn hv
    obtain ⟨store₁, hleft, hg'⟩ := hg.evalThen fun left =>
      evalThen (eval (e.depth - 1)) subscript e.scope fun subscript =>
        Action.ofExcept (applyIndex left subscript)
    obtain ⟨store₂, hright, hnil⟩ := hg'.evalThen fun subscript =>
      Action.ofExcept (applyIndex (.array k elements) subscript)
    cases hnil
    have helement : elementAt elements n = value := by
      have hpos : 0 ≤ n.toInt := Int64.le_iff_toInt_le.1 hn
      rw [elementAt, if_pos hpos, List.getD_eq_getElem?_getD, hv]
      rfl
    rw [outcome_eq hg.depth_ne_zero, hnode]
    show evalThen _ _ _ _ _ = _
    rw [hleft, hright, applyIndex, helement]
    rfl
  first := by
    intro k elements value store happ hv
    rw [happ.outcome_eq]
    show ((.ok (elements.headD .null), store) : Except Fault Value × Store) = _
    rw [List.headD_eq_head?_getD, hv]
    rfl
  last := by
    intro k elements value store happ hv
    rw [happ.outcome_eq]
    show ((.ok (elements.getLastD .null), store) : Except Fault Value × Store) = _
    rw [List.getLastD_eq_getLast?, hv]
    rfl

end Discipline

end Scriptlet
