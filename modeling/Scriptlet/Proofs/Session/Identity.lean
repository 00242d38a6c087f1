import Scriptlet.Proofs.Session.Arrival
import Scriptlet.Proofs.Session.Repeat

/-!
# Object identity

Arrays and functions are compared by their identity, so identities must be given out with care: one object
for each, and a new one for whatever is made. A `Census` lists all objects that were ever made, each at the
place that is its identity. It only grows; whatever is bound, passed or stored is listed in it, which is a
discipline (`Discipline.listed`). So two objects of one identity are one object, and an identity that is
not yet in the census belongs to nothing.
-/

namespace Scriptlet

/-! ### The census -/

/-- All arrays and functions that were made, in the order of their identities. -/
structure Census where
  objects : List Value

namespace Census

instance : Preorder Census where
  le census census' := census.objects <+: census'.objects
  le_refl _ := List.prefix_rfl
  le_trans _ _ _ := List.IsPrefix.trans

/-- The value has no identity, or is what the census has in that place. -/
def Lists (census : Census) (value : Value) : Prop :=
  ∀ k, value.identity? = some k → census.objects[k]? = some value

variable {census census' : Census} {value : Value}

theorem Lists.mono (h : census.Lists value) (hle : census ≤ census') : census'.Lists value := by
  intro k hk
  obtain ⟨later, hlater⟩ := hle
  have hfound := h k hk
  rw [← hlater, List.getElem?_append_left (List.getElem?_eq_some_iff.1 hfound).1]
  exact hfound

def add (census : Census) (value : Value) : Census := ⟨census.objects ++ [value]⟩

theorem le_add (census : Census) (value : Value) : census ≤ census.add value := List.prefix_append _ _

theorem lists_add (h : value.identity? = some census.objects.length) : (census.add value).Lists value := by
  intro k hk
  obtain rfl : census.objects.length = k := Option.some.inj (h.symm.trans hk)
  exact List.getElem?_concat_length

end Census

namespace Discipline

theorem census_fresh {census : Census} {store : Store} {value : Value}
    (hk : store.nextIdentity = census.objects.length) (hi : value.identity? = some store.nextIdentity) :
    ∃ census' : Census, census ≤ census' ∧ store.fresh.2.nextIdentity = census'.objects.length ∧
      census'.Lists value := by
  refine ⟨census.add value, census.le_add value, ?_, Census.lists_add (hk ▸ hi)⟩
  show store.nextIdentity + 1 = (census.objects ++ [value]).length
  rw [hk, List.length_append, List.length_singleton]

/-- A census lists all objects; trees and scopes are left open. -/
def listed : Discipline Census where
  runs _ := True
  object := Census.Lists
  scope _ _ := True
  world census store := store.nextIdentity = census.objects.length
  fault _ := True
  object_mono hw h := h.mono hw
  scope_mono _ h := h
  object_atom := by
    intro census value h k hk
    cases value <;> cases h <;> cases hk
  world_set _ _ _ h := h
  world_print _ h := h
  array hk _ := census_fresh hk rfl
  function hk _ _ := census_fresh hk rfl
  enclose _ hk _ := ⟨_, le_rfl, hk, trivial, trivial⟩
  part _ _ := trivial
  tooDeep := trivial
  nameless _ := trivial
  valueless _ _ := trivial
  unwritten _ _ := trivial

theorem listed_governs (limits : Limits) : listed.Governs limits ⟨[]⟩ where
  initial := ⟨rfl, by simp [Store.initial]⟩
  scope := trivial
  program _ _ _ _ := trivial

end Discipline

/-! ### What `==` says -/

namespace Value

/-- Arrays and functions. -/
def isObject (value : Value) : Bool := value.identity?.isSome

/-- What the operator `==` says of two values. -/
def EqualitySays (a b : Value) (truth : Bool) : Prop :=
  applyInfixOp false "==" a b = .ok (.boolean truth)

/-- The operator `==` tells the value from every object among `old`. -/
def NewAmong (value : Value) (old : Value → Prop) : Prop :=
  ∀ other, old other → other.isObject = true →
    value.EqualitySays other false ∧ other.EqualitySays value false

variable {a b value : Value}

/-- With an object on one side, `==` asks whether both are the same. -/
theorem equalitySays_iff (h : a.isObject = true ∨ b.isObject = true) {truth : Bool} :
    a.EqualitySays b truth ↔ a.isSame b = truth := by
  have hi : ¬ ∃ m n, a = .integer m ∧ b = .integer n := by
    rintro ⟨m, n, rfl, rfl⟩
    simp [isObject, identity?] at h
  have hs : ¬ ∃ s t, a = .string s ∧ b = .string t := by
    rintro ⟨s, t, rfl, rfl⟩
    simp [isObject, identity?] at h
  rw [EqualitySays, Shift.applyInfixOp_eq hi hs, if_pos rfl, Bool.false_or]
  simp

theorem isSame_self (h : value.isObject = true) : value.isSame value = true := by
  cases value with
  | array | function => exact beq_self_eq_true _
  | _ => cases h

theorem isSame_comm (a b : Value) : a.isSame b = b.isSame a := by
  cases a <;> cases b <;> simp [isSame, Bool.beq_comm]

/-- What is the same as an object has its identity. -/
theorem identity?_of_isSame (h : a.isSame b = true) (hb : b.isObject = true) :
    a.identity? = b.identity? := by
  cases b with
  | array k elements =>
    cases a with
    | array => exact congrArg some (beq_iff_eq.1 h)
    | _ => cases h
  | function k parameters body scope =>
    cases a with
    | function => exact congrArg some (beq_iff_eq.1 h)
    | _ => cases h
  | _ => cases hb

/-- A value whose identity is none of those in use is new among what has them. -/
theorem newAmong_of_identity {n : Identity} {old : Value → Prop}
    (hvalue : ∀ k, value.identity? = some k → n ≤ k)
    (hold : ∀ other k, old other → other.identity? = some k → k < n) : value.NewAmong old := by
  intro other ho hobject
  have hdiffer : value.isSame other = false := by
    refine Bool.eq_false_iff.2 fun hsame => ?_
    obtain ⟨k, hk⟩ := Option.isSome_iff_exists.1 hobject
    have hle := hvalue k ((identity?_of_isSame hsame hobject).trans hk)
    have hlt := hold other k ho hk
    exact absurd hlt (Nat.not_lt.2 hle)
  refine ⟨(equalitySays_iff (.inr hobject)).2 hdiffer, (equalitySays_iff (.inl hobject)).2 ?_⟩
  rw [isSame_comm]
  exact hdiffer

end Value

namespace Discipline

variable {w : Census} {store : Store} {a b value : Value}

theorem Holds.length_eq (h : listed.Holds w store) : store.nextIdentity = w.objects.length := h.world

theorem Data.lists (h : listed.Data w value) : w.Lists value := (h value .self).2.2

theorem Data.identity_lt (h : listed.Data w value) {k : Identity} (hk : value.identity? = some k) :
    k < w.objects.length :=
  (List.getElem?_eq_some_iff.1 (h.lists k hk)).1

/-- Two objects are one and the same to `==` only if they are one and the same. -/
theorem Data.equalitySays_iff (ha : listed.Data w a) (hb : listed.Data w b) (ho : b.isObject = true) :
    a.EqualitySays b true ↔ a = b := by
  rw [Value.equalitySays_iff (.inr ho)]
  constructor
  · intro hsame
    obtain ⟨k, hk⟩ := Option.isSome_iff_exists.1 ho
    have hka : a.identity? = some k := (Value.identity?_of_isSame hsame ho).trans hk
    exact Option.some.inj ((ha.lists k hka).symm.trans (hb.lists k hk))
  · rintro rfl
    exact Value.isSame_self ho

end Discipline

/-! ### What there was before -/

/-- The values that there were when a run of one more source had come to the store: what there was before the
run, what is bound in the store, and all that was evaluated until then in this run and those before it, with
what is inside. The identities that had been given out tell the time. -/
inductive Session.Existed (limits : Limits) (sources : List String) (source : String) (store : Store) :
    Value → Prop
  | available {value : Value} (h : Available limits sources value) : Existed limits sources source store value
  | bound {scope : Scope} {binding : String × Value} (hs : scope ∈ store.scopes)
    (hb : binding ∈ scope.bindings) : Existed limits sources source store binding.2
  | made {earlier later : List String} {run : String} {e : Evaluation} {value : Value}
    (hs : sources ++ [source] = earlier ++ [run] ++ later) (he : (runs limits earlier).Performs limits run e)
    (hv : e.outcome.1 = .ok value) (hk : e.outcome.2.nextIdentity ≤ store.nextIdentity) :
    Existed limits sources source store value
  | carried {value : Value} (h : Existed limits sources source store (.returned value)) :
    Existed limits sources source store value
  | element {identity : Identity} {elements : List Value} {element : Value}
    (h : Existed limits sources source store (.array identity elements)) (he : element ∈ elements) :
    Existed limits sources source store element

namespace Discipline

variable {limits : Limits} {sources : List String} {source : String} {w : Census} {store : Store} {value : Value}

theorem result_of_existed (h : Session.Existed limits sources source store value) (hs : listed.Holds w store)
    (hold : ∀ old, Session.Available limits sources old → listed.Data w old) :
    ∃ u : Census, u.objects.length ≤ store.nextIdentity ∧ listed.Result u value := by
  induction h with
  | available ha => exact ⟨w, hs.length_eq.ge, (hold _ ha).result⟩
  | bound hscope hb => exact ⟨w, hs.length_eq.ge, (hs.bound _ hscope _ hb).result⟩
  | @made earlier later run e value hsources he hv hk =>
    obtain ⟨u, -, ha⟩ := (listed_governs limits).performs earlier he
    -- The census at the end of `e` has as many objects as identities were given out by then.
    have hend := ha.ends
    have hvalue : e.outcome = (.ok value, e.outcome.2) := Prod.ext hv rfl
    rw [hvalue] at hend
    obtain ⟨u', -, hafter, hr⟩ := hend
    exact ⟨u', hafter.length_eq ▸ hk, hr⟩
  | carried _ ih =>
    obtain ⟨u, hu, hr⟩ := ih
    rcases hr with hr | ⟨carried, heq, hd⟩
    · exact absurd rfl (hr.ne_returned _)
    · cases heq
      exact ⟨u, hu, hd.result⟩
  | element _ he ih =>
    obtain ⟨u, hu, hr⟩ := ih
    exact ⟨u, hu, Data.result (Value.Sound.element (hr.data rfl) _ he)⟩

theorem identity_lt_of_existed (h : Session.Existed limits sources source store value)
    (hs : listed.Holds w store) (hold : ∀ old, Session.Available limits sources old → listed.Data w old)
    {k : Identity} (hk : value.identity? = some k) : k < store.nextIdentity := by
  obtain ⟨u, hu, hr⟩ := result_of_existed h hs hold
  have hsignal : value.isSignal = false := by
    cases value with
    | error | returned => cases hk
    | _ => rfl
  exact ((hr.data hsignal).identity_lt hk).trans_le hu

theorem newAmong_existed (hs : listed.Holds w store)
    (hold : ∀ old, Session.Available limits sources old → listed.Data w old)
    (hi : ∀ k, value.identity? = some k → k = store.nextIdentity) :
    value.NewAmong (Session.Existed limits sources source store) :=
  Value.newAmong_of_identity (fun k hk => (hi k hk).ge) fun _ _ ho hk => identity_lt_of_existed ho hs hold hk

end Discipline

/-- The builtins that make arrays give them the next identity. -/
theorem Builtin.identity?_call {builtin : Builtin} (hb : builtin = .push ∨ builtin = .rest) {room : Nat}
    {arguments : List Value} {store : Store} {value : Value}
    (hv : (builtin.call room arguments store).1 = .ok value) (he : value.isError = false) {k : Identity}
    (hk : value.identity? = some k) : k = store.nextIdentity := by
  -- What neither fails nor makes an array is the `rest` of an empty one, which is null.
  rcases hb with rfl | rfl
  · by_cases hlength : arguments.length = 2
    · obtain ⟨array, element, rfl⟩ := List.length_eq_two.1 hlength
      cases array with
      | array =>
        cases hv
        exact (Option.some.inj hk).symm
      | absent => cases hv
      | _ =>
        cases hv
        cases he
    · rw [Mirror.call_push hlength] at hv
      cases hv
      cases he
  · match arguments with
    | [] | _ :: _ :: _ =>
      cases hv
      cases he
    | [argument] =>
      cases argument with
      | array k elements =>
        cases elements with
        | nil =>
          cases hv
          cases hk
        | cons =>
          cases hv
          exact (Option.some.inj hk).symm
      | absent => cases hv
      | _ =>
        cases hv
        cases he

/-! ### One evaluation -/

namespace Evaluation

/-- Of two objects, an evaluation of `==` says that they are the same only if they are one object. -/
def ComparesObjects (e : Evaluation) : Prop :=
  ∀ token left right a b store, e.node = .infixOp token "==" left right →
    Gives (e.depth - 1) e.scope [left, right] e.store [a, b] store → a.isObject = true → b.isObject = true →
    ∃ truth, e.outcome = (.ok (.boolean truth), store) ∧ (truth = true ↔ a = b)

/-- What the evaluation makes is told by `==` from every object that existed until then, when all that it is
made of had been evaluated. -/
structure MakesNew (e : Evaluation) (existed : Store → Value → Prop) : Prop where
  array : ∀ {token nodes value}, e.node = .array token nodes → e.outcome.1 = .ok value →
    value.isSignal = false → ∃ k elements store, value = .array k elements ∧
      Gives (e.depth - 1) e.scope nodes e.store elements store ∧ value.NewAmong (existed store)
  function : ∀ {token parameters body}, e.depth ≠ 0 → e.node = .function token parameters body →
    ∃ k, e.outcome.1 = .ok (.function k parameters body e.scope) ∧
      (Value.function k parameters body e.scope).NewAmong (existed e.store)
  builtin : ∀ {builtin arguments store value}, builtin = .push ∨ builtin = .rest →
    e.Applies (.builtin builtin) arguments store → e.outcome.1 = .ok value → value.isError = false →
    value.NewAmong (existed store)

end Evaluation

namespace Discipline

open Evaluation

variable {w : Census} {e : Evaluation}

theorem comparesObjects_of_allows (h : listed.Allows w e) : e.ComparesObjects := by
  intro token left right a b store hnode hg ha hb
  obtain ⟨u, -, -, hdata⟩ := data_of_gives hg h.store (fun _ _ => trivial) h.scope
  obtain ⟨store₁, hleft, hg'⟩ := hg.evalThen fun left =>
    evalThen (eval (e.depth - 1)) right e.scope fun right => Action.ofExcept (applyInfixOp false "==" left right)
  obtain ⟨store₂, hright, hnil⟩ := hg'.evalThen fun right => Action.ofExcept (applyInfixOp false "==" a right)
  cases hnil
  have hsays : a.EqualitySays b (a.isSame b) := (Value.equalitySays_iff (.inr hb)).2 rfl
  refine ⟨a.isSame b, ?_, ?_⟩
  · rw [outcome_eq hg.depth_ne_zero, hnode]
    show evalThen _ _ _ _ _ = _
    rw [hleft, hright, hsays]
    rfl
  · rw [← Value.equalitySays_iff (.inr hb)]
    exact (hdata a (by simp)).equalitySays_iff (hdata b (by simp)) hb

theorem makesNew_of_allows {limits : Limits} {sources : List String} {source : String} (h : listed.Allows w e)
    (hold : ∀ old, Session.Available limits sources old → listed.Data w old) :
    e.MakesNew (Session.Existed limits sources source) where
  array := by
    intro token nodes value hnode hv hsignal
    have hdepth : e.depth ≠ 0 := by
      intro hzero
      rw [outcome, hzero] at hv
      cases hv
    rw [outcome_eq hdepth, hnode] at hv
    have hall : evalAllThen (eval (e.depth - 1)) e.scope Action.newArray nodes [] e.store = (.ok value, _) :=
      Prod.ext hv rfl
    rcases evalAllThen_cases hall with ⟨hs, -⟩ | ⟨elements, store, hg, hnext⟩
    · rw [hs] at hsignal
      cases hsignal
    · obtain rfl : .array store.nextIdentity elements = value := Except.ok.inj (congrArg Prod.fst hnext)
      obtain ⟨u, hu, hs, -⟩ := data_of_gives hg h.store (fun _ _ => trivial) h.scope
      refine ⟨_, _, store, rfl, hg, newAmong_existed hs (fun old ho => (hold old ho).mono hu) ?_⟩
      exact fun k hk => (Option.some.inj hk).symm
  function := by
    intro token parameters body hdepth hnode
    refine ⟨e.store.nextIdentity, ?_, newAmong_existed h.store hold fun k hk => (Option.some.inj hk).symm⟩
    rw [outcome_eq hdepth, hnode]
    rfl
  builtin := by
    intro builtin arguments store value hb happ hv he
    obtain ⟨u, hu, hs, -⟩ := h.applies happ
    rw [happ.outcome_eq] at hv
    refine newAmong_existed hs (fun old ho => (hold old ho).mono hu) fun k hk => ?_
    exact Builtin.identity?_call hb hv he hk

end Discipline

open Discipline in
/-- Object identity is coherent. After any runs, `==` says of two objects, wherever they are, that they are the
same if and only if they are one value: the same elements in the same order, or the same parameters, body
and captured scope. So it does in the course of one more run. There, what literals, `push` and `rest` make is
told from every object before it, and what is bound, looked up, passed, returned or taken out of an array is
the very value that was given, which is the same as itself. -/
theorem object_identity_coherent (limits : Limits) (sources : List String) :
    (∀ a b, Session.Available limits sources a → Session.Available limits sources b → a.isObject = true →
      b.isObject = true → (a.EqualitySays b true ↔ a = b)) ∧
    (∀ value : Value, value.isObject = true → value.EqualitySays value true) ∧
    ∀ source e, (Session.runs limits sources).Performs limits source e →
      e.ComparesObjects ∧ e.MakesNew (Session.Existed limits sources source) ∧ e.HandsOn := by
  refine ⟨fun a b ha hb _ hobject => ?_, fun value hobject => ?_, fun source e he => ?_⟩
  · obtain ⟨u, -, -, hdata⟩ := (listed_governs limits).holds_runs_available sources
    exact (hdata a ha).equalitySays_iff (hdata b hb) hobject
  · exact (Value.equalitySays_iff (.inl hobject)).2 (Value.isSame_self hobject)
  · obtain ⟨_, hlisted, hold⟩ := (listed_governs limits).performs_available sources he
    obtain ⟨_, -, hcomplete⟩ := (complete_governs limits).performs sources he
    exact ⟨comparesObjects_of_allows hlisted, makesNew_of_allows hlisted hold, handsOn_of_allows hcomplete⟩

/-- The session after an array has got two names. -/
abbrev aliased : Session := Session.runs ⟨9, 9, 9, 9⟩ ["let a = [true]; let b = a"]

/-- The evaluation of `[a == b]` as a statement of the next run. -/
def comparisonArray : Evaluation where
  depth := 7
  node := .array ⟨.lbracket, "["⟩
    [.infixOp ⟨.eq, "=="⟩ "==" (.identifier ⟨⟨.ident, "a"⟩, "a"⟩) (.identifier ⟨⟨.ident, "b"⟩, "b"⟩)]
  scope := globalScope
  store := aliased.store

open Session Evaluation in
/-- Both names stand for the array itself, which `==` says is the same. The array around the comparison is another
one. -/
theorem two_names_of_one_array :
    ∃ (comparison name : Evaluation) (a b made : Value),
      aliased.get? "a" = some a ∧ aliased.get? "b" = some b ∧ a.EqualitySays b true ∧ a = b ∧
      aliased.Performs ⟨9, 9, 9, 9⟩ "[a == b]" comparisonArray ∧ comparisonArray.outcome.1 = .ok made ∧
      made.EqualitySays a false ∧ a.EqualitySays made false ∧
      aliased.Performs ⟨9, 9, 9, 9⟩ "[a == b]" comparison ∧ [comparison.node] = comparisonArray.node.children ∧
      comparison.outcome.1 = .ok (.boolean true) ∧
      aliased.Performs ⟨9, 9, 9, 9⟩ "[a == b]" name ∧ name.node = .identifier ⟨⟨.ident, "a"⟩, "a"⟩ ∧
      name.outcome = (.ok a, name.store) := by
  obtain ⟨hsame, -, hperformed⟩ := object_identity_coherent ⟨9, 9, 9, 9⟩ ["let a = [true]; let b = a"]
  have hglobal : aliased.store.scopes[0]? =
      some ⟨none, [("a", .array 0 [.boolean true]), ("b", .array 0 [.boolean true])]⟩ := rfl
  have ha : Available ⟨9, 9, 9, 9⟩ ["let a = [true]; let b = a"] (.array 0 [.boolean true]) :=
    @Available.bound _ _ _ ("a", _) (Array.mem_of_getElem? hglobal) (.head _)
  have hb : Available ⟨9, 9, 9, 9⟩ ["let a = [true]; let b = a"] (.array 0 [.boolean true]) :=
    @Available.bound _ _ _ ("b", _) (Array.mem_of_getElem? hglobal) (.tail _ (.head _))
  have hliteral : aliased.Performs ⟨9, 9, 9, 9⟩ "[a == b]" comparisonArray :=
    performs_of_expression rfl rfl rfl
  have hcomparison := hliteral.includes (.single (asks_of_opens (.element _ [] []) ⟨_, .nil _, rfl⟩ rfl))
  have hname := hcomparison.includes (.single (asks_of_opens (.leftOperand _ "==" _) ⟨_, .nil _, rfl⟩ rfl))
  obtain ⟨-, hnew, -⟩ := hperformed _ _ hliteral
  obtain ⟨hcompares, -, -⟩ := hperformed _ _ hcomparison
  obtain ⟨-, -, hhands⟩ := hperformed _ _ hname
  obtain ⟨k, elements, store, hmade, hg, hfresh⟩ := hnew.array rfl rfl rfl
  obtain ⟨htold, htold'⟩ := hfresh _ (.available ha) rfl
  obtain ⟨truth, htruth, hiff⟩ := hcompares _ _ _ _ _ _ rfl (.cons rfl rfl (.cons rfl rfl (.nil _))) rfl rfl
  obtain rfl : truth = true := hiff.2 rfl
  exact ⟨_, _, _, _, _, rfl, rfl, (hsame _ _ ha hb rfl rfl).2 rfl, rfl, hliteral, rfl, htold, htold', hcomparison, rfl,
    congrArg Prod.fst htruth, hname, rfl, hhands.identifier nofun rfl rfl⟩

example : (Session.initial.run Limits.standard "let a = [1]; let b = a; [a == b, [1] == [1]]").1 =
    .value (.array 3 [.boolean true, .boolean false]) := rfl

end Scriptlet
