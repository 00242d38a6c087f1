import Mathlib.Data.List.Infix
import Scriptlet.Store

/-!
# Lookup in a forest of scopes

Scopes are only ever made inside others and given bindings. A `History` is a sequence of such steps, and
tells of every scope where it was made and what was last bound in it, without any store. What a name is
looked up as is told by the history alone: it is the latest binding in the nearest scope on the way
outward that has one.

The way outward ends because a scope is made inside one that is there already, so that its number is greater
than that of the scope around it (`History.outer?_lt`).
-/

namespace Scriptlet

/-- A value that a name can be bound to: all but the absent one. -/
abbrev Bindable := { value : Value // value.isAbsent = false }

/-- The steps that have led from one empty scope to `n` scopes. -/
inductive History : Nat → Type
  | start : History 1
  /-- A scope was made inside `outer`. -/
  | enclose {n : Nat} (earlier : History n) (outer : Fin n) : History (n + 1)
  /-- A name was bound in `scope`. -/
  | set {n : Nat} (earlier : History n) (scope : Fin n) (name : String) (value : Bindable) : History n

namespace History

/-- The store that the steps lead to. -/
def store {n : Nat} : History n → Store
  | .start => .initial
  | .enclose earlier outer => (earlier.store.addScope ⟨some outer, []⟩).2
  | .set earlier scope name value => earlier.store.set scope name value

/-- The scope inside which a scope was made. -/
def outer? {n : Nat} : History n → ScopeId → Option ScopeId
  | .start, _ => none
  | @enclose m earlier outer, scope => if scope = m then some outer else earlier.outer? scope
  | .set earlier _ _ _, scope => earlier.outer? scope

/-- The value to which a name was last bound in a scope. -/
def latest {n : Nat} : History n → ScopeId → String → Option Value
  | .start, _, _ => none
  | .enclose earlier _, scope, name => earlier.latest scope name
  | .set earlier bound named value, scope, name =>
    if bound = scope ∧ named = name then some value else earlier.latest scope name

/-- A name has been bound in a scope. -/
def Binds {n : Nat} : History n → ScopeId → String → Prop
  | .start, _, _ => False
  | .enclose earlier _, scope, name => earlier.Binds scope name
  | .set earlier bound named _, scope, name => bound = scope ∧ named = name ∨ earlier.Binds scope name

/-- The scopes that a scope stands in, from itself outward up to one that stands in none. -/
inductive Outward {n : Nat} (h : History n) : ScopeId → List ScopeId → Prop
  | last {scope : ScopeId} (ho : h.outer? scope = none) : Outward h scope [scope]
  | inside {scope outer : ScopeId} {chain : List ScopeId} (ho : h.outer? scope = some outer)
    (hc : Outward h outer chain) : Outward h scope (scope :: chain)

variable {n : Nat} {h : History n} {scope : ScopeId} {name : String} {chain : List ScopeId}

/-! ### What a history tells -/

theorem isSome_latest_iff : (h.latest scope name).isSome = true ↔ h.Binds scope name := by
  induction h with
  | start => simp [latest, Binds]
  | enclose earlier outer ih => exact ih
  | set earlier bound named value ih =>
    rw [latest, Binds, ← ih]
    split
    · next hb => simp [hb]
    · next hb => simp [hb]

theorem isAbsent_of_latest {value : Value} (hv : h.latest scope name = some value) :
    value.isAbsent = false := by
  induction h with
  | start => cases hv
  | enclose earlier outer ih => exact ih hv
  | set earlier bound named new ih =>
    rw [latest] at hv
    split at hv
    · cases hv
      exact new.property
    · exact ih hv

/-- Nothing is bound in a scope before it is made. -/
theorem latest_of_le (hs : n ≤ scope) : h.latest scope name = none := by
  induction h with
  | start => rfl
  | enclose earlier outer ih => exact ih (Nat.le_of_succ_le hs)
  | set earlier bound named value ih =>
    have hne : bound.val ≠ scope := Nat.ne_of_lt (bound.isLt.trans_le hs)
    rw [latest, if_neg fun hb => hne hb.1]
    exact ih hs

/-- A scope is made after the scope around it. -/
theorem outer?_lt {outer : ScopeId} (ho : h.outer? scope = some outer) : outer < scope ∧ scope < n := by
  induction h with
  | start => cases ho
  | @enclose m earlier new ih =>
    rw [outer?] at ho
    split at ho
    · next hs =>
      cases ho
      exact ⟨hs ▸ new.isLt, hs ▸ Nat.lt_succ_self m⟩
    · obtain ⟨hlt, hn⟩ := ih ho
      exact ⟨hlt, hn.trans (Nat.lt_succ_self m)⟩
  | set earlier _ _ _ ih => exact ih ho

/-! ### The way outward -/

theorem exists_outward (h : History n) (scope : ScopeId) : ∃ chain, h.Outward scope chain := by
  induction scope using Nat.strong_induction_on with
  | _ scope ih =>
    cases ho : h.outer? scope with
    | none => exact ⟨[scope], .last ho⟩
    | some outer =>
      obtain ⟨chain, hc⟩ := ih outer (outer?_lt ho).1
      exact ⟨scope :: chain, .inside ho hc⟩

theorem Outward.unique {other : List ScopeId} (hc : h.Outward scope chain)
    (hc' : h.Outward scope other) : other = chain := by
  induction hc generalizing other with
  | last ho =>
    cases hc' with
    | last => rfl
    | inside ho' _ => rw [ho] at ho'; cases ho'
  | inside ho _ ih =>
    cases hc' with
    | last ho' => rw [ho] at ho'; cases ho'
    | inside ho' hc' =>
      rw [ho] at ho'
      cases ho'
      rw [ih hc']

theorem Outward.set (hc : h.Outward scope chain) (bound : Fin n) (named : String) (value : Bindable) :
    (h.set bound named value).Outward scope chain := by
  induction hc with
  | last ho => exact .last ho
  | inside ho _ ih => exact .inside ho ih

/-! ### The store of a history -/

theorem size_store (h : History n) : h.store.scopes.size = n := by
  induction h with
  | start => rfl
  | enclose earlier outer ih => rw [store, Store.addScope, Array.size_push, ih]
  | set earlier bound named value ih => rw [store, Store.set, Array.size_modify, ih]

/-- The store holds what the history tells. -/
theorem getElem?_store (h : History n) (hs : scope < n) :
    ∃ found, h.store.scopes[scope]? = some found ∧ found.outer = h.outer? scope ∧
      ∀ name, found.bindings.get? name = h.latest scope name := by
  induction h with
  | start =>
    obtain rfl := Nat.lt_one_iff.1 hs
    exact ⟨⟨none, []⟩, rfl, rfl, fun _ => rfl⟩
  | @enclose m earlier outer ih =>
    rw [store, Store.addScope, Array.getElem?_push, earlier.size_store, outer?]
    split
    · next hm =>
      refine ⟨_, rfl, rfl, fun name => ?_⟩
      exact (latest_of_le (h := earlier) (Nat.le_of_eq hm.symm)).symm
    · next hm => exact ih (Nat.lt_of_le_of_ne (Nat.le_of_lt_succ hs) hm)
  | set earlier bound named value ih =>
    obtain ⟨found, hf, ho, hb⟩ := ih hs
    rw [store, Store.set, Array.getElem?_modify, hf]
    by_cases heq : bound = scope
    · refine ⟨{ found with bindings := found.bindings.set named value }, by simp [heq], ho, fun name => ?_⟩
      rw [Bindings.get?_set, latest, hb]
      simp [heq]
    · refine ⟨found, by simp [heq], ho, fun name => ?_⟩
      rw [hb, latest, if_neg fun hand => heq hand.1]

/-! ### Lookup -/

/-- A walk outward that may take enough steps ends on its own, at the latest binding in the nearest scope that
has one. -/
theorem lookupWithin_store (hc : h.Outward scope chain) (hs : scope < n) {steps : Nat}
    (hsteps : scope < steps) :
    h.store.lookupWithin name steps scope = chain.findSome? fun scope => h.latest scope name := by
  induction hc generalizing steps with
  | @last scope ho =>
    obtain ⟨steps, rfl⟩ := Nat.exists_eq_succ_of_ne_zero (Nat.ne_zero_of_lt hsteps)
    obtain ⟨found, hf, hfo, hb⟩ := h.getElem?_store hs
    rw [Store.lookupWithin, hf]
    simp only [hb, hfo, ho, List.findSome?_cons, List.findSome?_nil]
    cases h.latest scope name <;> rfl
  | @inside scope outer chain ho hc ih =>
    obtain ⟨steps, rfl⟩ := Nat.exists_eq_succ_of_ne_zero (Nat.ne_zero_of_lt hsteps)
    obtain ⟨found, hf, hfo, hb⟩ := h.getElem?_store hs
    obtain ⟨hlt, -⟩ := outer?_lt ho
    have hrest := ih (hlt.trans hs) (hlt.trans_le (Nat.le_of_lt_succ hsteps))
    rw [Store.lookupWithin, hf]
    simp only [hb, hfo, ho, hrest, List.findSome?_cons]
    cases h.latest scope name <;> rfl

theorem lookup_store (hc : h.Outward scope chain) (hs : scope < n) :
    h.store.lookup scope name = chain.findSome? fun scope => h.latest scope name := by
  rw [Store.lookup, lookupWithin_store hc hs (Nat.lt_succ_self scope)]
  cases hv : chain.findSome? fun scope => h.latest scope name with
  | none => rfl
  | some value =>
    obtain ⟨bound, -, hb⟩ := List.exists_of_findSome?_eq_some hv
    rw [Option.filter_some, isAbsent_of_latest hb]
    rfl

/-- A name is bound in some scope on the way outward exactly if it is found. -/
theorem isSome_lookup_iff (hc : h.Outward scope chain) (hs : scope < n) :
    (h.store.lookup scope name).isSome = true ↔ ∃ bound ∈ chain, h.Binds bound name := by
  simp only [lookup_store hc hs, List.isSome_findSome?, List.any_eq_true, isSome_latest_iff]

/-! ### One more binding -/

theorem latest_eq_none_iff : h.latest scope name = none ↔ ¬ h.Binds scope name := by
  rw [← isSome_latest_iff, Option.not_isSome_iff_eq_none]

/-- `bound` stands on the way outward, and no scope before it binds the name. -/
def Shows (h : History n) (chain : List ScopeId) (bound : ScopeId) (name : String) : Prop :=
  ∃ nearer farther, chain = nearer ++ bound :: farther ∧ ∀ scope ∈ nearer, ¬ h.Binds scope name

variable {bound : Fin n} {named : String} {value : Bindable}

theorem latest_set_self : (h.set bound named value).latest bound named = some value.val := by
  rw [latest, if_pos ⟨rfl, rfl⟩]

theorem latest_set_of_ne (hne : bound.val ≠ scope ∨ named ≠ name) :
    (h.set bound named value).latest scope name = h.latest scope name := by
  rw [latest, if_neg fun hb => hne.elim (fun h => h hb.1) fun h => h hb.2]

theorem findSome?_latest_set (hshows : h.Shows chain bound named) :
    (chain.findSome? fun scope => (h.set bound named value).latest scope named) = some value.val := by
  obtain ⟨nearer, farther, rfl, hnearer⟩ := hshows
  induction nearer with
  | nil => rw [List.nil_append, List.findSome?_cons, latest_set_self]
  | cons first nearer ih =>
    obtain ⟨hfirst, hrest⟩ := List.forall_mem_cons.1 hnearer
    rw [List.cons_append, List.findSome?_cons]
    by_cases heq : bound.val = first
    · rw [← heq, latest_set_self]
    · rw [latest_set_of_ne (.inl heq), latest_eq_none_iff.2 hfirst]
      exact ih hrest

theorem findSome?_latest_set_of_not (hno : ¬ (named = name ∧ h.Shows chain bound name)) :
    (chain.findSome? fun scope => (h.set bound named value).latest scope name) =
      chain.findSome? fun scope => h.latest scope name := by
  by_cases hname : named = name
  · induction chain with
    | nil => rfl
    | cons first chain ih =>
      have hne : bound.val ≠ first := by
        rintro rfl
        exact hno ⟨hname, [], chain, rfl, by simp⟩
      rw [List.findSome?_cons, List.findSome?_cons, latest_set_of_ne (.inl hne)]
      cases hfirst : h.latest first name with
      | some found => rfl
      | none =>
        refine ih ?_
        rintro ⟨-, nearer, farther, rfl, hnearer⟩
        exact hno ⟨hname, first :: nearer, farther, rfl,
          List.forall_mem_cons.2 ⟨latest_eq_none_iff.1 hfirst, hnearer⟩⟩
  · exact congrArg (chain.findSome? ·) (funext fun _ => latest_set_of_ne (.inr hname))

end History

/-- Lookup finds the latest binding in the nearest scope. After any sequence of steps, the way outward from
a scope is one finite chain of scopes. Looking a name up walks along it, ends whatever number of further
steps would be allowed, and gives the value last bound in the first scope of the chain that ever bound the
name; there is one exactly if something is found. One more binding changes what is found only where it
binds the very name in a scope of the chain with none before it that binds the name, and there the new
value is found. -/
theorem lookup_nearest_latest {n : Nat} (h : History n) (scope : Fin n) (name : String) :
    ∃ chain, h.Outward scope chain ∧ (∀ other, h.Outward scope other → other = chain) ∧
      (∀ steps, scope < steps → h.store.lookupWithin name steps scope =
        chain.findSome? fun scope => h.latest scope name) ∧
      (h.store.lookup scope name = chain.findSome? fun scope => h.latest scope name) ∧
      ((h.store.lookup scope name).isSome = true ↔ ∃ bound ∈ chain, h.Binds bound name) ∧
      ∀ (bound : Fin n) (named : String) (value : Bindable),
        (named = name ∧ h.Shows chain bound name →
          (h.set bound named value).store.lookup scope name = some value.val) ∧
        (¬ (named = name ∧ h.Shows chain bound name) →
          (h.set bound named value).store.lookup scope name = h.store.lookup scope name) := by
  obtain ⟨chain, hc⟩ := h.exists_outward scope
  refine ⟨chain, hc, fun other => hc.unique, fun steps => History.lookupWithin_store hc scope.isLt,
    History.lookup_store hc scope.isLt, History.isSome_lookup_iff hc scope.isLt, fun bound named value => ?_⟩
  rw [History.lookup_store (hc.set bound named value) scope.isLt, History.lookup_store hc scope.isLt]
  refine ⟨?_, History.findSome?_latest_set_of_not⟩
  rintro ⟨rfl, hshows⟩
  exact History.findSome?_latest_set hshows

/-- A name that two scopes bind, seen from a third inside both: the outer binding may change unseen, the inner
one may not. -/
theorem shadowed_binding_unseen :
    ∃ h : History 3, h = (((History.start.set 0 "a" ⟨.null, rfl⟩).enclose 0).set 1 "a" ⟨.integer 2, rfl⟩).enclose 1 ∧
      h.store.lookup 2 "a" = some (.integer 2) ∧
      (h.set 0 "a" ⟨.integer 3, rfl⟩).store.lookup 2 "a" = some (.integer 2) ∧
      (h.set 1 "a" ⟨.integer 3, rfl⟩).store.lookup 2 "a" = some (.integer 3) := by
  refine ⟨_, rfl, ?_⟩
  obtain ⟨chain, -, hunique, -, hlookup, -, hset⟩ := lookup_nearest_latest
    ((((History.start.set 0 "a" ⟨.null, rfl⟩).enclose 0).set 1 "a" ⟨.integer 2, rfl⟩).enclose 1) 2 "a"
  obtain rfl := hunique [2, 1, 0] (.inside rfl (.inside rfl (.last rfl)))
  have hfound : _ = some (Value.integer 2) := hlookup
  refine ⟨hfound, ((hset 0 "a" ⟨.integer 3, rfl⟩).2 ?_).trans hfound, (hset 1 "a" ⟨.integer 3, rfl⟩).1 ?_⟩
  · rintro ⟨-, nearer, farther, hchain, hnearer⟩
    have hone : 1 ∈ nearer := by
      rcases nearer with _ | ⟨first, _ | ⟨second, nearer⟩⟩
      · cases hchain
      · cases hchain
      · obtain ⟨rfl, rfl, -⟩ : 2 = first ∧ 1 = second ∧ _ := by simpa using hchain
        simp
    exact hnearer 1 hone (.inl ⟨rfl, rfl⟩)
  · exact ⟨rfl, [2], [0], rfl, by simp [History.Binds]⟩

end Scriptlet
