import Mathlib.Order.Basic
import Scriptlet.Proofs.Eval.Discipline
import Scriptlet.Proofs.Value.Shift

/-!
# Stores side by side

Two evaluations run side by side, from stores that need not have the same number of scopes and need not
agree on all of them. A `Mirror` says what the two have in common: a shift from the numbers of the one to
those of the other, and which of the scopes that were there before may be looked into. All that is made on
the way may be looked into as well.

`M.Twin n store store'` is what the two stores keep while they grow, `n` being the number of scopes of the
first. What may be looked into is the same on both sides but for the shift, and leads only to what may be
looked into again. If numbers are moved at all, scopes have to lie inside older ones, because the number of
steps in which a name is looked up is the number of the scope.
-/

namespace Scriptlet

/-- The scope is held by a function that stands in the value. -/
inductive Value.Captures (i : ScopeId) : Value → Prop
  | function {identity : Identity} {parameters : List Identifier} {body : Node} :
    Captures i (.function identity parameters body i)
  | element {identity : Identity} {elements : List Value} {element : Value} (he : element ∈ elements)
    (h : Captures i element) : Captures i (.array identity elements)
  | carried {value : Value} (h : Captures i value) : Captures i (.returned value)

/-- What two evaluations have in common. -/
structure Mirror extends Shift where
  /-- The scopes from before that may be looked into. -/
  old : ScopeId → Prop
  old_lt : scopeGap = 0 ∨ ∀ i, old i → i < scopes
  /-- What the first evaluation found printed. -/
  before : Array String
  /-- What the second evaluation found printed. -/
  before' : Array String

namespace Mirror

variable (M : Mirror)

/-- The scopes that may be looked into when the first store has `n` scopes. -/
def Seen (n : Nat) (i : ScopeId) : Prop := M.old i ∨ M.scopes ≤ i ∧ (M.scopeGap = 0 ∨ i < n)

/-- The value leads only to scopes that may be looked into. -/
def Reads (n : Nat) (value : Value) : Prop := ∀ i, value.Captures i → M.Seen n i

/-- The scope with the number `i` leads only to what may be looked into. -/
structure Leads (n : Nat) (i : ScopeId) (scope : Scope) : Prop where
  outer : ∀ o, scope.outer = some o → M.Seen n o ∧ (M.scopeGap = 0 ∨ o < i)
  bound : ∀ binding ∈ scope.bindings, M.Reads n binding.2

/-- The two stores are the same as far as may be looked into them. -/
structure Twin (n : Nat) (store store' : Store) : Prop where
  start : M.scopes ≤ n
  size : store.scopes.size = n
  size' : store'.scopes.size = n + M.scopeGap
  identities : M.identities ≤ store.nextIdentity
  fresh : store'.nextIdentity = store.nextIdentity + M.identityGap
  scopes : ∀ i, M.Seen n i → store'.scopes[M.scope i]? = store.scopes[i]?.map M.frame
  leads : ∀ i scope, M.Seen n i → store.scopes[i]? = some scope → M.Leads n i scope
  output : ∃ lines, store.output = M.before ++ lines ∧ store'.output = M.before' ++ lines

variable {M} {n m : Nat} {i : ScopeId} {value : Value} {store store' : Store}

theorem Seen.mono (h : M.Seen n i) (hn : n ≤ m) : M.Seen m i :=
  h.imp_right fun h => ⟨h.1, h.2.imp_right fun hi => Nat.lt_of_lt_of_le hi hn⟩

theorem Seen.lt (h : M.Seen n i) (hn : M.scopes ≤ n) : M.scopeGap = 0 ∨ i < n := by
  rcases h with h | h
  · rcases M.old_lt with hgap | hlt
    · exact .inl hgap
    · exact .inr (Nat.lt_of_lt_of_le (hlt i h) hn)
  · exact h.2

theorem seen_new (hn : M.scopes ≤ n) : M.Seen (n + 1) n := .inr ⟨hn, .inr (Nat.lt_succ_self n)⟩

theorem Seen.of_ne (h : M.Seen (n + 1) i) (hi : i ≠ n) : M.Seen n i :=
  h.imp_right fun h => ⟨h.1, h.2.imp_right fun hlt => Nat.lt_of_le_of_ne (Nat.le_of_lt_succ hlt) hi⟩

theorem Leads.mono {scope : Scope} (h : M.Leads n i scope) (hn : n ≤ m) : M.Leads m i scope where
  outer o ho := ⟨(h.outer o ho).1.mono hn, (h.outer o ho).2⟩
  bound binding hb j hj := (h.bound binding hb j hj).mono hn

/-! ### Values that may be read -/

namespace Reads

theorem mono (h : M.Reads n value) (hn : n ≤ m) : M.Reads m value := fun i hi => (h i hi).mono hn

theorem atom (h : value.isAtom = true) : M.Reads n value := by
  rintro i (_ | _ | _) <;> cases h

theorem error (cause : RuntimeError) : M.Reads n (.error cause) := by
  rintro i ⟨⟩

theorem array {identity : Identity} {elements : List Value} (h : ∀ element ∈ elements, M.Reads n element) :
    M.Reads n (.array identity elements) := by
  rintro i (_ | ⟨he, hi⟩ | _)
  exact h _ he i hi

theorem element {identity : Identity} {elements : List Value} (h : M.Reads n (.array identity elements)) :
    ∀ element ∈ elements, M.Reads n element :=
  fun _ he i hi => h i (.element he hi)

theorem function {identity : Identity} {parameters : List Identifier} {body : Node} (h : M.Seen n i) :
    M.Reads n (.function identity parameters body i) := by
  rintro j (_ | _ | _)
  exact h

theorem returned (h : M.Reads n value) : M.Reads n (.returned value) := by
  rintro i (_ | _ | hi)
  exact h i hi

theorem unwrapped (h : M.Reads n value) : M.Reads n value.unwrapped := by
  cases value with
  | returned carried => exact fun i hi => h i (.carried hi)
  | _ => exact h

end Reads

/-! ### Looking up names -/

namespace Twin

/-- A name is looked up in as many steps on both sides, or in enough of them. -/
theorem lookupWithin (h : M.Twin n store store') (name : String) {steps steps' : Nat} (hi : M.Seen n i)
    (hs : M.scopeGap = 0 ∧ steps' = steps ∨ M.scopeGap ≠ 0 ∧ i < steps ∧ M.scope i < steps') :
    store'.lookupWithin name steps' (M.scope i) = (store.lookupWithin name steps i).map M.value := by
  -- Where numbers are moved, the numbers of the scopes on the way go down on both sides, and the steps
  -- that are left stay above them.
  induction steps generalizing steps' i with
  | zero =>
    rcases hs with ⟨-, rfl⟩ | ⟨-, hlt, -⟩
    · rfl
    · exact absurd hlt (Nat.not_lt_zero _)
  | succ steps ih =>
    obtain ⟨k, rfl⟩ : ∃ k, steps' = k + 1 := by
      rcases hs with ⟨-, rfl⟩ | ⟨-, -, hlt⟩
      · exact ⟨steps, rfl⟩
      · exact Nat.exists_eq_add_one_of_ne_zero (Nat.ne_zero_of_lt hlt)
    simp only [Store.lookupWithin, h.scopes i hi]
    cases hf : store.scopes[i]? with
    | none => rfl
    | some scope =>
      simp only [Option.map_some, Shift.frame, Shift.get?_bindings]
      cases scope.bindings.get? name with
      | some bound => rfl
      | none =>
        cases ho : scope.outer with
        | none => rfl
        | some o =>
          obtain ⟨hseen, holder⟩ := (h.leads i scope hi hf).outer o ho
          refine ih hseen ?_
          rcases hs with ⟨hgap, hsteps⟩ | ⟨hgap, h₁, h₂⟩
          · exact .inl ⟨hgap, Nat.succ.inj hsteps⟩
          · have hlt : o < i := holder.resolve_left hgap
            have hmoved : M.scope o < M.scope i := movedUp_lt_movedUp hlt
            exact .inr ⟨hgap, Nat.lt_of_lt_of_le hlt (Nat.le_of_lt_succ h₁),
              Nat.lt_of_lt_of_le hmoved (Nat.le_of_lt_succ h₂)⟩

theorem reads_lookupWithin (h : M.Twin n store store') {name : String} {steps : Nat} (hi : M.Seen n i)
    (hl : store.lookupWithin name steps i = some value) : M.Reads n value := by
  induction steps generalizing i with
  | zero => cases hl
  | succ steps ih =>
    simp only [Store.lookupWithin] at hl
    split at hl
    · cases hl
    · next scope hf =>
      have hlead := h.leads i scope hi hf
      split at hl
      · next bound hb =>
        cases hl
        obtain ⟨binding, hm, rfl⟩ := Bindings.get?_mem hb
        exact hlead.bound binding hm
      · split at hl
        · cases hl
        · next o ho => exact ih (hlead.outer o ho).1 hl

theorem lookup (h : M.Twin n store store') (hi : M.Seen n i) (name : String) :
    store'.lookup (M.scope i) name = (store.lookup i name).map M.value := by
  have hsteps : M.scopeGap = 0 ∧ M.scope i + 1 = i + 1 ∨
      M.scopeGap ≠ 0 ∧ i < i + 1 ∧ M.scope i < M.scope i + 1 := by
    by_cases hgap : M.scopeGap = 0
    · exact .inl ⟨hgap, by simp [Shift.scope, hgap]⟩
    · exact .inr ⟨hgap, Nat.lt_succ_self _, Nat.lt_succ_self _⟩
  unfold Store.lookup
  rw [h.lookupWithin name hi hsteps]
  cases store.lookupWithin name (i + 1) i with
  | none => rfl
  | some value => simp [Option.filter]

theorem reads_lookup (h : M.Twin n store store') (hi : M.Seen n i) {name : String}
    (hl : store.lookup i name = some value) : M.Reads n value :=
  h.reads_lookupWithin hi (Option.filter_eq_some_iff.1 hl).1

/-! ### Changes on both sides -/

theorem set (h : M.Twin n store store') (i : ScopeId) (name : String) (hv : M.Reads n value) :
    M.Twin n (store.set i name value) (store'.set (M.scope i) name (M.value value)) where
  start := h.start
  size := by simpa [Store.set] using h.size
  size' := by simpa [Store.set] using h.size'
  identities := h.identities
  fresh := h.fresh
  output := h.output
  scopes := by
    intro j hj
    simp only [Store.set, Array.getElem?_modify, h.scopes j hj]
    by_cases hij : i = j
    · subst hij
      simp only [if_true, Option.map_map]
      congr 1
      funext scope
      simp [Shift.frame, Shift.set_bindings]
    · have hne : M.scope i ≠ M.scope j := fun he => hij (movedUp_inj.1 he)
      rw [if_neg hne, if_neg hij]
  leads := by
    intro j scope hj hf
    simp only [Store.set, Array.getElem?_modify] at hf
    split at hf
    · obtain ⟨found, ho, rfl⟩ := Option.map_eq_some_iff.1 hf
      have hlead := h.leads j found hj ho
      refine ⟨hlead.outer, fun binding hb => ?_⟩
      rcases Bindings.mem_set hb with hb | hb
      · exact hlead.bound binding hb
      · rw [hb]
        exact hv
    · exact h.leads j scope hj hf

theorem addScope (h : M.Twin n store store') (hi : M.Seen n i) {bindings : Bindings}
    (hb : ∀ binding ∈ bindings, M.Reads n binding.2) :
    M.Twin (n + 1) (store.addScope ⟨some i, bindings⟩).2
      (store'.addScope ⟨some (M.scope i), M.bindings bindings⟩).2 where
  start := Nat.le_succ_of_le h.start
  size := by simp [Store.addScope, h.size]
  size' := by simp only [Store.addScope, Array.size_push, h.size']; omega
  identities := h.identities
  fresh := h.fresh
  output := h.output
  scopes := by
    intro j hj
    have hnew : M.scope n = n + M.scopeGap := movedUp_of_le h.start
    simp only [Store.addScope, Array.getElem?_push, h.size, h.size', ← hnew]
    by_cases hjn : j = n
    · subst hjn
      rw [if_pos rfl, if_pos rfl]
      rfl
    · have hne : M.scope j ≠ M.scope n := fun he => hjn (movedUp_inj.1 he)
      rw [if_neg hne, if_neg hjn]
      exact h.scopes j (hj.of_ne hjn)
  leads := by
    intro j scope hj hf
    simp only [Store.addScope, Array.getElem?_push, h.size] at hf
    split at hf
    · next hjn =>
      cases hf
      refine ⟨?_, fun binding hm => (hb binding hm).mono (Nat.le_succ n)⟩
      rintro _ ⟨⟩
      rw [hjn]
      exact ⟨hi.mono (Nat.le_succ n), hi.lt h.start⟩
    · next hjn => exact (h.leads j scope (hj.of_ne hjn) hf).mono (Nat.le_succ n)

theorem takeIdentity (h : M.Twin n store store') : M.Twin n store.fresh.2 store'.fresh.2 where
  start := h.start
  size := h.size
  size' := h.size'
  identities := Nat.le_succ_of_le h.identities
  fresh := by
    show store'.nextIdentity + 1 = store.nextIdentity + 1 + M.identityGap
    rw [h.fresh, Nat.add_right_comm]
  scopes := h.scopes
  leads := h.leads
  output := h.output

theorem identity (h : M.Twin n store store') : store'.nextIdentity = M.identity store.nextIdentity := by
  rw [h.fresh]
  exact (movedUp_of_le h.identities).symm

theorem print (h : M.Twin n store store') (line : String) :
    M.Twin n (store.print line) (store'.print line) where
  start := h.start
  size := h.size
  size' := h.size'
  identities := h.identities
  fresh := h.fresh
  scopes := h.scopes
  leads := h.leads
  output := by
    obtain ⟨lines, h₁, h₂⟩ := h.output
    refine ⟨lines.push line, ?_, ?_⟩
    · simp only [Store.print, h₁, Array.append_push]
    · simp only [Store.print, h₂, Array.append_push]

end Twin

end Mirror

end Scriptlet
