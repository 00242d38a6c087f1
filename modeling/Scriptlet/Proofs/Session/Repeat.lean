import Mathlib.Data.List.Induction
import Scriptlet.Proofs.Eval.Reach
import Scriptlet.Proofs.Session.Failures

/-!
# Calling twice

A call that is made again, with the same values and from the store that the first call has left, does the
same again. The second store has more scopes and has given out more identities, so the two calls are in
lockstep with all that is new moved up. What was there before the first call is not moved, and this is where
it matters that sessions are orderly: all that is bound has identities that were given out, and functions
hold scopes that exist.
-/

namespace Scriptlet

def Value.identity? : Value → Option Identity
  | .array identity _ | .function identity _ _ _ => some identity
  | _ => none

namespace Discipline

variable {W : Type} [Preorder W]

/-- What is made with a new identity has one that was given out, in the world that counts it. -/
theorem counts_fresh {D : Discipline W} {w : W × ℕ} {w' : W} {store : Store} {value : Value}
    (hk : store.nextIdentity = w.2) (hle : w.1 ≤ w') (hworld : D.world w' store.fresh.2)
    (ho : D.object w' value) (hi : value.identity? = some store.nextIdentity) :
    ∃ u : W × ℕ, w ≤ u ∧ (D.world u.1 store.fresh.2 ∧ store.fresh.2.nextIdentity = u.2) ∧
      D.object u.1 value ∧ ∀ k, value.identity? = some k → k < u.2 := by
  refine ⟨(w', store.nextIdentity + 1), ⟨hle, ?_⟩, ⟨hworld, rfl⟩, ho, fun k hv => ?_⟩
  · exact hk ▸ Nat.le_succ _
  · obtain rfl : store.nextIdentity = k := Option.some.inj (hi.symm.trans hv)
    exact Nat.lt_succ_self _

/-- The discipline, and every identity has been given out. The worlds count the identities. -/
def withIdentities (D : Discipline W) : Discipline (W × ℕ) where
  runs := D.runs
  object w value := D.object w.1 value ∧ ∀ k, value.identity? = some k → k < w.2
  scope w i := D.scope w.1 i
  world w store := D.world w.1 store ∧ store.nextIdentity = w.2
  fault := D.fault
  object_mono hw h := ⟨D.object_mono hw.1 h.1, fun k hk => (h.2 k hk).trans_le hw.2⟩
  scope_mono hw h := D.scope_mono hw.1 h
  object_atom := by
    intro w value h
    refine ⟨D.object_atom w.1 h, fun k hk => ?_⟩
    cases value <;> cases h <;> cases hk
  world_set i name value h := ⟨D.world_set i name value h.1, h.2⟩
  world_print line h := ⟨D.world_print line h.1, h.2⟩
  array := by
    rintro w store elements ⟨hw, hk⟩ he
    obtain ⟨w', hle, hworld, ho⟩ := D.array hw fun element hm => (he element hm).mono fun _ h => h.1
    exact counts_fresh hk hle hworld ho rfl
  function := by
    rintro w store token parameters body i ⟨hw, hk⟩ hi hr
    obtain ⟨w', hle, hworld, ho⟩ := D.function hw hi hr
    exact counts_fresh hk hle hworld ho rfl
  enclose := by
    rintro w store identity parameters body outer bindings ⟨hw, hk⟩ ⟨ho, -⟩
    obtain ⟨w', hle, hworld, hi, hr⟩ := D.enclose bindings hw ho
    exact ⟨(w', w.2), ⟨hle, le_rfl⟩, ⟨hworld, hk⟩, hi, hr⟩
  part := D.part
  tooDeep := D.tooDeep
  nameless := D.nameless
  valueless := D.valueless
  unwritten h hi := D.unwritten (h.mono fun _ ho => ho.1) hi

/-- Bodies are complete, scopes exist and identities have been given out. -/
def numbered : Discipline (ℕ × ℕ) := (ofRegime .complete).withIdentities

theorem numbered_governs (limits : Limits) : numbered.Governs limits (1, 0) where
  initial := ⟨⟨(holds_initial .complete).world, rfl⟩, by simp [Store.initial]⟩
  scope := Nat.one_pos
  program _ _ hp he := parse_complete hp he

variable {w : ℕ × ℕ} {store : Store} {value : Value}

theorem Holds.size (h : numbered.Holds w store) : store.scopes.size = w.1 := h.world.1.1

theorem Holds.nextIdentity (h : numbered.Holds w store) : store.nextIdentity = w.2 := h.world.2

/-- A store has one world only. -/
theorem Holds.eq_world (h : numbered.Holds w store) : w = (store.scopes.size, store.nextIdentity) := by
  rw [h.size, h.nextIdentity]

theorem Data.captures_lt (h : numbered.Data w value) {i : ScopeId} (hi : value.Captures i) : i < w.1 := by
  induction hi with
  | function => exact (h _ .self).2.2.1.2
  | element he _ ih => exact ih (h.element _ he)
  | carried => cases h.isSignal_eq

theorem Data.reads {M : Mirror} {n : ℕ} (h : numbered.Data w value) (hm : ∀ i < w.1, M.old i) :
    M.Reads n value :=
  fun i hi => .inl (hm i (h.captures_lt hi))

section

variable {ρ : Shift}

mutual

/-- What is numbered below the start of a shift is not moved. -/
theorem value_of_data (hs : w.1 ≤ ρ.scopes) (hi : w.2 ≤ ρ.identities) :
    ∀ value : Value, numbered.Data w value → ρ.value value = value
  | .array k elements, h => by
    have hk : k < w.2 := (h _ .self).2.2.2 k rfl
    rw [Shift.value, Shift.identity, movedUp_of_lt (hk.trans_le hi), values_of_data hs hi elements h.element]
  | .function k _ _ i, h => by
    obtain ⟨-, -, ⟨-, hscope⟩, hk⟩ := h _ .self
    rw [Shift.value, Shift.identity, movedUp_of_lt ((hk k rfl).trans_le hi), Shift.scope,
      movedUp_of_lt (hscope.trans_le hs)]
  | .returned _, h => nomatch h.isSignal_eq
  | .integer _, _ | .boolean _, _ | .null, _ | .string _, _ | .builtin _, _ | .error _, _
  | .absent, _ => rfl

theorem values_of_data (hs : w.1 ≤ ρ.scopes) (hi : w.2 ≤ ρ.identities) :
    ∀ values : List Value, (∀ value ∈ values, numbered.Data w value) → ρ.values values = values
  | [], _ => rfl
  | first :: rest, h => by
    obtain ⟨hfirst, hrest⟩ := List.forall_mem_cons.1 h
    rw [Shift.values, value_of_data hs hi first hfirst, values_of_data hs hi rest hrest]

end

theorem Holds.frame_eq (h : numbered.Holds w store) (hs : w.1 ≤ ρ.scopes) (hi : w.2 ≤ ρ.identities)
    {i : ScopeId} {scope : Scope} (hf : store.scopes[i]? = some scope) : ρ.frame scope = scope := by
  have hlt : i < w.1 := h.size ▸ (Array.getElem?_eq_some_iff.1 hf).1
  have houter : scope.outer.map ρ.scope = scope.outer := by
    cases ho : scope.outer with
    | none => rfl
    | some o =>
      have holder : o < i := (h.world.1.2.outer i scope hf).2 o ho
      exact congrArg some (movedUp_of_lt ((holder.trans hlt).trans_le hs))
  have hbindings : ρ.bindings scope.bindings = scope.bindings := by
    refine (List.map_congr_left fun binding hb => ?_).trans (List.map_id _)
    exact Prod.ext rfl (value_of_data hs hi _ (h.bound scope (Array.mem_of_getElem? hf) binding hb))
  rw [Shift.frame, houter, hbindings]

end

end Discipline

/-! ### From one call to the next -/

/-- What was there before stays, and what is new is moved up past all that there is after. -/
def Mirror.ofGrowth (before after : Store) : Mirror where
  scopes := before.scopes.size
  scopeGap := after.scopes.size - before.scopes.size
  identities := before.nextIdentity
  identityGap := after.nextIdentity - before.nextIdentity
  old i := i < before.scopes.size
  old_lt := .inr fun _ h => h
  before := before.output
  before' := after.output

/-- A store and what it has grown into, without a change to what was there. -/
theorem Mirror.twin_ofGrowth {w w' : ℕ × ℕ} {before after : Store} (hb : Discipline.numbered.Holds w before)
    (ha : Discipline.numbered.Holds w' after) (hw : w ≤ w')
    (hk : ∀ i < before.scopes.size, after.scopes[i]? = before.scopes[i]?) :
    (ofGrowth before after).Twin before.scopes.size before after := by
  have hsize : before.scopes.size ≤ after.scopes.size := by
    rw [hb.size, ha.size]
    exact hw.1
  have hnext : before.nextIdentity ≤ after.nextIdentity := by
    rw [hb.nextIdentity, ha.nextIdentity]
    exact hw.2
  have hgap : after.scopes.size = before.scopes.size + (ofGrowth before after).scopeGap :=
    (Nat.add_sub_of_le hsize).symm
  refine
    { start := le_rfl
      size := rfl
      size' := hgap
      identities := le_rfl
      fresh := (Nat.add_sub_of_le hnext).symm
      scopes := fun i _ => ?_
      leads := fun i scope _ hf => ?_
      output := ⟨#[], by simp [ofGrowth], by simp [ofGrowth]⟩ }
  · by_cases hi : i < before.scopes.size
    · have hstay : (ofGrowth before after).scope i = i := movedUp_of_lt hi
      rw [hstay, hk i hi]
      cases hf : before.scopes[i]? with
      | none => rfl
      | some scope => exact congrArg some (hb.frame_eq hb.size.ge hb.nextIdentity.ge hf).symm
    · have hpast : (ofGrowth before after).scope i = i + (ofGrowth before after).scopeGap :=
        movedUp_of_le (Nat.le_of_not_lt hi)
      have hnone : after.scopes.size ≤ i + (ofGrowth before after).scopeGap := by
        rw [hgap]
        exact Nat.add_le_add_right (Nat.le_of_not_lt hi) _
      rw [hpast, Array.getElem?_eq_none hnone, Array.getElem?_eq_none (Nat.le_of_not_lt hi)]
      rfl
  · have hi : i < before.scopes.size := (Array.getElem?_eq_some_iff.1 hf).1
    refine ⟨fun o ho => ?_, fun binding hm => ?_⟩
    · have holder : o < i := (hb.world.1.2.outer i scope hf).2 o ho
      exact ⟨.inl (holder.trans hi), .inr holder⟩
    · refine (hb.bound scope (Array.mem_of_getElem? hf) binding hm).reads fun j hj => ?_
      show j < before.scopes.size
      rwa [hb.size]

/-! ### Values of a session -/

namespace Session

/-- The values that there are after the sources have been run: what has no identity, what is bound in any
scope, what a run has given, and what stands in an array. An error is none of them, for it is never bound
and never stands in an array. -/
inductive Available (limits : Limits) (sources : List String) : Value → Prop
  | atom {value : Value} (h : value.isAtom = true) : Available limits sources value
  | bound {scope : Scope} {binding : String × Value} (hs : scope ∈ (runs limits sources).store.scopes)
    (hb : binding ∈ scope.bindings) : Available limits sources binding.2
  | given {earlier later : List String} {source : String} {value : Value}
    (hs : sources = earlier ++ [source] ++ later)
    (hv : ((runs limits earlier).run limits source).1 = .value value) (he : value.isError = false) :
    Available limits sources value
  | element {identity : Identity} {elements : List Value} {element : Value}
    (h : Available limits sources (.array identity elements)) (he : element ∈ elements) :
    Available limits sources element

end Session

namespace Discipline

section

variable {W : Type} [Preorder W] {D : Discipline W} {limits : Limits} {w w' : W}

/-- One run keeps the discipline, and what it gives is an answer. -/
theorem Governs.holds_run_given (h : D.Governs limits w) (hw : w ≤ w') {session : Session}
    (hs : D.Holds w' session.store) (source : String) :
    ∃ u, w' ≤ u ∧ D.Holds u (session.run limits source).2.store ∧
      ∀ value, (session.run limits source).1 = .value value → D.Answer u value := by
  by_cases hv : ∃ value, (session.run limits source).1 = .value value
  · obtain ⟨value, hv⟩ := hv
    obtain ⟨u, hu, hafter, hanswer⟩ := h.holds_run_value hw hs hv
    refine ⟨u, hu, hafter, fun other ho => ?_⟩
    obtain rfl : value = other := Outcome.value.inj (hv.symm.trans ho)
    exact hanswer
  · obtain ⟨u, hu, hafter⟩ := h.holds_run hw hs source
    exact ⟨u, hu, hafter, fun value ho => absurd ⟨value, ho⟩ hv⟩

theorem Governs.holds_runs_given (h : D.Governs limits w) (sources : List String) :
    ∃ u, w ≤ u ∧ D.Holds u (Session.runs limits sources).store ∧
      ∀ earlier source later value, sources = earlier ++ [source] ++ later →
        ((Session.runs limits earlier).run limits source).1 = .value value → D.Answer u value := by
  induction sources using List.reverseRecOn with
  | nil => exact ⟨w, le_rfl, h.initial, by simp⟩
  | append_singleton sources last ih =>
    obtain ⟨u, hu, hs, hgiven⟩ := ih
    obtain ⟨u', hu', hs', hlast⟩ := h.holds_run_given hu hs last
    rw [← Session.runs_concat] at hs'
    refine ⟨u', hu.trans hu', hs', fun earlier source later value hsources hv => ?_⟩
    rcases List.eq_nil_or_concat later with rfl | ⟨later, final, rfl⟩
    · rw [List.append_nil] at hsources
      obtain ⟨rfl, hsource⟩ := List.append_inj' hsources rfl
      obtain rfl : last = source := List.singleton_inj.1 hsource
      exact hlast value hv
    · rw [List.concat_eq_append, ← List.append_assoc] at hsources
      obtain ⟨hfront, -⟩ := List.append_inj' hsources rfl
      exact (hgiven earlier source later value hfront hv).imp_right (Data.mono hu')

/-- All that there is after some runs is data in one world. -/
theorem Governs.holds_runs_available (h : D.Governs limits w) (sources : List String) :
    ∃ u, w ≤ u ∧ D.Holds u (Session.runs limits sources).store ∧
      ∀ value, Session.Available limits sources value → D.Data u value := by
  obtain ⟨u, hu, hs, hgiven⟩ := h.holds_runs_given sources
  refine ⟨u, hu, hs, fun value ha => ?_⟩
  induction ha with
  | atom h => exact .atom h
  | bound hscope hb => exact hs.bound _ hscope _ hb
  | given hsources hv he => exact (hgiven _ _ _ _ hsources hv).resolve_left (by simp [he])
  | element _ he ih => exact Value.Sound.element ih _ he

theorem Governs.performs_available (h : D.Governs limits w) (sources : List String) {source : String}
    {e : Evaluation} (he : (Session.runs limits sources).Performs limits source e) :
    ∃ u, D.Allows u e ∧ ∀ value, Session.Available limits sources value → D.Data u value := by
  obtain ⟨u, hu, hs, hold⟩ := h.holds_runs_available sources
  obtain ⟨parsed, hparse, herrors, hi⟩ := he
  obtain ⟨u', hu', ha⟩ := (h.allows hu hs hparse herrors).includes hi
  exact ⟨u', ha, fun value hv => (hold value hv).mono hu'⟩

end

theorem data_of_available {limits : Limits} {u : ℕ × ℕ} {sources : List String} {value : Value}
    (h : Session.Available limits sources value)
    (hs : numbered.Holds u (Session.runs limits sources).store) : numbered.Data u value := by
  obtain ⟨v, -, hv, hdata⟩ := (numbered_governs limits).holds_runs_available sources
  obtain rfl : u = v := hs.eq_world.trans hv.eq_world.symm
  exact hdata value h

end Discipline

open Session Discipline in
/-- Calls are repeatable. After any runs, take a call of available values, and make it again from the store
that it leaves. Both times it prints the same lines, and either it goes too deep both times or both results
have the same type and the same text. -/
theorem calls_are_repeatable {limits : Limits} (sources : List String) (call : Call)
    (h : ∀ value ∈ call.given, Available limits sources value) {first second : Except Fault Value × Store}
    (hfirst : call.outcome (runs limits sources).store = first)
    (hsecond : call.outcome first.2 = second) :
    (∃ lines, first.2.output = (runs limits sources).store.output ++ lines ∧
      second.2.output = first.2.output ++ lines) ∧
    (first.1 = .error .tooDeep ∧ second.1 = .error .tooDeep ∨
      ∃ value value', first.1 = .ok value ∧ second.1 = .ok value' ∧ value'.type = value.type ∧
        value'.inspect = value.inspect) := by
  obtain ⟨w, -, hs⟩ := (numbered_governs limits).holds_runs sources
  have hdata : ∀ value ∈ call.given, numbered.Data w value := fun value hv => data_of_available (h value hv) hs
  obtain ⟨hcallee, harguments⟩ := List.forall_mem_cons.1 hdata
  have hend : numbered.Ends w numbered.Answer first := by
    rw [← hfirst]
    exact (agree_applyFunction (fun _ _ _ _ hr hi => agree_eval _ hr hi) le_rfl call.room hcallee
      harguments _ hs).2
  obtain ⟨w', hw', hafter⟩ := hend.holds
  -- The first call has only added to the store, so what it leaves is a twin of what it found.
  have htwin := Mirror.twin_ofGrowth hs hafter hw' fun i hi => by
    rw [← hfirst]
    exact call.getElem?_outcome hi
  have hmeet := htwin.meet_outcome call
    (fun value hv => (hdata value hv).reads fun i hi => show i < _ by rwa [hs.size])
    fun value hv => value_of_data hs.size.ge hs.nextIdentity.ge value (hdata value hv)
  rw [hfirst, hsecond] at hmeet
  obtain ⟨m, -, hlast⟩ := hmeet.twin
  refine ⟨hlast.output, ?_⟩
  have hresult := hmeet.result
  cases hv : first.1 with
  | error cause =>
    rw [hv] at hresult
    obtain rfl : cause = .tooDeep := hend.fault hv
    exact .inl ⟨rfl, hresult⟩
  | ok value =>
    rw [hv] at hresult
    exact .inr ⟨value, _, rfl, hresult, Shift.type_value _ value, Shift.inspect_value _ value⟩

open Session in
/-- A function that prints its argument and makes an array of it. The arrays of the two calls are not the
same value, but of one type and text. -/
theorem call_of_result_repeated :
    ∃ (call : Call) (first second : Except Fault Value × Store),
      call.outcome (runs Limits.standard ["fn(x) \x7b spit(x); [x] \x7d"]).store = first ∧
      call.outcome first.2 = second ∧ first.1 = .ok (.array 1 [.integer 5]) ∧
      second.1 = .ok (.array 2 [.integer 5]) ∧
      ∃ lines, first.2.output = (runs Limits.standard ["fn(x) \x7b spit(x); [x] \x7d"]).store.output ++ lines ∧
        second.2.output = first.2.output ++ lines := by
  refine ⟨⟨9, 9, .function 0 [⟨⟨.ident, "x"⟩, "x"⟩] (.block ⟨.lbrace, "\x7b"⟩
    [.expressionStatement ⟨.ident, "spit"⟩ (.call ⟨.lparen, "("⟩ (.identifier ⟨⟨.ident, "spit"⟩, "spit"⟩)
      [.identifier ⟨⟨.ident, "x"⟩, "x"⟩]),
     .expressionStatement ⟨.lbracket, "["⟩ (.array ⟨.lbracket, "["⟩
      [.identifier ⟨⟨.ident, "x"⟩, "x"⟩])]) 0, [.integer 5]⟩, _, _, rfl, rfl, rfl, rfl, ?_⟩
  refine And.left (calls_are_repeatable ["fn(x) \x7b spit(x); [x] \x7d"] _ ?_ rfl rfl)
  rw [Call.given, List.forall_mem_cons, List.forall_mem_singleton]
  exact ⟨@Available.given _ _ [] [] _ _ rfl rfl rfl, .atom rfl⟩

end Scriptlet
