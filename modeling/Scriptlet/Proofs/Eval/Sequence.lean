import Mathlib.Algebra.Group.Nat.Defs
import Scriptlet.Proofs.Eval.Action

/-!
# Arrays as sequences

Programs have no loops; they go over an array with `len`, `first`, `rest` and `push`, or with subscripts. Each
builtin is told here by what it does to the list of elements, and what comes of using them again and again is
told by induction on that list.
-/

namespace Scriptlet

/-- The value is an array of these elements. -/
def Value.HasElements (value : Value) (elements : List Value) : Prop :=
  ∃ identity, value = .array identity elements

namespace Action

variable {act : Action Value} {next : Value → Action Value} {P Q : Value → Prop}

/-- In every store the action ends with a value of which `P` holds. It prints nothing and leaves all scopes as they
are; only identities may be given out. -/
def Yields (act : Action Value) (P : Value → Prop) : Prop :=
  ∀ store, ∃ value identity, act store = (.ok value, { store with nextIdentity := identity }) ∧ P value

theorem yields_pure {value : Value} (h : P value) : Yields (pure value) P :=
  fun store => ⟨value, store.nextIdentity, rfl, h⟩

theorem yields_newArray (elements : List Value) : Yields (newArray elements) (·.HasElements elements) :=
  fun store => ⟨_, store.nextIdentity + 1, newArray_run elements store, _, rfl⟩

theorem Yields.bind (h : Yields act P) (hn : ∀ value, P value → Yields (next value) Q) : Yields (act >>= next) Q := by
  intro store
  obtain ⟨value, identity, hrun, hp⟩ := h store
  obtain ⟨result, last, hnext, hq⟩ := hn value hp { store with nextIdentity := identity }
  exact ⟨result, last, (bind_run_ok hrun next).trans hnext, hq⟩

theorem Yields.mono (h : Yields act P) (hpq : ∀ value, P value → Q value) : Yields act Q := by
  intro store
  obtain ⟨value, identity, hrun, hp⟩ := h store
  exact ⟨value, identity, hrun, hpq value hp⟩

end Action

/-! ### Subscripts -/

section

variable {elements : List Value}

theorem elementAt_ofNat {i : Nat} (hi : i < 2 ^ 63) :
    elementAt elements (Int64.ofNat i) = elements[i]?.getD .null := by
  have hint : (Int64.ofNat i).toInt = i := Int64.toInt_ofNat_of_lt hi
  rw [elementAt, hint, if_pos (Int.natCast_nonneg i), Int.toNat_natCast, List.getD_eq_getElem?_getD]

theorem elementAt_of_outside {i : Int64} (hi : ¬(0 ≤ i.toInt ∧ i.toInt < elements.length)) :
    elementAt elements i = .null := by
  rw [elementAt]
  split
  · next hzero =>
    have hlength : elements.length ≤ i.toInt.toNat := by omega
    rw [List.getD_eq_getElem?_getD, List.getElem?_eq_none hlength, Option.getD_none]
  · rfl

end

namespace Builtin

open Scriptlet.Action

/-- What is left of an array when `rest` has been called `n` times. -/
def restTimes (room : Nat) : (n : Nat) → Value → Action Value
  | 0, a => pure a
  | n + 1, a => do restTimes room n (← call room .rest [a])

/-- Takes the first element off `source` and pushes it onto `target`, `n` times. -/
def moveTimes (room : Nat) : (n : Nat) → (source target : Value) → Action Value
  | 0, _, target => pure target
  | n + 1, source, target => do
    let element ← call room .first [source]
    let target ← call room .push [target, element]
    moveTimes room n (← call room .rest [source]) target

variable (room : Nat)

/-! ### One call -/

section

variable {a : Value} {elements : List Value} (ha : a.HasElements elements)
include ha

theorem call_len : call room .len [a] = pure (.integer (Int64.ofNat elements.length)) := by
  obtain ⟨identity, rfl⟩ := ha
  show pure (Value.ofInt elements.length) = _
  rw [Value.ofInt_eq_integer, Int64.ofInt_eq_ofNat]

theorem call_first : call room .first [a] = pure (elements.headD .null) := by
  obtain ⟨identity, rfl⟩ := ha
  rfl

theorem call_last : call room .last [a] = pure (elements.getLastD .null) := by
  obtain ⟨identity, rfl⟩ := ha
  rfl

theorem call_push (x : Value) : call room .push [a, x] = newArray (elements ++ [x]) := by
  obtain ⟨identity, rfl⟩ := ha
  rfl

theorem call_rest (hne : elements ≠ []) : call room .rest [a] = newArray elements.tail := by
  obtain ⟨identity, rfl⟩ := ha
  cases elements with
  | nil => exact absurd rfl hne
  | cons first elements => rfl

theorem applyIndex_ofNat {i : Nat} (hi : i < 2 ^ 63) :
    applyIndex a (.integer (Int64.ofNat i)) = .ok (elements[i]?.getD .null) := by
  obtain ⟨identity, rfl⟩ := ha
  exact congrArg Except.ok (elementAt_ofNat hi)

theorem applyIndex_of_outside {i : Int64} (hi : ¬(0 ≤ i.toInt ∧ i.toInt < elements.length)) :
    applyIndex a (.integer i) = .ok .null := by
  obtain ⟨identity, rfl⟩ := ha
  exact congrArg Except.ok (elementAt_of_outside hi)

end

theorem yields_null_of_empty {a : Value} (ha : a.HasElements []) {builtin : Builtin}
    (hb : builtin ∈ [.rest, .first, .last]) : Yields (call room builtin [a]) (· = .null) := by
  obtain ⟨identity, rfl⟩ := ha
  simp only [List.mem_cons, List.not_mem_nil, or_false] at hb
  rcases hb with rfl | rfl | rfl <;> exact yields_pure rfl

/-! ### Many calls -/

theorem yields_restTimes {n : Nat} {a : Value} {elements : List Value} (ha : a.HasElements elements)
    (hn : n ≤ elements.length) : Yields (restTimes room n a) (·.HasElements (elements.drop n)) := by
  induction n generalizing a elements with
  | zero => exact yields_pure ha
  | succ n ih =>
    cases elements with
    | nil => cases hn
    | cons first elements =>
      rw [restTimes, call_rest room ha (List.cons_ne_nil _ _)]
      exact (yields_newArray elements).bind fun left hl => ih hl (Nat.le_of_succ_le_succ hn)

/-- The elements that are gone from the source are the ones that the target has got, and in the same order. -/
theorem yields_moveTimes {elements moved : List Value} {source target : Value} (hs : source.HasElements elements)
    (ht : target.HasElements moved) :
    Yields (moveTimes room elements.length source target) (·.HasElements (moved ++ elements)) := by
  induction elements generalizing source target moved with
  | nil =>
    rw [List.append_nil]
    exact yields_pure ht
  | cons first elements ih =>
    show Yields (do
      let element ← call room .first [source]
      let target ← call room .push [target, element]
      moveTimes room elements.length (← call room .rest [source]) target) _
    rw [call_first room hs, pure_bind, call_push room ht, call_rest room hs (List.cons_ne_nil _ _)]
    refine (yields_newArray _).bind fun target ht => (yields_newArray _).bind fun source hs => ?_
    rw [← List.singleton_append, ← List.append_assoc]
    exact ih hs ht

/-! ### One sequence -/

/-- Whoever looks into `a`, by `len`, by subscripts, by `first` after some calls of `rest`, or by `last`, finds these
elements, and null beyond them. -/
structure Presents (a : Value) (elements : List Value) : Prop where
  len : ∃ n : Int64, Yields (call room .len [a]) (· = .integer n) ∧ n.toInt = elements.length
  inside : ∀ i (hi : i < elements.length), applyIndex a (.integer (Int64.ofNat i)) = .ok elements[i] ∧
    Yields (restTimes room i a) fun left =>
      left.HasElements (elements.drop i) ∧ Yields (call room .first [left]) (· = elements[i])
  spent : Yields (restTimes room elements.length a) fun left =>
    left.HasElements [] ∧ ∀ builtin ∈ [.rest, .first, .last], Yields (call room builtin [left]) (· = .null)
  outside : ∀ i : Int64, ¬(0 ≤ i.toInt ∧ i.toInt < elements.length) → applyIndex a (.integer i) = .ok .null
  last : Yields (call room .last [a]) fun value =>
    applyIndex a (.integer (Int64.ofNat elements.length - 1)) = .ok value

variable {a : Value} {elements : List Value}

theorem yields_last (ha : a.HasElements elements) (hk : elements.length < 2 ^ 63) :
    Yields (call room .last [a]) fun value =>
      applyIndex a (.integer (Int64.ofNat elements.length - 1)) = .ok value := by
  rw [call_last room ha]
  refine yields_pure ?_
  cases elements with
  | nil =>
    -- There is no last element, and the index before the first one is outside.
    exact applyIndex_of_outside ha (by decide)
  | cons first elements =>
    have hpred : Int64.ofNat (first :: elements).length - 1 = Int64.ofNat elements.length := by
      rw [List.length_cons, Int64.ofNat_add]
      exact Int64.add_sub_cancel ..
    rw [hpred, applyIndex_ofNat ha (Nat.lt_of_succ_lt hk), List.getLastD_eq_getLast?, List.getLast?_eq_getElem?]
    rfl

theorem presents (ha : a.HasElements elements) (hk : elements.length < 2 ^ 63) : Presents room a elements where
  len := ⟨Int64.ofNat elements.length, by rw [call_len room ha]; exact yields_pure rfl, Int64.toInt_ofNat_of_lt hk⟩
  inside i hi := by
    refine ⟨?_, (yields_restTimes room ha (Nat.le_of_lt hi)).mono fun left hl => ⟨hl, ?_⟩⟩
    · rw [applyIndex_ofNat ha (Nat.lt_trans hi hk), List.getElem?_eq_getElem hi]
      rfl
    · rw [call_first room hl, List.drop_eq_getElem_cons hi]
      exact yields_pure rfl
  spent := by
    refine (yields_restTimes room ha (Nat.le_refl _)).mono fun left hl => ?_
    rw [List.drop_length] at hl
    exact ⟨hl, fun builtin hb => yields_null_of_empty room hl hb⟩
  outside i hi := applyIndex_of_outside ha hi
  last := yields_last room ha hk

theorem applyIndex_push {b x : Value} (ha : a.HasElements elements) (hb : b.HasElements (elements ++ [x])) {i : Nat}
    (hi : i < elements.length) (hk : elements.length < 2 ^ 63) :
    applyIndex b (.integer (Int64.ofNat i)) = applyIndex a (.integer (Int64.ofNat i)) := by
  have hsmall : i < 2 ^ 63 := Nat.lt_trans hi hk
  rw [applyIndex_ofNat hb hsmall, applyIndex_ofNat ha hsmall, List.getElem?_append_left hi]

/-- From a sequence that is not empty, it makes no difference whether the first element goes before another one
comes or afterwards. -/
theorem yields_rest_push (ha : a.HasElements elements) (hne : elements ≠ []) (x : Value) :
    Yields (do call room .push [← call room .rest [a], x]) (·.HasElements (elements.tail ++ [x])) ∧
    Yields (do call room .rest [← call room .push [a, x]]) (·.HasElements (elements.tail ++ [x])) := by
  constructor
  · rw [call_rest room ha hne]
    refine (yields_newArray _).bind fun left hl => ?_
    rw [call_push room hl]
    exact yields_newArray _
  · rw [call_push room ha]
    refine (yields_newArray _).bind fun b hb => ?_
    rw [call_rest room hb (by simp), List.tail_append_of_ne_nil hne]
    exact yields_newArray _

end Builtin

open Scriptlet.Action Builtin in
/-- The builtins and subscripts show one and the same sequence. An array presents its elements (`Presents`); `push`
makes an array with one more at the end, in which nothing else has moved; and pushing the elements one by one, as
`first` and `rest` give them, makes an array with the same elements. -/
theorem builtins_show_one_sequence (room : Nat) {a : Value} {elements : List Value} (ha : a.HasElements elements)
    (hk : elements.length < 2 ^ 63) (x : Value) :
    Presents room a elements ∧
    Yields (call room .push [a, x]) (fun b =>
      b.HasElements (elements ++ [x]) ∧
      Yields (call room .len [b]) (· = .integer (Int64.ofNat (elements.length + 1))) ∧
      (∀ i < elements.length,
        applyIndex b (.integer (Int64.ofNat i)) = applyIndex a (.integer (Int64.ofNat i))) ∧
      Yields (call room .last [b]) (· = x)) ∧
    (0 < elements.length → ∃ left,
      Yields (do call room .rest [← call room .push [a, x]]) (·.HasElements left) ∧
      Yields (do call room .push [← call room .rest [a], x]) (·.HasElements left)) ∧
    Yields (do moveTimes room elements.length a (← newArray [])) (·.HasElements elements) := by
  refine ⟨presents room ha hk, ?_, fun hpos => ?_,
    (yields_newArray []).bind fun target ht => yields_moveTimes room ha ht⟩
  · rw [call_push room ha]
    refine (yields_newArray _).mono fun b hb => ⟨hb, ?_, fun i hi => applyIndex_push ha hb hi hk, ?_⟩
    · rw [call_len room hb, List.length_append]
      exact yields_pure rfl
    · rw [call_last room hb, List.getLastD_concat]
      exact yields_pure rfl
  · obtain ⟨hpush, hrest⟩ := yields_rest_push room ha (List.ne_nil_of_length_pos hpos) x
    exact ⟨_, hrest, hpush⟩

open Scriptlet.Action Builtin in
theorem pair_shown_as_one_sequence :
    Presents 0 (.array 4 [.integer 1, .string "b"]) [.integer 1, .string "b"] ∧
    Yields (do moveTimes 0 2 (.array 4 [.integer 1, .string "b"]) (← newArray []))
      (·.HasElements [.integer 1, .string "b"]) := by
  obtain ⟨hpair, -, -, hmoved⟩ := builtins_show_one_sequence 0 (a := .array 4 [.integer 1, .string "b"]) ⟨4, rfl⟩
    (by decide) .null
  exact ⟨hpair, hmoved⟩

end Scriptlet
