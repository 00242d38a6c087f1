import Mathlib.Algebra.Group.Int.Defs
import Scriptlet.Proofs.Eval.Action

/-!
# Arithmetic

Trees of integer literals and the four operations evaluate as words of 64 bits do. The operators compute on integers
without bounds, make quotients of absolute values and a sign, and cut off what comes out (`toInt64`).
`Arithmetic.word?` computes on words: sums, differences and products are those of the words, and a quotient is that of
the signed values, without its fraction and cut off to a word again. The two agree step by step
(`applyIntegerOp_word`). A divisor that is zero leaves a tree without a value, and then it evaluates to an error.

`Arithmetic.unbounded?` computes without bounds. Cutting off at the end is as good as cutting off at every step, for
it commutes with all operations but the quotient (`word?_of_unbounded?`).
-/

namespace Scriptlet

/-- The operations that make integers of integers. -/
inductive Operation where
  | sum
  | difference
  | product
  | quotient

namespace Operation

def symbol : Operation → String
  | .sum => "+"
  | .difference => "-"
  | .product => "*"
  | .quotient => "/"

/-- The operation on words. There is no quotient by zero. -/
def onWords? : Operation → BitVec 64 → BitVec 64 → Option (BitVec 64)
  | .sum, x, y => some (x + y)
  | .difference, x, y => some (x - y)
  | .product, x, y => some (x * y)
  | .quotient, x, y => if y = 0 then none else some (BitVec.ofInt 64 (x.toInt.tdiv y.toInt))

/-- The operation on integers without bounds, which leaves quotients out. -/
def onIntegers? : Operation → Int → Int → Option Int
  | .sum, x, y => some (x + y)
  | .difference, x, y => some (x - y)
  | .product, x, y => some (x * y)
  | .quotient, _, _ => none

end Operation

/-- The operators that compare integers. -/
inductive Comparison where
  | less
  | greater
  | equal
  | unequal

namespace Comparison

def symbol : Comparison → String
  | .less => "<"
  | .greater => ">"
  | .equal => "=="
  | .unequal => "!="

def holds : Comparison → Int → Int → Bool
  | .less, x, y => decide (x < y)
  | .greater, x, y => decide (y < x)
  | .equal, x, y => decide (x = y)
  | .unequal, x, y => decide (x ≠ y)

end Comparison

/-- Trees of integer literals, whatever their values, with minus signs and operations. -/
inductive Arithmetic where
  | literal (token : Token) (value : Int)
  | negation (token : Token) (operand : Arithmetic)
  | operation (token : Token) (op : Operation) (left right : Arithmetic)

namespace Arithmetic

/-- The tree as a node of a program. -/
def node : Arithmetic → Node
  | .literal token value => .integer token value
  | .negation token operand => .prefixOp token "-" operand.node
  | .operation token op left right => .infixOp token op.symbol left.node right.node

/-- The tree computed on words from left to right, up to the first quotient by zero. -/
def word? : Arithmetic → Option (BitVec 64)
  | .literal _ value => some (BitVec.ofInt 64 value)
  | .negation _ operand => operand.word?.map fun x => -x
  | .operation _ op left right => left.word?.bind fun x => right.word?.bind fun y => op.onWords? x y

/-- The tree computed on integers without bounds, if it has no quotients. -/
def unbounded? : Arithmetic → Option Int
  | .literal _ value => some value
  | .negation _ operand => operand.unbounded?.map fun x => -x
  | .operation _ op left right => left.unbounded?.bind fun x => right.unbounded?.bind fun y => op.onIntegers? x y

end Arithmetic

/-! ### Words -/

/-- An integer that is cut off is the signed value of its word. -/
theorem toInt64_eq_toInt (z : Int) : toInt64 z = (BitVec.ofInt 64 z).toInt := by
  rw [toInt64_eq_bmod, BitVec.toInt_ofInt]

theorem Value.ofInt_eq_word (z : Int) : Value.ofInt z = .integer (.ofBitVec (.ofInt 64 z)) := by
  rw [Value.ofInt_eq_integer, Int64.ofBitVec_ofInt]

theorem ofInt_sub (a b : Int) : BitVec.ofInt 64 (a - b) = BitVec.ofInt 64 a - BitVec.ofInt 64 b := by
  rw [Int.sub_eq_add_neg, BitVec.ofInt_add, BitVec.ofInt_neg, ← BitVec.sub_eq_add_neg]

/-- Absolute values and a test of the signs give the quotient without its fraction. -/
theorem quotient_eq_tdiv (a b : Int) : quotient a b = a.tdiv b := by
  have hofNat : ∀ n : Nat, decide (Int.ofNat n < 0) = false :=
    fun n => decide_eq_false (Int.not_lt.2 (Int.natCast_nonneg n))
  have hnegSucc : ∀ n : Nat, decide (Int.negSucc n < 0) = true := fun n => decide_eq_true (Int.negSucc_lt_zero n)
  rw [quotient]
  cases a with
  | ofNat m =>
    cases b with
    | ofNat n =>
      rw [hofNat, hofNat]
      rfl
    | negSucc n =>
      rw [hofNat, hnegSucc]
      rfl
  | negSucc m =>
    cases b with
    | ofNat n =>
      rw [hnegSucc, hofNat]
      rfl
    | negSucc n =>
      rw [hnegSucc, hnegSucc]
      rfl

section

variable {x y : BitVec 64}

theorem applyPrefixOp_word :
    applyPrefixOp "-" (.integer (.ofBitVec x)) = .ok (.integer (.ofBitVec (-x))) := by
  show Except.ok (Value.ofInt (-x.toInt)) = _
  rw [Value.ofInt_eq_word, BitVec.ofInt_neg, BitVec.ofInt_toInt]

/-- To cut off what the signed values of two words make is to operate on the words. -/
theorem applyIntegerOp_word (operation : Operation) :
    applyIntegerOp operation.symbol (.ofBitVec x) (.ofBitVec y) =
      match operation.onWords? x y with
      | some z => .integer (.ofBitVec z)
      | none => .error .divisionByZero := by
  cases operation with
  | sum =>
    show Value.ofInt (x.toInt + y.toInt) = .integer (.ofBitVec (x + y))
    rw [Value.ofInt_eq_word, BitVec.ofInt_add, BitVec.ofInt_toInt, BitVec.ofInt_toInt]
  | difference =>
    show Value.ofInt (x.toInt - y.toInt) = .integer (.ofBitVec (x - y))
    rw [Value.ofInt_eq_word, ofInt_sub, BitVec.ofInt_toInt, BitVec.ofInt_toInt]
  | product =>
    show Value.ofInt (x.toInt * y.toInt) = .integer (.ofBitVec (x * y))
    rw [Value.ofInt_eq_word, BitVec.ofInt_mul, BitVec.ofInt_toInt, BitVec.ofInt_toInt]
  | quotient =>
    have hstep : applyIntegerOp "/" (.ofBitVec x) (.ofBitVec y) =
        if y.toInt = 0 then .error .divisionByZero else .ofInt (quotient x.toInt y.toInt) := rfl
    rw [Operation.symbol, hstep]
    by_cases hy : y = 0
    · subst hy
      rfl
    · have hne : y.toInt ≠ 0 := fun h => hy (BitVec.eq_of_toInt_eq h)
      rw [if_neg hne, Operation.onWords?, if_neg hy, Value.ofInt_eq_word, quotient_eq_tdiv]

theorem applyIntegerOp_comparison (comparison : Comparison) :
    applyIntegerOp comparison.symbol (.ofBitVec x) (.ofBitVec y) =
      .boolean (comparison.holds x.toInt y.toInt) := by
  cases comparison with
  | less => rfl
  | greater => rfl
  | equal => rfl
  | unequal =>
    show Value.boolean (!decide (x.toInt = y.toInt)) = .boolean (decide (x.toInt ≠ y.toInt))
    rw [decide_not]

end

namespace Arithmetic

theorem word?_of_unbounded? {a : Arithmetic} {z : Int} (h : a.unbounded? = some z) :
    a.word? = some (BitVec.ofInt 64 z) := by
  induction a generalizing z with
  | literal token value =>
    cases h
    rfl
  | negation token operand ih =>
    obtain ⟨x, hx, rfl⟩ := Option.map_eq_some_iff.1 h
    rw [word?, ih hx, BitVec.ofInt_neg]
    rfl
  | operation token op left right ihl ihr =>
    obtain ⟨x, hx, h⟩ := Option.bind_eq_some_iff.1 h
    obtain ⟨y, hy, h⟩ := Option.bind_eq_some_iff.1 h
    rw [word?, ihl hx, Option.bind_some, ihr hy, Option.bind_some]
    cases op with
    | sum =>
      cases h
      rw [BitVec.ofInt_add]
      rfl
    | difference =>
      cases h
      rw [ofInt_sub]
      rfl
    | product =>
      cases h
      rw [BitVec.ofInt_mul]
      rfl
    | quotient => cases h

end Arithmetic

/-! ### Evaluation -/

/-- The integer that a word stands for, and the error of a quotient by zero where there is no word. -/
def Value.ofWord? : Option (BitVec 64) → Value
  | some x => .integer (.ofBitVec x)
  | none => .error .divisionByZero

/-- What an operator makes of two words, or of the first one that is missing. -/
def infixValue (operator : String) : Option (BitVec 64) → Option (BitVec 64) → Value
  | some x, some y => applyIntegerOp operator (.ofBitVec x) (.ofBitVec y)
  | _, _ => .error .divisionByZero

theorem infixValue_operation (operation : Operation) (x? y? : Option (BitVec 64)) :
    infixValue operation.symbol x? y? = .ofWord? (x?.bind fun x => y?.bind fun y => operation.onWords? x y) := by
  cases x? with
  | none => rfl
  | some x =>
    cases y? with
    | none => rfl
    | some y =>
      show applyIntegerOp operation.symbol (.ofBitVec x) (.ofBitVec y) = .ofWord? (operation.onWords? x y)
      rw [applyIntegerOp_word]
      cases operation.onWords? x y <;> rfl

/-- Evaluating the node gives the value and leaves the store as it is, except that a node may be nested too
deep. -/
def Settles (depth : Nat) (i : ScopeId) (store : Store) (node : Node) (value : Value) : Prop :=
  eval depth node i store = (.ok value, store) ∨
    eval depth node i store = (.error .tooDeep, store) ∧ node.fits depth = false

section

variable {depth : Nat} {i : ScopeId} {store : Store} {token : Token} {operator : String}

theorem Settles.eval_eq {node : Node} {value : Value} (h : Settles depth i store node value)
    (hfits : node.fits depth = true) : eval depth node i store = (.ok value, store) := by
  rcases h with h | ⟨-, hdeep⟩
  · exact h
  · rw [hfits] at hdeep
    cases hdeep

theorem settles_zero (node : Node) (value : Value) : Settles 0 i store node value := .inr ⟨rfl, rfl⟩

theorem settles_negation {right : Node} {x? : Option (BitVec 64)}
    (hright : Settles depth i store right (.ofWord? x?)) :
    Settles (depth + 1) i store (.prefixOp token "-" right) (.ofWord? (x?.map fun x => -x)) := by
  have hstep : eval (depth + 1) (.prefixOp token "-" right) i store =
      evalThen (eval depth) right i (fun right => Action.ofExcept (applyPrefixOp "-" right)) store := rfl
  rcases hright with hright | ⟨hright, hfits⟩
  · refine .inl ?_
    rw [hstep]
    cases x? with
    | none => exact evalThen_signal hright rfl _
    | some x =>
      rw [evalThen_value hright rfl, Value.ofWord?, applyPrefixOp_word]
      rfl
  · refine .inr ⟨?_, ?_⟩
    · rw [hstep, evalThen, Action.bind_run, hright]
    · simp [Node.fits, Node.children, hfits]

theorem settles_infixOp {left right : Node} {x? y? : Option (BitVec 64)}
    (hleft : Settles depth i store left (.ofWord? x?)) (hright : Settles depth i store right (.ofWord? y?)) :
    Settles (depth + 1) i store (.infixOp token operator left right) (infixValue operator x? y?) := by
  have hstep : eval (depth + 1) (.infixOp token operator left right) i store =
      evalThen (eval depth) left i (fun left => evalThen (eval depth) right i fun right =>
        Action.ofExcept (applyInfixOp false operator left right)) store := rfl
  rcases hleft with hleft | ⟨hleft, hfits⟩
  · cases x? with
    | none =>
      refine .inl ?_
      rw [hstep]
      exact evalThen_signal hleft rfl _
    | some x =>
      rw [evalThen_value hleft rfl] at hstep
      rcases hright with hright | ⟨hright, hfits⟩
      · refine .inl ?_
        rw [hstep]
        cases y? with
        | none => exact evalThen_signal hright rfl _
        | some y => exact evalThen_value hright rfl _
      · refine .inr ⟨?_, ?_⟩
        · rw [hstep, evalThen, Action.bind_run, hright]
        · simp [Node.fits, Node.children, hfits]
  · refine .inr ⟨?_, ?_⟩
    · rw [hstep, evalThen, Action.bind_run, hleft]
    · simp [Node.fits, Node.children, hfits]

theorem Arithmetic.settles_node (depth : Nat) (i : ScopeId) (store : Store) (a : Arithmetic) :
    Settles depth i store a.node (.ofWord? a.word?) := by
  induction a generalizing depth with
  | literal token value =>
    cases depth with
    | zero => exact settles_zero _ _
    | succ depth =>
      refine .inl ?_
      rw [word?, Value.ofWord?, ← Value.ofInt_eq_word]
      rfl
  | negation token operand ih =>
    cases depth with
    | zero => exact settles_zero _ _
    | succ depth => exact settles_negation (ih depth)
  | operation token op left right ihl ihr =>
    cases depth with
    | zero => exact settles_zero _ _
    | succ depth =>
      rw [word?, ← infixValue_operation]
      exact settles_infixOp (ihl depth) (ihr depth)

end

/-- A tree evaluates to the integer that it has as a word, or else to the error of a quotient by zero. Without
quotients that is its exact value cut off to 64 bits, and comparisons of two trees compare the signed values.
Evaluation writes nothing, and the only fault is that of a node that is nested too deep. -/
theorem arithmetic_eq_words (depth : Nat) (i : ScopeId) (store : Store) :
    (∀ a : Arithmetic,
      match a.word? with
      | some x => ∃ n : Int64, n.toInt = x.toInt ∧ Settles depth i store a.node (.integer n)
      | none => ∃ e : RuntimeError, e.message = "division by zero" ∧ Settles depth i store a.node (.error e)) ∧
    (∀ (a : Arithmetic) (z : Int), a.unbounded? = some z →
      ∃ n : Int64, n.toInt = toInt64 z ∧ Settles depth i store a.node (.integer n)) ∧
    ∀ (token : Token) (comparison : Comparison) (a b : Arithmetic) (x y : BitVec 64),
      a.word? = some x → b.word? = some y →
      Settles depth i store (.infixOp token comparison.symbol a.node b.node)
        (.boolean (comparison.holds x.toInt y.toInt)) := by
  refine ⟨fun a => ?_, fun a z hz => ?_, fun token comparison a b x y hx hy => ?_⟩
  · have ha := a.settles_node depth i store
    cases hx : a.word? with
    | none => exact ⟨.divisionByZero, rfl, by rwa [hx] at ha⟩
    | some x => exact ⟨.ofBitVec x, Int64.toInt_ofBitVec x, by rwa [hx] at ha⟩
  · have ha := a.settles_node depth i store
    rw [Arithmetic.word?_of_unbounded? hz] at ha
    exact ⟨.ofBitVec (.ofInt 64 z), by rw [Int64.toInt_ofBitVec, toInt64_eq_toInt], ha⟩
  · cases depth with
    | zero => exact settles_zero _ _
    | succ depth =>
      have ha := a.settles_node depth i store
      have hb := b.settles_node depth i store
      rw [hx] at ha
      rw [hy] at hb
      rw [← applyIntegerOp_comparison]
      exact settles_infixOp ha hb

/-- The quotient of the least word by minus one is the least word again, it is less than zero, and the product of
the two literals around `2 ^ 63` is minus one. -/
theorem extreme_words :
    let least : Arithmetic := .operation .blank .quotient (.negation .blank (.literal .blank (2 ^ 63)))
      (.negation .blank (.literal .blank 1))
    let product : Arithmetic := .operation .blank .product (.literal .blank (2 ^ 63 + 1))
      (.literal .blank (2 ^ 63 - 1))
    (∃ n : Int64, n.toInt = -2 ^ 63 ∧ eval 3 least.node 0 .initial = (.ok (.integer n), .initial)) ∧
      (∃ n : Int64, n.toInt = -1 ∧ eval 2 product.node 0 .initial = (.ok (.integer n), .initial)) ∧
      eval 4 (.infixOp .blank "<" least.node (Arithmetic.literal .blank 0).node) 0 .initial =
        (.ok (.boolean true), .initial) := by
  refine ⟨?_, ?_, ?_⟩
  · obtain ⟨n, hn, h⟩ := (arithmetic_eq_words 3 0 .initial).1 (.operation .blank .quotient
      (.negation .blank (.literal .blank (2 ^ 63))) (.negation .blank (.literal .blank 1)))
    exact ⟨n, hn, h.eval_eq rfl⟩
  · obtain ⟨n, hn, h⟩ := (arithmetic_eq_words 2 0 .initial).2.1 (.operation .blank .product
      (.literal .blank (2 ^ 63 + 1)) (.literal .blank (2 ^ 63 - 1))) (2 ^ 126 - 1) (by decide)
    exact ⟨n, hn.trans (by decide), h.eval_eq rfl⟩
  · exact ((arithmetic_eq_words 4 0 .initial).2.2 .blank .less (.operation .blank .quotient
      (.negation .blank (.literal .blank (2 ^ 63))) (.negation .blank (.literal .blank 1)))
      (.literal .blank 0) (.ofInt 64 (-2 ^ 63)) 0 (by decide) (by decide)).eval_eq rfl

end Scriptlet
