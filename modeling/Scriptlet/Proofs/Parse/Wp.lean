import Scriptlet.Parse.Expression

/-!
# What parsers leave

`Parser.wp E p Q w`: read from the window `w`, the parser `p` ends with a result and a window that `Q`
holds for, or with a fault that `E` allows. The equations take a parser apart down to the expressions
inside it; a loop comes with an invariant that knows how many rounds are left.
-/

namespace Scriptlet

namespace Window

variable {σ : Type} (w : Window σ) (error : SyntaxError)

@[simp] theorem size_errors_report : (w.report error).errors.size = w.errors.size + 1 := by
  simp [report]

variable [TokenSource σ]

@[simp] theorem errors_advance : w.advance.errors = w.errors := rfl
@[simp] theorem budget_advance : w.advance.budget = w.budget := rfl

end Window

namespace Parser

variable {σ α β : Type}

/-- From `w` the parser ends as `Q` says, or with a fault that `E` allows. -/
def wp (E : Fault → Prop) (p : Parser σ α) (Q : α → Window σ → Prop) (w : Window σ) : Prop :=
  match p w with
  | .ok (a, w') => Q a w'
  | .error cause => E cause

theorem bind_of_ok {p : Parser σ α} {w w' : Window σ} {a : α} (h : p w = .ok (a, w')) (f : α → Parser σ β) :
    (p >>= f) w = f a w' := by
  show (p w >>= fun r => f r.1 r.2) = f a w'
  rw [h]
  rfl

theorem bind_of_error {p : Parser σ α} {w : Window σ} {cause : Fault} (h : p w = .error cause) (f : α → Parser σ β) :
    (p >>= f) w = .error cause := by
  show (p w >>= fun r => f r.1 r.2) = .error cause
  rw [h]
  rfl

theorem repeatAtMost_of_stop {more : α → Window σ → Bool} {body : α → Parser σ α} {a : α} {w : Window σ}
    (h : more a w = false) (n : Nat) : repeatAtMost more body n a w = .ok (a, w) := by
  cases n with
  | zero => rfl
  | succ n =>
    rw [repeatAtMost]
    simp only [h]
    rfl

theorem repeatAtMost_of_more {more : α → Window σ → Bool} {body : α → Parser σ α} {a : α} {w : Window σ}
    (h : more a w = true) (n : Nat) :
    repeatAtMost more body (n + 1) a w = (body a >>= repeatAtMost more body n) w := by
  rw [repeatAtMost]
  simp only [h, if_true]
  cases hb : body a w with
  | error cause => rw [bind_of_error hb]
  | ok result => rw [bind_of_ok hb]

/-- At a token that begins no expression, reading one ends at once. -/
theorem climb_of_none [TokenSource σ] {rules : Rules} {w : Window σ} (h : rules.beginning w.current.kind = none)
    (expr : Precedence → Parser σ Node) (precedence : Precedence) :
    climb rules expr precedence w = .ok (.hole, w.report (.noExpression w.current.kind)) := by
  have hcurrent : (current : Parser σ Token) w = .ok (w.current, w) := rfl
  unfold climb
  rw [bind_of_ok hcurrent]
  simp only [h]
  rfl

theorem climb_of_some [TokenSource σ] {rules : Rules} {w : Window σ} {first : Construct}
    (h : rules.beginning w.current.kind = some first) (expr : Precedence → Parser σ Node) (precedence : Precedence) :
    climb rules expr precedence w = (construct expr first >>= fun left =>
      repeatWhile (fun _ window => goesOn rules precedence window) (goOn rules expr) left) w := by
  have hcurrent : (current : Parser σ Token) w = .ok (w.current, w) := rfl
  unfold climb
  rw [bind_of_ok hcurrent]
  simp only [h]

variable {E : Fault → Prop} {Q : α → Window σ → Prop} {w : Window σ}

theorem wp_congr {p q : Parser σ α} (h : p w = q w) : wp E p Q w ↔ wp E q Q w := by
  unfold wp
  rw [h]

theorem wp_mono {p : Parser σ α} {Q' : α → Window σ → Prop} (h : wp E p Q w)
    (hq : ∀ a w', Q a w' → Q' a w') : wp E p Q' w := by
  unfold wp at *
  split
  · next a w' he => rw [he] at h; exact hq a w' h
  · next cause he => rw [he] at h; exact h

/-- Two facts about what a parser leaves, of which the first one speaks of its faults. -/
theorem wp_and {E' : Fault → Prop} {p : Parser σ α} {Q' : α → Window σ → Prop} (h : wp E p Q w)
    (h' : wp E' p Q' w) : wp E p (fun a w' => Q a w' ∧ Q' a w') w := by
  unfold wp at *
  split
  · next a w' he => rw [he] at h h'; exact ⟨h, h'⟩
  · next cause he => rw [he] at h; exact h

/-- With all faults allowed, `wp` speaks of the results only. -/
theorem wp_true_iff {p : Parser σ α} :
    wp (fun _ => True) p Q w ↔ ∀ a w', p w = .ok (a, w') → Q a w' := by
  unfold wp
  split
  · next a w' he =>
    refine ⟨fun h a₁ w₁ h₁ => ?_, fun h => h a w' he⟩
    rw [he] at h₁
    cases h₁
    exact h
  · next cause he =>
    refine ⟨fun _ a₁ w₁ h₁ => ?_, fun _ => trivial⟩
    rw [he] at h₁
    cases h₁

@[simp] theorem wp_pure (a : α) : wp E (pure a : Parser σ α) Q w ↔ Q a w := Iff.rfl

@[simp] theorem wp_bind (p : Parser σ α) (f : α → Parser σ β) {Q : β → Window σ → Prop} :
    wp E (p >>= f) Q w ↔ wp E p (fun a w' => wp E (f a) Q w') w := by
  unfold wp
  cases h : p w with
  | error cause => rw [bind_of_error h]
  | ok result => rw [bind_of_ok h]

@[simp] theorem wp_ite (c : Prop) [Decidable c] (p q : Parser σ α) :
    wp E (if c then p else q) Q w ↔ if c then wp E p Q w else wp E q Q w := by
  split <;> rfl

@[simp] theorem wp_report (error : SyntaxError) {Q : Unit → Window σ → Prop} :
    wp E (report error) Q w ↔ Q () (w.report error) := Iff.rfl

@[simp] theorem wp_fault (cause : Fault) : wp E (fault cause : Parser σ α) Q w ↔ E cause := Iff.rfl

/-- A loop keeps an invariant that may depend on the number of rounds left. It ends when no more is
to be done, or when there are no rounds left. -/
theorem wp_repeatAtMost {more : α → Window σ → Bool} {body : α → Parser σ α}
    (I : Nat → α → Window σ → Prop)
    (step : ∀ n a w, I (n + 1) a w → more a w = true → wp E (body a) (I n) w)
    {rounds : Nat} {a : α} (h : I rounds a w) :
    wp E (repeatAtMost more body rounds a)
      (fun a' w' => ∃ n, I n a' w' ∧ (more a' w' = false ∨ n = 0)) w := by
  induction rounds generalizing a w with
  | zero => exact ⟨0, h, .inr rfl⟩
  | succ rounds ih =>
    cases hm : more a w with
    | false =>
      rw [wp, repeatAtMost_of_stop hm]
      exact ⟨rounds + 1, h, .inl hm⟩
    | true =>
      rw [wp_congr (repeatAtMost_of_more hm rounds), wp_bind]
      exact wp_mono (step rounds a w h hm) fun a' w' h' => ih h'

/-- The same for an invariant that does not count, when the end of the loop does not matter. -/
theorem wp_repeatWhile {more : α → Window σ → Bool} {body : α → Parser σ α} {a : α}
    (I : α → Window σ → Prop) (step : ∀ a w, I a w → more a w = true → wp E (body a) I w)
    (h : I a w) : wp E (repeatWhile more body a) I w :=
  wp_mono (wp_repeatAtMost (fun _ => I) (fun _ => step) h) fun _ _ h => h.choose_spec.1

variable [TokenSource σ]

@[simp] theorem wp_current {Q : Token → Window σ → Prop} :
    wp E current Q w ↔ Q w.current w := Iff.rfl

@[simp] theorem wp_advance {Q : Unit → Window σ → Prop} :
    wp E advance Q w ↔ Q () w.advance := Iff.rfl

@[simp] theorem wp_comesNext (kind : TokenKind) {Q : Bool → Window σ → Prop} :
    wp E (comesNext kind) Q w ↔ Q (w.upcoming.kind == kind) w := Iff.rfl

@[simp] theorem wp_expectNext (kind : TokenKind) {Q : Bool → Window σ → Prop} :
    wp E (expectNext kind) Q w ↔
      if w.upcoming.kind = kind then Q true w.advance
      else Q false (w.report (.unexpected kind w.upcoming.kind)) := by
  unfold wp expectNext
  by_cases h : w.upcoming.kind = kind <;> simp only [h, if_true, if_false]

@[simp] theorem wp_passNext (kind : TokenKind) {Q : Unit → Window σ → Prop} :
    wp E (passNext kind) Q w ↔ if w.upcoming.kind = kind then Q () w.advance else Q () w := by
  unfold wp passNext
  by_cases h : w.upcoming.kind = kind <;> simp only [h, if_true, if_false]

end Parser

end Scriptlet
