import Scriptlet.Parse.Feed
import Scriptlet.Proofs.Parse.Keeps

/-!
# Spans of tokens

`w.Spans ts w'` says that `ts` are the tokens from the current one of `w` to the current one of `w'`,
both included. This is how parsers read: they start at the first token of a construct and stop at its
last. `w.Passes ts w'` leaves the last one out, as a row of statements does, which may be empty.

A span can be put together from parts and taken apart into them.
-/

namespace Scriptlet

/-- The token that is shown to come next is the one that moving on leads to. -/
class LawfulTokenSource (σ : Type) [TokenSource σ] : Prop where
  upcoming_eq : ∀ s : σ, TokenSource.upcoming s = TokenSource.current (TokenSource.advance s)

instance : LawfulTokenSource (List Token) := ⟨fun _ => rfl⟩

instance : LawfulTokenSource Feed := ⟨fun _ => rfl⟩

namespace Window

variable {σ : Type} [TokenSource σ] {w w' w'' : Window σ} {t : Token} {ts us : List Token}

theorem upcoming_eq [LawfulTokenSource σ] (w : Window σ) : w.upcoming = w.advance.current :=
  LawfulTokenSource.upcoming_eq w.source

/-! ### Spans -/

/-- The tokens from the current one of `w` to the current one of `w'`. -/
inductive Spans : Window σ → List Token → Window σ → Prop
  | one (w : Window σ) : Spans w [w.current] w
  | cons {w w' : Window σ} {ts : List Token} (h : Spans w.advance ts w') :
    Spans w (w.current :: ts) w'

namespace Spans

theorem ne_nil (h : w.Spans ts w') : ts ≠ [] := by
  cases h <;> simp

theorem head? (h : w.Spans ts w') : ts.head? = some w.current := by
  cases h <;> rfl

theorem errors_eq (h : w.Spans ts w') : w'.errors = w.errors := by
  induction h with
  | one w => rfl
  | cons h ih => exact ih

theorem budget_eq (h : w.Spans ts w') : w'.budget = w.budget := by
  induction h with
  | one w => rfl
  | cons h ih => exact ih

theorem slides (h : w.Spans ts w') : w.Slides w' := by
  induction h with
  | one w => exact .refl w
  | cons h ih => exact (Slides.refl _).advance.trans ih

theorem append (h : w.Spans ts w') (h' : w'.advance.Spans us w'') : w.Spans (ts ++ us) w'' := by
  induction h with
  | one w => exact .cons h'
  | cons h ih => exact .cons (ih h')

/-- A span that goes on with one more token. -/
theorem concat (h : w.Spans ts w') : w.Spans (ts ++ [w'.advance.current]) w'.advance :=
  h.append (.one _)

theorem cons_iff : w.Spans (t :: ts) w' ↔
    t = w.current ∧ (ts = [] ∧ w' = w ∨ w.advance.Spans ts w') := by
  refine ⟨fun h => ?_, ?_⟩
  · cases h with
    | one => exact ⟨rfl, .inl ⟨rfl, rfl⟩⟩
    | cons h => exact ⟨rfl, .inr h⟩
  · rintro ⟨rfl, ⟨rfl, rfl⟩ | h⟩
    · exact .one w'
    · exact .cons h

theorem singleton_iff : w.Spans [t] w' ↔ t = w.current ∧ w' = w := by
  rw [cons_iff]
  refine and_congr_right fun _ => ⟨?_, fun h => .inl ⟨rfl, h⟩⟩
  rintro (⟨-, h⟩ | h)
  · exact h
  · exact absurd rfl h.ne_nil

/-- The first of several tokens. -/
theorem cons_ne_nil (h : w.Spans (t :: ts) w') (hts : ts ≠ []) :
    t = w.current ∧ w.advance.Spans ts w' := by
  obtain ⟨ht, ⟨hn, -⟩ | h⟩ := cons_iff.1 h
  · exact absurd hn hts
  · exact ⟨ht, h⟩

theorem split (h : w.Spans (ts ++ us) w'') (hts : ts ≠ []) (hus : us ≠ []) :
    ∃ w', w.Spans ts w' ∧ w'.advance.Spans us w'' := by
  induction ts generalizing w with
  | nil => exact absurd rfl hts
  | cons t ts ih =>
    obtain ⟨rfl, h'⟩ := cons_ne_nil h (by simp [hus])
    by_cases hn : ts = []
    · subst hn
      exact ⟨w, .one w, h'⟩
    · obtain ⟨w', h₁, h₂⟩ := ih h' hn
      exact ⟨w', .cons h₁, h₂⟩

/-- The last of several tokens. -/
theorem split_last (h : w.Spans (ts ++ [t]) w'') (hts : ts ≠ []) :
    ∃ w', w.Spans ts w' ∧ w'.advance = w'' ∧ w'.advance.current = t := by
  obtain ⟨w', h₁, h₂⟩ := h.split hts (by simp)
  obtain ⟨rfl, rfl⟩ := singleton_iff.1 h₂
  exact ⟨w', h₁, rfl, rfl⟩

end Spans

/-- The tokens from the current one of `w` up to the current one of `w'`, which is left out. -/
inductive Passes : Window σ → List Token → Window σ → Prop
  | nil (w : Window σ) : Passes w [] w
  | span {w w' : Window σ} {ts : List Token} (h : w.Spans ts w') : Passes w ts w'.advance

namespace Passes

theorem spans (h : w.Passes ts w') : w.Spans (ts ++ [w'.current]) w' := by
  cases h with
  | nil => exact .one w
  | span h => exact h.concat

theorem append (h : w.Passes ts w') (h' : w'.Spans us w'') : w.Spans (ts ++ us) w'' := by
  cases h with
  | nil => exact h'
  | span h => exact h.append h'

end Passes

theorem Spans.passes (h : w.Spans (ts ++ [t]) w') : t = w'.current ∧ w.Passes ts w' := by
  by_cases hts : ts = []
  · subst hts
    obtain ⟨rfl, rfl⟩ := singleton_iff.1 h
    exact ⟨rfl, .nil _⟩
  · obtain ⟨w₁, h₁, rfl, rfl⟩ := h.split_last hts
    exact ⟨rfl, .span h₁⟩

theorem Passes.split (h : w.Passes (ts ++ us) w'') (hts : ts ≠ []) :
    ∃ w', w.Spans ts w' ∧ w'.advance.Passes us w'' := by
  have hs := h.spans
  rw [List.append_assoc] at hs
  obtain ⟨w', h₁, h₂⟩ := hs.split hts (by simp)
  exact ⟨w', h₁, h₂.passes.2⟩

/-- A row of tokens begins at the current one, unless it is empty. -/
theorem Passes.cases (h : w.Passes ts w') : ts = [] ∧ w' = w ∨ ts.head? = some w.current := by
  cases h with
  | nil => exact .inl ⟨rfl, rfl⟩
  | span h => exact .inr h.head?

/-! ### What lies ahead -/

/-- Every token from the current one on is as `P` says. -/
def All (P : Token → Prop) (w : Window σ) : Prop := ∀ n, P (w.skip n).current

/-- After `n` more tokens the input has ended. -/
def EndsWithin (n : Nat) (w : Window σ) : Prop := ∀ k, n ≤ k → (w.skip k).current.kind = .eof

theorem Slides.current_skip (h : w.Slides w') :
    ∃ m, ∀ n, (w'.skip n).current = (w.skip (m + n)).current := by
  obtain ⟨m, hm⟩ := h.source
  refine ⟨m, fun n => ?_⟩
  rw [← skip_skip]
  exact current_congr (skip_source_congr hm n)

theorem All.slides {P : Token → Prop} (h : w.All P) (hs : w.Slides w') : w'.All P := by
  obtain ⟨m, hm⟩ := hs.current_skip
  intro n
  rw [hm]
  exact h (m + n)

theorem All.current {P : Token → Prop} (h : w.All P) : P w.current := h 0

theorem EndsWithin.slides {n : Nat} (h : w.EndsWithin n) (hs : w.Slides w') : w'.EndsWithin n := by
  obtain ⟨m, hm⟩ := hs.current_skip
  intro k hk
  rw [hm]
  exact h (m + k) (by omega)

theorem EndsWithin.advance {n : Nat} (h : w.EndsWithin (n + 1)) : w.advance.EndsWithin n :=
  fun k hk => h (k + 1) (by omega)

theorem EndsWithin.mono {m n : Nat} (h : w.EndsWithin m) (hle : m ≤ n) : w.EndsWithin n :=
  fun k hk => h k (Nat.le_trans hle hk)

theorem EndsWithin.current (h : w.EndsWithin 0) : w.current.kind = .eof := h 0 (Nat.le_refl 0)

theorem EndsWithin.upcoming [LawfulTokenSource σ] (h : w.EndsWithin 0) : w.upcoming.kind = .eof := by
  rw [upcoming_eq]
  exact h 1 (by omega)

end Window

end Scriptlet
