import Mathlib.Data.List.Infix
import Scriptlet.Proofs.Parse.Numerals

/-!
# Sources put together

A source that ends with a semicolon can stand in front of any other: what was its last statement does not
go on with the first token after it. An expression never ends with a semicolon, so a row of statements that
does has closed its last statement.
-/

namespace Scriptlet

open Scriptlet.Grammar

namespace Grammar

/-- The last token, if there is one, is not a semicolon. -/
def EndsOpen (ts : List Token) : Prop := ∀ t ∈ ts.getLast?, t.kind ≠ .semicolon

variable {ts us : List Token}

theorem endsOpen_append (hne : us ≠ []) (h : EndsOpen us) : EndsOpen (ts ++ us) := by
  intro t ht
  rw [List.getLast?_append_of_ne_nil ts hne] at ht
  exact h t ht

theorem endsOpen_cons {t : Token} (hne : us ≠ []) (h : EndsOpen us) : EndsOpen (t :: us) :=
  @endsOpen_append [t] us hne h

theorem endsOpen_concat {t : Token} (h : t.kind ≠ .semicolon) : EndsOpen (ts ++ [t]) := by
  refine endsOpen_append (by simp) ?_
  rintro _ ⟨⟩
  exact h

theorem endsOpen_singleton {t : Token} {kind : TokenKind} (h : t.kind = kind)
    (hk : kind ≠ .semicolon) : EndsOpen [t] := by
  rintro _ ⟨⟩
  exact fun hs => hk (h.symm.trans hs)

theorem Block.endsOpen {e : Node} (h : Block ts e) : EndsOpen ts := by
  cases h with
  | braces _ hr _ => exact endsOpen_cons (by simp) (endsOpen_concat (by simp [hr]))

theorem Expr.endsOpen : ∀ {level : Level} {ts : List Token} {e : Node}, Expr level ts e → EndsOpen ts
  | _, _, _, .tighter h => h.endsOpen
  | _, _, _, .infixOp _ _ hb => endsOpen_append (by simp) (endsOpen_cons hb.ne_nil hb.endsOpen)
  | _, _, _, .prefixOp _ h => endsOpen_cons h.ne_nil h.endsOpen
  | _, _, _, .call _ hr _ _ | _, _, _, .index _ hr _ _ =>
    endsOpen_append (by simp) (endsOpen_cons (by simp) (endsOpen_concat (by simp [hr])))
  | _, _, _, .identifier h | _, _, _, .integer h _ | _, _, _, .string h | _, _, _, .trueWord h
  | _, _, _, .falseWord h => endsOpen_singleton h nofun
  | _, _, _, .grouped _ hr _ | _, _, _, .array _ hr _ =>
    endsOpen_cons (by simp) (endsOpen_concat (by simp [hr]))
  | _, _, _, .conditional _ _ _ _ hb | _, _, _, .function _ _ _ _ hb =>
    endsOpen_cons (by simp) (endsOpen_cons (by simp)
      (endsOpen_append (by simp) (endsOpen_cons hb.ne_nil hb.endsOpen)))
  | _, _, _, .alternative _ _ _ _ _ _ ha =>
    endsOpen_cons (by simp) (endsOpen_cons (by simp) (endsOpen_append (by simp)
      (endsOpen_cons (by simp) (endsOpen_append (by simp) (endsOpen_cons ha.ne_nil ha.endsOpen)))))

theorem Statement.endsOpen {s : Node} (h : Statement false ts s) : EndsOpen ts := by
  cases h with
  | letStatement _ _ _ he hs =>
    cases hs
    rw [List.append_nil]
    exact endsOpen_cons (by simp) (endsOpen_cons (by simp) (endsOpen_cons he.ne_nil he.endsOpen))
  | returnStatement _ he hs =>
    cases hs
    rw [List.append_nil]
    exact endsOpen_cons he.ne_nil he.endsOpen
  | expressionStatement he hs =>
    cases hs
    rw [List.append_nil]
    exact he.endsOpen

theorem Statement.closed_of_endsClosed {closed : Bool} {s : Node} (h : Statement closed ts s)
    (hc : EndsClosed ts) : closed = true := by
  cases closed with
  | true => rfl
  | false =>
    have hlast := List.getLast?_eq_some_getLast h.ne_nil
    exact absurd (hc _ hlast) (h.endsOpen _ hlast)

/-- Statements of which the last is closed can stand in front of any others. -/
theorem Statements.append : ∀ {ts us : List Token} {ss ss' : List Node}, Statements ts ss →
    EndsClosed ts → Statements us ss' → Statements (ts ++ us) (ss ++ ss')
  | _, _, _, _, .nil, _, h' => h'
  | _, us, _, _, @Statements.cons _ first rest _ _ hs h ho, hc, h' => by
    rw [List.append_assoc]
    -- Only the last statement of the first row meets what is put behind.
    by_cases hrest : rest = []
    · subst hrest
      rw [List.append_nil] at hc
      refine .cons hs (h.append nofun h') fun hopen => ?_
      rw [hs.closed_of_endsClosed hc] at hopen
      cases hopen
    · have hlast : EndsClosed rest := by
        unfold EndsClosed at hc
        rwa [List.getLast?_append_of_ne_nil first hrest] at hc
      refine .cons hs (h.append hlast h') fun hopen => ?_
      rw [List.head?_append_of_ne_nil _ hrest]
      exact ho hopen

theorem Program.statements_dropLast {ss : List Node} (h : Program ts (.program ss)) :
    Statements ts.dropLast ss := by
  cases h with
  | statements _ h => rwa [List.dropLast_concat]

end Grammar

/-- A text whose last token is a semicolon can stand in front of any other. -/
theorem tokenize_append {a : String} (hc : EndsClosed (tokenize a).dropLast) (b : String) :
    tokenize (a ++ b) = (tokenize a).dropLast ++ tokenize b := by
  have h := tokensOf_append (tokenize_eq_dropLast a) hc b.toList
  rwa [← String.toList_append] at h

/-- Two programs that can be read apart can be read together, if the first ends with a semicolon. -/
theorem parse_append {limits : Limits} {a b : String} {ss ss' : List Node}
    (ha : parse limits a = .ok ⟨.program ss, []⟩) (hc : EndsClosed (tokenize a).dropLast)
    (hb : parse limits b = .ok ⟨.program ss', []⟩) :
    parse limits (a ++ b) = .ok ⟨.program (ss ++ ss'), []⟩ ∨
      parse limits (a ++ b) = .error .tooDeep := by
  have htokens := tokenize_append hc b
  have hshort : ∀ t ∈ tokenize (a ++ b), t.Short := by
    rw [htokens, List.forall_mem_append]
    exact ⟨fun t ht => short_of_parse ha t (List.mem_of_mem_dropLast ht), short_of_parse hb⟩
  have hprogram : Program (tokenize (a ++ b)) (.program (ss ++ ss')) := by
    have hsecond := (program_of_parse hb).statements_dropLast
    rw [htokens, tokenize_eq_dropLast b, ← List.append_assoc]
    exact .statements rfl ((program_of_parse ha).statements_dropLast.append hc hsecond)
  rcases parse_of_program hshort hprogram with hok | ⟨herror, -⟩
  · exact .inl hok
  · exact .inr herror

end Scriptlet
