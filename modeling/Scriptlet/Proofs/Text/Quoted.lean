import Mathlib.Algebra.Group.Nat.Defs
import Scriptlet.Text.Quoted

/-!
# Reading quoted text back

A quoted text tells where it ends, and what it stands for: two quoted texts that begin two equal texts stand for
the same characters, and what follows them is the same. The quote comes first. What stands for a character begins
with no quote, and tells where it ends by how it begins.
-/

namespace Scriptlet.Text

variable {quote c d : Char} {rest rest' : List Char}

/-! ### Numbers of characters -/

theorem hexDigit_injective {m n : Nat} (hm : m < 16) (hn : n < 16) (h : hexDigit m = hexDigit n) : m = n := by
  have key : ∀ m < 16, ∀ n < 16, hexDigit m = hexDigit n → m = n := by decide
  exact key m hm n hn h

theorem length_hexDigits (width n : Nat) : (hexDigits width n).length = width := by
  induction width generalizing n with
  | zero => rfl
  | succ width ih => rw [hexDigits, List.length_append, ih, List.length_singleton]

theorem hexDigits_injective {width m n : Nat} (hm : m < 16 ^ width) (hn : n < 16 ^ width)
    (h : hexDigits width m = hexDigits width n) : m = n := by
  induction width generalizing m n with
  | zero => omega
  | succ width ih =>
    obtain ⟨hhigh, hlow⟩ := List.append_inj' h rfl
    have hdigit := hexDigit_injective (Nat.mod_lt _ (by decide)) (Nat.mod_lt _ (by decide)) (List.cons.inj hlow).1
    have hothers := ih (by omega) (by omega) hhigh
    omega

theorem toNat_lt (c : Char) : c.toNat < 16 ^ 8 := by
  have hvalid := c.valid
  simp only [UInt32.isValidChar, Nat.isValidChar] at hvalid
  simp only [Char.toNat]
  omega

/-- How many digits follow a backslash and the character after it. -/
def digitsAfter : Char → Nat
  | 'x' => 2
  | 'u' => 4
  | 'U' => 8
  | _ => 0

theorem numbered_form (c : Char) :
    ∃ letter, numbered c = backslash :: letter :: hexDigits (digitsAfter letter) c.toNat ∧
      digitsAfter letter ≠ 0 ∧ c.toNat < 16 ^ digitsAfter letter := by
  unfold numbered
  dsimp only
  split
  · exact ⟨'x', rfl, by decide, by simpa [digitsAfter]⟩
  · split
    · exact ⟨'u', rfl, by decide, by simpa [digitsAfter]⟩
    · exact ⟨'U', rfl, by decide, toNat_lt c⟩

/-! ### Characters between quotes -/

/-- The characters that are written with a backslash and no number, and what follows the backslash. -/
def shortForms (quote : Char) : List (Char × Char) :=
  [(quote, quote), (backslash, backslash), ('\n', 'n'), ('\r', 'r'), ('\t', 't')]

section

variable (hq : quote = apostrophe ∨ quote = quotationMark)
include hq

theorem escape_of_short {letter : Char} (h : (c, letter) ∈ shortForms quote) :
    escape quote c = [backslash, letter] ∧ digitsAfter letter = 0 := by
  simp only [shortForms, List.mem_cons, Prod.mk.injEq, List.not_mem_nil, or_false] at h
  rcases hq with rfl | rfl <;>
    rcases h with ⟨rfl, rfl⟩ | ⟨rfl, rfl⟩ | ⟨rfl, rfl⟩ | ⟨rfl, rfl⟩ | ⟨rfl, rfl⟩ <;> exact ⟨rfl, rfl⟩

theorem shortForms_injective {letter : Char} (hc : (c, letter) ∈ shortForms quote)
    (hd : (d, letter) ∈ shortForms quote) : c = d := by
  simp only [shortForms, List.mem_cons, Prod.mk.injEq, List.not_mem_nil, or_false] at hc hd
  rcases hq with rfl | rfl <;>
    rcases hd with ⟨rfl, rfl⟩ | ⟨rfl, rfl⟩ | ⟨rfl, rfl⟩ | ⟨rfl, rfl⟩ | ⟨rfl, rfl⟩ <;>
      simpa [apostrophe, quotationMark, backslash] using hc

/-- A character stands for itself, or what follows a backslash tells how many digits there are. -/
theorem escape_cases (c : Char) :
    (escape quote c = [c] ∧ c ≠ quote ∧ c ≠ backslash) ∨
    ∃ letter, escape quote c = backslash :: letter :: hexDigits (digitsAfter letter) c.toNat ∧
      ((c, letter) ∈ shortForms quote ∨ digitsAfter letter ≠ 0 ∧ c.toNat < 16 ^ digitsAfter letter) := by
  by_cases h : c ∈ (shortForms quote).map Prod.fst
  · obtain ⟨⟨c, letter⟩, hm, rfl⟩ := List.mem_map.1 h
    obtain ⟨hescape, hdigits⟩ := escape_of_short hq hm
    refine .inr ⟨letter, ?_, .inl hm⟩
    rw [hescape, hdigits]
    rfl
  · simp only [shortForms, List.map_cons, List.map_nil, List.mem_cons, List.not_mem_nil, or_false, not_or] at h
    obtain ⟨hquote, hslash, hn, hr, ht⟩ := h
    have hescape : escape quote c = if isPrintable c then [c] else numbered c := by
      simp [escape, hquote, hslash, hn, hr, ht]
    rw [hescape]
    split
    · exact .inl ⟨rfl, hquote, hslash⟩
    · obtain ⟨letter, hform, hwidth⟩ := numbered_form c
      exact .inr ⟨letter, hform, .inr hwidth⟩

theorem escape_append_inj (h : escape quote c ++ rest = escape quote d ++ rest') : c = d ∧ rest = rest' := by
  obtain ⟨hc, -, hcs⟩ | ⟨letter, hc, hcf⟩ := escape_cases hq c <;>
  obtain ⟨hd, -, hds⟩ | ⟨letter', hd, hdf⟩ := escape_cases hq d <;>
  rw [hc, hd] at h
  · exact List.cons.inj h
  · exact absurd (List.cons.inj h).1 hcs
  · exact absurd (List.cons.inj h).1.symm hds
  · obtain ⟨rfl, hdigits⟩ := List.cons.inj (List.cons.inj h).2
    obtain ⟨hnumber, hrest⟩ := List.append_inj hdigits (by rw [length_hexDigits, length_hexDigits])
    refine ⟨?_, hrest⟩
    rcases hcf with hcf | ⟨hc0, hcn⟩ <;> rcases hdf with hdf | ⟨hd0, hdn⟩
    · exact shortForms_injective hq hcf hdf
    · exact absurd (escape_of_short hq hcf).2 hd0
    · exact absurd (escape_of_short hq hdf).2 hc0
    · exact Char.toNat_inj.1 (hexDigits_injective hcn hdn hnumber)

theorem escape_append_ne (c : Char) (rest rest' : List Char) : escape quote c ++ rest ≠ quote :: rest' := by
  intro h
  obtain ⟨hc, hne, -⟩ | ⟨letter, hc, -⟩ := escape_cases hq c <;> rw [hc] at h
  · exact hne (List.cons.inj h).1
  · have hslash : backslash = quote := (List.cons.inj h).1
    subst hslash
    revert hq
    decide

theorem escapes_append_inj {cs ds : List Char}
    (h : cs.flatMap (escape quote) ++ quote :: rest = ds.flatMap (escape quote) ++ quote :: rest') :
    cs = ds ∧ rest = rest' := by
  induction cs generalizing ds with
  | nil =>
    cases ds with
    | nil => exact ⟨rfl, (List.cons.inj h).2⟩
    | cons d ds =>
      rw [List.flatMap_cons, List.append_assoc] at h
      exact absurd h.symm (escape_append_ne hq d _ rest)
  | cons c cs ih =>
    cases ds with
    | nil =>
      rw [List.flatMap_cons, List.append_assoc] at h
      exact absurd h (escape_append_ne hq c _ rest')
    | cons d ds =>
      rw [List.flatMap_cons, List.flatMap_cons, List.append_assoc, List.append_assoc] at h
      obtain ⟨rfl, hothers⟩ := escape_append_inj hq h
      obtain ⟨rfl, hrest⟩ := ih hothers
      exact ⟨rfl, hrest⟩

end

theorem quoteFor_cases (cs : List Char) : quoteFor cs = apostrophe ∨ quoteFor cs = quotationMark := by
  unfold quoteFor
  split
  · exact .inr rfl
  · exact .inl rfl

theorem quotedChars_append_inj {cs ds : List Char} (h : quotedChars cs ++ rest = quotedChars ds ++ rest') :
    cs = ds ∧ rest = rest' := by
  simp only [quotedChars, List.cons_append, List.append_assoc, List.nil_append, List.cons.injEq] at h
  obtain ⟨hquote, htail⟩ := h
  rw [← hquote] at htail
  exact escapes_append_inj (quoteFor_cases cs) htail

end Scriptlet.Text
