import MapStyle.Json.Token
import MapStyle.Json.Writer

/-!
# Quoted text

The reader of documents reads the escapes of a quoted text back as the characters that they stand
for, up to the closing quote.  So a quoted text tells its characters and what follows it.
-/

set_option autoImplicit false

namespace MapStyle

namespace Glyph

theorem join?_unit {n : Nat} (low : n < 0xD800) (gs : List Glyph) :
    join? (.unit n :: gs) = (join? gs).map (Char.ofNat n :: ·) := by
  rcases gs with _ | ⟨_ | _, _⟩ <;> simp only [join?] <;> grind

end Glyph

/-- The escape of a control character has four digits, which name its code. -/
theorem hexUnit?_control {c : Char} (control : c.toNat < 32) :
    unicodeEscape c = ['\\', 'u', '0', '0', Nat.digitChar (c.toNat / 16),
      Nat.digitChar (c.toNat % 16)] ∧
    hexUnit? '0' '0' (Nat.digitChar (c.toNat / 16)) (Nat.digitChar (c.toNat % 16)) =
      some c.toNat := by
  rw [unicodeEscape]
  generalize c.toNat = n at control
  revert control n
  decide

theorem glyphs?_escapeChar (c : Char) : ∃ g : Glyph,
    (∀ rest, glyphs? (escapeChar c ++ rest) = (glyphs? rest).map fun p => (g :: p.1, p.2)) ∧
      ∀ gs, Glyph.join? (g :: gs) = (Glyph.join? gs).map (c :: ·) := by
  have short (e : Char) (notUnit : e ≠ 'u') (spelled : shortEscape? e = some c) (rest : List Char) :
      glyphs? ('\\' :: e :: rest) = (glyphs? rest).map fun p => (Glyph.char c :: p.1, p.2) := by
    rw [glyphs?.eq_3 e rest (by simp [notUnit]), spelled]
    cases glyphs? rest <;> rfl
  unfold escapeChar
  split
  · subst_vars
    exact ⟨.char '"', short '"' (by decide) rfl, fun gs => rfl⟩
  split
  · subst_vars
    exact ⟨.char '\\', short '\\' (by decide) rfl, fun gs => rfl⟩
  split
  · subst_vars
    exact ⟨.char '\n', short 'n' (by decide) rfl, fun gs => rfl⟩
  split
  · subst_vars
    exact ⟨.char '\r', short 'r' (by decide) rfl, fun gs => rfl⟩
  split
  · subst_vars
    exact ⟨.char '\t', short 't' (by decide) rfl, fun gs => rfl⟩
  have named (n : Nat) (code : c.toNat = n) : c = Char.ofNat n := by
    rw [← code, Char.ofNat_toNat]
  split
  · rename_i code
    obtain rfl := named 8 code
    exact ⟨.char _, short 'b' (by decide) rfl, fun gs => rfl⟩
  split
  · rename_i code
    obtain rfl := named 12 code
    exact ⟨.char _, short 'f' (by decide) rfl, fun gs => rfl⟩
  split
  · rename_i control
    refine ⟨.unit c.toNat, fun rest => ?_, fun gs => ?_⟩
    · obtain ⟨text, read⟩ := hexUnit?_control control
      rw [text]
      refine (glyphs?.eq_2 _ _ _ _ rest).trans ?_
      rw [read]
      cases glyphs? rest <;> rfl
    · rw [Glyph.join?_unit (by omega), Char.ofNat_toNat]
  · rename_i noQuote noBackslash _ _ _ _ _ printed
    refine ⟨.char c, fun rest => ?_, fun gs => rfl⟩
    have ordinary : (c = '\\' || c.toNat < 32) = false := by
      simp [noBackslash, printed]
    rw [List.singleton_append, glyphs?.eq_4 c rest (by simp [noBackslash]) (by simp [noBackslash]),
      if_neg noQuote, ordinary]
    rfl

theorem glyphs?_quoted (cs rest : List Char) :
    ∃ gs, glyphs? (cs.flatMap escapeChar ++ '"' :: rest) = some (gs, rest) ∧
      Glyph.join? gs = some cs := by
  induction cs with
  | nil => exact ⟨[], rfl, rfl⟩
  | cons c cs ih =>
    obtain ⟨g, first, joins⟩ := glyphs?_escapeChar c
    obtain ⟨gs, later, joined⟩ := ih
    refine ⟨g :: gs, ?_, ?_⟩
    · rw [List.flatMap_cons, List.append_assoc, first, later]
      rfl
    · rw [joins, joined]
      rfl

theorem toList_quote (s : String) :
    (quote s).toList = '"' :: (s.toList.flatMap escapeChar ++ ['"']) := String.toList_ofList

/-- Quoted texts tell their characters and what follows them. -/
theorem eq_of_quote {s t : String} {rest rest' : List Char}
    (same : (quote s).toList ++ rest = (quote t).toList ++ rest') : s = t ∧ rest = rest' := by
  rw [toList_quote, toList_quote] at same
  simp only [List.cons_append, List.append_assoc, List.cons.injEq, true_and,
    List.nil_append] at same
  obtain ⟨gs, read, joined⟩ := glyphs?_quoted s.toList rest
  obtain ⟨gs', read', joined'⟩ := glyphs?_quoted t.toList rest'
  rw [same, read'] at read
  obtain ⟨rfl, rfl⟩ := Prod.mk.inj (Option.some.inj read)
  exact ⟨String.toList_inj.mp (Option.some.inj (joined.symm.trans joined')), rfl⟩

end MapStyle
