import ParseRecovery.Json.Literal

/-!
Reading back a written literal. A character is written as itself, or as an escape by one letter or by
number (`Escapes`). Each of these reads as one piece of a literal, whatever comes behind
(`Escapes.pieces?_append`), so the whole text is read, up to its closing quote and no further
(`read?_write`).
-/

namespace ParseRecovery.Json.Literal

/-- The ways to write a character in a literal. -/
inductive Escapes (c : Char) : List Char → Prop
  | letter {e : Char} (h : shortEscape? e = some c) : Escapes c ['\\', e]
  | number (h : c.toNat < 32) : Escapes c
      ['\\', 'u', '0', '0', Hexadecimal.digit (c.toNat / 16), Hexadecimal.digit (c.toNat % 16)]
  | plain (hquote : c ≠ '"') (hescape : c ≠ '\\') (h : 32 ≤ c.toNat) : Escapes c [c]

theorem escapes_escape (c : Char) : Escapes c (escape c) := by
  unfold escape
  split
  · subst c
    exact .letter rfl
  split
  · subst c
    exact .letter rfl
  split
  · subst c
    exact .letter rfl
  split
  · subst c
    exact .letter rfl
  split
  · subst c
    exact .letter rfl
  split
  · subst c
    exact .letter rfl
  split
  · subst c
    exact .letter rfl
  split
  · rename_i hcontrol
    exact .number hcontrol
  · rename_i hquote hescape _ _ _ _ _ hcontrol
    exact .plain hquote hescape (Nat.le_of_not_lt hcontrol)

/-! ## What an escape reads as -/

theorem hexUnit?_digits {n : Nat} (h : n < 256) :
    hexUnit? '0' '0' (Hexadecimal.digit (n / 16)) (Hexadecimal.digit (n % 16)) = some n := by
  have hzero : Hexadecimal.value? '0' = some 0 := by decide
  have hhigh : Hexadecimal.value? (Hexadecimal.digit (n / 16)) = some (n / 16) :=
    Hexadecimal.value?_digit (by omega)
  have hlow : Hexadecimal.value? (Hexadecimal.digit (n % 16)) = some (n % 16) :=
    Hexadecimal.value?_digit (by omega)
  simp only [hexUnit?, hzero, hhigh, hlow]
  congr 1
  omega

/-- A number below those of the surrogates stands for its character. -/
theorem ofUnit_toNat {c : Char} (h : c.toNat < 0xD800) : Piece.ofUnit c.toNat = .char c := by
  have hhigh : isHighHalf c.toNat = false := by
    rw [isHighHalf, decide_eq_false_iff_not]
    omega
  have hlow : isLowHalf c.toNat = false := by
    rw [isLowHalf, decide_eq_false_iff_not]
    omega
  rw [Piece.ofUnit, hhigh, hlow, Bool.or_self, if_neg Bool.false_ne_true, Char.ofNat_toNat]

theorem Escapes.pieces?_append {c : Char} {cs : List Char} (h : Escapes c cs) (rest : List Char) :
    pieces? (cs ++ rest) = (pieces? rest).map fun (ps, after) => (.char c :: ps, after) := by
  cases h with
  | @letter e h =>
    have hnumber : e ≠ 'u' := by
      rintro rfl
      cases h
    simp only [List.cons_append, List.nil_append]
    rw [pieces?, h]
    · cases pieces? rest <;> rfl
    · exact fun _ _ _ _ _ heq => absurd heq hnumber
  -- the two leading zeros are written out, so the number has two digits left
  | number h =>
    have hunit := hexUnit?_digits (n := c.toNat) (by omega)
    simp only [List.cons_append, List.nil_append]
    rw [pieces?, hunit, ← ofUnit_toNat (c := c) (by omega)]
    cases pieces? rest <;> rfl
  | plain hquote hescape h =>
    have hreadable : ¬ (c.toNat < 32 ∨ c = '\\') := not_or.mpr ⟨Nat.not_lt.mpr h, hescape⟩
    simp only [List.cons_append, List.nil_append]
    rw [pieces?, if_neg hreadable]
    · cases pieces? rest <;> rfl
    · exact hquote
    · exact fun _ _ _ _ _ heq => absurd heq hescape
    · exact fun _ _ heq => absurd heq hescape

/-! ## Whole texts -/

theorem pieces?_flatMap_escape (text rest : List Char) :
    pieces? (text.flatMap escape ++ '"' :: rest) = some (text.map .char, rest) := by
  induction text with
  | nil => rw [List.flatMap_nil, List.nil_append, pieces?, List.map_nil]
  | cons c text ih =>
    rw [List.flatMap_cons, List.append_assoc, (escapes_escape c).pieces?_append, ih, Option.map_some,
      List.map_cons]

theorem join?_map_char (text : List Char) : join? (text.map .char) = some text := by
  induction text with
  | nil => rfl
  | cons c text ih => rw [List.map_cons, join?, ih, Option.map_some]

/-- What is written between quotes reads as the text, whatever comes behind the closing quote. -/
theorem read?_write (text : String) (rest : List Char) :
    ∃ body, write text.toList ++ rest = '"' :: body ∧ read? body = some (some text, rest) := by
  refine ⟨text.toList.flatMap escape ++ '"' :: rest, by simp [write], ?_⟩
  rw [read?, pieces?_flatMap_escape, Option.map_some]
  dsimp only
  rw [join?_map_char, Option.map_some, String.ofList_toList]

end ParseRecovery.Json.Literal
