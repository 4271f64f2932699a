import ParseRecovery.Json.Parser
import ParseRecovery.Json.Printer

/-!
Reading back a written integer. Its digits read as one row that writes the number and that does not begin
with a zero unless it is one (`whole?_toDigits`). If nothing behind them goes on with the numeral, the
integer is read, up to its last digit (`numeral?_integerText`).
-/

namespace ParseRecovery.Json

/-- What comes next does not go on with a numeral in front of it. -/
def EndsNumeral (rest : List Char) : Prop :=
  ∀ c ∈ rest.head?, c.isDigit = false ∧ c ≠ '.' ∧ c ≠ 'e' ∧ c ≠ 'E'

theorem endsNumeral_nil : EndsNumeral [] := by
  rintro c ⟨⟩

theorem EndsNumeral.of_head {c : Char} (h : c.isDigit = false ∧ c ≠ '.' ∧ c ≠ 'e' ∧ c ≠ 'E')
    (rest : List Char) : EndsNumeral (c :: rest) := by
  rintro _ ⟨⟩
  exact h

theorem EndsNumeral.fraction? {rest : List Char} (h : EndsNumeral rest) :
    fraction? rest = some ([], rest) := by
  cases rest with
  | nil => rfl
  | cons c rest =>
    obtain ⟨-, hpoint, -, -⟩ := h c rfl
    rw [Json.fraction?]
    rintro _ ⟨⟩
    exact hpoint rfl

theorem EndsNumeral.exponent? {rest : List Char} (h : EndsNumeral rest) :
    exponent? rest = some ([], rest) := by
  cases rest with
  | nil => rfl
  | cons c rest =>
    obtain ⟨-, -, hsmall, hlarge⟩ := h c rfl
    rw [Json.exponent?, if_neg (not_or.mpr ⟨hsmall, hlarge⟩)]

/-! ## Rows of digits -/

theorem digits_append {ds rest : List Char} (hds : ∀ d ∈ ds, d.isDigit = true)
    (hrest : ∀ c ∈ rest.head?, c.isDigit = false) : digits (ds ++ rest) = (ds, rest) := by
  rw [digits, List.takeWhile_append_of_pos hds, List.dropWhile_append_of_pos hds]
  cases rest with
  | nil => rw [List.takeWhile_nil, List.dropWhile_nil, List.append_nil]
  | cons c rest =>
    have hc : ¬ c.isDigit = true := by
      rw [hrest c rfl]
      exact Bool.false_ne_true
    rw [List.takeWhile_cons_of_neg hc, List.dropWhile_cons_of_neg hc, List.append_nil]

theorem decimal_toDigits (n : Nat) : decimal (Nat.toDigits 10 n) = n := by
  have h := Nat.ofDigitChars_toDigits (b := 10) (n := n) (by decide) (by decide)
  rwa [Nat.ofDigitChars_eq_foldl] at h

/-- Only the digits of zero begin with a zero. -/
theorem toDigits_leading_zero {n : Nat} {ds : List Char} (h : Nat.toDigits 10 n = '0' :: ds) :
    ds = [] := by
  induction n using Nat.strongRecOn generalizing ds with
  | ind n ih =>
    rcases Nat.lt_or_ge n 10 with hn | hn
    · rw [Nat.toDigits_of_lt_base hn] at h
      exact (List.cons.inj h).2.symm
    · rw [Nat.toDigits_of_base_le (by decide) hn] at h
      obtain ⟨htop, -⟩ | ⟨top, htop, -⟩ := List.append_eq_cons_iff.mp h
      · exact absurd htop Nat.toDigits_ne_nil
      · obtain rfl := ih (n / 10) (by omega) htop
        have hvalue := decimal_toDigits (n / 10)
        rw [htop] at hvalue
        have : n / 10 = 0 := hvalue.symm
        omega

theorem whole?_toDigits (n : Nat) {rest : List Char} (hrest : EndsNumeral rest) :
    whole? (Nat.toDigits 10 n ++ rest) = some (Nat.toDigits 10 n, rest) := by
  have hdigits : digits (Nat.toDigits 10 n ++ rest) = (Nat.toDigits 10 n, rest) :=
    digits_append (fun _ hd => Nat.isDigit_of_mem_toDigits (by decide) (by decide) hd)
      fun c hc => (hrest c hc).1
  rw [whole?, hdigits]
  split
  · rename_i heq
    exact absurd (Prod.mk.inj heq).1 Nat.toDigits_ne_nil
  · rename_i heq
    obtain ⟨h, rfl⟩ := Prod.mk.inj heq
    rw [h]
  -- a zero in front of more digits
  · rename_i hlong heq
    obtain ⟨h, -⟩ := Prod.mk.inj heq
    exact (hlong (toDigits_leading_zero h)).elim
  · rename_i heq
    obtain ⟨rfl, rfl⟩ := Prod.mk.inj heq
    rfl

/-! ## Integers -/

theorem integerText_of_nonneg {n : Int} (h : 0 ≤ n) : integerText n = Nat.toDigits 10 n.toNat := by
  rw [integerText, Int.toString_eq_repr, Int.repr_eq_if, if_pos h, Nat.repr_eq_ofList_toDigits,
    String.toList_ofList]

theorem integerText_of_neg {n : Int} (h : n < 0) :
    integerText n = '-' :: Nat.toDigits 10 (-n).toNat := by
  rw [integerText, Int.toString_eq_repr, Int.repr_eq_if, if_neg (Int.not_le.mpr h), String.toList_append,
    Nat.repr_eq_ofList_toDigits]
  exact congrArg ('-' :: ·) String.toList_ofList

theorem toDigits_eq_cons (n : Nat) : ∃ d ds, Nat.toDigits 10 n = d :: ds ∧ d.isDigit = true := by
  obtain ⟨d, ds, hcons⟩ := List.exists_cons_of_ne_nil (Nat.toDigits_ne_nil (b := 10) (n := n))
  refine ⟨d, ds, hcons, Nat.isDigit_of_mem_toDigits (b := 10) (n := n) (by decide) (by decide) ?_⟩
  rw [hcons]
  exact List.mem_cons_self

/-- What is written begins with a sign or a digit. -/
theorem integerText_eq_cons (n : Int) :
    ∃ c cs, integerText n = c :: cs ∧ (c = '-' ∨ c.isDigit = true) := by
  by_cases hn : 0 ≤ n
  · obtain ⟨d, ds, hcons, hd⟩ := toDigits_eq_cons n.toNat
    exact ⟨d, ds, by rw [integerText_of_nonneg hn, hcons], .inr hd⟩
  · exact ⟨'-', _, integerText_of_neg (Int.not_le.mp hn), .inl rfl⟩

theorem numeral?_toDigits (n : Nat) {rest : List Char} (hrest : EndsNumeral rest) :
    numeral? (Nat.toDigits 10 n ++ rest) = some (.integer n, rest) := by
  have hnumeral : numeral false (Nat.toDigits 10 n) [] [] = .integer n := by
    rw [numeral, decimal_toDigits]
    rfl
  rw [numeral?]
  · simp only [whole?_toDigits n hrest, hrest.fraction?, hrest.exponent?, hnumeral]
  · obtain ⟨d, ds, hcons, hd⟩ := toDigits_eq_cons n
    rw [hcons]
    rintro _ ⟨⟩
    exact absurd hd (by decide)

theorem numeral?_minus_toDigits {n : Nat} (hn : n ≠ 0) {rest : List Char} (hrest : EndsNumeral rest) :
    numeral? ('-' :: (Nat.toDigits 10 n ++ rest)) = some (.integer (-n), rest) := by
  have hnumeral : numeral true (Nat.toDigits 10 n) [] [] = .integer (-n) := by
    have hzero : (n == 0) = false := beq_false_of_ne hn
    rw [numeral, decimal_toDigits, hzero]
    rfl
  simp only [numeral?, whole?_toDigits n hrest, hrest.fraction?, hrest.exponent?, hnumeral]

theorem numeral?_integerText (n : Int) {rest : List Char} (hrest : EndsNumeral rest) :
    numeral? (integerText n ++ rest) = some (.integer n, rest) := by
  by_cases hn : 0 ≤ n
  · rw [integerText_of_nonneg hn, numeral?_toDigits _ hrest, Int.toNat_of_nonneg hn]
  · rw [integerText_of_neg (Int.not_le.mp hn), List.cons_append,
      numeral?_minus_toDigits (by omega) hrest, Int.toNat_of_nonneg (by omega), Int.neg_neg]

end ParseRecovery.Json
