import ParseRecovery.TokenStream

/-!
Where the cursor of a stream goes. No operation changes the tokens. Consuming moves the cursor by
one, except at the last token, which is the end of the input; skipping moves it to the first token
from the current one on that ends the input or is admitted (`leastFrom_skipUntil`), and not at all if
the current one is (`skipUntil_eq_self_iff`).
-/

namespace ParseRecovery

namespace TokenStream

variable (s : TokenStream)

@[simp] theorem tokens_consume : s.consume.tokens = s.tokens := by
  unfold consume
  split <;> rfl

@[simp] theorem tokens_skipUntil (stop : TokenKind → Bool) : (s.skipUntil stop).tokens = s.tokens :=
  rfl

@[simp] theorem markers_consume : s.consume.markers = s.markers := by
  unfold consume
  split <;> rfl

@[simp] theorem get?_consume (i : Nat) : s.consume.get? i = s.get? i := by
  rw [get?, tokens_consume, get?]

theorem index_consume : s.consume.index = min (s.index + 1) (s.size - 1) := by
  have hlt := s.index_lt
  unfold consume size
  split
  · rename_i h
    change s.index + 1 = _
    omega
  · change s.index = _
    omega

theorem index_le_consume : s.index ≤ s.consume.index := by
  have hlt := s.index_lt
  rw [index_consume, size]
  omega

theorem eq_seek {t : TokenStream} (htokens : t.tokens = s.tokens) (hmarkers : t.markers = s.markers) :
    t = s.seek t.index := by
  obtain ⟨tokens, index, markers, hlt, hends⟩ := t
  change tokens = s.tokens at htokens
  change markers = s.markers at hmarkers
  subst htokens hmarkers
  have hmin : min index (s.tokens.size - 1) = index := by omega
  simp only [seek, hmin]

variable {s} in
theorem eq_of_index_eq {t : TokenStream} (htokens : t.tokens = s.tokens)
    (hmarkers : t.markers = s.markers) (hindex : t.index = s.index) : t = s := by
  calc
    t = s.seek t.index := s.eq_seek htokens hmarkers
    _ = s.seek s.index := by rw [hindex]
    _ = s := (s.eq_seek rfl rfl).symm

theorem get?_index : s.get? s.index = some s.current := by
  have hlt := s.index_lt
  rw [get?, Array.getElem?_eq_getElem hlt, current]

theorem peekKind_one_eq_eof_iff {s : TokenStream} : s.peekKind 1 = .eof ↔ s.atEof = true := by
  rw [peekKind_one, ← TokenKind.isEof_iff]
  rfl

/-- Looking ahead or back comes to a token if to any place. -/
theorem place?_lt {s : TokenStream} {n : Int} {i : Nat} (h : s.place? n = some i) : i < s.size := by
  have hlt : s.index < s.size := s.index_lt
  unfold place? at h
  split at h
  · cases h
    show min _ (s.size - 1) < s.size
    omega
  · split at h
    · cases h
    · split at h
      · cases h
        omega
      · cases h

/-- The last token ends the input. -/
theorem exists_last : ∃ t, s.tokens[s.tokens.size - 1]? = some t ∧ t.isEof = true := by
  have hends := s.ends
  rw [Array.back?] at hends
  cases h : s.tokens[s.tokens.size - 1]? with
  | none => simp [h] at hends
  | some t =>
    rw [h, Option.any_some] at hends
    exact ⟨t, rfl, hends⟩

theorem index_succ_lt {s : TokenStream} (h : s.atEof = false) : s.index + 1 < s.tokens.size := by
  have hlt := s.index_lt
  rcases Nat.lt_or_ge (s.index + 1) s.tokens.size with hsucc | hlast
  · exact hsucc
  · -- the cursor would be at the last token, which ends the input
    obtain ⟨t, ht, heof⟩ := s.exists_last
    have hindex : s.tokens.size - 1 = s.index := by omega
    rw [hindex, Array.getElem?_eq_getElem hlt] at ht
    have hcurrent : s.current = t := Option.some.inj ht
    rw [atEof, hcurrent, heof] at h
    cases h

theorem index_lt_consume {s : TokenStream} (h : s.atEof = false) : s.index < s.consume.index := by
  have hlt := index_succ_lt h
  rw [index_consume, size]
  omega

/-! ## Skipping -/

/-- The first place from `start` on whose token is one to stop at. -/
def LeastFrom (start : Nat) (stop : Token → Prop) (i : Nat) : Prop :=
  start ≤ i ∧ (∃ t, s.get? i = some t ∧ stop t) ∧
    ∀ j t, start ≤ j → j < i → s.get? j = some t → ¬ stop t

variable {s} in
theorem LeastFrom.congr {start i : Nat} {stop stop' : Token → Prop}
    (h : s.LeastFrom start stop i) (hstop : ∀ t, stop t ↔ stop' t) : s.LeastFrom start stop' i := by
  have heq : stop = stop' := funext fun t => propext (hstop t)
  rwa [heq] at h

theorem leastFrom_skipUntil (stop : TokenKind → Bool) :
    s.LeastFrom s.index (fun t => t.isEof = true ∨ stop t.kind = true) (s.skipUntil stop).index := by
  have hlt := s.index_lt
  let ahead := s.tokens.toList.drop s.index
  let admits : Token → Bool := fun t => t.isEof || stop t.kind
  have hget : ∀ j, ahead[j]? = s.get? (s.index + j) := by
    intro j
    rw [List.getElem?_drop, Array.getElem?_toList, get?]
  have hexists : ∃ t ∈ ahead, admits t = true := by
    obtain ⟨t, ht, heof⟩ := s.exists_last
    refine ⟨t, List.mem_of_getElem? (i := s.tokens.size - 1 - s.index) ?_, by simp [admits, heof]⟩
    rw [hget, get?, show s.index + (s.tokens.size - 1 - s.index) = s.tokens.size - 1 by omega]
    exact ht
  have hfound := List.findIdx_lt_length_of_exists hexists
  have hlength : ahead.length = s.tokens.size - s.index := by simp [ahead]
  have hindex : (s.skipUntil stop).index = s.index + ahead.findIdx admits := by
    change min (s.index + ahead.findIdx admits) (s.tokens.size - 1) = _
    omega
  rw [hindex]
  refine ⟨Nat.le_add_right _ _, ⟨ahead[ahead.findIdx admits], ?_, ?_⟩, ?_⟩
  · rw [← hget, List.getElem?_eq_getElem hfound]
  · have hadmits : admits ahead[ahead.findIdx admits] = true := List.findIdx_getElem
    simpa [admits] using hadmits
  · intro j t hle hbefore hj
    obtain ⟨d, rfl⟩ := Nat.exists_eq_add_of_le hle
    have hd : d < ahead.findIdx admits := by omega
    rw [← hget, List.getElem?_eq_getElem (by omega)] at hj
    have hnot := List.not_of_lt_findIdx hd
    rw [Option.some.inj hj] at hnot
    simpa [admits] using hnot

theorem index_le_skipUntil (stop : TokenKind → Bool) : s.index ≤ (s.skipUntil stop).index :=
  (s.leastFrom_skipUntil stop).1

theorem stops_skipUntil (stop : TokenKind → Bool) :
    (s.skipUntil stop).atEof = true ∨ stop (s.skipUntil stop).current.kind = true := by
  obtain ⟨-, ⟨t, ht, hstop⟩, -⟩ := s.leastFrom_skipUntil stop
  have hcurrent := (s.skipUntil stop).get?_index
  rw [get?, tokens_skipUntil, ← get?, ht] at hcurrent
  rw [atEof, ← Option.some.inj hcurrent]
  exact hstop

/-- Nothing is skipped if the current token is one to stop at. -/
theorem skipUntil_eq_self_iff {stop : TokenKind → Bool} :
    s.skipUntil stop = s ↔ s.atEof = true ∨ stop s.current.kind = true := by
  constructor
  · intro h
    have hstops := s.stops_skipUntil stop
    rwa [h] at hstops
  · intro h
    obtain ⟨hle, -, hfirst⟩ := s.leastFrom_skipUntil stop
    have hnot : ¬ s.index < (s.skipUntil stop).index := fun hlt =>
      hfirst s.index s.current (Nat.le_refl _) hlt s.get?_index h
    exact eq_of_index_eq rfl rfl (Nat.le_antisymm (Nat.le_of_not_lt hnot) hle)

end TokenStream

end ParseRecovery
