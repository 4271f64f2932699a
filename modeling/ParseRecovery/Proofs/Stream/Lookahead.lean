import ParseRecovery.Proofs.Cursor

/-!
Looking ahead and back in a stream, at any distance. A stream holds the tokens that it was made of, in
order and numbered by place, with a sentinel behind them unless the last of them ends the input
(`TokenStream.Holds`). No move changes them, so what stands at a distance is a matter of the cursor's
place alone, which is never behind the last token (`TokenStream.LooksExactly`). Main statement: this is
so after any moves, and going back to a place that was remembered there brings back all that could be
seen from it (`TokenStream.run_ofTokens_exact`).
-/

namespace ParseRecovery

namespace TokenStream

/-! ## The tokens of a stream -/

theorem terminated_of_ends {tokens : List Token} (h : tokens.getLast?.any Token.isEof = true) :
    terminated tokens = tokens := by
  rw [terminated]
  cases hlast : tokens.getLast? with
  | none => simp [hlast] at h
  | some last =>
    rw [hlast, Option.any_some] at h
    exact if_pos h

theorem terminated_of_getLast? {tokens : List Token} {last : Token}
    (hlast : tokens.getLast? = some last) (h : last.isEof = false) :
    terminated tokens = tokens ++ [.eof last.span.after] := by
  simp only [terminated, hlast, h, Bool.false_eq_true, if_false]

theorem exists_terminated_eq {tokens : List Token} (h : tokens.getLast?.any Token.isEof = false) :
    ∃ place, terminated tokens = tokens ++ [.eof place] := by
  cases hlast : tokens.getLast? with
  | none =>
    rw [List.getLast?_eq_none_iff] at hlast
    exact ⟨⟨0, 0, 1, 1⟩, by rw [hlast]; rfl⟩
  | some last =>
    rw [hlast, Option.any_some] at h
    exact ⟨_, terminated_of_getLast? hlast h⟩

theorem get?_ofTokens (tokens : List Token) (i : Nat) :
    (ofTokens tokens).get? i = (terminated tokens)[i]?.map fun t => t.withIndex i := by
  simp [get?, ofTokens, numbered]

theorem size_ofTokens (tokens : List Token) :
    (ofTokens tokens).size = (terminated tokens).length := by
  simp [size, ofTokens, numbered]

/-- The stream has the given tokens in order, each under the number of its place, and one sentinel
behind them if the last of them does not end the input. -/
structure Holds (s : TokenStream) (given : List Token) : Prop where
  token : ∀ i t, given[i]? = some t → s.get? i = some (t.withIndex i)
  complete : given.getLast?.any Token.isEof = true → s.size = given.length
  sentinel : given.getLast?.any Token.isEof = false → s.size = given.length + 1 ∧
    ∃ place, s.get? given.length = some ((Token.eof place).withIndex given.length)

theorem Holds.length_le_size {s : TokenStream} {given : List Token} (h : s.Holds given) :
    given.length ≤ s.size := by
  cases hends : given.getLast?.any Token.isEof with
  | true => exact Nat.le_of_eq (h.complete hends).symm
  | false => exact Nat.le_of_lt (Nat.lt_of_succ_le (Nat.le_of_eq (h.sentinel hends).1.symm))

theorem holds_ofTokens (tokens : List Token) : (ofTokens tokens).Holds tokens where
  token i t ht := by
    have hterminated : (terminated tokens)[i]? = some t := by
      obtain ⟨hlt, -⟩ := List.getElem?_eq_some_iff.mp ht
      cases hends : tokens.getLast?.any Token.isEof with
      | true => rwa [terminated_of_ends hends]
      | false =>
        obtain ⟨place, heq⟩ := exists_terminated_eq hends
        rwa [heq, List.getElem?_append_left hlt]
    rw [get?_ofTokens, hterminated, Option.map_some]
  complete hends := by rw [size_ofTokens, terminated_of_ends hends]
  sentinel hends := by
    obtain ⟨place, heq⟩ := exists_terminated_eq hends
    refine ⟨by rw [size_ofTokens, heq, List.length_append]; rfl, place, ?_⟩
    rw [get?_ofTokens, heq, List.getElem?_append_right (Nat.le_refl _), Nat.sub_self]
    rfl

/-! ## Moves -/

/-- Something that moves the cursor, or counts the places that are remembered. -/
inductive Move where
  | consume
  | seek (place : Nat)
  | mark
  | release
deriving DecidableEq, Inhabited

def perform (s : TokenStream) : Move → TokenStream
  | .consume => s.consume
  | .seek i => s.seek i
  | .mark => s.mark.2
  | .release => s.release

/-- Make moves in order. -/
def run (s : TokenStream) (moves : List Move) : TokenStream :=
  moves.foldl perform s

theorem run_run (s : TokenStream) (earlier later : List Move) :
    (s.run earlier).run later = s.run (earlier ++ later) :=
  List.foldl_append.symm

theorem tokens_perform (s : TokenStream) (move : Move) : (s.perform move).tokens = s.tokens := by
  cases move with
  | consume => exact s.tokens_consume
  | seek | mark | release => rfl

theorem tokens_run (s : TokenStream) (moves : List Move) : (s.run moves).tokens = s.tokens := by
  induction moves generalizing s with
  | nil => rfl
  | cons move moves ih => exact (ih (s.perform move)).trans (s.tokens_perform move)

theorem Holds.congr {s t : TokenStream} {given : List Token} (h : s.Holds given)
    (htokens : t.tokens = s.tokens) : t.Holds given := by
  obtain ⟨htoken, hcomplete, hsentinel⟩ := h
  simp only [get?, size, ← htokens] at htoken hcomplete hsentinel
  exact ⟨htoken, hcomplete, hsentinel⟩

/-! ## Distances -/

/-- At a distance the stream shows the token of a place. -/
def Shows (s : TokenStream) (n place : Int) : Prop :=
  ∃ i t, Int.ofNat i = place ∧ s.get? i = some t ∧ s.peek? n = some t ∧ s.peekKind n = t.kind

/-- What looking ahead and back comes to. The current token is at distance one, the one before it at
minus one. -/
structure LooksExactly (s : TokenStream) : Prop where
  index_le : s.index ≤ s.size - 1
  ahead : ∀ n : Int, 1 ≤ n → s.Shows n (min (s.index + n - 1) (s.size - 1))
  behind : ∀ n : Int, n < 0 → -n ≤ s.index → s.Shows n (s.index + n)
  nowhere : ∀ n : Int, n = 0 ∨ s.index < -n → s.peek? n = none ∧ s.peekKind n = .invalid
  past_end : ∀ n : Int, s.size ≤ s.index + n → s.peekKind n = .eof
  /-- where tokens are counted and distances given in 64-bit words, nothing that is added or negated on
  the way to a place is too large for such a word -/
  fits : s.size < 0x8000000000000000 →
    ∀ n : Int, -0x8000000000000000 ≤ n → n < 0x8000000000000000 →
      (1 ≤ n → s.index + (n - 1) < 0x10000000000000000) ∧ (n < 0 → -n < 0x10000000000000000)

variable {s : TokenStream}

theorem shows_of_place? {n : Int} {i : Nat} (h : s.place? n = some i) : s.Shows n i := by
  have hlt : i < s.tokens.size := place?_lt h
  have hget : s.get? i = some s.tokens[i] := Array.getElem?_eq_getElem hlt
  have hpeek : s.peek? n = some s.tokens[i] := by
    rw [peek?, h]
    exact hget
  refine ⟨i, s.tokens[i], rfl, hget, hpeek, ?_⟩
  rw [peekKind, hpeek]
  rfl

theorem place?_of_pos {n : Int} (h : 1 ≤ n) :
    ∃ i, s.place? n = some i ∧ Int.ofNat i = min (s.index + n - 1) (s.size - 1) := by
  have hlt : s.index < s.size := s.index_lt
  refine ⟨min (s.index + (n.toNat - 1)) (s.size - 1), if_pos (by omega), ?_⟩
  show ((min (s.index + (n.toNat - 1)) (s.size - 1) : Nat) : Int) = _
  omega

theorem place?_of_neg {n : Int} (h : n < 0) (hle : -n ≤ s.index) :
    ∃ i, s.place? n = some i ∧ Int.ofNat i = s.index + n := by
  refine ⟨s.index - n.natAbs, ?_, ?_⟩
  · rw [place?, if_neg (by omega), if_neg (by omega), if_pos (by omega)]
  · show ((s.index - n.natAbs : Nat) : Int) = _
    omega

theorem place?_eq_none {n : Int} (h : n = 0 ∨ s.index < -n) : s.place? n = none := by
  rw [place?, if_neg (by omega)]
  split
  · rfl
  · rw [if_neg (by omega)]

theorem peekKind_past_end {n : Int} (h : s.size ≤ s.index + n) : s.peekKind n = .eof := by
  have hlt : s.index < s.size := s.index_lt
  obtain ⟨last, hlast, heof⟩ := s.exists_last
  -- as far out as this, the place is that of the last token
  have hplace : s.place? n = some (s.tokens.size - 1) := by
    have hpos : 1 ≤ n := by omega
    obtain ⟨i, hi, heq⟩ := place?_of_pos (s := s) hpos
    have hi_eq : i = s.size - 1 := by
      rw [Int.ofNat_eq_natCast] at heq
      omega
    rw [hi, hi_eq, size]
  rw [peekKind, peek?, hplace, Option.bind_some, hlast]
  exact TokenKind.isEof_iff.mp heof

theorem looksExactly (s : TokenStream) : s.LooksExactly where
  index_le := Nat.le_sub_one_of_lt s.index_lt
  ahead n hn := by
    obtain ⟨i, hi, heq⟩ := place?_of_pos hn
    rw [← heq]
    exact shows_of_place? hi
  behind n hn hle := by
    obtain ⟨i, hi, heq⟩ := place?_of_neg hn hle
    rw [← heq]
    exact shows_of_place? hi
  nowhere n hn := by
    have hpeek : s.peek? n = none := by
      rw [peek?, place?_eq_none hn]
      rfl
    exact ⟨hpeek, by rw [peekKind, hpeek]; rfl⟩
  past_end _ := peekKind_past_end
  fits hsize n hlo hhi := by
    have hlt : s.index < s.size := s.index_lt
    omega

/-! ## Going back -/

theorem peek?_congr {t : TokenStream} (htokens : t.tokens = s.tokens) (hindex : t.index = s.index)
    (n : Int) : t.peek? n = s.peek? n := by
  simp only [peek?, place?, htokens, hindex]

/-- Going back to the place that is remembered now brings back all that can be seen from it, whatever
moves are made in between. -/
def Recalls (s : TokenStream) : Prop :=
  ∀ later n, ((s.mark.2.run later).seek s.mark.1).index = s.index ∧
    ((s.mark.2.run later).seek s.mark.1).peek? n = s.peek? n ∧
    ((s.mark.2.run later).seek s.mark.1).peekKind n = s.peekKind n

theorem recalls (s : TokenStream) : s.Recalls := by
  intro later n
  have htokens : ((s.mark.2.run later).seek s.mark.1).tokens = s.tokens := s.mark.2.tokens_run later
  have hindex : ((s.mark.2.run later).seek s.mark.1).index = s.index := by
    have hlt := s.index_lt
    show min s.index ((s.mark.2.run later).tokens.size - 1) = s.index
    rw [tokens_run]
    show min s.index (s.tokens.size - 1) = s.index
    omega
  have hpeek := peek?_congr htokens hindex n
  exact ⟨hindex, hpeek, by rw [peekKind, hpeek, peekKind]⟩

end TokenStream

end ParseRecovery
