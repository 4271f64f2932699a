import ParseRecovery.Token

/-!
The input of a parse: tokens and a cursor among them. The last token is the end of the input, and
the cursor never moves past it, so looking ahead is defined at every distance.
-/

namespace ParseRecovery

/-- Tokens with a cursor. The last token is the end of the input, the cursor is at a token, and
`markers` counts the positions that someone still remembers. -/
structure TokenStream where
  tokens : Array Token
  index : Nat
  markers : Nat
  index_lt : index < tokens.size
  ends : tokens.back?.any Token.isEof = true
deriving DecidableEq

namespace TokenStream

/-- The tokens with a sentinel after them, unless the last of them is one. The sentinel stands right
after the last token, or at the very start of an empty input. -/
def terminated (tokens : List Token) : List Token :=
  match tokens.getLast? with
  | none => [Token.eof ⟨0, 0, 1, 1⟩]
  | some last => if last.isEof then tokens else tokens ++ [Token.eof last.span.after]

/-- Number the tokens by position. -/
def numbered (tokens : List Token) : List Token :=
  tokens.mapIdx fun i t => t.withIndex i

theorem terminated_ne_nil (tokens : List Token) : terminated tokens ≠ [] := by
  unfold terminated
  split
  · simp
  · rename_i last h
    split
    · intro hn
      simp [hn] at h
    · simp

theorem terminated_ends (tokens : List Token) :
    (terminated tokens).getLast?.any Token.isEof = true := by
  unfold terminated
  split
  · rfl
  · rename_i last h
    split
    · rename_i he
      simp [h, he]
    · simp [Token.isEof, Token.eof]

/-- The stream of a list of tokens, at its first token. -/
def ofTokens (tokens : List Token) : TokenStream where
  tokens := (numbered (terminated tokens)).toArray
  index := 0
  markers := 0
  index_lt := by
    have h := List.length_pos_iff.mpr (terminated_ne_nil tokens)
    simpa [numbered] using h
  ends := by
    have h := terminated_ends tokens
    cases hl : (terminated tokens).getLast? with
    | none => simp [hl] at h
    | some last =>
      simp only [hl, Option.any_some] at h
      simpa [numbered, List.getLast?_mapIdx, hl, Token.withIndex, Token.isEof] using h

/-- A stream of bare kinds: the token at place `i` has the text `ti` and is one byte wide. -/
def ofKinds (kinds : List TokenKind) : TokenStream :=
  ofTokens <| kinds.mapIdx fun i k =>
    { kind := k, text := "t" ++ toString i, span := ⟨i, i + 1, 1, i + 1⟩ }

/-- The token at the cursor. -/
def current (s : TokenStream) : Token :=
  have := s.index_lt
  s.tokens[s.index]

/-- The place of the token at a signed distance: one is the current token, minus one the token
before it. Past the end stands the last token; before the start, and at distance zero, there is
none. -/
def place? (s : TokenStream) (n : Int) : Option Nat :=
  if 0 < n then some (min (s.index + (n.toNat - 1)) (s.tokens.size - 1))
  else if n = 0 then none
  else if n.natAbs ≤ s.index then some (s.index - n.natAbs)
  else none

/-- The token at a signed distance. -/
def peek? (s : TokenStream) (n : Int) : Option Token :=
  (s.place? n).bind fun i => s.tokens[i]?

/-- The kind at a signed distance, `invalid` where there is no token. -/
def peekKind (s : TokenStream) (n : Int) : TokenKind :=
  ((s.peek? n).map Token.kind).getD .invalid

/-- The token at an absolute place. -/
def get? (s : TokenStream) (i : Nat) : Option Token :=
  s.tokens[i]?

def size (s : TokenStream) : Nat :=
  s.tokens.size

/-- The current token is the end of the input. -/
def atEof (s : TokenStream) : Bool :=
  s.current.isEof

/-- Move past the current token, except at the last one. -/
def consume (s : TokenStream) : TokenStream :=
  if h : s.index + 1 < s.tokens.size then { s with index := s.index + 1, index_lt := h } else s

/-- Move to an absolute place, or to the last token if there are fewer. -/
def seek (s : TokenStream) (i : Nat) : TokenStream :=
  { s with
    index := min i (s.tokens.size - 1)
    index_lt := by
      have := s.index_lt
      omega }

/-- Remember the cursor's place. -/
def mark (s : TokenStream) : Nat × TokenStream :=
  (s.index, { s with markers := s.markers + 1 })

/-- Forget a remembered place. -/
def release (s : TokenStream) : TokenStream :=
  { s with markers := s.markers - 1 }

/-- Move forward to the first token, from the current one on, that ends the input or whose kind
`stop` admits. -/
def skipUntil (s : TokenStream) (stop : TokenKind → Bool) : TokenStream :=
  s.seek (s.index + (s.tokens.toList.drop s.index).findIdx fun t => t.isEof || stop t.kind)

/-- Looking one token ahead is looking at the current token. -/
theorem peek?_one (s : TokenStream) : s.peek? 1 = some s.current := by
  have h := s.index_lt
  have hmin : min s.index (s.tokens.size - 1) = s.index := by omega
  simp [peek?, place?, current, hmin, h]

theorem peekKind_one (s : TokenStream) : s.peekKind 1 = s.current.kind := by
  simp [peekKind, peek?_one]

end TokenStream

end ParseRecovery
