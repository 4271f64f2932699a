/-!
Token kinds. A grammar numbers its own kinds from one; zero and the negative numbers are reserved.
-/

namespace ParseRecovery

/-- What sort of token a token is, as a number. -/
abbrev TokenKind := Int

namespace TokenKind

/-- The end of the input. -/
abbrev eof : TokenKind := -1

/-- In lookahead sets: the end of the rule can be reached without consuming a token. -/
abbrev epsilon : TokenKind := -2

/-- No kind at all. -/
abbrev invalid : TokenKind := 0

/-- The least kind that a grammar may give to tokens of its own. -/
abbrev minUser : TokenKind := 1

/-- A kind that a grammar assigned to tokens of its own. -/
def isUser (k : TokenKind) : Bool :=
  decide (minUser ≤ k)

def isEof (k : TokenKind) : Bool :=
  k == eof

/-- A kind in print: the two named reserved kinds by name, the others by number. -/
def text (k : TokenKind) : String :=
  if k = eof then "<EOF>"
  else if k = epsilon then "<EPSILON>"
  else toString k

@[simp] theorem isUser_iff {k : TokenKind} : isUser k = true ↔ 1 ≤ k := by
  simp [isUser]

@[simp] theorem isEof_iff {k : TokenKind} : isEof k = true ↔ k = eof := by
  simp [isEof]

end TokenKind

end ParseRecovery
