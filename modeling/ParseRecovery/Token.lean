import ParseRecovery.TokenKind

/-!
Tokens and where they stand in the source. Besides the tokens of a lexer there are two that this
library makes itself: the sentinel at the end of the input, and the placeholder for a token that is
missing from it. A placeholder has no place in the stream, which is how it is told apart.
-/

namespace ParseRecovery

/-- A range of byte offsets, with the line and column of its first character. -/
structure Span where
  start : Nat := 0
  stop : Nat := 0
  line : Nat := 0
  column : Nat := 0
deriving DecidableEq, Inhabited, Repr

namespace Span

/-- An inverted span has length zero. -/
def length (s : Span) : Nat :=
  s.stop - s.start

def isEmpty (s : Span) : Bool :=
  s.start == s.stop

/-- The zero-width span at the start of `s`. -/
def collapsed (s : Span) : Span :=
  { s with stop := s.start }

/-- What is added up for the column behind `s`: two 32-bit words, its column and its length reduced to
one. The sum can be greater than such a word. -/
def columnSum (s : Span) : Nat :=
  s.column + s.length % 0x100000000

/-- The zero-width span right after `s`. Its column is a 32-bit word, to which the sum is reduced. -/
def after (s : Span) : Span where
  start := s.stop
  stop := s.stop
  line := s.line
  column := s.columnSum % 0x100000000

theorem column_after {s : Span} (h : s.columnSum < 0x100000000) : s.after.column = s.columnSum :=
  Nat.mod_eq_of_lt h

/-- The span from the earlier start to the later end, at the lesser line and the lesser column. -/
def merge (s t : Span) : Span where
  start := min s.start t.start
  stop := max s.stop t.stop
  line := min s.line t.line
  column := min s.column t.column

end Span

/-- Write line breaks and tabs as backslash escapes, so that the text fits on one line. -/
def escapeBreaks (text : String) : String :=
  String.ofList <| text.toList.flatMap fun
    | '\n' => ['\\', 'n']
    | '\r' => ['\\', 'r']
    | '\t' => ['\\', 't']
    | c => [c]

/-- A token; `index` is its place in the stream. -/
structure Token where
  kind : TokenKind
  text : String
  span : Span
  index : Option Nat := none
deriving DecidableEq, Inhabited, Repr

namespace Token

/-- The sentinel at the end of the input. -/
def eof (span : Span) : Token where
  kind := .eof
  text := "<EOF>"
  span := span

/-- A placeholder for a missing token, at the start of `place`. -/
def missing (kind : TokenKind) (name : String) (place : Span) : Token where
  kind := kind
  text := "<missing " ++ name ++ ">"
  span := place.collapsed

def withIndex (t : Token) (index : Nat) : Token :=
  { t with index := some index }

def isEof (t : Token) : Bool :=
  t.kind.isEof

/-- A token that error recovery made up. -/
def isConjured (t : Token) : Bool :=
  t.index.isNone && !t.isEof

/-- The token's text as messages quote it. -/
def shown (t : Token) : String :=
  if t.isEof then "<EOF>" else escapeBreaks t.text

/-- A place in the stream in print: a signed 64-bit word, and `-1` where there is none. -/
def indexText : Option Nat → String
  | none => "-1"
  | some i => toString (Int.bmod i 0x10000000000000000)

/-- The token in one line, with place, text, kind and position. -/
def summary (t : Token) : String :=
  "[@" ++ indexText t.index ++ " '" ++ t.shown ++ "' <" ++ t.kind.text ++ "> "
    ++ toString t.span.line ++ ":" ++ toString t.span.column ++ "]"

end Token

end ParseRecovery
