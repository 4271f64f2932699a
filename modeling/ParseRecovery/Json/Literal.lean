import ParseRecovery.Hexadecimal

/-!
String literals of JSON. Writing escapes the quote, the backslash and the control characters below
the blank; reading accepts all escapes of the format. An escape can name half of a surrogate pair;
two halves in a row denote one character, and a half that stands alone denotes none.
-/

namespace ParseRecovery.Json.Literal

/-- The escape of one character. -/
def escape (c : Char) : List Char :=
  if c = '"' then ['\\', '"']
  else if c = '\\' then ['\\', '\\']
  else if c = '\n' then ['\\', 'n']
  else if c = '\r' then ['\\', 'r']
  else if c = '\t' then ['\\', 't']
  else if c = '\x08' then ['\\', 'b']
  else if c = '\x0c' then ['\\', 'f']
  else if c.toNat < 32 then
    ['\\', 'u', '0', '0', Hexadecimal.digit (c.toNat / 16), Hexadecimal.digit (c.toNat % 16)]
  else [c]

/-- A text between quotes. -/
def write (text : List Char) : List Char :=
  '"' :: text.flatMap escape ++ ['"']

/-- What one character or escape of a literal denotes. -/
inductive Piece where
  | char (c : Char)
  /-- half of a surrogate pair -/
  | half (unit : Nat)
deriving DecidableEq

def isHighHalf (unit : Nat) : Bool :=
  decide (0xD800 ≤ unit ∧ unit < 0xDC00)

def isLowHalf (unit : Nat) : Bool :=
  decide (0xDC00 ≤ unit ∧ unit < 0xE000)

/-- The character of a pair of halves. -/
def pair (high low : Nat) : Char :=
  Char.ofNat (0x10000 + (high - 0xD800) * 0x400 + (low - 0xDC00))

def Piece.ofUnit (unit : Nat) : Piece :=
  if isHighHalf unit || isLowHalf unit then .half unit else .char (Char.ofNat unit)

/-- The text of pieces, unless some half stands alone. -/
def join? : List Piece → Option (List Char)
  | [] => some []
  | .char c :: rest => (join? rest).map (c :: ·)
  | .half high :: .half low :: rest =>
      if isHighHalf high && isLowHalf low then (join? rest).map (pair high low :: ·) else none
  | .half _ :: _ => none

/-- The character that a one-letter escape denotes. -/
def shortEscape? : Char → Option Char
  | '"' => some '"'
  | '\\' => some '\\'
  | '/' => some '/'
  | 'b' => some '\x08'
  | 'f' => some '\x0c'
  | 'n' => some '\n'
  | 'r' => some '\r'
  | 't' => some '\t'
  | _ => none

/-- The number that four hexadecimal digits write. -/
def hexUnit? (a b c d : Char) : Option Nat :=
  match Hexadecimal.value? a, Hexadecimal.value? b, Hexadecimal.value? c, Hexadecimal.value? d with
  | some a, some b, some c, some d => some (((a * 16 + b) * 16 + c) * 16 + d)
  | _, _, _, _ => none

/-- The pieces up to the closing quote, and what comes after it. Control characters below the blank
have to be escaped. -/
def pieces? : List Char → Option (List Piece × List Char)
  | [] => none
  | '"' :: rest => some ([], rest)
  | '\\' :: 'u' :: a :: b :: c :: d :: rest =>
      match hexUnit? a b c d, pieces? rest with
      | some unit, some (ps, after) => some (.ofUnit unit :: ps, after)
      | _, _ => none
  | '\\' :: e :: rest =>
      match shortEscape? e, pieces? rest with
      | some c, some (ps, after) => some (.char c :: ps, after)
      | _, _ => none
  | c :: rest =>
      if c.toNat < 32 ∨ c = '\\' then none
      else
        match pieces? rest with
        | some (ps, after) => some (.char c :: ps, after)
        | none => none

/-- Read a literal after its opening quote: its text, if it has one, and what comes after it. -/
def read? (cs : List Char) : Option (Option String × List Char) :=
  (pieces? cs).map fun (ps, after) => ((join? ps).map String.ofList, after)

end ParseRecovery.Json.Literal
