/-!
Blanks, comments and line ends of TOML text.
-/

namespace ParseRecovery.Toml

def isBlank (c : Char) : Bool :=
  c == ' ' || c == '\t'

/-- A character that can stand in a comment or a string: a tab, or no control character. -/
def isPlain (c : Char) : Bool :=
  c == '\t' || (decide (32 ≤ c.toNat) && c.toNat != 127)

def skipBlanks (cs : List Char) : List Char :=
  cs.dropWhile isBlank

/-- What comes after a line break. -/
def lineBreak? : List Char → Option (List Char)
  | '\n' :: rest => some rest
  | '\r' :: '\n' :: rest => some rest
  | _ => none

/-- What comes after a comment, if there is one. -/
def skipComment : List Char → List Char
  | '#' :: rest => rest.dropWhile isPlain
  | cs => cs

/-- What comes after the end of a statement: blanks, perhaps a comment, and a line break unless the
text ends there. -/
def lineEnd? (cs : List Char) : Option (List Char) :=
  match skipComment (skipBlanks cs) with
  | [] => some []
  | rest => lineBreak? rest

/-- What comes after blanks, line breaks and comments; each comment ends with its line. -/
def skipGaps? (inComment : Bool) : List Char → Option (List Char)
  | [] => if inComment then none else some []
  | '\r' :: '\n' :: rest => skipGaps? false rest
  | c :: rest =>
      if c = '\n' then skipGaps? false rest
      else if inComment then if isPlain c then skipGaps? true rest else none
      else if isBlank c then skipGaps? false rest
      else if c = '#' then skipGaps? true rest
      else some (c :: rest)

/-- What comes after blanks and line breaks. -/
def skipBlankLines : List Char → List Char
  | '\r' :: '\n' :: rest => skipBlankLines rest
  | c :: rest => if c = '\n' || isBlank c then skipBlankLines rest else c :: rest
  | [] => []

/-- What comes after a given text. -/
def after? : List Char → List Char → Option (List Char)
  | [], cs => some cs
  | w :: ws, c :: cs => if w = c then after? ws cs else none
  | _ :: _, [] => none

end ParseRecovery.Toml
