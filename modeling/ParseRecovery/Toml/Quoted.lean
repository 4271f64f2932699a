import ParseRecovery.Hexadecimal
import ParseRecovery.Toml.Characters

/-!
Strings of TOML: in double quotes with escapes or in single quotes without, on one line or, with
three quotes, on several.
-/

namespace ParseRecovery.Toml

/-- The character whose code point hexadecimal digits write. -/
def codePoint? (digits : List Char) : Option Char :=
  match digits.mapM Hexadecimal.value? with
  | none => none
  | some ds =>
      let n := ds.foldl (fun n d => 16 * n + d) 0
      if n.isValidChar then some (Char.ofNat n) else none

/-- The character that a one-letter escape denotes. -/
def shortEscape? : Char → Option Char
  | 'b' => some '\x08'
  | 't' => some '\t'
  | 'n' => some '\n'
  | 'f' => some '\x0c'
  | 'r' => some '\r'
  | '"' => some '"'
  | '\\' => some '\\'
  | _ => none

/-- Read an escape after its backslash. -/
def escape? : List Char → Option (Char × List Char)
  | 'u' :: a :: b :: c :: d :: rest => (codePoint? [a, b, c, d]).map (·, rest)
  | 'U' :: a :: b :: c :: d :: e :: f :: g :: h :: rest =>
      (codePoint? [a, b, c, d, e, f, g, h]).map (·, rest)
  | c :: rest => (shortEscape? c).map (·, rest)
  | [] => none

/-- What comes after a line break that a backslash takes back, with the white space after it. -/
def foldedBreak? (cs : List Char) : Option (List Char) :=
  (lineBreak? (skipBlanks cs)).map skipBlankLines

/-- Put a character before what has been read. -/
def prepend (c : Char) (read : Option (List Char × List Char)) : Option (List Char × List Char) :=
  read.map fun (text, rest) => (c :: text, rest)

/-- Read a string in double quotes after its opening quote. The fuel bounds the characters read. -/
def basic? : Nat → List Char → Option (List Char × List Char)
  | 0, _ => none
  | _ + 1, [] => none
  | fuel + 1, c :: rest =>
      if c = '"' then some ([], rest)
      else if c = '\\' then
        match escape? rest with
        | none => none
        | some (e, rest) => prepend e (basic? fuel rest)
      else if isPlain c then prepend c (basic? fuel rest)
      else none

/-- Read a string in single quotes after its opening quote. -/
def literal? : List Char → Option (List Char × List Char)
  | [] => none
  | c :: rest =>
      if c = '\'' then some ([], rest)
      else if isPlain c then prepend c (literal? rest)
      else none

/-- Three closing quotes with up to two quotes of the text before them. -/
def closing? (quote : Char) (cs : List Char) : Option (List Char × List Char) :=
  match after? [quote, quote, quote] cs with
  | none => none
  | some rest =>
      match after? [quote, quote] rest with
      | some rest => some ([quote, quote], rest)
      | none =>
          match after? [quote] rest with
          | some rest => some ([quote], rest)
          | none => some ([], rest)

/-- Read a string on several lines; in double quotes it has escapes. -/
def several? (quote : Char) : Nat → List Char → Option (List Char × List Char)
  | 0, _ => none
  | _ + 1, [] => none
  | fuel + 1, c :: rest =>
      match closing? quote (c :: rest) with
      | some (text, after) => some (text, after)
      | none =>
          match lineBreak? (c :: rest) with
          | some after => prepend '\n' (several? quote fuel after)
          | none =>
              if c = '\\' ∧ quote = '"' then
                match foldedBreak? rest with
                | some after => several? quote fuel after
                | none =>
                    match escape? rest with
                    | none => none
                    | some (e, after) => prepend e (several? quote fuel after)
              else if isPlain c then prepend c (several? quote fuel rest)
              else none

/-- A line break right after the opening quotes does not count. -/
def skipFirstBreak (cs : List Char) : List Char :=
  (lineBreak? cs).getD cs

/-- Read a string of any of the four forms. -/
def string? (cs : List Char) : Option (List Char × List Char) :=
  match cs with
  | '"' :: '"' :: '"' :: rest => several? '"' (rest.length + 1) (skipFirstBreak rest)
  | '"' :: rest => basic? (rest.length + 1) rest
  | '\'' :: '\'' :: '\'' :: rest => several? '\'' (rest.length + 1) (skipFirstBreak rest)
  | '\'' :: rest => literal? rest
  | _ => none

/-- Read a string on one line. -/
def inlineString? (cs : List Char) : Option (List Char × List Char) :=
  match cs with
  | '"' :: rest => basic? (rest.length + 1) rest
  | '\'' :: rest => literal? rest
  | _ => none

end ParseRecovery.Toml
