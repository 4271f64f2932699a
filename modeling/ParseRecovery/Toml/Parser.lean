import ParseRecovery.Toml.Numeral

/-!
Reading TOML text into statements.
-/

namespace ParseRecovery.Toml

/-! ## Keys -/

/-- A character of a key without quotes. -/
def isBareChar (c : Char) : Bool :=
  c.isAlphanum || c == '-' || c == '_'

/-- Read one part of a key. -/
def keyPart? (cs : List Char) : Option (String × List Char) :=
  match cs with
  | '"' :: _ | '\'' :: _ => (inlineString? cs).map fun (text, rest) => (String.ofList text, rest)
  | _ =>
      match cs.takeWhile isBareChar with
      | [] => none
      | name => some (String.ofList name, cs.dropWhile isBareChar)

/-- Read the parts of a dotted key, with blanks around each. -/
def keyParts? : Nat → List Char → Option (KeyPath × List Char)
  | 0, _ => none
  | fuel + 1, cs =>
      match keyPart? (skipBlanks cs) with
      | none => none
      | some (part, rest) =>
          match skipBlanks rest with
          | '.' :: rest => (keyParts? fuel rest).map fun (parts, rest) => (part :: parts, rest)
          | rest => some ([part], rest)

/-- Read a key. -/
def key? (cs : List Char) : Option (KeyPath × List Char) :=
  match keyParts? (cs.length + 1) cs with
  | none => none
  | some (path, rest) => if path.length < depthLimit then some (path, rest) else none

/-! ## Values -/

mutual

/-- Read a value that is nested `level` deep. The fuel bounds the nesting of steps. -/
def value? : Nat → Nat → List Char → Option (Value × List Char)
  | 0, _, _ => none
  | fuel + 1, level, cs =>
      match cs with
      | '"' :: _ | '\'' :: _ =>
          (string? cs).map fun (text, rest) => (.string (String.ofList text), rest)
      | 't' :: 'r' :: 'u' :: 'e' :: rest => some (.boolean true, rest)
      | 'f' :: 'a' :: 'l' :: 's' :: 'e' :: rest => some (.boolean false, rest)
      | '[' :: rest =>
          if level + 1 < depthLimit then
            (items? fuel (level + 1) rest).map fun (vs, rest) => (.array vs, rest)
          else none
      | '\x7b' :: rest =>
          if level + 1 < depthLimit then
            match skipBlanks rest with
            | '\x7d' :: rest => some (.inline [], rest)
            | rest => (members? fuel (level + 1) rest).map fun (ms, rest) => (.inline ms, rest)
          else none
      | _ => numeral? cs

/-- Read the items of an array up to its closing bracket. A comma may stand after the last one. -/
def items? : Nat → Nat → List Char → Option (List Value × List Char)
  | 0, _, _ => none
  | fuel + 1, level, cs =>
      match skipGaps? false cs with
      | none => none
      | some (']' :: rest) => some ([], rest)
      | some cs =>
          match value? fuel level cs with
          | none => none
          | some (v, rest) =>
              match skipGaps? false rest with
              | some (']' :: rest) => some ([v], rest)
              | some (',' :: rest) =>
                  (items? fuel level rest).map fun (vs, rest) => (v :: vs, rest)
              | _ => none

/-- Read the members of an inline table up to its closing brace; there is at least one. -/
def members? : Nat → Nat → List Char → Option (List (KeyPath × Value) × List Char)
  | 0, _, _ => none
  | fuel + 1, level, cs =>
      match key? cs with
      | some (path, '=' :: rest) =>
          match value? fuel level (skipBlanks rest) with
          | none => none
          | some (v, rest) =>
              match skipBlanks rest with
              | '\x7d' :: rest => some ([(path, v)], rest)
              | ',' :: rest =>
                  (members? fuel level rest).map fun (ms, rest) => ((path, v) :: ms, rest)
              | _ => none
      | _ => none

end

/-! ## Statements -/

/-- Read a header after its opening bracket or brackets. -/
def header? (closing : List Char) (cs : List Char) : Option (KeyPath × List Char) := do
  let (path, rest) ← key? cs
  let rest ← after? closing rest
  let rest ← lineEnd? rest
  return (path, rest)

/-- Read a key with its value. -/
def assignment? (cs : List Char) : Option (Statement × List Char) := do
  let (path, rest) ← key? cs
  let rest ← after? ['='] rest
  let (v, rest) ← value? (2 * rest.length + 2) 0 (skipBlanks rest)
  let rest ← lineEnd? rest
  return (.assign path v, rest)

/-- Read the statement at the front of a text. -/
def statement? : List Char → Option (Statement × List Char)
  | '[' :: '[' :: rest =>
      (header? [']', ']'] rest).map fun (path, rest) => (.element path, rest)
  | '[' :: rest => (header? [']'] rest).map fun (path, rest) => (.table path, rest)
  | cs => assignment? cs

/-- Read statements up to the end, one to a line. The fuel bounds the lines. -/
def statementsFrom? : Nat → List Char → Option (List Statement)
  | 0, _ => none
  | fuel + 1, cs =>
      match skipBlanks cs with
      | [] => some []
      | c :: rest =>
          if c = '#' ∨ c = '\n' ∨ c = '\r' then
            match lineEnd? (c :: rest) with
            | none => none
            | some rest => statementsFrom? fuel rest
          else
            match statement? (c :: rest) with
            | none => none
            | some (s, rest) => (statementsFrom? fuel rest).map (s :: ·)

/-- The statements of a text; a byte order mark before them is passed over. -/
def statements? (text : String) : Option (List Statement) :=
  let cs :=
    match text.toList with
    | '\ufeff' :: rest => rest
    | cs => cs
  statementsFrom? (cs.length + 1) cs

end ParseRecovery.Toml
