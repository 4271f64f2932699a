import ParseRecovery.Json.Literal
import ParseRecovery.Json.Value

/-!
Reading JSON text: one value, with blanks around it and nothing else.
-/

namespace ParseRecovery.Json

/-- The blanks of the format. -/
def isBlank (c : Char) : Bool :=
  c == ' ' || c == '\n' || c == '\t' || c == '\r'

def skipBlanks (cs : List Char) : List Char :=
  cs.dropWhile isBlank

/-- Split off the digits at the front. -/
def digits (cs : List Char) : List Char × List Char :=
  (cs.takeWhile Char.isDigit, cs.dropWhile Char.isDigit)

/-- The number that a row of decimal digits writes. -/
def decimal (ds : List Char) : Nat :=
  ds.foldl (fun n d => 10 * n + (d.toNat - '0'.toNat)) 0

/-- The fraction at the front, empty if there is none; a point without digits is refused. -/
def fraction? : List Char → Option (List Char × List Char)
  | '.' :: rest =>
      match digits rest with
      | ([], _) => none
      | (ds, after) => some ('.' :: ds, after)
  | cs => some ([], cs)

/-- Split off a sign. -/
def sign : List Char → List Char × List Char
  | '+' :: rest => (['+'], rest)
  | '-' :: rest => (['-'], rest)
  | cs => ([], cs)

/-- The exponent at the front, empty if there is none; an exponent without digits is refused. -/
def exponent? : List Char → Option (List Char × List Char)
  | [] => some ([], [])
  | e :: rest =>
      if e = 'e' ∨ e = 'E' then
        match sign rest with
        | (s, cs) =>
            match digits cs with
            | ([], _) => none
            | (ds, after) => some (e :: s ++ ds, after)
      else some ([], e :: rest)

/-- The digits before the point: a zero alone, or a row that begins with another digit. -/
def whole? (cs : List Char) : Option (List Char × List Char) :=
  match digits cs with
  | ([], _) => none
  | (['0'], after) => some (['0'], after)
  | ('0' :: _, _) => none
  | (ds, after) => some (ds, after)

/-- A numeral is an integer if it has no fraction and no exponent and is no negative zero. -/
def numeral (negative : Bool) (ds frac exp : List Char) : Value :=
  if frac.isEmpty && exp.isEmpty && !(negative && decimal ds == 0) then
    .integer (if negative then -(decimal ds : Int) else decimal ds)
  else .numeral (String.ofList ((if negative then ['-'] else []) ++ ds ++ frac ++ exp))

/-- Read a numeral. -/
def numeral? (cs : List Char) : Option (Value × List Char) :=
  let (negative, cs) :=
    match cs with
    | '-' :: rest => (true, rest)
    | _ => (false, cs)
  match whole? cs with
  | none => none
  | some (ds, cs) =>
      match fraction? cs with
      | none => none
      | some (frac, cs) =>
          match exponent? cs with
          | none => none
          | some (exp, rest) => some (numeral negative ds frac exp, rest)

/-- An object, or no readable value at all if one of the names is not readable. -/
def objectOf (members : List (Option String × Value)) : Value :=
  match members.mapM fun (name, v) => name.map (·, v) with
  | some members => .object members
  | none => .unreadable

mutual

/-- Read a value, after blanks. The depth bounds the nesting of steps. -/
def value? : Nat → List Char → Option (Value × List Char)
  | 0, _ => none
  | depth + 1, cs =>
      match skipBlanks cs with
      | 'n' :: 'u' :: 'l' :: 'l' :: rest => some (.null, rest)
      | 't' :: 'r' :: 'u' :: 'e' :: rest => some (.bool true, rest)
      | 'f' :: 'a' :: 'l' :: 's' :: 'e' :: rest => some (.bool false, rest)
      | '"' :: rest =>
          (Literal.read? rest).map fun (text, after) =>
            ((text.map Value.string).getD .unreadable, after)
      | '[' :: rest =>
          match skipBlanks rest with
          | ']' :: after => some (.array [], after)
          | inner => (items? depth inner).map fun (vs, after) => (.array vs, after)
      | '\x7b' :: rest =>
          match skipBlanks rest with
          | '\x7d' :: after => some (.object [], after)
          | inner => (members? depth inner).map fun (ms, after) => (objectOf ms, after)
      | inner => numeral? inner

/-- Read the items of an array up to its closing bracket; there is at least one. -/
def items? : Nat → List Char → Option (List Value × List Char)
  | 0, _ => none
  | depth + 1, cs =>
      match value? depth cs with
      | none => none
      | some (v, rest) =>
          match skipBlanks rest with
          | ']' :: after => some ([v], after)
          | ',' :: inner => (items? depth inner).map fun (vs, after) => (v :: vs, after)
          | _ => none

/-- Read the members of an object up to its closing brace; there is at least one. -/
def members? : Nat → List Char → Option (List (Option String × Value) × List Char)
  | 0, _ => none
  | depth + 1, cs =>
      match skipBlanks cs with
      | '"' :: rest =>
          match Literal.read? rest with
          | none => none
          | some (name, rest) =>
              match skipBlanks rest with
              | ':' :: rest =>
                  match value? depth rest with
                  | none => none
                  | some (v, rest) =>
                      match skipBlanks rest with
                      | '\x7d' :: after => some ([(name, v)], after)
                      | ',' :: inner =>
                          (members? depth inner).map fun (ms, after) => ((name, v) :: ms, after)
                      | _ => none
              | _ => none
      | _ => none

end

/-- The value of a text. Each character accounts for at most two nested steps. -/
def parse? (text : String) : Option Value :=
  let cs := text.toList
  match value? (2 * cs.length + 2) cs with
  | some (v, rest) => if (skipBlanks rest).isEmpty then some v else none
  | none => none

end ParseRecovery.Json
