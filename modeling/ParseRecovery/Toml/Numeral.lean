import ParseRecovery.Toml.Quoted
import ParseRecovery.Toml.Value

/-!
Numbers and dates of TOML. Integers are signed 64-bit words; a positive float has to be finite in
64 bits. Dates are those of the calendar.
-/

namespace ParseRecovery.Toml

/-! ## Digits -/

/-- Split off digits after the first; an underscore may stand between two of them. -/
def moreDigits (isDigit : Char → Bool) : List Char → List Char × List Char
  | '_' :: d :: rest =>
      if isDigit d then
        let (ds, after) := moreDigits isDigit rest
        (d :: ds, after)
      else ([], '_' :: d :: rest)
  | d :: rest =>
      if isDigit d then
        let (ds, after) := moreDigits isDigit rest
        (d :: ds, after)
      else ([], d :: rest)
  | [] => ([], [])

/-- Split off a row of digits, without the underscores. -/
def digitRow? (isDigit : Char → Bool) : List Char → Option (List Char × List Char)
  | [] => none
  | d :: rest =>
      if isDigit d then
        let (ds, after) := moreDigits isDigit rest
        some (d :: ds, after)
      else none

/-- The number that digits of a base write. -/
def valueOf (base : Nat) (ds : List Char) : Nat :=
  ds.foldl (fun n d => base * n + (Hexadecimal.value? d).getD 0) 0

/-- Split off a sign; whether it is a minus comes first. -/
def sign (cs : List Char) : Bool × List Char :=
  match cs with
  | '-' :: rest => (true, rest)
  | '+' :: rest => (false, rest)
  | _ => (false, cs)

/-- Split off the digits of a decimal integer: a single one, or a row that does not begin with a
zero. -/
def decimalDigits? : List Char → Option (List Char × List Char)
  | '0' :: rest => some (['0'], rest)
  | cs => digitRow? Char.isDigit cs

/-! ## Integers -/

def signed (negative : Bool) (n : Nat) : Int :=
  if negative then -(n : Int) else n

/-- A signed 64-bit word. -/
def word? (n : Int) : Option Value :=
  if -0x8000000000000000 ≤ n ∧ n < 0x8000000000000000 then some (.integer n) else none

def isOctal (c : Char) : Bool :=
  decide ('0' ≤ c ∧ c ≤ '7')

def isBinary (c : Char) : Bool :=
  c == '0' || c == '1'

/-- Read the digits of an integer in a given base. -/
def based? (base : Nat) (isDigit : Char → Bool) (cs : List Char) : Option (Value × List Char) :=
  match digitRow? isDigit cs with
  | none => none
  | some (ds, rest) => (word? (valueOf base ds)).map (·, rest)

def integer? (cs : List Char) : Option (Value × List Char) :=
  match cs with
  | '0' :: 'x' :: rest => based? 16 (fun c => (Hexadecimal.value? c).isSome) rest
  | '0' :: 'o' :: rest => based? 8 isOctal rest
  | '0' :: 'b' :: rest => based? 2 isBinary rest
  | _ =>
      let (negative, rest) := sign cs
      match decimalDigits? rest with
      | none => none
      | some (ds, rest) => (word? (signed negative (valueOf 10 ds))).map (·, rest)

/-! ## Floats -/

/-- The digits after a point, if there is one. -/
def fraction? : List Char → Option (List Char × List Char)
  | '.' :: rest => digitRow? Char.isDigit rest
  | _ => none

/-- The exponent, if there is one. -/
def exponent? : List Char → Option (Int × List Char)
  | c :: rest =>
      if c = 'e' ∨ c = 'E' then
        let (negative, rest) := sign rest
        match digitRow? Char.isDigit rest with
        | none => none
        | some (ds, rest) => some (signed negative (valueOf 10 ds), rest)
      else none
  | [] => none

/-- Whether the nearest 64-bit float of `mantissa · 10 ^ exponent` is infinite. Numbers with fewer
than 300 digits before the point are finite, and those with more than 400 are not. -/
def overflows (mantissa : Nat) (exponent : Int) : Bool :=
  let digits := ((Nat.toDigits 10 mantissa).length : Int) + exponent
  let bound := Nat.pow 2 1024 - Nat.pow 2 970
  if mantissa = 0 ∨ digits < 300 then false
  else if digits > 400 then true
  else if 0 ≤ exponent then decide (bound ≤ mantissa * Nat.pow 10 exponent.toNat)
  else decide (bound * Nat.pow 10 (-exponent).toNat ≤ mantissa)

/-- A number with a fraction, an exponent or both. -/
def finite? (cs : List Char) : Option (Value × List Char) :=
  let (negative, body) := sign cs
  match decimalDigits? body with
  | none => none
  | some (whole, rest) =>
      let (frac, afterFrac) := (fraction? rest).getD ([], rest)
      let (exp, afterExp) := (exponent? afterFrac).getD (0, afterFrac)
      if afterExp.length = rest.length then none
      else if !negative && overflows (valueOf 10 (whole ++ frac)) (exp - frac.length) then none
      else some (.float (String.ofList (cs.take (cs.length - afterExp.length))), afterExp)

/-- Infinity and the value that is no number, with or without a sign. -/
def special? (cs : List Char) : Option (Value × List Char) :=
  let (_, body) := sign cs
  match body with
  | 'i' :: 'n' :: 'f' :: rest | 'n' :: 'a' :: 'n' :: rest =>
      some (.float (String.ofList (cs.take (cs.length - rest.length))), rest)
  | _ => none

def float? (cs : List Char) : Option (Value × List Char) :=
  (finite? cs).or (special? cs)

/-! ## Dates and times -/

/-- Split off a number of exactly `width` digits, within bounds. -/
def field? (width lo hi : Nat) (cs : List Char) : Option (Nat × List Char) :=
  let ds := cs.take width
  if ds.length = width ∧ ds.all Char.isDigit then
    let n := valueOf 10 ds
    if lo ≤ n ∧ n ≤ hi then some (n, cs.drop width) else none
  else none

def isLeap (year : Nat) : Bool :=
  year % 4 == 0 && (year % 100 != 0 || year % 400 == 0)

def daysIn (year month : Nat) : Nat :=
  if month = 2 then if isLeap year then 29 else 28
  else if month = 4 ∨ month = 6 ∨ month = 9 ∨ month = 11 then 30
  else 31

/-- What comes after a day of the calendar. -/
def date? (cs : List Char) : Option (List Char) := do
  let (year, cs) ← field? 4 0 9999 cs
  let cs ← after? ['-'] cs
  let (month, cs) ← field? 2 1 12 cs
  let cs ← after? ['-'] cs
  let (_, cs) ← field? 2 1 (daysIn year month) cs
  return cs

/-- What comes after a fraction of a second, if there is one. -/
def skipSecondFraction : List Char → List Char
  | '.' :: rest =>
      if (rest.takeWhile Char.isDigit).isEmpty then '.' :: rest else rest.dropWhile Char.isDigit
  | cs => cs

/-- What comes after a time of day. -/
def time? (cs : List Char) : Option (List Char) := do
  let (_, cs) ← field? 2 0 23 cs
  let cs ← after? [':'] cs
  let (_, cs) ← field? 2 0 59 cs
  let cs ← after? [':'] cs
  let (_, cs) ← field? 2 0 60 cs
  return skipSecondFraction cs

/-- What comes after an offset from universal time. -/
def offset? : List Char → Option (List Char)
  | [] => none
  | c :: cs =>
      if c = 'Z' ∨ c = 'z' then some cs
      else if c = '+' ∨ c = '-' then do
        let (_, cs) ← field? 2 0 23 cs
        let cs ← after? [':'] cs
        let (_, cs) ← field? 2 0 59 cs
        return cs
      else none

/-- What comes after a time of day that follows a date, and its offset. -/
def timeAfterDate? : List Char → Option (List Char)
  | [] => none
  | c :: cs =>
      if c = 'T' ∨ c = 't' ∨ c = ' ' then
        (time? cs).map fun rest => (offset? rest).getD rest
      else none

/-- Read a date, with or without a time, or a time of day alone. -/
def moment? (cs : List Char) : Option (Value × List Char) :=
  let rest? :=
    match date? cs with
    | some rest => some ((timeAfterDate? rest).getD rest)
    | none => time? cs
  rest?.map fun rest => (.moment (String.ofList (cs.take (cs.length - rest.length))), rest)

/-- Read a date, a float or an integer. -/
def numeral? (cs : List Char) : Option (Value × List Char) :=
  ((moment? cs).or (float? cs)).or (integer? cs)

end ParseRecovery.Toml
