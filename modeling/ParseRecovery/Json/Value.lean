/-!
JSON values, as far as this library reads and writes them: numbers count only if they are integers.
-/

namespace ParseRecovery.Json

inductive Value where
  | null
  | bool (b : Bool)
  | integer (n : Int)
  /-- a numeral that is no integer (a fraction, an exponent or a negative zero), as written -/
  | numeral (digits : String)
  | string (text : String)
  | array (items : List Value)
  /-- the members in order, repeated names included -/
  | object (members : List (String × Value))
  /-- a well-formed value without content: some escape in its text, or in a member's name, is half
  of a surrogate pair -/
  | unreadable
deriving Inhabited

namespace Value

def ofOption {α : Type} (form : α → Value) : Option α → Value
  | none => .null
  | some a => form a

def natural (n : Nat) : Value :=
  .integer n

def integer? : Value → Option Int
  | .integer n => some n
  | _ => none

/-- A natural number below `bound`. -/
def below? (bound : Nat) : Value → Option Nat
  | .integer n => if 0 ≤ n ∧ n < bound then some n.toNat else none
  | _ => none

def string? : Value → Option String
  | .string text => some text
  | _ => none

def bool? : Value → Option Bool
  | .bool b => some b
  | _ => none

def items? : Value → Option (List Value)
  | .array items => some items
  | _ => none

/-- `null` reads as nothing, and any other value as `read` does. -/
def option? {α : Type} (read : Value → Option α) : Value → Option (Option α)
  | .null => some none
  | v => (read v).map some

end Value

end ParseRecovery.Json
