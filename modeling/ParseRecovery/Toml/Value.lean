/-!
TOML as it is written: values, and the statements that a document is a list of. What the statements
mean together is told by `ParseRecovery.Toml.Document`.
-/

namespace ParseRecovery.Toml

/-- The parts of a dotted key. -/
abbrev KeyPath := List String

/-- A value as it is written. Floats and dates keep their digits; the members of an inline table are
in order, each with its dotted key. -/
inductive Value where
  | boolean (b : Bool)
  | string (text : String)
  | integer (n : Int)
  | float (digits : String)
  | moment (digits : String)
  | array (items : List Value)
  | inline (members : List (KeyPath × Value))
deriving Inhabited

inductive Statement where
  /-- the members that follow are those of a table -/
  | table (path : KeyPath)
  /-- the members that follow are those of a new table at the end of an array -/
  | element (path : KeyPath)
  | assign (path : KeyPath) (value : Value)
deriving Inhabited

/-- Dotted keys have fewer parts than this, and arrays and inline tables nest less deeply. -/
def depthLimit : Nat := 80

end ParseRecovery.Toml
