import ParseRecovery.Json.Literal
import ParseRecovery.Json.Value

/-!
JSON text of values: `compact` without any blanks, `pretty` with a line for each item and member,
indented by two blanks for each level.
-/

namespace ParseRecovery.Json

/-- Items with a comma between them. -/
def separated (items : List (List Char)) : List Char :=
  [','].intercalate items

/-- The written form of an integer. -/
def integerText (n : Int) : List Char :=
  (toString n).toList

/-- The shortest literal that has no content. -/
def unreadableText : List Char :=
  "\"\\ud800\"".toList

mutual

def compactChars : Value → List Char
  | .null => "null".toList
  | .bool true => "true".toList
  | .bool false => "false".toList
  | .integer n => integerText n
  | .numeral digits => digits.toList
  | .string text => Literal.write text.toList
  | .array items => '[' :: separated (compactItems items) ++ [']']
  | .object members => '\x7b' :: separated (compactMembers members) ++ ['\x7d']
  | .unreadable => unreadableText

def compactItems : List Value → List (List Char)
  | [] => []
  | v :: vs => compactChars v :: compactItems vs

def compactMembers : List (String × Value) → List (List Char)
  | [] => []
  | (name, v) :: rest => (Literal.write name.toList ++ ':' :: compactChars v) :: compactMembers rest

end

/-- A line break and the indentation of a level. -/
def newline (level : Nat) : List Char :=
  '\n' :: List.replicate (2 * level) ' '

/-- Brackets around items, each item on a line of its own; nothing between them if there is none. -/
def block (opening closing : Char) (level : Nat) : List (List Char) → List Char
  | [] => [opening, closing]
  | items =>
      opening :: separated (items.map (newline (level + 1) ++ ·)) ++ newline level ++ [closing]

mutual

/-- The text of a value that begins on a line of the given level. -/
def prettyChars (level : Nat) : Value → List Char
  | .array items => block '[' ']' level (prettyItems (level + 1) items)
  | .object members => block '\x7b' '\x7d' level (prettyMembers (level + 1) members)
  | .null => "null".toList
  | .bool true => "true".toList
  | .bool false => "false".toList
  | .integer n => integerText n
  | .numeral digits => digits.toList
  | .string text => Literal.write text.toList
  | .unreadable => unreadableText

def prettyItems (level : Nat) : List Value → List (List Char)
  | [] => []
  | v :: vs => prettyChars level v :: prettyItems level vs

def prettyMembers (level : Nat) : List (String × Value) → List (List Char)
  | [] => []
  | (name, v) :: rest =>
      (Literal.write name.toList ++ ':' :: ' ' :: prettyChars level v) :: prettyMembers level rest

end

def Value.compact (v : Value) : String :=
  String.ofList (compactChars v)

def Value.pretty (v : Value) : String :=
  String.ofList (prettyChars 0 v)

end ParseRecovery.Json
