import ParseRecovery.Json.Value

/-!
Records in JSON: an object with a member for each field, or an array with the fields in order.
-/

namespace ParseRecovery.Json

/-- The fields of a record, by name; `none` stands for a field that is not given. -/
abbrev Fields := String → Option Value

/-- The first member of a name. -/
def member? (members : List (String × Value)) (name : String) : Option Value :=
  (members.find? fun m => m.1 == name).map Prod.snd

/-- Whether some field is given twice. -/
def repeats (names : List String) (members : List (String × Value)) : Bool :=
  names.any fun name => decide (1 < members.countP fun m => m.1 == name)

/-- The fields of an array, by position. -/
def positional (names : List String) (items : List Value) : Fields :=
  member? (names.zip items)

/-- Read a record. In an object the members can come in any order, and those that are no fields are
passed over; a field that is given twice is refused. An array gives every field, and no more. -/
def Value.fields? (names : List String) : Value → Option Fields
  | .object members => if repeats names members then none else some (member? members)
  | .array items => if items.length = names.length then some (positional names items) else none
  | _ => none

/-- Read a record whose fields all have defaults. Members that are no fields are refused, and an
array may stop early. -/
def Value.settings? (names : List String) : Value → Option Fields
  | .object members =>
      if repeats names members || members.any (fun m => !names.contains m.1) then none
      else some (member? members)
  | .array items => if items.length ≤ names.length then some (positional names items) else none
  | _ => none

/-- A field that has to be given. -/
def Fields.required? {α : Type} (fields : Fields) (name : String) (read : Value → Option α) :
    Option α :=
  (fields name).bind read

/-- A field that may be left out or `null`. -/
def Fields.optional? {α : Type} (fields : Fields) (name : String) (read : Value → Option α) :
    Option (Option α) :=
  match fields name with
  | none => some none
  | some v => v.option? read

/-- A field that takes a default where it is not given. -/
def Fields.default? {α : Type} (fields : Fields) (name : String) (read : Value → Option α) (a : α) :
    Option α :=
  match fields name with
  | none => some a
  | some v => read v

end ParseRecovery.Json
