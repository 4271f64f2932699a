import ParseRecovery.Toml.Parser

/-!
What a TOML document says: a tree of tables. Every table is defined once. Tables on the way to one
that a header names come about on their own, and a header of their own can define them later; tables
on the way of a dotted key come about as well, but belong to the statements that use dotted keys.
-/

namespace ParseRecovery.Toml

/-- How a table came about. -/
inductive Origin where
  /-- written between braces -/
  | inline
  /-- named by a header, or the table of the document itself -/
  | header
  /-- on the way to a table that a header names -/
  | parent
  /-- on the way of a dotted key -/
  | dotted
deriving DecidableEq, Inhabited, Repr

inductive Node where
  | boolean (b : Bool)
  | string (text : String)
  | integer (n : Int)
  | float (digits : String)
  | moment (digits : String)
  | array (items : List Node)
  | table (origin : Origin) (members : List (String × Node))
  /-- an array whose tables are named by headers -/
  | tables (all : List (List (String × Node)))
deriving Inhabited

/-- The members of a table, in order. -/
abbrev Members := List (String × Node)

namespace Members

/-- Replace what a name stands for. -/
def replace (ms : Members) (name : String) (node : Node) : Members :=
  ms.map fun m => if m.1 == name then (name, node) else m

/-- Add a name that is not there yet. -/
def add? (ms : Members) (name : String) (node : Node) : Option Members :=
  match ms.lookup name with
  | none => some (ms ++ [(name, node)])
  | some _ => none

/-- Change the table at the end of a path. Tables that are missing on the way are made, with the
given origin. A path leads through tables and through the last table of an array of tables, but not
into an inline table, and the path of a dotted key does not lead into a table with a header. -/
def changeAt? (made : Origin) (change : Origin → Members → Option Members) :
    KeyPath → Origin → Members → Option Members
  | [], origin, ms => change origin ms
  | name :: path, _, ms =>
      match ms.lookup name with
      | none =>
          (changeAt? made change path made []).map fun inner => ms ++ [(name, .table made inner)]
      | some (.table origin inner) =>
          if origin = .inline ∨ (made = .dotted ∧ origin = .header) then none
          else
            (changeAt? made change path origin inner).map fun inner =>
              ms.replace name (.table origin inner)
      | some (.tables all) =>
          match all.getLast? with
          | none => none
          | some last =>
              (changeAt? made change path .header last).map fun last =>
                ms.replace name (.tables (all.dropLast ++ [last]))
      | some _ => none

/-- Give a dotted key its value. Parts of the key are tables that dotted keys made. -/
def assign? (path : KeyPath) (node : Node) (origin : Origin) (ms : Members) : Option Members :=
  match path.getLast? with
  | none => none
  | some name =>
      let parents := path.dropLast
      changeAt? .dotted
        (fun origin ms =>
          if decide (origin = .dotted) = parents.isEmpty then none else ms.add? name node)
        parents origin ms

/-- Define the table that a header names. -/
def openTable? (path : KeyPath) (ms : Members) : Option Members :=
  match path.getLast? with
  | none => none
  | some name =>
      changeAt? .parent
        (fun _ ms =>
          match ms.lookup name with
          | some (.table .parent inner) => some (ms.replace name (.table .header inner))
          | _ => ms.add? name (.table .header []))
        path.dropLast .header ms

/-- Add a table to the array that a header names. -/
def openElement? (path : KeyPath) (ms : Members) : Option Members :=
  match path.getLast? with
  | none => none
  | some name =>
      changeAt? .parent
        (fun _ ms =>
          match ms.lookup name with
          | some (.tables all) => some (ms.replace name (.tables (all ++ [[]])))
          | _ => ms.add? name (.tables [[]]))
        path.dropLast .header ms

end Members

mutual

/-- What a value stands for, if its inline tables define every key once. -/
def Value.node? : Value → Option Node
  | .boolean b => some (.boolean b)
  | .string text => some (.string text)
  | .integer n => some (.integer n)
  | .float digits => some (.float digits)
  | .moment digits => some (.moment digits)
  | .array items => (nodes? items).map .array
  | .inline members => (inlineMembers? [] members).map (.table .inline)

def nodes? : List Value → Option (List Node)
  | [] => some []
  | v :: vs =>
      match v.node?, nodes? vs with
      | some node, some nodes => some (node :: nodes)
      | _, _ => none

def inlineMembers? (ms : Members) : List (KeyPath × Value) → Option Members
  | [] => some ms
  | (path, v) :: rest =>
      match v.node? with
      | none => none
      | some node =>
          match ms.assign? path node .header with
          | none => none
          | some ms => inlineMembers? ms rest

end

/-- A document in the making: its members, and the table that the next members belong to. -/
structure Draft where
  members : Members := []
  current : KeyPath := []

/-- Take a statement in. -/
def Draft.add? (d : Draft) : Statement → Option Draft
  | .table path => (d.members.openTable? path).map fun ms => ⟨ms, path⟩
  | .element path => (d.members.openElement? path).map fun ms => ⟨ms, path⟩
  | .assign path v =>
      match v.node? with
      | none => none
      | some node =>
          (Members.changeAt? .parent (Members.assign? path node) d.current .header d.members).map
            fun ms => ⟨ms, d.current⟩

/-- The members of the document that a text writes. -/
def document? (text : String) : Option Members :=
  match statements? text with
  | none => none
  | some statements => (statements.foldlM Draft.add? {}).map Draft.members

end ParseRecovery.Toml
