import ParseRecovery.TokenKind

/-!
Names of token kinds. A kind can have a literal name, the quoted spelling in the source, and a
symbolic name, the grammar's word for it.
-/

namespace ParseRecovery

/-- One line of a vocabulary: a kind and its names. -/
structure NameEntry where
  kind : TokenKind
  literal : Option String
  symbolic : Option String
deriving DecidableEq, Inhabited, Repr

/-- Literal and symbolic names, listed by kind from zero on. -/
structure Vocabulary where
  literal : List (Option String) := []
  symbolic : List (Option String) := []
deriving DecidableEq, Inhabited, Repr

namespace Vocabulary

/-- Write a name at a place, after filling the list up to it. -/
def setName (names : List (Option String)) (slot : Nat) (name : Option String) :
    List (Option String) :=
  (names ++ List.replicate (slot + 1 - names.length) none).set slot name

/-- Record both names of a kind. Reserved kinds have no place in the lists and are passed over. -/
def enter (v : Vocabulary) (e : NameEntry) : Vocabulary :=
  if e.kind < 0 then v
  else
    { literal := setName v.literal e.kind.toNat e.literal
      symbolic := setName v.symbolic e.kind.toNat e.symbolic }

/-- The vocabulary of a list of entries; a later entry replaces both names of an earlier one. -/
def ofEntries (entries : List NameEntry) : Vocabulary :=
  entries.foldl enter {}

/-- The highest kind that the lists reach. -/
def maxKind (v : Vocabulary) : TokenKind :=
  (max v.literal.length v.symbolic.length : Nat) - 1

def lookup? (names : List (Option String)) (k : TokenKind) : Option String :=
  if k < 0 then none else (names[k.toNat]?).join

def literalName? (v : Vocabulary) (k : TokenKind) : Option String :=
  lookup? v.literal k

def symbolicName? (v : Vocabulary) (k : TokenKind) : Option String :=
  if k.isEof then some "EOF" else lookup? v.symbolic k

/-- The name that messages use: literal, else symbolic, else the number. -/
def displayName (v : Vocabulary) (k : TokenKind) : String :=
  if k.isEof then "<EOF>"
  else ((v.literalName? k).or (v.symbolicName? k)).getD (toString k)

end Vocabulary

end ParseRecovery
