/-!
Source files and the positions in them. Places are byte offsets into the text; lines and columns are
counted from one.
-/

namespace ParseRecovery

structure SourceFile where
  path : String
  text : String
deriving DecidableEq, Inhabited, Repr

/-- A line of a source file: where it starts, and its characters with the line break at its end. -/
structure SourceLine where
  start : Nat
  chars : List Char
deriving DecidableEq, Inhabited, Repr

structure Location where
  line : Nat
  column : Nat
deriving DecidableEq, Inhabited, Repr

/-- How many bytes characters take. -/
def byteLength (cs : List Char) : Nat :=
  cs.foldr (fun c bytes => c.utf8Size + bytes) 0

/-- Split a text after each line break. What comes after the last one is a line, too, even if it is
empty. -/
def splitLines : List Char → List (List Char)
  | [] => [[]]
  | c :: cs =>
      if c = '\n' then [c] :: splitLines cs
      else
        match splitLines cs with
        | [] => [[c]]
        | line :: rest => (c :: line) :: rest

/-- Give each line its place, the first of them at `start`. -/
def placeLines (start : Nat) : List (List Char) → List SourceLine
  | [] => []
  | line :: rest => ⟨start, line⟩ :: placeLines (start + byteLength line) rest

/-- How many characters end at or before an offset from the start of the line. -/
def charsWithin (offset : Nat) : List Char → Nat
  | [] => 0
  | c :: cs => if c.utf8Size ≤ offset then charsWithin (offset - c.utf8Size) cs + 1 else 0

namespace SourceFile

def lines (file : SourceFile) : List SourceLine :=
  placeLines 0 (splitLines file.text.toList)

/-- The line of an offset, counted from zero: the last one that starts at or before it. -/
def lineIndexOf (file : SourceFile) (offset : Nat) : Nat :=
  (file.lines.countP fun line => line.start ≤ offset) - 1

/-- The line and column of an offset. An offset inside a character counts as that character's start,
and one past the end of the line as its end. -/
def locate (file : SourceFile) (offset : Nat) : Location :=
  let index := file.lineIndexOf offset
  let line := (file.lines[index]?).getD ⟨0, []⟩
  ⟨index + 1, charsWithin (offset - line.start) line.chars + 1⟩

end SourceFile

end ParseRecovery
