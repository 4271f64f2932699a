import ParseRecovery.Source.Blank
import ParseRecovery.Source.Label

/-!
Diagnostics for terminals: the message, the lines of the source that it is about, and notes. A label
within one line is underlined with carets. A label over several lines is drawn as a bracket on their
left, and of its lines those near its ends are shown.
-/

namespace ParseRecovery

/-- Why a diagnostic cannot be laid out. -/
inductive ExcerptError where
  | fileMissing
deriving DecidableEq, Inhabited, Repr

def ExcerptError.message : ExcerptError → String
  | .fileMissing => "file missing"

namespace Excerpt

/-! ## Columns -/

/-- Tab stops are this far apart. -/
def tabWidth : Nat := 4

/-- A character of a printed line: its byte offset in the line and the columns it takes. -/
structure Cell where
  char : Char
  offset : Nat
  width : Nat

/-- Lay characters out from an offset and a column on. A tab reaches to the next tab stop, every
other character takes one column. -/
def cellsFrom (offset column : Nat) : List Char → List Cell
  | [] => []
  | c :: cs =>
      let width := if c = '\t' then tabWidth - column % tabWidth else 1
      ⟨c, offset, width⟩ :: cellsFrom (offset + c.utf8Size) (column + width) cs

def cells (line : List Char) : List Cell :=
  cellsFrom 0 0 line

/-- What of a line is printed: line breaks and null characters at its end are not. -/
def printed (line : List Char) : List Char :=
  (line.reverse.dropWhile fun c => c == '\n' || c == '\r' || c == '\x00').reverse

def repeated (n : Nat) (c : Char) : String :=
  String.ofList (List.replicate n c)

/-- A line in print, with blanks for tabs. -/
def textOf (line : List Char) : String :=
  String.join <| (cells line).map fun cell =>
    if cell.char = '\t' then repeated cell.width ' ' else String.singleton cell.char

/-- How many bytes of white space a line begins with. -/
def indentation (line : List Char) : Nat :=
  byteLength (line.takeWhile isWhiteSpace)

/-- The columns that the characters before an offset take. -/
def columnsBefore (offset : Nat) (line : List Char) : Nat :=
  let before := (cells line).filter fun cell => cell.offset < offset
  before.foldr (fun cell columns => cell.width + columns) 0

/-! ## A label within one line -/

/-- The place after the last character, which can be underlined as well. -/
def endCell (line : List Char) : Cell :=
  ⟨'\x00', byteLength line, 1⟩

/-- Carets under the characters that a range overlaps, and blanks before its end. -/
def carets (line : List Char) (start stop : Nat) : String :=
  String.join <| (cells line ++ [endCell line]).map fun cell =>
    let overlaps := max start cell.offset < min stop (cell.offset + cell.char.utf8Size)
    if overlaps then repeated cell.width '^'
    else if cell.offset < stop then repeated cell.width ' '
    else ""

/-! ## A label over several lines -/

/-- What the bracket of a label does at a line. -/
inductive Mark where
  /-- begins, at an offset of the line -/
  | opening (offset : Nat)
  | through
  /-- ends, at an offset of the line -/
  | closing (offset : Nat)
deriving DecidableEq, Repr

/-- The lines of a label from line `first` to line `last`, top to bottom. A label whose end comes
before its start has these two lines alone. -/
def marks (first last start stop : Nat) : List (Nat × Mark) :=
  if first < last then
    (first, .opening start) ::
      (List.range' (first + 1) (last - first - 1)).map (·, .through) ++ [(last, .closing stop)]
  else [(last, .closing stop), (first, .opening start)]

/-- The first and the last line are shown, and the lines up to three after the first and next to the
last. -/
def isShown (first last : Nat) : Nat × Mark → Bool
  | (i, .through) => decide (i - first ≤ 3 ∨ last - i ≤ 1)
  | _ => true

/-- The bracket beside a line. -/
def side : Option Mark → String
  | some .through | some (.closing _) => " │"
  | some (.opening _) | none => "  "

/-! ## Layout -/

/-- How a snippet is laid out: the source lines by number from zero, the width of the column for
line numbers, and the message of the label. -/
structure Snippet where
  lines : List SourceLine
  width : Nat
  message : String

namespace Snippet

def line (s : Snippet) (index : Nat) : List Char :=
  printed (((s.lines[index]?).getD ⟨0, []⟩).chars)

/-- The empty column for line numbers. -/
def margin (s : Snippet) : String :=
  repeated s.width ' ' ++ " "

def border (s : Snippet) (beside : String) : String :=
  s.margin ++ "│" ++ beside

/-- A source line with its number. -/
def sourceLine (s : Snippet) (index : Nat) (beside : String) : String :=
  let number := toString (index + 1)
  repeated (s.width - number.length) ' ' ++ number ++ " │" ++ beside ++ " " ++ textOf (s.line index)

/-- A line with its bracket. Where the bracket begins in the indentation it is drawn beside the
line, else it leads to the character below it. -/
def markedLine (s : Snippet) (index : Nat) (mark : Option Mark) : List String :=
  match mark with
  | some (.opening offset) =>
      if offset ≤ indentation (s.line index) then [s.sourceLine index " ╭"]
      else
        [s.sourceLine index (side mark),
          s.border (" ╭" ++ repeated (columnsBefore (offset + 1) (s.line index)) '─' ++ "^")]
  | some (.closing offset) =>
      [s.sourceLine index (side mark),
        s.border (" ╰" ++ repeated (columnsBefore offset (s.line index)) '─' ++ "^ " ++ s.message)]
  | _ => [s.sourceLine index (side mark)]

/-- What stands between a line that is shown and the next one: nothing, the one line between them,
or a break. -/
def between (s : Snippet) (all : List (Nat × Mark)) (shown next : Nat × Mark) : List String :=
  if next.1 - shown.1 ≤ 1 then []
  else if next.1 - shown.1 = 2 then s.markedLine (shown.1 + 1) (all.lookup (shown.1 + 1))
  else [s.margin ++ "·" ++ side (some shown.2)]

/-- The lines that are shown, with what stands between them. -/
def bracketed (s : Snippet) (all : List (Nat × Mark)) : List (Nat × Mark) → List String
  | [] => []
  | [last] => s.markedLine last.1 (some last.2)
  | shown :: next :: rest =>
      s.markedLine shown.1 (some shown.2) ++ s.between all shown next
        ++ s.bracketed all (next :: rest)

/-- A line with carets under it; a label is at least one byte long. -/
def underlined (s : Snippet) (index start stop : Nat) : List String :=
  [s.sourceLine index "",
    s.border (" " ++ carets (s.line index) start (max stop (start + 1)) ++ " " ++ s.message)]

end Snippet

/-- The lines of a text, without their breaks; a break at the end does not begin another line. -/
def noteLines (note : String) : List String :=
  let lines := (splitLines note.toList).filter (· ≠ [])
  lines.map fun line =>
    String.ofList <|
      if line.getLast? = some '\n' then
        let body := line.dropLast
        if body.getLast? = some '\r' then body.dropLast else body
      else line

/-- A note, with a sign before its first line. -/
def noteText (s : Snippet) (note : String) : List String :=
  (noteLines note).mapIdx fun i line => s.margin ++ (if i = 0 then "= " else "  ") ++ line

/-- A diagnostic about a range of a file, line by line. -/
def layout (file : SourceFile) (d : Diagnostic) (label : SourceLabel) : List String :=
  let lines := file.lines
  let first := file.lineIndexOf label.start
  let last := file.lineIndexOf label.stop
  let startOf (i : Nat) : Nat := ((lines[i]?).getD ⟨0, []⟩).start
  let s : Snippet := ⟨lines, (toString (max first last + 1)).length, label.message⟩
  let start := label.start - startOf first
  let stop := label.stop - startOf last
  let location := file.locate label.start
  let edge := s.border (if first = last then "" else "  ")
  let snippet :=
    if first = last then s.underlined first start stop
    else
      let all := marks first last start stop
      s.bracketed all (all.filter (isShown first last))
  ["error[" ++ d.code ++ "]: " ++ d.message,
      s.margin ++ "┌─ " ++ file.path ++ ":" ++ toString location.line ++ ":"
        ++ toString location.column,
      edge]
    ++ snippet ++ (if d.notes.isEmpty then [] else [edge]) ++ d.notes.flatMap (noteText s) ++ [""]

/-- A diagnostic about a range of a file, each line with its line break. -/
def text (file : SourceFile) (d : Diagnostic) (label : SourceLabel) : String :=
  String.join ((layout file d label).map (· ++ "\n"))

end Excerpt

/-- A diagnostic with an excerpt of the file it points to. -/
def Diagnostic.excerpt (d : Diagnostic) (files : SourceFiles) (file : Nat) :
    Except ExcerptError String :=
  match files[file]? with
  | none => .error .fileMissing
  | some source => .ok (Excerpt.text source d (d.label file))

/-- Diagnostics about one source file in print, one after the other. -/
def Diagnostic.transcript (source : SourceFile) (all : List Diagnostic) : String :=
  String.join (all.map fun d => Excerpt.text source d (d.label 0))

end ParseRecovery
