import ParseRecovery.Source.Label

/-!
Diagnostics for editors: every position as a line and a column in a file given by name.
-/

namespace ParseRecovery

/-- A labelled range of a file. -/
structure ReportLabel where
  file : String
  startLine : Nat
  startColumn : Nat
  endLine : Nat
  endColumn : Nat
  message : Option String
  style : String
deriving DecidableEq, Inhabited, Repr

structure Report where
  code : String
  kind : String
  message : String
  labels : List ReportLabel
  notes : List String
  ruleStack : List String
deriving DecidableEq, Inhabited, Repr

namespace Report

/-- The label of a range, if its file is registered. -/
def labelOf? (files : SourceFiles) (label : SourceLabel) : Option ReportLabel :=
  files[label.file]?.map fun file =>
    let start := file.locate label.start
    let stop := file.locate label.stop
    { file := file.path
      startLine := start.line
      startColumn := start.column
      endLine := stop.line
      endColumn := stop.column
      message := some label.message
      style := "primary" }

/-- The report of a diagnostic; a label in a file that is not registered is left out. -/
def ofDiagnostic (files : SourceFiles) (file : Nat) (d : Diagnostic) : Report where
  code := d.code
  kind := d.fault.cause.name
  message := d.message
  labels := (labelOf? files (d.label file)).toList
  notes := d.notes
  ruleStack := d.fault.ruleStack

end Report

end ParseRecovery
