import ParseRecovery.Diagnostic
import ParseRecovery.Source.File

/-!
Where a diagnostic points in the source files. Files are numbered in the order in which they were
registered.
-/

namespace ParseRecovery

/-- A range of byte offsets in a file, and what there is to say about it. -/
structure SourceLabel where
  file : Nat
  start : Nat
  stop : Nat
  message : String
deriving DecidableEq, Inhabited, Repr

abbrev SourceFiles := List SourceFile

namespace Diagnostic

/-- A diagnostic points at its offending token. -/
def label (d : Diagnostic) (file : Nat) : SourceLabel where
  file := file
  start := d.span.start
  stop := d.span.stop
  message := d.labelMessage

end Diagnostic

end ParseRecovery
