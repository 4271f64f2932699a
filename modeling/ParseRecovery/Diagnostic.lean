import ParseRecovery.Fault

/-!
What listeners are told about a fault: a message, where it points, and notes.
-/

namespace ParseRecovery

/-- A message about a fault, with the expected kinds as the message names them. -/
structure Diagnostic where
  fault : Fault
  message : String
  expected : String
deriving DecidableEq, Inhabited

namespace Diagnostic

def code (d : Diagnostic) : String :=
  d.fault.cause.code

/-- A diagnostic points at the offending token. -/
def span (d : Diagnostic) : Span :=
  d.fault.offending.span

/-- The text at the place it points to. -/
def labelMessage (d : Diagnostic) : String :=
  if d.fault.offending.isEof then "unexpected end of input"
  else "unexpected '" ++ d.fault.offending.shown ++ "'"

/-- What was expected, if anything, and the rules being executed, if any. -/
def notes (d : Diagnostic) : List String :=
  (if d.fault.expected.isEmpty then [] else ["expected: " ++ d.expected])
    ++ if d.fault.ruleStack.isEmpty then []
      else ["while parsing: " ++ " > ".intercalate d.fault.ruleStack]

end Diagnostic

end ParseRecovery
