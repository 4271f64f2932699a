import ParseRecovery.Network.Basic
import ParseRecovery.Token

/-!
What goes wrong in a parse. A `Fault` is a snapshot of the parse at the moment an error is detected;
a `Failure` is a fault on its way up, and says whether listeners have been told.
-/

namespace ParseRecovery

/-- The three ways in which recognition fails. -/
inductive Cause where
  /-- the current token is not of a kind that can come next -/
  | inputMismatch
  /-- no alternative of a decision fits the input from `start` on -/
  | noViableAlternative (start : Token)
  /-- a condition outside the grammar does not hold -/
  | failedPredicate (rule predicate : String) (message : Option String)
deriving DecidableEq, Inhabited

namespace Cause

def name : Cause → String
  | .inputMismatch => "input mismatch"
  | .noViableAlternative _ => "no viable alternative"
  | .failedPredicate .. => "failed predicate"

/-- The code that diagnostics carry. -/
def code : Cause → String
  | .inputMismatch => "E0001"
  | .noViableAlternative _ => "E0002"
  | .failedPredicate .. => "E0003"

/-- A failed predicate cannot be repaired where it occurs. -/
def isRepairable : Cause → Bool
  | .failedPredicate .. => false
  | _ => true

end Cause

/-- An error as it was detected: the token it was detected at, the kinds that could have come
instead, the names of the rules being executed, outermost first, and the state of the parser. -/
structure Fault where
  cause : Cause
  offending : Token
  expected : KindSet
  ruleStack : List String
  state : StateId
deriving DecidableEq, Inhabited

/-- The fault in one line. -/
def Fault.summary (f : Fault) : String :=
  f.cause.name ++ " at " ++ toString f.offending.span.line ++ ":"
    ++ toString f.offending.span.column ++ " near '" ++ f.offending.shown ++ "'"

/-- A fault that an operation raises. -/
inductive Failure where
  /-- found, and not reported yet -/
  | detected (fault : Fault)
  /-- a match that neither dropping nor making up a token repairs, not reported yet -/
  | unrecoverable (fault : Fault)
  /-- reported, and raised again -/
  | reported (fault : Fault)
  /-- the parse is given up -/
  | cancelled (fault : Fault)
deriving DecidableEq, Inhabited

namespace Failure

def fault : Failure → Fault
  | .detected f | .unrecoverable f | .reported f | .cancelled f => f

/-- Listeners have been told of the fault. -/
def isReported : Failure → Bool
  | .reported _ => true
  | _ => false

def message : Failure → String
  | .detected f => f.summary
  | .unrecoverable f => "unrecoverable mismatch: " ++ f.summary
  | .reported f => "syntax error: " ++ f.summary
  | .cancelled f => "parse cancelled: " ++ f.summary

end Failure

end ParseRecovery
