/-!
Settings of the repair policy.
-/

namespace ParseRecovery

/-- What the default policy may do about a syntax error. -/
structure RecoveryConfig where
  /-- raise every reported error instead of going on -/
  haltOnError : Bool := false
  /-- repair a match by dropping a surplus token -/
  singleTokenDeletion : Bool := true
  /-- repair a match by making up a missing token -/
  singleTokenInsertion : Bool := true
  /-- make up missing tokens at the end of the input, too -/
  reportMissingAtEof : Bool := true
deriving DecidableEq, Inhabited, Repr

namespace RecoveryConfig

/-- The names of the settings, in order. -/
def names : List String :=
  ["halt_on_error", "single_token_deletion", "single_token_insertion", "report_missing_at_eof"]

/-- Raise the first error. -/
def halting : RecoveryConfig where
  haltOnError := true

end RecoveryConfig

end ParseRecovery
