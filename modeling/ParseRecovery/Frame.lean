import ParseRecovery.Network.Basic

/-!
The rules being executed. A stack of frames lists them with the innermost first.
-/

namespace ParseRecovery

/-- A rule being executed: the state that called it, and the state to go on at when it returns. The
rule that a parse starts in has neither. -/
structure Frame where
  rule : RuleIndex
  invoking : Option StateId := none
  follow : Option StateId := none
deriving DecidableEq, Inhabited, Repr

namespace Frame

def root (rule : RuleIndex) : Frame where
  rule := rule

def invoked (rule : RuleIndex) (invoking follow : StateId) : Frame where
  rule := rule
  invoking := some invoking
  follow := some follow

end Frame

/-- Frames, innermost first. -/
abbrev Stack := List Frame

end ParseRecovery
