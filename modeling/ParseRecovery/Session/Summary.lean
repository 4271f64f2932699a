import ParseRecovery.Session.Basic

/-!
A session in one line, for logs: where it is, the rules being executed, the error window and counts.
-/

namespace ParseRecovery

namespace Session

/-- Fields of a record in print. -/
def recordText (name : String) (fields : List (String × String)) : String :=
  name ++ " \x7b " ++ ", ".intercalate (fields.map fun (field, text) => field ++ ": " ++ text)
    ++ " \x7d"

def optionText {α : Type} (text : α → String) : Option α → String
  | none => "None"
  | some a => "Some(" ++ text a ++ ")"

def stateIdText (s : StateId) : String :=
  "StateId(" ++ toString s ++ ")"

def frameText (frame : Frame) : String :=
  recordText "RuleFrame"
    [("rule", "RuleIndex(" ++ toString frame.rule ++ ")"),
      ("invoking_state", optionText stateIdText frame.invoking),
      ("follow_state", optionText stateIdText frame.follow)]

def windowText (w : Window) : String :=
  recordText "RecoveryState"
    [("error_recovery_mode", toString w.isOpen),
      ("last_error_index", optionText toString w.resyncIndex),
      ("last_error_states",
        "\x7b" ++ ", ".intercalate (w.resyncStates.toList.map stateIdText) ++ "\x7d")]

/-- The session in one line; the rules being executed are listed outermost first. -/
def summary (s : Session) : String :=
  recordText "ParseSession"
    [("state", stateIdText s.state),
      ("index", toString s.input.index),
      ("stack", "[" ++ ", ".intercalate (s.stack.reverse.map frameText) ++ "]"),
      ("recovery", windowText s.window),
      ("syntax_errors", toString s.errorCount),
      ("listeners", toString s.listeners.length)]

end Session

end ParseRecovery
