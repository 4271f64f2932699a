import ParseRecovery.RecoveryConfig
import ParseRecovery.Toml.Document

/-!
Settings in a TOML file: the table `recovery` gives them by name. Other tables of the file are not
looked at, but the file has to be TOML throughout.
-/

namespace ParseRecovery

/-- Why settings cannot be read. -/
inductive ConfigError where
  /-- the file cannot be read -/
  | unreadable (path cause : String)
  /-- the text is not TOML, or its table `recovery` does not hold settings -/
  | invalid
deriving DecidableEq, Repr

/-- What the system says of a file that is not there. -/
def noSuchFile : String :=
  "No such file or directory (os error 2)"

/-- What is wrong with bytes that are no text. -/
def notText : String :=
  "stream did not contain valid UTF-8"

/-- What is wrong with a file that cannot be read. -/
def ConfigError.message : ConfigError → String
  | .unreadable path cause => "failed to read " ++ path ++ ": " ++ cause
  | .invalid => "invalid recovery configuration"

namespace RecoveryConfig

/-- Change one setting. Names of other things are refused. -/
def set? (c : RecoveryConfig) (name : String) (b : Bool) : Option RecoveryConfig :=
  if name = "halt_on_error" then some { c with haltOnError := b }
  else if name = "single_token_deletion" then some { c with singleTokenDeletion := b }
  else if name = "single_token_insertion" then some { c with singleTokenInsertion := b }
  else if name = "report_missing_at_eof" then some { c with reportMissingAtEof := b }
  else none

/-- Take in a member of the table. -/
def member? (c : RecoveryConfig) (m : String × Toml.Node) : Option RecoveryConfig :=
  match m.2 with
  | .boolean b => c.set? m.1 b
  | _ => none

/-- Read settings from a table, or from an array that gives them in order; those that are not given
keep their defaults. -/
def ofNode? : Toml.Node → Option RecoveryConfig
  | .table _ members => members.foldlM member? {}
  | .array items => (names.zip items).foldlM member? {}
  | _ => none

/-- Read settings from the text of a file. -/
def ofToml (text : String) : Except ConfigError RecoveryConfig :=
  match Toml.document? text with
  | none => .error .invalid
  | some members =>
      match members.lookup "recovery" with
      | none => .ok {}
      | some node =>
          match ofNode? node with
          | none => .error .invalid
          | some c => .ok c

/-- Read settings from the bytes of a file, or from a file that is not there. -/
def load (path : String) : Option ByteArray → Except ConfigError RecoveryConfig
  | none => .error (.unreadable path noSuchFile)
  | some bytes =>
      match String.fromUTF8? bytes with
      | none => .error (.unreadable path notText)
      | some text => ofToml text

end RecoveryConfig

end ParseRecovery
