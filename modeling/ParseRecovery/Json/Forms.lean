import ParseRecovery.Json.Parser
import ParseRecovery.Json.Printer
import ParseRecovery.Json.Record
import ParseRecovery.RecoveryConfig
import ParseRecovery.Report
import ParseRecovery.Token

/-!
JSON forms of kinds, spans, tokens, settings and reports. Fields are written in the order of their
declaration. Kinds are signed 32-bit words; lines and columns of a span are 32-bit words; places and
the lines and columns of reports are 64-bit words.
-/

namespace ParseRecovery

open Json (Value)

namespace Json

/-- The bound of 32-bit words. -/
def word32 : Nat := 0x100000000

/-- The bound of 64-bit words. -/
def word64 : Nat := 0x10000000000000000

end Json

namespace TokenKind

def toJson (k : TokenKind) : Value :=
  .integer k

def ofJson? (v : Value) : Option TokenKind :=
  v.integer?.bind fun n => if -0x80000000 ≤ n ∧ n < 0x80000000 then some n else none

end TokenKind

namespace Span

def toJson (s : Span) : Value :=
  .object [("start", .natural s.start), ("end", .natural s.stop), ("line", .natural s.line),
    ("column", .natural s.column)]

def ofJson? (v : Value) : Option Span := do
  let fields ← v.fields? ["start", "end", "line", "column"]
  let start ← fields.required? "start" (Value.below? Json.word64)
  let stop ← fields.required? "end" (Value.below? Json.word64)
  let line ← fields.required? "line" (Value.below? Json.word32)
  let column ← fields.required? "column" (Value.below? Json.word32)
  return ⟨start, stop, line, column⟩

end Span

namespace Token

def toJson (t : Token) : Value :=
  .object [("kind", TokenKind.toJson t.kind), ("text", .string t.text), ("span", t.span.toJson),
    ("index", .ofOption Value.natural t.index)]

def ofJson? (v : Value) : Option Token := do
  let fields ← v.fields? ["kind", "text", "span", "index"]
  let kind ← fields.required? "kind" TokenKind.ofJson?
  let text ← fields.required? "text" Value.string?
  let span ← fields.required? "span" Span.ofJson?
  let index ← fields.optional? "index" (Value.below? Json.word64)
  return ⟨kind, text, span, index⟩

end Token

namespace RecoveryConfig

def toJson (c : RecoveryConfig) : Value :=
  .object [("halt_on_error", .bool c.haltOnError),
    ("single_token_deletion", .bool c.singleTokenDeletion),
    ("single_token_insertion", .bool c.singleTokenInsertion),
    ("report_missing_at_eof", .bool c.reportMissingAtEof)]

/-- Settings that are not given take their defaults. -/
def ofJson? (v : Value) : Option RecoveryConfig := do
  let fields ← v.settings? names
  let halt ← fields.default? "halt_on_error" Value.bool? false
  let deletion ← fields.default? "single_token_deletion" Value.bool? true
  let insertion ← fields.default? "single_token_insertion" Value.bool? true
  let missing ← fields.default? "report_missing_at_eof" Value.bool? true
  return ⟨halt, deletion, insertion, missing⟩

end RecoveryConfig

namespace ReportLabel

def toJson (l : ReportLabel) : Value :=
  .object [("file", .string l.file), ("start_line", .natural l.startLine),
    ("start_column", .natural l.startColumn), ("end_line", .natural l.endLine),
    ("end_column", .natural l.endColumn), ("message", .ofOption Value.string l.message),
    ("style", .string l.style)]

def ofJson? (v : Value) : Option ReportLabel := do
  let fields ← v.fields?
    ["file", "start_line", "start_column", "end_line", "end_column", "message", "style"]
  let file ← fields.required? "file" Value.string?
  let startLine ← fields.required? "start_line" (Value.below? Json.word64)
  let startColumn ← fields.required? "start_column" (Value.below? Json.word64)
  let endLine ← fields.required? "end_line" (Value.below? Json.word64)
  let endColumn ← fields.required? "end_column" (Value.below? Json.word64)
  let message ← fields.optional? "message" Value.string?
  let style ← fields.required? "style" Value.string?
  return ⟨file, startLine, startColumn, endLine, endColumn, message, style⟩

end ReportLabel

namespace Report

def strings (texts : List String) : Value :=
  .array (texts.map Value.string)

/-- Read a list of values of one form. -/
def list? {α : Type} (read : Value → Option α) (v : Value) : Option (List α) :=
  v.items?.bind fun items => items.mapM read

def toJson (r : Report) : Value :=
  .object [("code", .string r.code), ("kind", .string r.kind), ("message", .string r.message),
    ("labels", .array (r.labels.map ReportLabel.toJson)), ("notes", strings r.notes),
    ("rule_stack", strings r.ruleStack)]

def ofJson? (v : Value) : Option Report := do
  let fields ← v.fields? ["code", "kind", "message", "labels", "notes", "rule_stack"]
  let code ← fields.required? "code" Value.string?
  let kind ← fields.required? "kind" Value.string?
  let message ← fields.required? "message" Value.string?
  let labels ← fields.required? "labels" (list? ReportLabel.ofJson?)
  let notes ← fields.required? "notes" (list? Value.string?)
  let ruleStack ← fields.required? "rule_stack" (list? Value.string?)
  return ⟨code, kind, message, labels, notes, ruleStack⟩

end Report

/-- The report of a diagnostic as indented JSON text. -/
def Diagnostic.jsonText (d : Diagnostic) (files : SourceFiles) (file : Nat) : String :=
  (Report.ofDiagnostic files file d).toJson.pretty

end ParseRecovery
