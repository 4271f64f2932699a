import ParseRecovery.Diagnostic
import ParseRecovery.Network.Lookahead
import ParseRecovery.RecoveryConfig
import ParseRecovery.TokenStream

/-!
The state of one parse: the input, the rules being executed, the state of the automaton, the error
window and what was reported so far. A window opens when an error is reported and closes when a
token is matched; while it is open further errors stay silent.
-/

namespace ParseRecovery

/-- The error window, and where resynchronization last ended up in it: at which place of the input,
and from which states it started there. -/
structure Window where
  isOpen : Bool := false
  resyncIndex : Option Nat := none
  resyncStates : SortedSet StateId := ∅
deriving DecidableEq, Inhabited

/-- One parse. Diagnostics are in order of delivery; `errorCount` also counts those that have been
taken away. Listeners are known by the number of their mailbox. -/
structure Session where
  network : Network
  vocabulary : Vocabulary
  config : RecoveryConfig
  input : TokenStream
  stack : Stack := []
  state : StateId := 0
  window : Window := {}
  diagnostics : List Diagnostic := []
  errorCount : Nat := 0
  listeners : List Nat := []
deriving DecidableEq

namespace Session

/-- A session before its first step. -/
def new (network : Network) (vocabulary : Vocabulary) (config : RecoveryConfig)
    (input : TokenStream) : Session where
  network := network
  vocabulary := vocabulary
  config := config
  input := input

/-! ## Rules and states -/

/-- The follow state of the first call of `rule` at the current state. -/
def followOf? (s : Session) (rule : RuleIndex) : Option StateId :=
  (s.network.state? s.state).bind fun state => state.edges.findSome? fun e =>
    match e.label with
    | .call r follow => if r = rule then some follow else none
    | _ => none

/-- The frame of a rule that is entered now: a root if no other is being executed. -/
def frameOf (s : Session) (rule : RuleIndex) : Frame :=
  match s.stack with
  | [] => .root rule
  | _ :: _ => { rule := rule, invoking := some s.state, follow := s.followOf? rule }

/-- Enter a rule, if it is declared, and go to its start. -/
def enterRule? (s : Session) (rule : RuleIndex) : Option Session :=
  match s.network.ruleStart? rule with
  | none => none
  | some start => some { s with stack := s.frameOf rule :: s.stack, state := start }

/-- Leave the innermost rule, and go to its follow state or else to its stop. -/
def exitRule? (s : Session) : Option Session :=
  match s.stack with
  | [] => some s
  | frame :: outer =>
      match frame.follow.or (s.network.ruleStop? frame.rule) with
      | none => none
      | some state => some { s with stack := outer, state := state }

def setState (s : Session) (state : StateId) : Session :=
  { s with state := state }

/-- Start over at the first token. Settings, listeners and markers stay. -/
def reset (s : Session) : Session :=
  { s with
    input := s.input.seek 0
    stack := []
    state := 0
    window := {}
    diagnostics := []
    errorCount := 0 }

/-- Names of the rules being executed, outermost first. -/
def ruleStack (s : Session) : List String :=
  s.stack.reverse.map fun frame => s.network.ruleName frame.rule

/-- The kinds that can come next. -/
def expectedTokens? (s : Session) : Option KindSet :=
  s.network.expectedTokens? s.state s.stack

/-- The kinds that can come next after any of the rules being executed. -/
def recoverySet? (s : Session) : Option KindSet :=
  s.network.recoverySet? s.stack

/-! ## Windows and listeners -/

def openWindow (s : Session) : Session :=
  { s with window := { s.window with isOpen := true } }

/-- Close the window and forget where resynchronization ended up. -/
def closeWindow (s : Session) : Session :=
  { s with window := {} }

/-- Deliver a diagnostic. -/
def notify (s : Session) (d : Diagnostic) : Session :=
  { s with diagnostics := s.diagnostics ++ [d], errorCount := s.errorCount + 1 }

/-- Deliver a diagnostic and open a window, unless one is open already. -/
def announce (s : Session) (d : Diagnostic) : Session :=
  if s.window.isOpen then s else s.openWindow.notify d

/-- Take the diagnostics away. They stay counted. -/
def takeDiagnostics (s : Session) : List Diagnostic × Session :=
  (s.diagnostics, { s with diagnostics := [] })

def subscribe (s : Session) (mailbox : Nat) : Session :=
  { s with listeners := s.listeners ++ [mailbox] }

/-! ## Faults -/

/-- A snapshot of the session, for the kinds that can come next. -/
def faultExpecting (s : Session) (expected : KindSet) (cause : Cause) (offending : Token) :
    Fault where
  cause := cause
  offending := offending
  expected := expected
  ruleStack := s.ruleStack
  state := s.state

/-- A snapshot of the session. -/
def fault? (s : Session) (cause : Cause) (offending : Token) : Option Fault :=
  s.expectedTokens?.map fun expected => s.faultExpecting expected cause offending

/-- The current token does not fit. -/
def mismatch? (s : Session) : Option Fault :=
  s.fault? .inputMismatch s.input.current

/-- No alternative fits the input from `start` on. -/
def noViableAlternative? (s : Session) (start : Token) : Option Fault :=
  s.fault? (.noViableAlternative start) s.input.current

/-- A predicate of the innermost rule does not hold. -/
def failedPredicate? (s : Session) (predicate : String) (message : Option String) : Option Fault :=
  let rule := (s.stack.head?.map fun frame => s.network.ruleName frame.rule).getD ""
  s.fault? (.failedPredicate rule predicate message) s.input.current

/-- The tokens from place `first` to place `last`, both included. -/
def tokensBetween (s : Session) (first last : Nat) : List Token :=
  (s.input.tokens.toList.drop first).take (last + 1 - first)

/-- The input from one token to another in print: the texts of the tokens between them, with blanks
between, where both have places in order; else the text of the second alone. -/
def inputText (s : Session) (start stop : Token) : String :=
  let text :=
    match start.index, stop.index with
    | some a, some b =>
        if a ≤ b then
          " ".intercalate <|
            ((s.tokensBetween a b).filter fun t => !t.isEof).map Token.text
        else stop.text
    | _, _ => stop.text
  if start.isEof || text.isEmpty then "<EOF>" else escapeBreaks text

/-- What a report says about a fault. -/
def faultMessage (s : Session) (f : Fault) : String :=
  match f.cause with
  | .inputMismatch =>
      "mismatched input '" ++ f.offending.shown ++ "' expecting " ++ f.expected.named s.vocabulary
  | .noViableAlternative start =>
      "no viable alternative at input '" ++ s.inputText start f.offending ++ "'"
  | .failedPredicate rule predicate message =>
      message.getD ("rule " ++ rule ++ " failed predicate: \x7b" ++ predicate ++ "\x7d?")

/-- A diagnostic with the expected kinds by name. -/
def diagnostic (s : Session) (f : Fault) (message : String) : Diagnostic where
  fault := f
  message := message
  expected := f.expected.named s.vocabulary

end Session

end ParseRecovery
