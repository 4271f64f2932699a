import ParseRecovery.Session.Strategy
import ParseRecovery.Session.Summary

/-!
Everything that can be done with a session, as data, and runs of such operations. `Session.perform?`
gives an operation's answer together with the session after it, and is `none` only where an
operation meets a state or a rule that is not there.
-/

namespace ParseRecovery

/-- A question to a session. -/
inductive Query where
  | peekKind (distance : Int)
  | peek (distance : Int)
  | token (place : Nat)
  | currentToken
  | inputSize
  | atEof
  | inWindow
  | outstandingMarkers
  /-- the kinds that can come next -/
  | expected
  /-- the kinds that can come next at the current state, without its callers -/
  | next
  /-- the kinds at which any of the rules being executed can be resumed -/
  | recoverySet
  | stack
  | config
  | diagnostics
  | summary
  /-- the fault that the current token does not fit -/
  | mismatch
  /-- the fault that a given token does not fit -/
  | mismatchAt (offending : Token)
  | noViableAlternative (start : Token)
  | failedPredicate (predicate : String) (message : Option String)
deriving DecidableEq, Inhabited

/-- Something to do with a session. -/
inductive Operation where
  | enterRule (rule : RuleIndex)
  | exitRule
  | setState (state : StateId)
  | reset
  | matchKind (kind : TokenKind)
  | matchSet (kinds : KindSet)
  | checkPredicate (holds : Bool) (predicate : String) (message : Option String)
  | handle (failure : Failure)
  | report (fault : Fault)
  | recover (fault : Fault)
  | repairInline
  | sync
  | openWindow
  | closeWindow
  | setWindow (window : Window)
  | seek (place : Nat)
  | consume
  | mark
  | release
  | subscribe (mailbox : Nat)
  | notify (diagnostic : Diagnostic)
  | takeDiagnostics
  | ask (query : Query)
deriving DecidableEq, Inhabited

/-- What an operation that does not fail answers. -/
inductive Response where
  | done
  | symbol (symbol : MatchedSymbol)
  | flag (b : Bool)
  | count (n : Nat)
  | kind (k : TokenKind)
  | token (t : Option Token)
  | kinds (set : KindSet)
  | stack (frames : Stack)
  | config (config : RecoveryConfig)
  | diagnostics (all : List Diagnostic)
  | fault (fault : Fault)
  | text (text : String)
deriving DecidableEq, Inhabited

namespace Session

/-- Answer a question. -/
def answer? (s : Session) : Query → Option Response
  | .peekKind n => some (.kind (s.input.peekKind n))
  | .peek n => some (.token (s.input.peek? n))
  | .token i => some (.token (s.input.get? i))
  | .currentToken => some (.token (some s.input.current))
  | .inputSize => some (.count s.input.size)
  | .atEof => some (.flag s.input.atEof)
  | .inWindow => some (.flag s.window.isOpen)
  | .outstandingMarkers => some (.count s.input.markers)
  | .expected => s.expectedTokens?.map .kinds
  | .next => (s.network.nextTokens? s.state).map .kinds
  | .recoverySet => s.recoverySet?.map .kinds
  | .stack => some (.stack s.stack)
  | .config => some (.config s.config)
  | .diagnostics => some (.diagnostics s.diagnostics)
  | .summary => some (.text s.summary)
  | .mismatch => s.mismatch?.map .fault
  | .mismatchAt offending => (s.fault? .inputMismatch offending).map .fault
  | .noViableAlternative start => (s.noViableAlternative? start).map .fault
  | .failedPredicate predicate message => (s.failedPredicate? predicate message).map .fault

/-- An operation that only leaves another session. -/
def became (after : Session) : Outcome Response where
  result := .ok .done
  session := after

end Session

/-- Put an answer in general form. -/
def Outcome.respond {α : Type} (answer : α → Response) (o : Outcome α) : Outcome Response where
  result := o.result.map answer
  session := o.session

namespace Session

/-- Do something with a session under a policy. -/
def perform? (strategy : Strategy) (s : Session) : Operation → Option (Outcome Response)
  | .enterRule rule => (s.enterRule? rule).map became
  | .exitRule => s.exitRule?.map became
  | .setState state => some (became (s.setState state))
  | .reset => some (became s.reset)
  | .matchKind k => (s.matchKind? strategy k).map (Outcome.respond .symbol)
  | .matchSet kinds => (s.matchSet? strategy kinds).map (Outcome.respond .symbol)
  | .checkPredicate holds predicate message =>
      (s.checkPredicate? holds predicate message).map (Outcome.respond fun _ => .done)
  | .handle failure => (s.handle? strategy failure).map (Outcome.respond fun _ => .done)
  | .report f => some ((s.report f).respond fun _ => .done)
  | .recover f => (s.recover? f strategy).map (Outcome.respond fun _ => .done)
  | .repairInline => (s.repairInline? strategy).map (Outcome.respond .symbol)
  | .sync => (s.sync? strategy).map became
  | .openWindow => some (became s.openWindow)
  | .closeWindow => some (became s.closeWindow)
  | .setWindow window => some (became { s with window := window })
  | .seek i => some (became { s with input := s.input.seek i })
  | .consume => some (became { s with input := s.input.consume })
  | .mark => some ⟨.ok (.count s.input.mark.1), { s with input := s.input.mark.2 }⟩
  | .release => some (became { s with input := s.input.release })
  | .subscribe mailbox => some (became (s.subscribe mailbox))
  | .notify d => some (became (s.notify d))
  | .takeDiagnostics => some ⟨.ok (.diagnostics s.takeDiagnostics.1), s.takeDiagnostics.2⟩
  | .ask query => (s.answer? query).map fun response => ⟨.ok response, s⟩

/-- The diagnostics that an operation delivered, from the sessions before and after it. -/
def news (before after : Session) : List Diagnostic :=
  after.diagnostics.drop before.diagnostics.length

/-- Do several things in order, each under its own policy: their answers, and the session in the
end. -/
def run? (s : Session) :
    List (Strategy × Operation) → Option (List (Except Failure Response) × Session)
  | [] => some ([], s)
  | (strategy, op) :: rest =>
      match s.perform? strategy op with
      | none => none
      | some o =>
          match o.session.run? rest with
          | none => none
          | some (answers, last) => some (o.result :: answers, last)

end Session

end ParseRecovery
