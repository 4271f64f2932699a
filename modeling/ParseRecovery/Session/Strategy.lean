import ParseRecovery.Session.Basic

/-!
What to do about an error. The repairing policy drops or makes up single tokens, skips input that
the next decision cannot use, and when a rule fails resumes at a token that can follow one of the
rules being executed. The bailing policy gives up at the first error, after reporting it.

An operation that can fail answers with an `Outcome`, since the session it leaves counts then, too.
Operations that ask for the next kinds answer `none` if the session is at a state that is not there.
-/

namespace ParseRecovery

inductive Strategy where
  | repair
  | bail
deriving DecidableEq, Inhabited, Repr

/-- The answer of an operation, and the session after it. -/
structure Outcome (α : Type) where
  result : Except Failure α
  session : Session

/-- A token that was matched, or made up in place of one that is missing. -/
inductive MatchedSymbol where
  | found (token : Token)
  | conjured (token : Token)
deriving DecidableEq, Inhabited

namespace MatchedSymbol

def token : MatchedSymbol → Token
  | .found t | .conjured t => t

def isConjured : MatchedSymbol → Bool
  | .conjured _ => true
  | .found _ => false

end MatchedSymbol

namespace Session

/-- Report a fault, silently if a window is open. It is raised as well if every error is, or if it
cannot be repaired. -/
def report (s : Session) (f : Fault) : Outcome Unit where
  result :=
    if s.config.haltOnError || !f.cause.isRepairable then .error (.reported f) else .ok ()
  session := s.announce (s.diagnostic f (s.faultMessage f))

/-! ## Repairing a match -/

/-- Dropping the current token would help: it is not expected, and the token after it is. -/
def canDrop (s : Session) (expected : KindSet) : Bool :=
  s.config.singleTokenDeletion && !s.input.atEof && !expected.contains (s.input.peekKind 1)
    && expected.contains (s.input.peekKind 2)

/-- Report the current token as surplus. -/
def announceSurplus (s : Session) (expected : KindSet) : Session :=
  let token := s.input.current
  s.announce <| s.diagnostic (s.faultExpecting expected .inputMismatch token) <|
    "extraneous input '" ++ token.shown ++ "' expecting " ++ expected.named s.vocabulary

/-- Match the token after the current one. -/
def dropToken (s : Session) (expected : KindSet) : Outcome MatchedSymbol :=
  let told := s.announceSurplus expected
  let reached := told.input.consume
  { result := .ok (.found reached.current)
    session := { told.closeWindow with input := reached.consume } }

/-- The kind of the token that would be made up: the least of the grammar's own that is expected. -/
def conjuredKind? (s : Session) (expected : KindSet) : Option TokenKind :=
  if s.config.singleTokenInsertion && (!s.input.atEof || s.config.reportMissingAtEof) then
    expected.minUser?
  else none

/-- Report that a token is missing before the current one. -/
def announceMissing (s : Session) (expected : KindSet) : Session :=
  let token := s.input.current
  s.announce <| s.diagnostic (s.faultExpecting expected .inputMismatch token) <|
    "missing " ++ expected.named s.vocabulary ++ " at '" ++ token.shown ++ "'"

/-- Where a made-up token stands: at the current token, or at the end of the input right after the
token before. -/
def conjuredPlace (s : Session) : Span :=
  match s.input.peek? (-1) with
  | some before => if s.input.atEof then before.span.after else s.input.current.span
  | none => s.input.current.span

/-- Make up a token. The window stays open until a token of the input is matched. -/
def conjureToken (s : Session) (expected : KindSet) (kind : TokenKind) : Outcome MatchedSymbol where
  result := .ok (.conjured (.missing kind (s.vocabulary.displayName kind) s.conjuredPlace))
  session := s.announceMissing expected

/-- Leave the session as it is and raise the mismatch. -/
def giveUp (s : Session) (expected : KindSet) : Outcome MatchedSymbol where
  result := .error (.unrecoverable (s.faultExpecting expected .inputMismatch s.input.current))
  session := s

/-- Repair a match by dropping a token, else by making one up. -/
def repairExpecting (s : Session) (expected : KindSet) : Outcome MatchedSymbol :=
  if s.config.haltOnError then s.giveUp expected
  else if s.canDrop expected then s.dropToken expected
  else
    match s.conjuredKind? expected with
    | some kind => s.conjureToken expected kind
    | none => s.giveUp expected

/-- Report the mismatch, and give the parse up. -/
def cancelExpecting (s : Session) (expected : KindSet) : Outcome MatchedSymbol :=
  let f := s.faultExpecting expected .inputMismatch s.input.current
  let told := s.report f
  match told.result with
  | .error e => ⟨.error e, told.session⟩
  | .ok () => ⟨.error (.cancelled f), told.session⟩

/-- Deal with a current token that does not match. -/
def repairInline? (s : Session) : Strategy → Option (Outcome MatchedSymbol)
  | .repair => s.expectedTokens?.map s.repairExpecting
  | .bail => s.expectedTokens?.map s.cancelExpecting

/-! ## Resynchronization -/

/-- Resynchronization ended up here before, in this window and from this state. -/
def isStalled (s : Session) : Bool :=
  decide (s.window.resyncIndex = some s.input.index) && s.window.resyncStates.contains s.state

/-- Skip input up to a kind of the set, after dropping one token if the session is stalled. -/
def resyncTo (s : Session) (kinds : KindSet) : Session :=
  let input := if s.isStalled then s.input.consume else s.input
  { s with
    input := input.skipUntil kinds.contains
    window :=
      { s.window with
        resyncIndex := some input.index
        resyncStates := s.window.resyncStates.insert s.state } }

/-- Resume after a rule has failed. -/
def resync? (s : Session) : Option Session :=
  s.recoverySet?.map s.resyncTo

/-- Resume after a fault, or give the parse up. -/
def recover? (s : Session) (f : Fault) : Strategy → Option (Outcome Unit)
  | .repair => s.resync?.map fun after => ⟨.ok (), after⟩
  | .bail => some ⟨.error (.cancelled f), s⟩

/-- Before a decision: skip input up to a kind that is expected, unless the current token can be
consumed at this state already. -/
def realign? (s : Session) : Option Session :=
  match s.network.nextTokens? s.state with
  | none => none
  | some next =>
      if next.contains (s.input.peekKind 1) then some s
      else
        s.expectedTokens?.map fun expected =>
          { s with input := s.input.skipUntil expected.contains }

def sync? (s : Session) : Strategy → Option Session
  | .repair => s.realign?
  | .bail => some s

/-- What a rule does about a failure in it: report it if that is not done yet, then resume. -/
def handle? (s : Session) (strategy : Strategy) : Failure → Option (Outcome Unit)
  | .detected f | .unrecoverable f =>
      let told := s.report f
      match told.result with
      | .error e => some ⟨.error e, told.session⟩
      | .ok () => told.session.recover? f strategy
  | .reported f =>
      if s.config.haltOnError then some ⟨.error (.reported f), s⟩ else s.recover? f strategy
  | .cancelled f => some ⟨.error (.cancelled f), s⟩

/-! ## Matching -/

/-- Match the current token and close the window. -/
def matchCurrent (s : Session) : Outcome MatchedSymbol where
  result := .ok (.found s.input.current)
  session := { s.closeWindow with input := s.input.consume }

/-- Match a token of the given kind, or let the policy repair the match. -/
def matchKind? (s : Session) (strategy : Strategy) (k : TokenKind) :
    Option (Outcome MatchedSymbol) :=
  if s.input.current.kind = k then some s.matchCurrent else s.repairInline? strategy

/-- Match a token of one of the given kinds, or let the policy repair the match. -/
def matchSet? (s : Session) (strategy : Strategy) (kinds : KindSet) :
    Option (Outcome MatchedSymbol) :=
  if kinds.contains s.input.current.kind then some s.matchCurrent else s.repairInline? strategy

/-- Act on a predicate. One that does not hold is reported and raised. -/
def checkPredicate? (s : Session) (holds : Bool) (predicate : String) (message : Option String) :
    Option (Outcome Unit) :=
  if holds then some ⟨.ok (), s⟩
  else
    (s.failedPredicate? predicate message).map fun f =>
      ⟨.error (.reported f), (s.report f).session⟩

end Session

end ParseRecovery
