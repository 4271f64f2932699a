import ParseRecovery.Frame

/-!
Which kinds can come next. `Network.nextTokens?` answers for a state alone, and marks with `epsilon`
that the end of the state's rule can be reached; `Network.expectedTokens?` answers for a state and
the stack of rules being executed, and `Network.recoverySet?` says where any of those rules can be
resumed. All three answer `none` when asked about a state that is not there.
-/

namespace ParseRecovery

namespace Network

/-- The state of a lookahead walk. Every configuration is entered at most once, and no rule is
called while a call of it is under way. -/
structure Walk where
  /-- Configurations entered so far: states, each with the returns then due. -/
  visited : List (StateId × List StateId) := []
  /-- Follow states of the calls under way, innermost first. -/
  returns : List StateId := []
  /-- Rules with a call under way. -/
  called : List RuleIndex := []
  found : KindSet := ∅
deriving DecidableEq, Inhabited

namespace Walk

def hasVisited (w : Walk) (s : StateId) : Bool :=
  w.visited.contains (s, w.returns)

def visit (w : Walk) (s : StateId) : Walk :=
  { w with visited := (s, w.returns) :: w.visited }

def collect (w : Walk) (kinds : KindSet) : Walk :=
  { w with found := w.found ∪ kinds }

/-- The end of the rule that the walk began in can be reached. -/
def reachEnd (w : Walk) : Walk :=
  { w with found := w.found.insert .epsilon }

/-- Start a call. -/
def enterCall (w : Walk) (rule : RuleIndex) (follow : StateId) : Walk :=
  { w with returns := follow :: w.returns, called := rule :: w.called }

/-- Take a call back once its branch has been walked. -/
def leaveCall (w : Walk) (rule : RuleIndex) : Walk :=
  { w with returns := w.returns.tail, called := w.called.erase rule }

/-- Return from `rule` to the innermost follow state; until the branch has been walked the rule can
be called again. -/
def enterReturn (w : Walk) (rule : RuleIndex) (rest : List StateId) : Walk :=
  { w with returns := rest, called := w.called.erase rule }

/-- Take a return back once its branch has been walked; `before` is the walk before it. -/
def leaveReturn (w before : Walk) (rule : RuleIndex) (follow : StateId) : Walk :=
  { w with
    returns := follow :: w.returns
    called := if before.called.contains rule then rule :: w.called else w.called }

/-- Walk along one edge, with `enter` for the state at its other end. -/
def along? (max : TokenKind) (enter : StateId → Walk → Option Walk) (w : Walk) (e : Edge) :
    Option Walk :=
  match e.label with
  | .call rule follow =>
      if w.called.contains rule then some w
      else (enter e.target (w.enterCall rule follow)).map (·.leaveCall rule)
  | label =>
      match label.kinds? max with
      | some kinds => some (w.collect kinds)
      | none => enter e.target w

end Walk

/-- Walk from a state to every configuration that is reached without consuming a token, and collect
the kinds consumed there. The depth bounds the nesting of steps. -/
def walk? (n : Network) : Nat → StateId → Walk → Option Walk
  | 0, _, _ => none
  | depth + 1, s, w =>
      if w.hasVisited s then some w
      else
        match n.state? s with
        | none => none
        | some state =>
            let w := w.visit s
            if state.role = .ruleStop then
              match w.returns with
              | [] => some w.reachEnd
              | follow :: rest =>
                  (n.walk? depth follow (w.enterReturn state.rule rest)).map
                    (·.leaveReturn w state.rule follow)
            else state.edges.foldlM (Walk.along? n.maxKind (n.walk? depth)) w

/-- Steps nest no deeper than there are configurations: a state, with at most one return due for
each rule. -/
def walkDepth (n : Network) : Nat :=
  n.states.size * (n.states.size + 1).pow n.rules.size + 1

/-- The kinds that can be consumed next at `s`, with `epsilon` if the end of its rule can be reached
without consuming a token. A rule that is under way is not called again, which cuts left recursion.
-/
def nextTokens? (n : Network) (s : StateId) : Option KindSet :=
  (n.walk? n.walkDepth s {}).map Walk.found

/-- Whether a token of kind `k` can be consumed next at `s`. -/
def accepts? (n : Network) (s : StateId) (k : TokenKind) : Option Bool :=
  (n.nextTokens? s).map (·.contains k)

/-- Add to `expected` what can follow in the callers, from the innermost outwards, while the end of
the rule below can be reached; `next` are the next kinds of that rule. Where the callers give out,
the end of the input is expected. -/
def mergeFollows? (n : Network) (expected next : KindSet) (stack : Stack) : Option KindSet :=
  if next.contains .epsilon then
    match stack with
    | [] => some (expected.insert .eof)
    | frame :: outer =>
        match frame.follow with
        | none => some (expected.insert .eof)
        | some follow =>
            match n.nextTokens? follow with
            | none => none
            | some beyond => n.mergeFollows? ((expected ∪ beyond).erase .epsilon) beyond outer
  else some expected

/-- The kinds that can come next at `s` while the rules of the stack are executed. -/
def expectedTokens? (n : Network) (s : StateId) (stack : Stack) : Option KindSet :=
  match n.nextTokens? s with
  | none => none
  | some next => n.mergeFollows? (next.erase .epsilon) next stack

/-- The follow states of a stack. -/
def follows (stack : Stack) : List StateId :=
  stack.filterMap Frame.follow

/-- The kinds that can come next after any of the rules of the stack. -/
def recoverySet? (n : Network) (stack : Stack) : Option KindSet :=
  ((follows stack).foldlM (fun set s => (n.nextTokens? s).map (set ∪ ·)) ∅).map
    (·.erase .epsilon)

end Network

end ParseRecovery
