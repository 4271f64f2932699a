import ParseRecovery.Network.Basic

/-!
Making a network step by step. Steps are taken as they come; whether they fit together is checked
once, at the end, and the first misfit in the order of states and edges is reported.
-/

namespace ParseRecovery

namespace Network

/-- Why a network cannot be built. -/
inductive BuildError where
  /-- an edge leads to a state that is not there -/
  | unknownState (source target : StateId)
  /-- an edge or a state belongs to a rule that was never declared -/
  | unknownRule (rule : RuleIndex)
  /-- a call leads elsewhere than to the start of the rule it calls -/
  | ruleTargetMismatch (source target : StateId) (rule : String)
  /-- the stop of a rule returns to the caller and has no edges -/
  | ruleStopHasEdges (rule : String)
  /-- an edge spells out a kind beyond the grammar's own -/
  | kindOutOfRange (source : StateId) (kind max : TokenKind)
deriving DecidableEq, Repr

def BuildError.message : BuildError → String
  | .unknownState source target =>
      "state " ++ stateText source ++ " has an edge to unknown state " ++ stateText target
  | .unknownRule rule => "reference to undeclared rule " ++ ruleText rule
  | .ruleTargetMismatch source target rule =>
      "rule edge in " ++ stateText source ++ " targets " ++ stateText target
        ++ ", which is not the start of rule '" ++ rule ++ "'"
  | .ruleStopHasEdges rule => "stop state of rule '" ++ rule ++ "' has outgoing edges"
  | .kindOutOfRange source kind max =>
      "token kind " ++ kind.text ++ " on edge from " ++ stateText source ++ " exceeds max kind "
        ++ max.text

/-- A network in the making. -/
structure Builder where
  states : Array State
  rules : Array Rule
  maxKind : TokenKind
deriving DecidableEq, Inhabited

/-- One step in making a network. -/
inductive Step where
  /-- declare a rule, which makes its start and its stop -/
  | rule (name : String)
  | state (rule : RuleIndex) (role : Role)
  | edge (source : StateId) (edge : Edge)
  /-- an edge that calls a rule, led to the start of that rule -/
  | call (source : StateId) (rule : RuleIndex) (follow : StateId)
deriving DecidableEq, Inhabited

namespace Builder

/-- Nothing made yet; the grammar's own kinds end at `maxKind`. -/
def new (maxKind : TokenKind) : Builder where
  states := #[]
  rules := #[]
  maxKind := maxKind

def addState (b : Builder) (rule : RuleIndex) (role : Role) : Builder :=
  { b with states := b.states.push ⟨b.states.size, role, rule, []⟩ }

/-- Declare a rule: its start is the next state, and its stop the one after. -/
def addRule (b : Builder) (name : String) : Builder :=
  let start := b.states.size
  let made := (b.addState b.rules.size .ruleStart).addState b.rules.size .ruleStop
  { made with rules := b.rules.push ⟨name, start, start + 1⟩ }

/-- Put an edge after the others of its source. An edge from a state that is not there is lost. -/
def addEdge (b : Builder) (source : StateId) (edge : Edge) : Builder :=
  { b with states := b.states.modify source fun s => { s with edges := s.edges ++ [edge] } }

def ruleStart? (b : Builder) (r : RuleIndex) : Option StateId :=
  b.rules[r]?.map Rule.start

def ruleStop? (b : Builder) (r : RuleIndex) : Option StateId :=
  b.rules[r]?.map Rule.stop

/-- The highest number that a state can have, which stands for a state that is not there. -/
def nowhere : StateId :=
  0xffffffff

/-- The edge that calls a rule; while the rule is undeclared it leads nowhere. -/
def callEdge (b : Builder) (rule : RuleIndex) (follow : StateId) : Edge where
  label := .call rule follow
  target := (b.ruleStart? rule).getD nowhere

/-- Take one step. -/
def perform (b : Builder) : Step → Builder
  | .rule name => b.addRule name
  | .state rule role => b.addState rule role
  | .edge source edge => b.addEdge source edge
  | .call source rule follow => b.addEdge source (b.callEdge rule follow)

/-- Take steps in order. -/
def run (b : Builder) (steps : List Step) : Builder :=
  steps.foldl perform b

/-! ## Checking -/

/-- The state has been made. -/
def knows (b : Builder) (s : StateId) : Bool :=
  decide (s < b.states.size)

def kindMisfit? (b : Builder) (source : StateId) (k : TokenKind) : Option BuildError :=
  if k.isUser && decide (b.maxKind < k) then some (.kindOutOfRange source k b.maxKind) else none

def callMisfit? (b : Builder) (source target : StateId) (rule : RuleIndex) (follow : StateId) :
    Option BuildError :=
  match b.rules[rule]? with
  | none => some (.unknownRule rule)
  | some declared =>
      if declared.start ≠ target then some (.ruleTargetMismatch source target declared.name)
      else if !b.knows follow then some (.unknownState source follow)
      else none

/-- The first misfit of an edge: its target, then the rule it calls or the kinds it spells out. -/
def edgeMisfit? (b : Builder) (source : StateId) (e : Edge) : Option BuildError :=
  if !b.knows e.target then some (.unknownState source e.target)
  else
    match e.label with
    | .call rule follow => b.callMisfit? source e.target rule follow
    | label => label.spelled.findSome? (b.kindMisfit? source)

/-- The first misfit of a state: its rule, then edges where none may be, then its edges in order. -/
def stateMisfit? (b : Builder) (s : State) : Option BuildError :=
  match b.rules[s.rule]? with
  | none => some (.unknownRule s.rule)
  | some declared =>
      if s.role = .ruleStop ∧ s.edges ≠ [] then some (.ruleStopHasEdges declared.name)
      else s.edges.findSome? (b.edgeMisfit? s.id)

/-- The first misfit of all. -/
def misfit? (b : Builder) : Option BuildError :=
  b.states.toList.findSome? b.stateMisfit?

/-- The network, if everything fits together. -/
def build (b : Builder) : Except BuildError Network :=
  match b.misfit? with
  | some e => .error e
  | none => .ok ⟨b.states, b.rules, b.maxKind⟩

end Builder

end Network

end ParseRecovery
