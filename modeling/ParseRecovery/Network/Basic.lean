import ParseRecovery.KindSet

/-!
Networks of rules. A rule is a sub-network of states with a start and a stop; edges between states
consume a token, call another rule, or move without either. Reaching the stop of a rule returns to
the state that the call named as its follow.
-/

namespace ParseRecovery

/-- The place of a state in its network. -/
abbrev StateId := Nat

/-- The place of a rule in its network. -/
abbrev RuleIndex := Nat

namespace Network

/-- What part a state plays in its rule. -/
inductive Role where
  | basic
  | ruleStart
  | ruleStop
  /-- the start of a block of alternatives -/
  | blockStart
  | blockEnd
  /-- the choice between entering a repetition and skipping it -/
  | starLoopEntry
  /-- the choice between another round and leaving a repetition -/
  | loopBack
  | loopEnd
deriving DecidableEq, Inhabited, Repr

/-- The roles of states at which a parser picks among alternatives. -/
def Role.isDecision : Role → Bool
  | .blockStart | .starLoopEntry | .loopBack => true
  | _ => false

/-- What it takes to move along an edge. -/
inductive Label where
  /-- consume a token of this kind -/
  | token (kind : TokenKind)
  /-- consume a token of a kind between these, both included -/
  | range (lo hi : TokenKind)
  /-- consume a token of a kind in the set -/
  | oneOf (kinds : KindSet)
  /-- consume a token of one of the grammar's own kinds, outside the set -/
  | noneOf (kinds : KindSet)
  /-- consume a token of any of the grammar's own kinds -/
  | anyToken
  | epsilon
  /-- execute a rule, and go on at the follow state when it returns -/
  | call (rule : RuleIndex) (follow : StateId)
  /-- a condition outside the grammar -/
  | predicate (rule : RuleIndex) (index : Nat)
  | action
deriving DecidableEq, Inhabited

namespace Label

/-- A label that consumes nothing. -/
def isEpsilon : Label → Bool
  | .epsilon | .call .. | .predicate .. | .action => true
  | _ => false

/-- The kinds that the label consumes, if it consumes any; the grammar's own kinds end at `max`. -/
def kinds? (max : TokenKind) : Label → Option KindSet
  | .token k => some (SortedSet.ofList [k])
  | .range lo hi => some (KindSet.range lo hi)
  | .oneOf kinds => some kinds
  | .noneOf kinds => some (kinds.complement max)
  | .anyToken => some (KindSet.range .minUser max)
  | _ => none

/-- Whether the label consumes a token of kind `k`. -/
def admits (max k : TokenKind) : Label → Bool
  | .token k' => k' == k
  | .range lo hi => decide (lo ≤ k ∧ k ≤ hi)
  | .oneOf kinds => kinds.contains k
  | .noneOf kinds => k.isUser && decide (k ≤ max) && !kinds.contains k
  | .anyToken => k.isUser && decide (k ≤ max)
  | _ => false

/-- The kinds that the label spells out. -/
def spelled : Label → List TokenKind
  | .token k => [k]
  | .range lo hi => [lo, hi]
  | .oneOf kinds | .noneOf kinds => kinds.toList
  | _ => []

end Label

/-- An edge to `target`. The target of a call is the start state of the rule it calls. -/
structure Edge where
  label : Label
  target : StateId
deriving DecidableEq, Inhabited

/-- A state of the rule `rule`, with its edges in order. -/
structure State where
  id : StateId
  role : Role
  rule : RuleIndex
  edges : List Edge
deriving DecidableEq, Inhabited

/-- A state at which a parser chooses, by its role or because it has several edges. -/
def State.isDecision (s : State) : Bool :=
  s.role.isDecision || decide (1 < s.edges.length)

/-- A declared rule. -/
structure Rule where
  name : String
  start : StateId
  stop : StateId
deriving DecidableEq, Inhabited, Repr

end Network

/-- States and rules, each listed by its own number. The grammar's own kinds are those from one to
`maxKind`. -/
structure Network where
  states : Array Network.State
  rules : Array Network.Rule
  maxKind : TokenKind
deriving DecidableEq, Inhabited

namespace Network

/-- A state's number in print. -/
def stateText (s : StateId) : String :=
  "s" ++ toString s

/-- A rule's number in print. -/
def ruleText (r : RuleIndex) : String :=
  "#" ++ toString r

def state? (n : Network) (s : StateId) : Option State :=
  n.states[s]?

def ruleStart? (n : Network) (r : RuleIndex) : Option StateId :=
  n.rules[r]?.map Rule.start

def ruleStop? (n : Network) (r : RuleIndex) : Option StateId :=
  n.rules[r]?.map Rule.stop

def ruleName (n : Network) (r : RuleIndex) : String :=
  (n.rules[r]?.map Rule.name).getD "<unknown>"

/-- The first rule of that name. -/
def ruleNamed? (n : Network) (name : String) : Option RuleIndex :=
  n.rules.findIdx? fun r => r.name == name

def ruleNames (n : Network) : List String :=
  n.rules.toList.map Rule.name

end Network

end ParseRecovery
