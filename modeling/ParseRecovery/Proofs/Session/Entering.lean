import ParseRecovery.Proofs.Network.Entering
import ParseRecovery.Proofs.Session.Stacks

/-!
Whether entering a rule changes what is expected. The caller looks through the call, and once the rule
is entered its frame says what is behind, so where nothing but the call can come both should expect
the same. They do unless the rule is both nullable and left-recursive (`enterRule?_keeps_expected`):
in such a rule more can be expected than before it was entered, and a rule that consumes the mark for
the end of a rule misleads either side (`expected_changes_by_entering`).
-/

namespace ParseRecovery

namespace Session

variable {s : Session}

theorem follow_frameOf_of_only (hstack : s.stack ≠ []) {st : Network.State} {e : Network.Edge}
    {rule : RuleIndex} {follow : StateId} (hst : s.network.state? s.state = some st) (honly : st.edges = [e])
    (hcall : e.label = .call rule follow) : (s.frameOf rule).follow = some follow := by
  have hfollow : s.followOf? rule = some follow := by simp [followOf?, hst, honly, hcall]
  unfold frameOf
  split
  · rename_i hnil
    exact absurd hnil hstack
  · exact hfollow

/-- Entering the rule that the only edge of the current state calls loses no expected kind, and adds
none unless the rule is both nullable and left-recursive. -/
theorem enterRule?_keeps_expected (hbuilt : s.network.IsBuilt) (hscoped : s.network.Scoped)
    (hentered : Entered s.network s.stack) (hstack : s.stack ≠ []) {st : Network.State}
    {e : Network.Edge} {rule : RuleIndex} {follow : StateId} (hst : s.network.state? s.state = some st)
    (honly : st.edges = [e]) (hcall : e.label = .call rule follow)
    (hclean : ¬ s.network.CanConsume e.target .epsilon) :
    ∃ after expected all, s.enterRule? rule = some after ∧ s.expectedTokens? = some expected ∧
      after.expectedTokens? = some all ∧ (∀ k ∈ expected, k ∈ all) ∧
      (¬ (s.network.Nullable rule ∧ s.network.LeftRecursive rule) → all = expected) := by
  have hn := hbuilt.formed
  have honlyCall := Network.onlyCall_of_edges hst honly hcall
  have hstart : s.network.ruleStart? rule = some e.target :=
    hn.ruleStart?_of_call honlyCall.hasEdge hcall
  -- under a rule that is being executed the frame knows its follow state, that of the only call
  have hframe := follow_frameOf_of_only hstack hst honly hcall
  obtain ⟨expected, all, hexpected, hall, hkept, hsame⟩ :=
    honlyCall.expectedTokens? hn hscoped hclean (hentered.follows_lt hn) hframe
  have henter : s.enterRule? rule =
      some { s with stack := s.frameOf rule :: s.stack, state := e.target } := by
    rw [enterRule?, hstart]
  exact ⟨_, expected, all, henter, hexpected, hall, hkept, hsame⟩

/-! ### Rules that call themselves first -/

-- at the start of the first rule of a network, over one token
def opening (n : Network) : Session :=
  { Session.new n {} {} (.ofKinds [1]) with stack := [.root 0] }

theorem entered_opening {n : Network} (h : n.ruleStart? 0 = some 0) :
    Entered n (opening n).stack := by
  let fresh := Session.new n {} {} (.ofKinds [1])
  have henter : fresh.enterRule? 0 = some (opening n) := by
    rw [enterRule?, show fresh.network.ruleStart? 0 = some 0 from h]
    rfl
  exact @Entered.enter _ fresh _ 0 .nil rfl henter

/-- A sum calls itself first, but it is not nullable. -/
theorem enterRule?_keeps_expected_sumNetwork :
    Network.sumNetwork.IsBuilt ∧ Network.sumNetwork.Scoped ∧
      Network.sumNetwork.LeftRecursive 1 ∧ ¬ Network.sumNetwork.CanConsume 2 .epsilon ∧
      ∃ after expected, (opening Network.sumNetwork).enterRule? 1 = some after ∧
        (opening Network.sumNetwork).expectedTokens? = some expected ∧
        after.expectedTokens? = some expected := by
  have hrecursive : Network.sumNetwork.LeftRecursive 1 :=
    ⟨2, (2, []), ⟨.call 1 7, 2⟩, 7, rfl, .refl, ⟨_, rfl, by decide⟩, rfl⟩
  have hclean : ¬ Network.sumNetwork.CanConsume 2 .epsilon := by
    rintro ⟨c, -, e, kinds, he, hkinds, hmem⟩
    exact Network.noEpsilonLabels_sumNetwork he hkinds hmem
  obtain ⟨after, expected, all, henter, hexpected, hall, -, hsame⟩ :=
    enterRule?_keeps_expected (s := opening Network.sumNetwork) Network.isBuilt_sumNetwork
      Network.scoped_sumNetwork (entered_opening rfl) (List.cons_ne_nil _ _) rfl rfl rfl hclean
  rw [hsame (Network.noNullableRecursion_sumNetwork 1)] at hall
  exact ⟨Network.isBuilt_sumNetwork, Network.scoped_sumNetwork, hrecursive, hclean, after, expected,
    henter, hexpected, hall⟩

-- `file : tail` and `tail : tail B | ε`
def loopNetwork : Network where
  states := #[⟨0, .ruleStart, 0, [⟨.call 1 1, 2⟩]⟩, ⟨1, .ruleStop, 0, []⟩,
    ⟨2, .ruleStart, 1, [⟨.call 1 4, 2⟩, ⟨.epsilon, 3⟩]⟩, ⟨3, .ruleStop, 1, []⟩,
    ⟨4, .basic, 1, [⟨.token 1, 3⟩]⟩]
  rules := #[⟨"file", 0, 1⟩, ⟨"tail", 2, 3⟩]
  maxKind := 1

-- `file : tail B`, and a `tail` that consumes the mark for the end of a rule
def markNetwork : Network where
  states := #[⟨0, .ruleStart, 0, [⟨.call 1 4, 2⟩]⟩, ⟨1, .ruleStop, 0, []⟩,
    ⟨2, .ruleStart, 1, [⟨.token .epsilon, 3⟩]⟩, ⟨3, .ruleStop, 1, []⟩,
    ⟨4, .basic, 0, [⟨.token 1, 1⟩]⟩]
  rules := #[⟨"file", 0, 1⟩, ⟨"tail", 2, 3⟩]
  maxKind := 1

theorem isBuilt_loopNetwork : loopNetwork.IsBuilt :=
  ⟨1, [.rule "file", .rule "tail", .state 1 .basic, .call 0 1 1, .call 2 1 4, .edge 2 ⟨.epsilon, 3⟩,
    .edge 4 ⟨.token 1, 3⟩], rfl⟩

theorem isBuilt_markNetwork : markNetwork.IsBuilt :=
  ⟨1, [.rule "file", .rule "tail", .state 0 .basic, .call 0 1 4, .edge 4 ⟨.token 1, 1⟩,
    .edge 2 ⟨.token .epsilon, 3⟩], rfl⟩

theorem scoped_loopNetwork : loopNetwork.Scoped := fun {s e} he =>
  Network.forall_hasEdge (P := fun s e => loopNetwork.ruleOf? e.resume = loopNetwork.ruleOf? s)
    (by decide) he

theorem scoped_markNetwork : markNetwork.Scoped := fun {s e} he =>
  Network.forall_hasEdge (P := fun s e => markNetwork.ruleOf? e.resume = markNetwork.ruleOf? s)
    (by decide) he

/-- What is expected can change as the only call of a state is entered: it grows for a nullable `tail`
that calls itself first, and is another for a `tail` that consumes the mark for the end of a rule. -/
theorem expected_changes_by_entering :
    (loopNetwork.IsBuilt ∧ loopNetwork.Scoped ∧ Entered loopNetwork (opening loopNetwork).stack ∧
      (loopNetwork.state? (opening loopNetwork).state).map Network.State.edges = some [⟨.call 1 1, 2⟩] ∧
      (opening loopNetwork).expectedTokens? = some (SortedSet.ofList [.eof]) ∧
      ((opening loopNetwork).enterRule? 1).bind expectedTokens? =
        some (SortedSet.ofList [.eof, 1])) ∧
    (markNetwork.IsBuilt ∧ markNetwork.Scoped ∧ Entered markNetwork (opening markNetwork).stack ∧
      (markNetwork.state? (opening markNetwork).state).map Network.State.edges = some [⟨.call 1 4, 2⟩] ∧
      (opening markNetwork).expectedTokens? = some (SortedSet.ofList [.eof]) ∧
      ((opening markNetwork).enterRule? 1).bind expectedTokens? = some (SortedSet.ofList [1])) :=
  ⟨⟨isBuilt_loopNetwork, scoped_loopNetwork, entered_opening rfl, rfl, by decide +kernel,
      by decide +kernel⟩,
    isBuilt_markNetwork, scoped_markNetwork, entered_opening rfl, rfl, by decide +kernel,
      by decide +kernel⟩

end Session

end ParseRecovery
