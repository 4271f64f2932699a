import ParseRecovery.Proofs.Session.Bounds

/-!
Entering and leaving rules as brackets. Only entering a rule, leaving one and starting over touch the
stack, whatever goes wrong in between (`Session.stack_eq_of_perform?`). So steps in which every rule that
is entered is left again (`WellNested`) give back the stack that they began with. Main statement: a rule
that is entered from within another returns to the stack it was entered at, and to the state that the
first call of it leads back to, else to its own stop (`Session.call_returns`).
-/

namespace ParseRecovery

/-- The operation enters a rule, leaves one or starts over. -/
def Operation.turns : Operation → Bool
  | .enterRule _ | .exitRule | .reset => true
  | _ => false

theorem Operation.turns_iff {op : Operation} :
    op.turns = true ↔ (∃ rule, op = .enterRule rule) ∨ op = .exitRule ∨ op = .reset := by
  cases op <;> simp [turns]

/-- Steps in which each rule that is entered is left again, and the parse is not started over. -/
inductive WellNested : List (Strategy × Operation) → Prop
  | done : WellNested []
  | step {strategy : Strategy} {op : Operation} {rest : List (Strategy × Operation)}
      (hop : op.turns = false) (hrest : WellNested rest) : WellNested ((strategy, op) :: rest)
  | call {entering leaving : Strategy} {rule : RuleIndex} {body rest : List (Strategy × Operation)}
      (hbody : WellNested body) (hrest : WellNested rest) :
      WellNested ((entering, .enterRule rule) :: (body ++ (leaving, .exitRule) :: rest))

namespace Network

/-- Where a rule that is called from a state returns to: the follow state of the first edge that calls
it, or its own stop if there is none. -/
inductive ReturnsTo (n : Network) (s : StateId) (rule : RuleIndex) : StateId → Prop
  | follow {st : State} {earlier later : List Edge} {e : Edge} {home : StateId}
      (hst : n.state? s = some st) (hedges : st.edges = earlier ++ e :: later)
      (hcall : e.label = .call rule home)
      (hfirst : ∀ e' ∈ earlier, ∀ follow, e'.label ≠ .call rule follow) : ReturnsTo n s rule home
  | stop {home : StateId}
      (hnone : ∀ st, n.state? s = some st → ∀ e ∈ st.edges, ∀ follow, e.label ≠ .call rule follow)
      (hstop : n.ruleStop? rule = some home) : ReturnsTo n s rule home

end Network

namespace Session

variable {s last : Session} {strategy : Strategy} {op : Operation} {o : Outcome Response}
  {answers : List (Except Failure Response)} {steps body rest : List (Strategy × Operation)}

/-! ## What touches the stack -/

theorem Change.stack_eq {after : Session} (h : s.Change op after) (hop : op.turns = false) :
    after.stack = s.stack := by
  cases h with
  | placed h =>
    cases h with
    | enter | exit => cases hop
    | set => rfl
  | restarted => cases hop
  | matched => rfl
  | dropped =>
    show (s.announceSurplus _).stack = s.stack
    exact s.stack_announce _
  | told h => exact h.stack_eq
  | resumed h => exact h.stack_eq
  | realigned => rfl

/-- Nothing but entering a rule, leaving one and starting over touches the stack. -/
theorem stack_eq_of_perform? (h : s.perform? strategy op = some o) (hop : op.turns = false) :
    o.session.stack = s.stack := by
  cases hparsing : op.isParsing with
  | true => exact (effect_of_perform? hparsing h).change.stack_eq hop
  | false => exact (eq_of_not_isParsing hparsing h).2.2

/-! ## Runs in parts -/

theorem run?_append (h : s.run? (body ++ rest) = some (answers, last)) :
    ∃ (middle : Session) (first second : List (Except Failure Response)),
      s.run? body = some (first, middle) ∧ middle.run? rest = some (second, last) := by
  induction body generalizing s answers with
  | nil => exact ⟨s, [], answers, rfl, h⟩
  | cons step body ih =>
    obtain ⟨o, later, hperform, hlater, -⟩ := run?_cons_iff.mp h
    obtain ⟨middle, first, second, hfirst, hsecond⟩ := ih hlater
    exact ⟨middle, _, second, run?_cons_iff.mpr ⟨o, first, hperform, hfirst, rfl⟩, hsecond⟩

theorem sameGivens_of_run? (h : s.run? steps = some (answers, last)) : s.SameGivens last := by
  obtain ⟨events, hrun, -⟩ := Run.exists_run h
  exact hrun.sameGivens

/-! ## Calls -/

/-- A rule that is entered and left again, with steps in between that give back the stack they began
with, leaves the stack as it was. -/
theorem exists_return {entering leaving : Strategy} {rule : RuleIndex}
    (hbody : ∀ {t last : Session} {answers}, t.run? body = some (answers, last) → last.stack = t.stack)
    (h : s.run? ((entering, .enterRule rule) :: (body ++ (leaving, .exitRule) :: rest)) =
      some (answers, last)) :
    ∃ (back : Session) (later : List (Except Failure Response)),
      back.run? rest = some (later, last) ∧ back.stack = s.stack ∧
        (s.frameOf rule).follow.or (s.network.ruleStop? rule) = some back.state := by
  obtain ⟨_, _, henter, h, -⟩ := run?_cons_iff.mp h
  obtain ⟨inside, hinside, rfl⟩ := Option.map_eq_some_iff.mp henter
  obtain ⟨start, -, rfl⟩ := eq_of_enterRule? hinside
  obtain ⟨called, _, _, hcalled, h⟩ := run?_append h
  obtain ⟨_, later, hleave, h, -⟩ := run?_cons_iff.mp h
  obtain ⟨back, hback, rfl⟩ := Option.map_eq_some_iff.mp hleave
  -- the body leaves the frame of the rule on top
  have hstack : called.stack = s.frameOf rule :: s.stack := hbody hcalled
  have hnetwork : called.network = s.network := (sameGivens_of_run? hcalled).network_eq
  rcases eq_of_exitRule? hback with ⟨hnil, -⟩ | ⟨frame, outer, home, hcons, hhome, rfl⟩
  · rw [hnil] at hstack
    cases hstack
  · rw [hstack] at hcons
    cases hcons
    rw [rule_frameOf, hnetwork] at hhome
    exact ⟨_, later, h, rfl, hhome⟩

/-- Well-nested steps give back the stack that they began with. -/
theorem stack_eq_of_wellNested (hnested : WellNested steps)
    (h : s.run? steps = some (answers, last)) : last.stack = s.stack := by
  induction hnested generalizing s answers last with
  | done =>
    cases h
    rfl
  | step hop _ ih =>
    obtain ⟨o, later, hperform, hrest, -⟩ := run?_cons_iff.mp h
    exact (ih hrest).trans (stack_eq_of_perform? hperform hop)
  | call _ _ ihbody ihrest =>
    obtain ⟨back, later, hrest, hstack, -⟩ := exists_return ihbody h
    exact (ihrest hrest).trans hstack

theorem follow_frameOf (hstack : s.stack ≠ []) (rule : RuleIndex) :
    (s.frameOf rule).follow = s.followOf? rule := by
  unfold frameOf
  split
  · rename_i hnil
    exact absurd hnil hstack
  · rfl

theorem returnsTo_of_followOf? {rule : RuleIndex} {home : StateId}
    (h : (s.followOf? rule).or (s.network.ruleStop? rule) = some home) :
    s.network.ReturnsTo s.state rule home := by
  cases hfollow : s.followOf? rule with
  | some follow =>
    rw [hfollow] at h
    cases h
    obtain ⟨st, hst, hfind⟩ := Option.bind_eq_some_iff.mp hfollow
    obtain ⟨earlier, e, later, hedges, hfound, hnone⟩ := List.findSome?_eq_some_iff.mp hfind
    refine .follow hst hedges ?_ ?_
    · split at hfound
      · rename_i r follow hcall
        split at hfound
        · rename_i hrule
          cases hfound
          rw [hcall, hrule]
        · cases hfound
      · cases hfound
    · intro e' he' follow hcall
      simpa [hcall] using hnone e' he'
  | none =>
    rw [hfollow, Option.none_or] at h
    refine .stop (fun st hst e he follow hcall => ?_) h
    rw [followOf?, hst, Option.bind_some, List.findSome?_eq_none_iff] at hfollow
    simpa [hcall] using hfollow e he

/-- In every run only entering a rule, leaving one and starting over change the stack. A rule that is
entered within another, and left again after well-nested steps whatever fails among them, leaves the
stack as it was and returns to where the first call of it leads. If these steps stay within the network,
they can all be taken. -/
theorem call_returns (hbuilt : s.network.IsBuilt) {rule : RuleIndex}
    (hrule : rule < s.network.rules.size) (hstack : s.stack ≠ []) (hbody : WellNested body)
    (entering leaving : Strategy) :
    (∀ events last, Run s events last → ∀ e ∈ events, e.after.stack ≠ e.before.stack →
      (∃ rule, e.op = .enterRule rule) ∨ e.op = .exitRule ∨ e.op = .reset) ∧
    (∀ answers last, s.run? ((entering, .enterRule rule) :: (body ++ [(leaving, .exitRule)])) =
        some (answers, last) →
      last.stack = s.stack ∧ s.network.ReturnsTo s.state rule last.state) ∧
    (s.state < s.network.states.size → Entered s.network s.stack →
      (∀ step ∈ body, step.2.isWithin s.network = true) →
        ∃ answers last, s.run? ((entering, .enterRule rule) :: (body ++ [(leaving, .exitRule)])) =
          some (answers, last)) := by
  refine ⟨?_, ?_, ?_⟩
  · intro events last hrun e he hchanged
    have hturns : ¬ e.op.turns = false := fun hop =>
      hchanged (stack_eq_of_perform? (hrun.happens he) hop)
    exact Operation.turns_iff.mp (Bool.not_eq_false _ ▸ hturns)
  · intro answers last h
    obtain ⟨back, later, hend, hback, hhome⟩ :=
      exists_return (fun h => stack_eq_of_wellNested hbody h) h
    cases hend
    rw [follow_frameOf hstack] at hhome
    exact ⟨hback, returnsTo_of_followOf? hhome⟩
  · intro hstate hentered hwithin
    have hs : s.Grounded := ⟨hbuilt.formed, hstate, hentered⟩
    have hall : ∀ step ∈ (entering, Operation.enterRule rule) :: (body ++ [(leaving, .exitRule)]),
        step.2.isWithin s.network = true := by
      refine List.forall_mem_cons.mpr ⟨decide_eq_true hrule, fun step hstep => ?_⟩
      rcases List.mem_append.mp hstep with hstep | hstep
      · exact hwithin step hstep
      · rw [List.mem_singleton.mp hstep]
        rfl
    obtain ⟨answers, last, hrun, -⟩ := hs.exists_run? hall
    exact ⟨answers, last, hrun⟩

/-! ### A call in which much goes wrong -/

/-- A list of sums is to be parsed over other tokens than the rules want. -/
def tangledSession : Session :=
  { new Network.sumNetwork {} {} (.ofKinds [3, 2, 2, 1]) with stack := [.root 0] }

/-- In a sum a match is given up, a predicate fails and is handled, a sum is called from a state that
does not call it, in which a token is made up, and the parse is realigned and resumed. -/
def tangledBody : List (Strategy × Operation) :=
  [(.bail, .matchKind 1), (.repair, .checkPredicate false "p" none),
    (.repair, .handle (.reported default)), (.repair, .setState 4), (.repair, .enterRule 1),
    (.repair, .matchKind 1), (.repair, .recover default), (.repair, .exitRule), (.repair, .sync),
    (.repair, .handle (.detected default))]

theorem wellNested_tangledBody : WellNested tangledBody := by
  have hinner : WellNested [(.repair, .matchKind 1), (.repair, .recover default)] :=
    .step rfl (.step rfl .done)
  have hrest : WellNested [(.repair, .sync), (.repair, .handle (.detected default))] :=
    .step rfl (.step rfl .done)
  exact .step rfl (.step rfl (.step rfl (.step rfl (.call hinner hrest))))

theorem call_returns_tangledSession :
    tangledSession.network.IsBuilt ∧ 1 < tangledSession.network.rules.size ∧
      tangledSession.stack ≠ [] ∧ WellNested tangledBody ∧
      ∃ answers last, tangledSession.run?
          ((.repair, .enterRule 1) :: (tangledBody ++ [(.repair, .exitRule)])) =
            some (answers, last) ∧
        last.stack = [.root 0] ∧ Network.sumNetwork.ReturnsTo 0 1 last.state := by
  have hrule : 1 < tangledSession.network.rules.size := by decide
  have hstack : tangledSession.stack ≠ [] := List.cons_ne_nil _ _
  obtain ⟨-, hreturns, hexists⟩ :=
    call_returns Network.isBuilt_sumNetwork hrule hstack wellNested_tangledBody .repair .repair
  have hfile : Entered tangledSession.network tangledSession.stack :=
    @Entered.enter _ (Session.new Network.sumNetwork {} {} (.ofKinds [3, 2, 2, 1])) _ 0 .nil rfl rfl
  have hwithin : ∀ step ∈ tangledBody, step.2.isWithin tangledSession.network = true := by decide
  obtain ⟨answers, last, hrun⟩ := hexists (by decide) hfile hwithin
  obtain ⟨hback, hhome⟩ := hreturns answers last hrun
  exact ⟨Network.isBuilt_sumNetwork, hrule, hstack, wellNested_tangledBody, answers, last, hrun, hback,
    hhome⟩

end Session

end ParseRecovery
