import ParseRecovery.Proofs.Network.Expected
import ParseRecovery.Proofs.Session.Delivery
import ParseRecovery.Proofs.Session.Runs

/-!
Starting a parse over. Whatever is done to a session, what its parse is given stays, and starting over
puts back all else but the listeners and the count of remembered places. No operation looks at these
two (`exists_perform?_attend`), apart from the question for the count, and from printing the session,
which shows how many listen. Main statement: a parse that was started over goes as on a new session, step
by step (`Session.reset_starts_fresh`).
-/

namespace ParseRecovery

/-- The stream with another count of remembered places. -/
def TokenStream.withMarkers (s : TokenStream) (markers : Nat) : TokenStream :=
  { s with markers := markers }

theorem TokenStream.eq_withMarkers {s t : TokenStream} (htokens : t.tokens = s.tokens)
    (hindex : t.index = s.index) : t = s.withMarkers t.markers :=
  eq_of_index_eq htokens rfl hindex

theorem TokenStream.consume_withMarkers (s : TokenStream) (markers : Nat) :
    (s.withMarkers markers).consume = s.consume.withMarkers markers := by
  apply eq_of_index_eq
  · exact (tokens_consume _).trans s.tokens_consume.symm
  · exact markers_consume _
  · exact (index_consume _).trans s.index_consume.symm

/-- The same parse, with other listeners and another count of remembered places. -/
def Session.attend (s : Session) (listeners : List Nat) (markers : Nat) : Session :=
  { s with listeners := listeners, input := s.input.withMarkers markers }

def Outcome.attend {α : Type} (o : Outcome α) (listeners : List Nat) (markers : Nat) : Outcome α :=
  { o with session := o.session.attend listeners markers }

namespace Session

/-! ## Operations do not look at who attends -/

section Attend

variable (s : Session) (listeners : List Nat) (markers : Nat)

theorem input_attend : (s.attend listeners markers).input = s.input.withMarkers markers :=
  rfl

theorem network_attend : (s.attend listeners markers).network = s.network :=
  rfl

theorem expectedTokens?_attend : (s.attend listeners markers).expectedTokens? = s.expectedTokens? :=
  rfl

theorem announce_attend (d : Diagnostic) :
    (s.attend listeners markers).announce d = (s.announce d).attend listeners markers := by
  show (if s.window.isOpen then s.attend listeners markers else
    (s.openWindow.notify d).attend listeners markers) = _
  unfold announce
  split <;> rfl

theorem report_attend (f : Fault) :
    (s.attend listeners markers).report f = (s.report f).attend listeners markers := by
  have htold := s.announce_attend listeners markers (s.diagnostic f (s.faultMessage f))
  exact congrArg (Outcome.mk (s.report f).result) htold

theorem dropToken_attend (expected : KindSet) :
    (s.attend listeners markers).dropToken expected =
      (s.dropToken expected).attend listeners markers := by
  have htold : (s.attend listeners markers).announceSurplus expected =
      (s.announceSurplus expected).attend listeners markers := announce_attend ..
  simp only [dropToken, htold, input_attend, TokenStream.consume_withMarkers]
  rfl

theorem conjureToken_attend (expected : KindSet) (kind : TokenKind) :
    (s.attend listeners markers).conjureToken expected kind =
      (s.conjureToken expected kind).attend listeners markers := by
  have htold : (s.attend listeners markers).announceMissing expected =
      (s.announceMissing expected).attend listeners markers := announce_attend ..
  exact congrArg (Outcome.mk (s.conjureToken expected kind).result) htold

theorem repairExpecting_attend (expected : KindSet) :
    (s.attend listeners markers).repairExpecting expected =
      (s.repairExpecting expected).attend listeners markers := by
  have hdrop : (s.attend listeners markers).canDrop expected = s.canDrop expected := rfl
  have hkind : (s.attend listeners markers).conjuredKind? expected = s.conjuredKind? expected := rfl
  have hhalt : (s.attend listeners markers).config.haltOnError = s.config.haltOnError := rfl
  rw [repairExpecting, repairExpecting, hdrop, hkind, hhalt, dropToken_attend]
  split
  · rfl
  · split
    · rfl
    · cases s.conjuredKind? expected with
      | some kind => exact conjureToken_attend ..
      | none => rfl

theorem cancelExpecting_attend (expected : KindSet) :
    (s.attend listeners markers).cancelExpecting expected =
      (s.cancelExpecting expected).attend listeners markers := by
  have hreport := s.report_attend listeners markers
    (s.faultExpecting expected .inputMismatch s.input.current)
  have hfault : (s.attend listeners markers).faultExpecting expected .inputMismatch
      (s.attend listeners markers).input.current =
        s.faultExpecting expected .inputMismatch s.input.current := rfl
  simp only [cancelExpecting, hfault, hreport, Outcome.attend]
  cases (s.report _).result with
  | error e => rfl
  | ok => rfl

theorem repairInline?_attend (strategy : Strategy) :
    (s.attend listeners markers).repairInline? strategy =
      (s.repairInline? strategy).map (·.attend listeners markers) := by
  cases strategy with
  | repair =>
    rw [repairInline?, repairInline?, expectedTokens?_attend, Option.map_map]
    exact congrArg (s.expectedTokens?.map ·) (funext (s.repairExpecting_attend listeners markers))
  | bail =>
    rw [repairInline?, repairInline?, expectedTokens?_attend, Option.map_map]
    exact congrArg (s.expectedTokens?.map ·) (funext (s.cancelExpecting_attend listeners markers))

theorem matchSet?_attend (strategy : Strategy) (kinds : KindSet) :
    (s.attend listeners markers).matchSet? strategy kinds =
      (s.matchSet? strategy kinds).map (·.attend listeners markers) := by
  have hmatch : (s.attend listeners markers).matchCurrent =
      s.matchCurrent.attend listeners markers := by
    simp only [matchCurrent, input_attend, TokenStream.consume_withMarkers]
    rfl
  unfold matchSet?
  rw [hmatch, repairInline?_attend]
  show (if kinds.contains s.input.current.kind then _ else _) = _
  split <;> rfl

theorem resyncTo_attend (kinds : KindSet) :
    (s.attend listeners markers).resyncTo kinds =
      (s.resyncTo kinds).attend listeners markers := by
  have hstalled : (s.attend listeners markers).isStalled = s.isStalled := rfl
  unfold resyncTo
  rw [hstalled, input_attend, TokenStream.consume_withMarkers]
  split <;> rfl

theorem recover?_attend (f : Fault) (strategy : Strategy) :
    (s.attend listeners markers).recover? f strategy =
      (s.recover? f strategy).map (·.attend listeners markers) := by
  cases strategy with
  | repair =>
    have hset : (s.attend listeners markers).recoverySet? = s.recoverySet? := rfl
    rw [recover?, recover?, resync?, resync?, hset]
    cases s.recoverySet? with
    | none => rfl
    | some kinds =>
      simp only [Option.map_some, resyncTo_attend]
      rfl
  | bail => rfl

theorem handle?_attend (strategy : Strategy) (failure : Failure) :
    (s.attend listeners markers).handle? strategy failure =
      (s.handle? strategy failure).map (·.attend listeners markers) := by
  have hunreported : ∀ {f : Fault}, failure.unreported? = some f →
      (s.attend listeners markers).handle? strategy failure =
        (s.handle? strategy failure).map (·.attend listeners markers) := by
    intro f hf
    have hreport := s.report_attend listeners markers f
    have hresult : ((s.attend listeners markers).report f).result = (s.report f).result := rfl
    rcases s.result_report_cases f with h | h
    · rw [handle?_of_raised hf h, handle?_of_raised hf (hresult.trans h), hreport]
      rfl
    · rw [handle?_of_told hf h, handle?_of_told hf (hresult.trans h), hreport]
      exact recover?_attend ..
  cases failure with
  | detected f => exact hunreported rfl
  | unrecoverable f => exact hunreported rfl
  | reported f =>
    rw [handle?, handle?, recover?_attend]
    show (if s.config.haltOnError then _ else _) = _
    split <;> rfl
  | cancelled f => rfl

theorem sync?_attend (strategy : Strategy) :
    (s.attend listeners markers).sync? strategy =
      (s.sync? strategy).map (·.attend listeners markers) := by
  cases strategy with
  | repair =>
    have hstate : (s.attend listeners markers).state = s.state := rfl
    rw [sync?, sync?, realign?, realign?, network_attend, hstate, expectedTokens?_attend]
    cases s.network.nextTokens? s.state with
    | none => rfl
    | some next =>
      dsimp only
      show (if next.contains (s.input.peekKind 1) then _ else _) = _
      split
      · rfl
      · rw [Option.map_map]
        rfl
  | bail => rfl

theorem enterRule?_attend (rule : RuleIndex) :
    (s.attend listeners markers).enterRule? rule =
      (s.enterRule? rule).map (·.attend listeners markers) := by
  rw [enterRule?, enterRule?, network_attend]
  cases s.network.ruleStart? rule with
  | none => rfl
  | some start => rfl

theorem exitRule?_attend :
    (s.attend listeners markers).exitRule? =
      s.exitRule?.map (·.attend listeners markers) := by
  have hstack : (s.attend listeners markers).stack = s.stack := rfl
  rw [exitRule?, exitRule?, network_attend, hstack]
  cases s.stack with
  | nil => rfl
  | cons frame outer =>
    dsimp only
    cases frame.follow.or (s.network.ruleStop? frame.rule) with
    | none => rfl
    | some state => rfl

theorem checkPredicate?_attend (holds : Bool) (predicate : String) (message : Option String) :
    (s.attend listeners markers).checkPredicate? holds predicate message =
      (s.checkPredicate? holds predicate message).map (·.attend listeners markers) := by
  have hfault : (s.attend listeners markers).failedPredicate? predicate message =
      s.failedPredicate? predicate message := rfl
  unfold checkPredicate?
  rw [hfault]
  split
  · rfl
  · cases s.failedPredicate? predicate message with
    | none => rfl
    | some f =>
      simp only [Option.map_some, report_attend]
      rfl

theorem answer?_attend (query : Query) (hcount : query ≠ .outstandingMarkers)
    (hprint : query ≠ .summary) : (s.attend listeners markers).answer? query = s.answer? query := by
  cases query with
  | outstandingMarkers => exact absurd rfl hcount
  | summary => exact absurd rfl hprint
  | _ => rfl

-- what becomes of a function that leaves the attendance as it is, in general form
theorem exists_attend_map {α : Type} {before after : Option α} {attend : α → α}
    (form : α → Outcome Response) (h : after = before.map attend)
    (hform : ∀ a, form (attend a) = (form a).attend listeners markers) :
    ∃ listeners' markers', after.map form = (before.map form).map (·.attend listeners' markers') := by
  refine ⟨listeners, markers, ?_⟩
  rw [h, Option.map_map, Option.map_map]
  exact congrArg (before.map ·) (funext hform)

/-- Every other operation does the same, whoever attends. -/
theorem exists_perform?_attend (strategy : Strategy) {op : Operation}
    (hcount : op ≠ .ask .outstandingMarkers) (hprint : op ≠ .ask .summary) :
    ∃ listeners' markers', (s.attend listeners markers).perform? strategy op =
      (s.perform? strategy op).map (·.attend listeners' markers') := by
  cases op with
  | enterRule rule =>
    exact exists_attend_map _ _ became (s.enterRule?_attend listeners markers rule) fun _ => rfl
  | exitRule => exact exists_attend_map _ _ became (s.exitRule?_attend listeners markers) fun _ => rfl
  | matchKind k =>
    simp only [perform?, matchKind?_eq_matchSet?]
    exact exists_attend_map _ _ _ (s.matchSet?_attend listeners markers strategy _) fun _ => rfl
  | matchSet kinds =>
    exact exists_attend_map _ _ _ (s.matchSet?_attend listeners markers strategy kinds) fun _ => rfl
  | checkPredicate holds predicate message =>
    exact exists_attend_map _ _ _
      (s.checkPredicate?_attend listeners markers holds predicate message) fun _ => rfl
  | handle failure =>
    exact exists_attend_map _ _ _ (s.handle?_attend listeners markers strategy failure) fun _ => rfl
  | recover f =>
    exact exists_attend_map _ _ _ (s.recover?_attend listeners markers f strategy) fun _ => rfl
  | repairInline =>
    exact exists_attend_map _ _ _ (s.repairInline?_attend listeners markers strategy) fun _ => rfl
  | sync =>
    exact exists_attend_map _ _ became (s.sync?_attend listeners markers strategy) fun _ => rfl
  | report f =>
    refine ⟨listeners, markers, ?_⟩
    rw [perform?, report_attend]
    rfl
  | consume =>
    refine ⟨listeners, markers, ?_⟩
    rw [perform?, input_attend, TokenStream.consume_withMarkers]
    rfl
  | ask query =>
    refine ⟨listeners, markers, ?_⟩
    have hanswer := s.answer?_attend listeners markers query (fun h => hcount (by rw [h]))
      (fun h => hprint (by rw [h]))
    rw [perform?, perform?, hanswer, Option.map_map]
    rfl
  | mark => exact ⟨listeners, markers + 1, rfl⟩
  | release => exact ⟨listeners, markers - 1, rfl⟩
  | subscribe mailbox => exact ⟨listeners ++ [mailbox], markers, rfl⟩
  | setState | reset | openWindow | closeWindow | setWindow | seek | notify | takeDiagnostics =>
    exact ⟨listeners, markers, rfl⟩

end Attend

/-! ## Two sessions at the same place -/

/-- The same parse of the same input, at the same place. Who listens and how many places are
remembered is left open. -/
structure SameParse (s t : Session) : Prop extends s.SameGivens t where
  index_eq : t.input.index = s.input.index
  stack_eq : t.stack = s.stack
  state_eq : t.state = s.state
  window_eq : t.window = s.window
  diagnostics_eq : t.diagnostics = s.diagnostics
  errorCount_eq : t.errorCount = s.errorCount

variable {s t : Session}

theorem sameParse_attend (s : Session) (listeners : List Nat) (markers : Nat) :
    s.SameParse (s.attend listeners markers) :=
  ⟨⟨rfl, rfl, rfl, rfl⟩, rfl, rfl, rfl, rfl, rfl, rfl⟩

theorem SameParse.symm (h : s.SameParse t) : t.SameParse s :=
  ⟨⟨h.network_eq.symm, h.vocabulary_eq.symm, h.config_eq.symm, h.tokens_eq.symm⟩, h.index_eq.symm,
    h.stack_eq.symm, h.state_eq.symm, h.window_eq.symm, h.diagnostics_eq.symm, h.errorCount_eq.symm⟩

theorem SameParse.eq_attend (h : s.SameParse t) : t = s.attend t.listeners t.input.markers := by
  have hinput := TokenStream.eq_withMarkers h.tokens_eq h.index_eq
  obtain ⟨⟨hnetwork, hvocabulary, hconfig, -⟩, -, hstack, hstate, hwindow, hdiagnostics, hcount⟩ := h
  cases t
  simp only at hnetwork hvocabulary hconfig hinput hstack hstate hwindow hdiagnostics hcount
  subst hnetwork hvocabulary hconfig hstack hstate hwindow hdiagnostics hcount
  simp only [attend, ← hinput]

end Session

/-- The same is done to the same parse, and the same comes of it. A session in print shows how many
listen. -/
structure Event.Alike (e e' : Event) : Prop where
  strategy_eq : e'.strategy = e.strategy
  op_eq : e'.op = e.op
  before : e.before.SameParse e'.before
  after : e.after.SameParse e'.after
  result_eq : e.op ≠ .ask .summary → e'.outcome.result = e.outcome.result
  printed : e.op = .ask .summary → e'.outcome.result =
    .ok (.text { e.before with listeners := e'.before.listeners }.summary)

namespace Session

variable {s t : Session}

/-- What can be done at a place can be done wherever the parse is at the same place. -/
theorem SameParse.exists_alike {e : Event} (h : e.before.SameParse t) (he : e.Happens)
    (hcount : e.op ≠ .ask .outstandingMarkers) :
    ∃ e', e'.before = t ∧ e'.Happens ∧ e.Alike e' := by
  have ht := h.eq_attend
  by_cases hprint : e.op = .ask .summary
  · have hbefore : e.before.perform? e.strategy e.op =
        some ⟨.ok (.text e.before.summary), e.before⟩ := by
      rw [hprint]
      rfl
    have hafter : e.after = e.before := by
      rw [Event.after, Option.some.inj (he.symm.trans hbefore)]
    refine ⟨⟨t, e.strategy, e.op, ⟨.ok (.text t.summary), t⟩⟩, rfl, ?_, ?_⟩
    · show t.perform? e.strategy e.op = _
      rw [hprint]
      rfl
    · have hsummary : t.summary = { e.before with listeners := t.listeners }.summary := by
        rw [ht]
        rfl
      exact ⟨rfl, rfl, h, hafter ▸ h, fun hne => absurd hprint hne, fun _ => by rw [hsummary]⟩
  · obtain ⟨listeners, markers, hperform⟩ :=
      e.before.exists_perform?_attend t.listeners t.input.markers e.strategy hcount hprint
    rw [← ht, he] at hperform
    exact ⟨⟨t, e.strategy, e.op, e.outcome.attend listeners markers⟩, rfl, hperform,
      ⟨rfl, rfl, h, sameParse_attend .., fun _ => rfl, fun heq => absurd heq hprint⟩⟩

/-- Whatever can be done from one session on, short of asking for the count of remembered places, can
be done from the other, and each step goes alike. -/
def GoesLike (s t : Session) : Prop :=
  ∀ events last, Run s events last → (∀ e ∈ events, e.op ≠ .ask .outstandingMarkers) →
    ∃ events' last', Run t events' last' ∧ last.SameParse last' ∧
      List.Forall₂ Event.Alike events events'

theorem SameParse.goesLike (h : s.SameParse t) : s.GoesLike t := by
  intro events last hrun hcount
  induction hrun with
  | start => exact ⟨[], t, .start, h, .nil⟩
  | @step events e _ he ih =>
    obtain ⟨hop, hcount⟩ := List.forall_mem_cons.mp hcount
    obtain ⟨events', last', hrun', hlast, halike⟩ := ih hcount
    obtain ⟨e', rfl, he', hevent⟩ := hlast.exists_alike he hop
    exact ⟨e' :: events', e'.after, .step hrun' he', hevent.after, .cons hevent halike⟩

theorem reset_sameParse_new {network : Network} {vocabulary : Vocabulary} {config : RecoveryConfig}
    {input fresh : TokenStream} {last : Session}
    (h : (new network vocabulary config input).SameGivens last) (htokens : fresh.tokens = input.tokens)
    (hindex : fresh.index = 0) : last.reset.SameParse (new network vocabulary config fresh) where
  network_eq := h.network_eq.symm
  vocabulary_eq := h.vocabulary_eq.symm
  config_eq := h.config_eq.symm
  tokens_eq := htokens.trans h.tokens_eq.symm
  index_eq := hindex.trans (Nat.zero_min _).symm
  stack_eq := rfl
  state_eq := rfl
  window_eq := rfl
  diagnostics_eq := rfl
  errorCount_eq := rfl

/-- Whatever was done before, a parse that is started over and a new session over the same input at its
first token go alike, either way round. -/
theorem reset_starts_fresh {network : Network} {vocabulary : Vocabulary} {config : RecoveryConfig}
    {input fresh : TokenStream} {past : List Event} {last : Session}
    (hpast : Run (new network vocabulary config input) past last)
    (htokens : fresh.tokens = input.tokens) (hindex : fresh.index = 0) :
    last.reset.GoesLike (new network vocabulary config fresh) ∧
      (new network vocabulary config fresh).GoesLike last.reset := by
  have hsame := reset_sameParse_new hpast.sameGivens htokens hindex
  exact ⟨hsame.goesLike, hsame.symm.goesLike⟩

/-! ### A parse given up in the middle -/

/-- A sum over other tokens than the rules want. -/
def abandonedSession : Session :=
  new Network.sumNetwork {} {} (.ofKinds [3, 2, 1])

/-- Someone listens, rules are entered and not left, a match fails and opens a window, recovery notes
where it was, what was reported is taken away, and the cursor is moved by hand. -/
def abandonedSteps : List (Strategy × Operation) :=
  [(.repair, .subscribe 7), (.repair, .mark), (.repair, .enterRule 0), (.repair, .enterRule 1),
    (.bail, .matchKind 1), (.repair, .recover default), (.repair, .takeDiagnostics), (.repair, .seek 2)]

theorem reset_starts_fresh_abandonedSteps :
    ∃ past last, Run abandonedSession past last ∧
      (∀ e ∈ past, (e.strategy, e.op) ∈ abandonedSteps) ∧
      (last.listeners = [7] ∧ last.input.markers = 1) ∧
      (last.input.index = 2 ∧ last.stack.length = 2 ∧ last.errorCount = 1) ∧
      (last.window.isOpen = true ∧ last.window.resyncIndex ≠ none) ∧
      last.reset.GoesLike abandonedSession ∧ abandonedSession.GoesLike last.reset := by
  have hend : (abandonedSession.run? abandonedSteps).map (fun final =>
      ((final.2.listeners, final.2.input.markers),
        (final.2.input.index, final.2.stack.length, final.2.errorCount),
        (final.2.window.isOpen, final.2.window.resyncIndex))) =
      some (([7], 1), (2, 2, 1), (true, some 0)) := by
    decide +kernel
  obtain ⟨⟨answers, last⟩, hrun, hlast⟩ := Option.map_eq_some_iff.mp hend
  obtain ⟨past, hpast, hsteps⟩ := Run.exists_run hrun
  simp only [Prod.mk.injEq] at hlast
  obtain ⟨hattendance, hplace, hopen, hresync⟩ := hlast
  refine ⟨past, last, hpast, hsteps, hattendance, hplace, ⟨hopen, ?_⟩,
    reset_starts_fresh hpast rfl rfl⟩
  rw [hresync]
  exact Option.some_ne_none 0

end Session

end ParseRecovery
