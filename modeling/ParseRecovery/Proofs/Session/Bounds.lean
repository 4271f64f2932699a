import ParseRecovery.Proofs.Session.Delivery
import ParseRecovery.Proofs.Session.Progress

/-!
Whatever a session reaches for is there. Over a built network with at least one rule, the current
state and the rules and follow states of the stack stay in range (`Session.Grounded`), whatever is
done: parsing under either policy, opening and closing windows, moving the cursor by hand, starting
over. So no operation asks for a state or a rule that is missing, and none looks past the tokens. Main
statement: every run of operations is defined, and every question can be answered after it
(`Session.run?_stays_inBounds`).
-/

namespace ParseRecovery

/-- The state or the rule that the operation goes to is there. -/
def Operation.isWithin (n : Network) : Operation → Bool
  | .enterRule rule => decide (rule < n.rules.size)
  | .setState state => decide (state < n.states.size)
  | _ => true

namespace TokenStream

/-- No sum that is taken for the column behind a token goes beyond a 32-bit word. -/
def FitsColumns (s : TokenStream) : Prop :=
  ∀ t ∈ s.tokens, t.span.columnSum < 0x100000000

theorem fitsColumns_ofTokens {tokens : List Token}
    (h : ∀ t ∈ tokens, t.span.columnSum < 0x100000000) : (ofTokens tokens).FitsColumns := by
  have hterminated : ∀ t ∈ terminated tokens, t.span.columnSum < 0x100000000 := by
    intro t ht
    unfold terminated at ht
    split at ht
    · rw [List.mem_singleton.mp ht]
      decide
    · rename_i last hlast
      split at ht
      · exact h t ht
      · rcases List.mem_append.mp ht with ht | ht
        · exact h t ht
        · -- the sentinel has no width, so nothing is added to the column it stands at
          rw [List.mem_singleton.mp ht]
          have hlt := h last (List.mem_of_getLast? hlast)
          have hwidth : (Token.eof last.span.after).span.columnSum = last.span.after.column := by
            simp [Token.eof, Span.columnSum, Span.after, Span.length]
          rw [hwidth, Span.column_after hlt]
          exact hlt
  intro t ht
  have hmem : t ∈ numbered (terminated tokens) := by
    simpa [ofTokens] using ht
  obtain ⟨i, hi, rfl⟩ := List.mem_mapIdx.mp hmem
  -- numbering a token leaves its span as it is
  show (terminated tokens)[i].span.columnSum < _
  exact hterminated _ (List.getElem_mem hi)

theorem current_mem (s : TokenStream) : s.current ∈ s.tokens :=
  Array.mem_of_getElem? s.get?_index

theorem mem_of_peek? {s : TokenStream} {n : Int} {t : Token} (h : s.peek? n = some t) :
    t ∈ s.tokens := by
  obtain ⟨i, -, hi⟩ := Option.bind_eq_some_iff.mp h
  exact Array.mem_of_getElem? hi

end TokenStream

namespace Session

/-- The column of a placeholder is a 32-bit word. At the end of the input, where it is added up, it is the
whole sum: nothing is lost when the sum is reduced. -/
structure FitsPlace (s : Session) : Prop where
  column_lt : s.conjuredPlace.column < 0x100000000
  column_eq : ∀ before, s.input.peek? (-1) = some before → s.input.atEof = true →
    s.conjuredPlace.column = before.span.columnSum

theorem fitsPlace {s : Session} (h : s.input.FitsColumns) : s.FitsPlace where
  column_lt := by
    have hcurrent : s.input.current.span.column < 0x100000000 :=
      Nat.lt_of_le_of_lt (Nat.le_add_right _ _) (h _ s.input.current_mem)
    unfold conjuredPlace
    split
    · split
      · exact Nat.mod_lt _ (by decide)
      · exact hcurrent
    · exact hcurrent
  column_eq := by
    intro before hbefore heof
    rw [conjuredPlace, hbefore]
    dsimp only
    rw [if_pos heof, Span.column_after (h before (TokenStream.mem_of_peek? hbefore))]

/-- Whatever the session stands on is there. -/
structure Grounded (s : Session) : Prop where
  formed : s.network.Formed
  state_lt : s.state < s.network.states.size
  entered : Entered s.network s.stack

variable {s : Session} {strategy : Strategy} {op : Operation} {o : Outcome Response}

theorem Entered.rule_lt {n : Network} (hn : n.Formed) {stack : Stack} (h : Entered n stack) :
    ∀ frame ∈ stack, frame.rule < n.rules.size := by
  induction stack with
  | nil =>
    intro frame hframe
    cases hframe
  | cons inner outer ih =>
    obtain ⟨houter, hrule, -⟩ := h.of_cons hn
    exact List.forall_mem_cons.mpr ⟨hrule, ih houter⟩

/-! ## What can be asked for -/

namespace Grounded

theorem exists_expectedTokens? (hs : s.Grounded) : ∃ expected, s.expectedTokens? = some expected := by
  obtain ⟨next, all, -, hall, -⟩ :=
    Network.exists_expectedTokens? hs.formed hs.state_lt (hs.entered.follows_lt hs.formed)
  exact ⟨all, hall⟩

theorem exists_fault? (hs : s.Grounded) (cause : Cause) (offending : Token) :
    ∃ f, s.fault? cause offending = some f := by
  obtain ⟨expected, hexpected⟩ := hs.exists_expectedTokens?
  exact ⟨_, by rw [fault?, hexpected]; rfl⟩

theorem exists_answer? (hs : s.Grounded) (query : Query) :
    ∃ response, s.answer? query = some response := by
  have hfault : ∀ cause offending, ∃ response,
      (s.fault? cause offending).map Response.fault = some response := by
    intro cause offending
    obtain ⟨f, hf⟩ := hs.exists_fault? cause offending
    exact ⟨.fault f, by rw [hf]; rfl⟩
  cases query with
  | expected =>
    obtain ⟨expected, hexpected⟩ := hs.exists_expectedTokens?
    exact ⟨.kinds expected, by rw [answer?, hexpected]; rfl⟩
  | next =>
    obtain ⟨next, hnext⟩ := hs.formed.exists_nextTokens? hs.state_lt
    exact ⟨.kinds next, by rw [answer?, hnext]; rfl⟩
  | recoverySet =>
    obtain ⟨kinds, hkinds, -⟩ :=
      Network.exists_recoverySet? hs.formed (hs.entered.follows_lt hs.formed)
    exact ⟨.kinds kinds, by rw [answer?, recoverySet?, hkinds]; rfl⟩
  | mismatch => exact hfault _ _
  | mismatchAt offending => exact hfault _ _
  | noViableAlternative start => exact hfault _ _
  | failedPredicate predicate message => exact hfault _ _
  | peekKind | peek | token | currentToken | inputSize | atEof | inWindow | outstandingMarkers | stack
  | config | diagnostics | summary => exact ⟨_, rfl⟩

/-! ## What is kept -/

theorem of_sameGivens {t : Session} (hs : s.Grounded) (hgivens : s.SameGivens t)
    (hstate : t.state < s.network.states.size) (hstack : Entered s.network t.stack) :
    t.Grounded := by
  constructor
  · rw [hgivens.network_eq]
    exact hs.formed
  · rw [hgivens.network_eq]
    exact hstate
  · rw [hgivens.network_eq]
    exact hstack

theorem tells {told : Session} (hs : s.Grounded) (h : s.Tells told) : told.Grounded := by
  apply hs.of_sameGivens h.sameGivens
  · rw [h.state_eq]
    exact hs.state_lt
  · rw [h.stack_eq]
    exact hs.entered

end Grounded

theorem Places.state_lt {after : Session} (h : s.Places op after) (hs : s.Grounded)
    (hop : op.isWithin s.network = true) : after.state < s.network.states.size := by
  cases h with
  | enter h =>
    obtain ⟨start, hstart, rfl⟩ := eq_of_enterRule? h
    obtain ⟨st, hst, -⟩ := hs.formed.start hstart
    exact Network.exists_state?_iff.mp ⟨st, hst⟩
  | exit h =>
    cases hstack : s.stack with
    | nil =>
      rw [exitRule?, hstack] at h
      cases h
      exact hs.state_lt
    | cons frame outer =>
      obtain ⟨home, hexit, hhome, -⟩ := hs.entered.exists_exitRule? hs.formed hstack
      cases h.symm.trans hexit
      exact hhome
  | set state => exact of_decide_eq_true hop

theorem Change.state_lt {after : Session} (h : s.Change op after) (hs : s.Grounded)
    (hop : op.isWithin s.network = true) : after.state < s.network.states.size := by
  cases h with
  | placed h => exact h.state_lt hs hop
  | restarted => exact Nat.zero_lt_of_lt hs.state_lt
  | matched => exact hs.state_lt
  | dropped =>
    show (s.announceSurplus _).state < _
    rw [announceSurplus, state_announce]
    exact hs.state_lt
  | told h =>
    rw [h.state_eq]
    exact hs.state_lt
  | @resumed op told h kinds =>
    show told.state < _
    rw [h.state_eq]
    exact hs.state_lt
  | realigned => exact hs.state_lt

theorem Grounded.perform? (hs : s.Grounded) (hop : op.isWithin s.network = true)
    (h : s.perform? strategy op = some o) : o.session.Grounded := by
  apply hs.of_sameGivens (sameGivens_of_perform? h)
  · cases hparsing : op.isParsing with
    | true => exact (effect_of_perform? hparsing h).change.state_lt hs hop
    | false =>
      rw [(eq_of_not_isParsing hparsing h).2.1]
      exact hs.state_lt
  · cases hparsing : op.isParsing with
    | true => exact (effect_of_perform? hparsing h).change.entered hs.formed hs.entered
    | false =>
      rw [(eq_of_not_isParsing hparsing h).2.2]
      exact hs.entered

/-! ## What can be done -/

theorem exists_enterRule? {rule : RuleIndex} (hrule : rule < s.network.rules.size) :
    ∃ after, s.enterRule? rule = some after := by
  have hstart : s.network.ruleStart? rule = some s.network.rules[rule].start := by
    rw [Network.ruleStart?, Array.getElem?_eq_getElem hrule]
    rfl
  exact ⟨_, by rw [enterRule?, hstart]⟩

namespace Grounded

theorem exists_repairInline? (hs : s.Grounded) (strategy : Strategy) :
    ∃ outcome, s.repairInline? strategy = some outcome := by
  obtain ⟨expected, hexpected⟩ := hs.exists_expectedTokens?
  cases strategy with
  | repair => exact ⟨_, by rw [repairInline?, hexpected]; rfl⟩
  | bail => exact ⟨_, by rw [repairInline?, hexpected]; rfl⟩

theorem exists_matchSet? (hs : s.Grounded) (strategy : Strategy) (kinds : KindSet) :
    ∃ outcome, s.matchSet? strategy kinds = some outcome := by
  unfold matchSet?
  split
  · exact ⟨_, rfl⟩
  · exact hs.exists_repairInline? strategy

theorem exists_recover? (hs : s.Grounded) (strategy : Strategy) (f : Fault) :
    ∃ outcome, s.recover? f strategy = some outcome := by
  cases strategy with
  | repair =>
    obtain ⟨kinds, hresync, -⟩ := hs.entered.exists_resync? hs.formed
    exact ⟨_, by rw [recover?, hresync]; rfl⟩
  | bail => exact ⟨_, rfl⟩

theorem exists_handle? (hs : s.Grounded) (strategy : Strategy) (failure : Failure) :
    ∃ outcome, s.handle? strategy failure = some outcome := by
  have hunreported : ∀ {f : Fault}, failure.unreported? = some f →
      ∃ outcome, s.handle? strategy failure = some outcome := by
    intro f hf
    rcases s.result_report_cases f with hraised | htold
    · exact ⟨_, handle?_of_raised hf hraised⟩
    · rw [handle?_of_told hf htold]
      exact (hs.tells (.announced _)).exists_recover? strategy f
  cases failure with
  | detected f => exact hunreported rfl
  | unrecoverable f => exact hunreported rfl
  | reported f =>
    rw [handle?]
    split
    · exact ⟨_, rfl⟩
    · exact hs.exists_recover? strategy f
  | cancelled f => exact ⟨_, rfl⟩

theorem exists_sync? (hs : s.Grounded) (strategy : Strategy) :
    ∃ after, s.sync? strategy = some after := by
  cases strategy with
  | repair =>
    obtain ⟨next, hnext⟩ := hs.formed.exists_nextTokens? hs.state_lt
    obtain ⟨expected, hexpected⟩ := hs.exists_expectedTokens?
    rw [sync?, realign?, hnext, hexpected]
    dsimp only
    split
    · exact ⟨_, rfl⟩
    · exact ⟨_, rfl⟩
  | bail => exact ⟨s, rfl⟩

theorem exists_exitRule? (hs : s.Grounded) : ∃ after, s.exitRule? = some after := by
  cases hstack : s.stack with
  | nil => exact ⟨s, by rw [exitRule?, hstack]⟩
  | cons frame outer =>
    obtain ⟨home, hexit, -⟩ := hs.entered.exists_exitRule? hs.formed hstack
    exact ⟨_, hexit⟩

/-- Every operation within the network can be performed. -/
theorem exists_perform? (hs : s.Grounded) (strategy : Strategy)
    (hop : op.isWithin s.network = true) : ∃ o, s.perform? strategy op = some o := by
  have hmap : ∀ {α β : Type} {result : Option α} (g : α → β), (∃ a, result = some a) →
      ∃ b, result.map g = some b := by
    rintro α β result g ⟨a, rfl⟩
    exact ⟨g a, rfl⟩
  cases op with
  | enterRule rule => exact hmap became (Session.exists_enterRule? (of_decide_eq_true hop))
  | exitRule => exact hmap became hs.exists_exitRule?
  | matchKind k =>
    apply hmap (Outcome.respond .symbol)
    rw [matchKind?_eq_matchSet?]
    exact hs.exists_matchSet? strategy _
  | matchSet kinds => exact hmap (Outcome.respond .symbol) (hs.exists_matchSet? strategy kinds)
  | checkPredicate holds predicate message =>
    apply hmap (Outcome.respond fun _ => .done)
    rw [checkPredicate?]
    split
    · exact ⟨_, rfl⟩
    · exact hmap _ (hs.exists_fault? _ _)
  | handle failure => exact hmap (Outcome.respond fun _ => .done) (hs.exists_handle? strategy failure)
  | recover f => exact hmap (Outcome.respond fun _ => .done) (hs.exists_recover? strategy f)
  | repairInline => exact hmap (Outcome.respond .symbol) (hs.exists_repairInline? strategy)
  | sync => exact hmap became (hs.exists_sync? strategy)
  | ask query =>
    exact hmap (fun response => (⟨.ok response, s⟩ : Outcome Response)) (hs.exists_answer? query)
  | setState | reset | report | openWindow | closeWindow | setWindow | seek | consume | mark | release
  | subscribe | notify | takeDiagnostics => exact ⟨_, rfl⟩

theorem exists_run? (hs : s.Grounded) {steps : List (Strategy × Operation)}
    (hsteps : ∀ step ∈ steps, step.2.isWithin s.network = true) :
    ∃ answers last, s.run? steps = some (answers, last) ∧ s.SameGivens last ∧ last.Grounded := by
  induction steps generalizing s with
  | nil => exact ⟨[], s, rfl, .refl s, hs⟩
  | cons step rest ih =>
    obtain ⟨strategy, op⟩ := step
    obtain ⟨hop, hrest⟩ := List.forall_mem_cons.mp hsteps
    obtain ⟨o, ho⟩ := hs.exists_perform? strategy hop
    have hgivens := sameGivens_of_perform? ho
    -- the steps that are left are within the same network
    rw [← hgivens.network_eq] at hrest
    obtain ⟨answers, last, hrun, hrestGivens, hlast⟩ := ih (hs.perform? hop ho) hrest
    have hall := run?_cons_iff.mpr ⟨o, answers, ho, hrun, rfl⟩
    exact ⟨o.result :: answers, last, hall, hgivens.trans hrestGivens, hlast⟩

end Grounded

/-! ## Runs -/

theorem grounded_new {network : Network} (vocabulary : Vocabulary) (config : RecoveryConfig)
    (input : TokenStream) (hn : network.Formed) (hrules : 0 < network.rules.size) :
    (new network vocabulary config input).Grounded where
  formed := hn
  state_lt := by
    -- the first rule has a start, so there are states
    have hstart : network.ruleStart? 0 = some network.rules[0].start := by
      rw [Network.ruleStart?, Array.getElem?_eq_getElem hrules]
      rfl
    obtain ⟨st, hst, -⟩ := hn.start hstart
    exact Nat.zero_lt_of_lt (Network.exists_state?_iff.mp ⟨st, hst⟩)
  entered := .nil

/-- Whatever can be asked of the session is there. -/
structure InBounds (s : Session) : Prop where
  state_lt : s.state < s.network.states.size
  rule_lt : ∀ frame ∈ s.stack, frame.rule < s.network.rules.size
  follow_lt : ∀ follow ∈ Network.follows s.stack, follow < s.network.states.size
  /-- looking ahead or back, to any distance, comes to a token of the input if to any place -/
  place_lt : ∀ n i, s.input.place? n = some i → i < s.input.size
  /-- the sums of columns, for a sentinel or a placeholder, are 32-bit words before they are reduced -/
  column_lt : (∀ t ∈ s.input.tokens, t.span.columnSum < 0x100000000) ∧ s.FitsPlace
  answers : ∀ query, ∃ response, s.answer? query = some response

theorem Grounded.inBounds (hs : s.Grounded) (hinput : s.input.FitsColumns) : s.InBounds where
  state_lt := hs.state_lt
  rule_lt := hs.entered.rule_lt hs.formed
  follow_lt := hs.entered.follows_lt hs.formed
  place_lt _ _ := TokenStream.place?_lt
  column_lt := ⟨hinput, fitsPlace hinput⟩
  answers := hs.exists_answer?

/-- Every run of operations on a fresh session over a built network with a rule, each under its own
policy, is defined if it enters declared rules and sets states that are there. Nothing is out of range
after it. The first steps of a run are a run, too, so this holds after each step. -/
theorem run?_stays_inBounds {network : Network} (vocabulary : Vocabulary) (config : RecoveryConfig)
    {tokens : List Token} {steps : List (Strategy × Operation)} (hbuilt : network.IsBuilt)
    (hrules : 0 < network.rules.size) (htokens : ∀ t ∈ tokens, t.span.columnSum < 0x100000000)
    (hsteps : ∀ step ∈ steps, step.2.isWithin network = true) :
    ∃ answers last,
      (new network vocabulary config (.ofTokens tokens)).run? steps = some (answers, last) ∧
        last.InBounds := by
  have hs := grounded_new vocabulary config (.ofTokens tokens) hbuilt.formed hrules
  obtain ⟨answers, last, hrun, hgivens, hlast⟩ := hs.exists_run? hsteps
  have hcolumns : last.input.FitsColumns := by
    intro t ht
    rw [hgivens.tokens_eq] at ht
    exact TokenStream.fitsColumns_ofTokens htokens t ht
  exact ⟨answers, last, hrun, hlast.inBounds hcolumns⟩

/-! ### A run that goes astray -/

def strayTokens : List Token :=
  [⟨2, "+", ⟨0, 1, 1, 1⟩, none⟩, ⟨1, "a", ⟨2, 3, 1, 3⟩, none⟩]

/-- A rule is entered from a state that does not call it and left for its stop, the file is left twice,
and behind a match that is given up the cursor is moved past the end of the input. -/
def straySteps : List (Strategy × Operation) :=
  [(.repair, .enterRule 0), (.repair, .setState 6), (.repair, .enterRule 2), (.repair, .exitRule),
    (.repair, .exitRule), (.repair, .exitRule), (.bail, .matchKind 3), (.repair, .seek 9),
    (.repair, .matchKind 1), (.repair, .sync), (.repair, .reset), (.repair, .ask .recoverySet)]

theorem run?_stays_inBounds_straySteps :
    Network.sumNetwork.IsBuilt ∧ 0 < Network.sumNetwork.rules.size ∧
      (∀ t ∈ strayTokens, t.span.columnSum < 0x100000000) ∧
      (∀ step ∈ straySteps, step.2.isWithin Network.sumNetwork = true) ∧
      ∃ answers last, (new Network.sumNetwork {} {} (.ofTokens strayTokens)).run? straySteps =
        some (answers, last) ∧ last.InBounds := by
  have hrules : 0 < Network.sumNetwork.rules.size := by decide
  have htokens : ∀ t ∈ strayTokens, t.span.columnSum < 0x100000000 := by decide
  have hsteps : ∀ step ∈ straySteps, step.2.isWithin Network.sumNetwork = true := by decide
  exact ⟨Network.isBuilt_sumNetwork, hrules, htokens, hsteps,
    run?_stays_inBounds {} {} Network.isBuilt_sumNetwork hrules htokens hsteps⟩

end Session

end ParseRecovery
