import ParseRecovery.Proofs.Session.Progress

/-!
What becomes of the tokens that a parse leaves behind, where errors are not repaired: under the
bailing policy, or under the repairing one if every error is raised. There the cursor stays, moves past
a token that was matched, or is realigned before a decision (`Event.moves_of_effect`). Main statement:
in a parse that raises every error, each token behind the cursor was matched, or a realignment dropped
it because it could not come next (`Run.spends_tokens`). The latter does happen, and no error is told
(`not_all_matched_haltedSteps`).
-/

namespace ParseRecovery

/-- Steps of a parser as long as nothing fails. -/
def Operation.isDriving : Operation → Bool
  | .enterRule _ | .exitRule | .setState _ | .matchKind _ | .matchSet _ | .checkPredicate ..
  | .sync => true
  | _ => false

/-- The step of a parser when a rule has failed. -/
def Operation.isHandling : Operation → Bool
  | .handle _ => true
  | _ => false

theorem Operation.isParsing_of_isDriving {op : Operation} (h : op.isDriving = true) :
    op.isParsing = true := by
  cases op with
  | enterRule | exitRule | setState | matchKind | matchSet | checkPredicate | sync => rfl
  | _ => cases h

theorem Operation.isParsing_of_isHandling {op : Operation} (h : op.isHandling = true) :
    op.isParsing = true := by
  cases op with
  | handle => rfl
  | _ => cases h

namespace Event

/-- A match was asked for, and gave the token. -/
structure Matched (e : Event) (t : Token) : Prop where
  asked : (∃ k, e.op = .matchKind k) ∨ ∃ kinds, e.op = .matchSet kinds
  result_eq : e.outcome.result = .ok (.symbol (.found t))

/-- The token was passed over before a decision, since it could not come next. -/
structure Dropped (e : Event) (t : Token) : Prop where
  op_eq : e.op = .sync
  not_eof : t.isEof = false
  unexpected : ∃ expected, e.before.expectedTokens? = some expected ∧ t.kind ∉ expected

/-- The step moves the cursor past a place. -/
def Passes (e : Event) (i : Nat) : Prop :=
  e.before.input.index ≤ i ∧ i < e.after.input.index

/-- Where a step leaves the cursor if it repairs nothing. -/
inductive Moves (e : Event) : Prop
  | stays (h : e.after.input = e.before.input)
  | matched (h : e.Matched e.before.input.current) (hafter : e.after.input = e.before.input.consume)
  | realigned (hstrategy : e.strategy = .repair) (hop : e.op = .sync) {expected : KindSet}
      (hexpected : e.before.expectedTokens? = some expected)
      (hafter : e.after.input = e.before.input.skipUntil expected.contains)

variable {e : Event}

theorem moves_of_effect (hop : e.op.isDriving = true ∨ e.op.isHandling = true)
    (hcareful : e.strategy = .bail ∨ e.before.config.haltOnError = true)
    (h : e.before.Effect e.strategy e.op e.outcome) : e.Moves := by
  obtain ⟨s, strategy, op, o⟩ := e
  change op.isDriving = true ∨ op.isHandling = true at hop
  change strategy = .bail ∨ s.config.haltOnError = true at hcareful
  change s.Effect strategy op o at h
  cases h with
  | @placed _ _ after h =>
    apply Moves.stays
    show after.input = s.input
    rw [h.eq]
  | matched h =>
    refine .matched ⟨?_, rfl⟩ rfl
    cases h with
    | kind => exact .inl ⟨_, rfl⟩
    | set => exact .inr ⟨_, rfl⟩
  | @cancelled op expected =>
    apply Moves.stays
    show (s.cancelExpecting expected).session.input = s.input
    rw [Session.session_cancelExpecting]
    exact s.input_announce _
  | gaveUp => exact .stays rfl
  | held => exact .stays rfl
  | refused => exact .stays (s.input_announce _)
  | raised => exact .stays (s.input_announce _)
  | halted => exact .stays rfl
  | forwarded => exact .stays rfl
  | abandoned hresumes => exact .stays hresumes.tells.samePlace.input_eq
  | aligned => exact .stays rfl
  | realigned hexpected => exact .realigned rfl rfl hexpected rfl
  -- repairing takes a policy that repairs, and errors that are not all raised
  | dropped _ _ hgoes => simp [hgoes] at hcareful
  | conjured _ _ hgoes => simp [hgoes] at hcareful
  | resumed hresumes =>
    have hhalt : s.config.haltOnError = true := by simpa using hcareful
    cases hresumes with
    | direct => simp [Operation.isDriving, Operation.isHandling] at hop
    | reported hgoes => simp [hgoes] at hhalt
    | unreported _ htold => simp [Session.report, hhalt] at htold
  | restarted => simp [Operation.isDriving, Operation.isHandling] at hop
  | told => simp [Operation.isDriving, Operation.isHandling] at hop
  | answered => simp [Operation.isDriving, Operation.isHandling] at hop

/-- What such a step passes was matched at its place, or dropped. -/
theorem Moves.spent (h : e.Moves) {i : Nat} {t : Token} (ht : e.before.input.get? i = some t)
    (hpasses : e.Passes i) : e.before.input.index = i ∧ e.Matched t ∨ e.Dropped t := by
  obtain ⟨hle, hlt⟩ := hpasses
  cases h with
  | stays h =>
    rw [h] at hlt
    omega
  | matched h hafter =>
    rw [hafter, TokenStream.index_consume] at hlt
    have hi : e.before.input.index = i := by omega
    have hcurrent : e.before.input.current = t := by
      rw [← hi, TokenStream.get?_index] at ht
      exact Option.some.inj ht
    rw [hcurrent] at h
    exact .inl ⟨hi, h⟩
  | realigned _ hop hexpected hafter =>
    rw [hafter] at hlt
    have hnot := (e.before.input.leastFrom_skipUntil _).2.2 i t hle hlt ht
    rw [not_or, Bool.not_eq_true, SortedSet.contains_eq_true_iff] at hnot
    exact .inr ⟨hop, hnot.1, _, hexpected, hnot.2⟩

end Event

/-! ## Runs -/

namespace Run

variable {s last : Session} {events : List Event}

/-- What the cursor has passed was passed by one of the steps. -/
theorem exists_passes (h : Run s events last) {i : Nat} (hle : s.input.index ≤ i)
    (hlt : i < last.input.index) : ∃ e ∈ events, e.Passes i := by
  induction h with
  | start => omega
  | @step events e h he ih =>
    by_cases hold : i < e.before.input.index
    · obtain ⟨earlier, hmem, hpasses⟩ := ih hold
      exact ⟨earlier, List.mem_cons_of_mem _ hmem, hpasses⟩
    · exact ⟨e, List.mem_cons_self, Nat.le_of_not_lt hold, hlt⟩

/-- In a parse from a fresh session that raises every error, under either policy, each token that the
cursor has passed was given by a match at its place, or a realignment dropped it because it could not
come next. -/
theorem spends_tokens {network : Network} {vocabulary : Vocabulary} {config : RecoveryConfig}
    {input : TokenStream} (h : Run (Session.new network vocabulary config input) events last)
    (hhalt : config.haltOnError = true)
    (hops : ∀ e ∈ events, e.op.isDriving = true ∨ e.op.isHandling = true) {i : Nat}
    (hle : input.index ≤ i) (hlt : i < last.input.index) :
    ∃ t, input.get? i = some t ∧ ∃ e ∈ events, e.Passes i ∧
      (e.before.input.index = i ∧ e.Matched t ∨ e.Dropped t) := by
  have hparsing : ∀ e ∈ events, e.op.isParsing = true := by
    intro e he
    rcases hops e he with hdriving | hhandling
    · exact Operation.isParsing_of_isDriving hdriving
    · exact Operation.isParsing_of_isHandling hhandling
  obtain ⟨e, he, hpasses⟩ := h.exists_passes hle hlt
  have hgivens := h.sameGivens_of_mem he
  -- the place is before the cursor, so there is a token at it
  have hsize : i < e.before.input.tokens.size :=
    Nat.lt_trans hpasses.2 (by
      rw [← ((h.change hparsing he).sameGivens).tokens_eq]
      exact e.after.input.index_lt)
  have ht : e.before.input.get? i = some e.before.input.tokens[i] :=
    Array.getElem?_eq_getElem hsize
  have hcareful : e.before.config.haltOnError = true := by
    rw [hgivens.config_eq]
    exact hhalt
  have hmoves : e.Moves :=
    Event.moves_of_effect (hops e he) (.inr hcareful) (h.effect hparsing he)
  refine ⟨e.before.input.tokens[i], ?_, e, he, hpasses, hmoves.spent ht hpasses⟩
  rw [← ht, TokenStream.get?, TokenStream.get?, hgivens.tokens_eq]
  rfl

end Run

/-! ### A halting parse that drops a token -/

/-- A list of sums is to be parsed where a `PLUS` stands before a `NAME`, and every error is raised. -/
def haltedSession : Session :=
  .new Network.sumNetwork {} .halting (.ofKinds [2, 1])

def haltedSteps : List (Strategy × Operation) :=
  [(.repair, .enterRule 0), (.repair, .sync)]

/-- The decision is made at the `NAME`, and nothing was told of the `PLUS`. -/
theorem exists_run_haltedSteps :
    ∃ events last, Run haltedSession events last ∧
      (∀ e ∈ events, (e.strategy, e.op) ∈ haltedSteps) ∧
      last.input.index = 1 ∧ last.errorCount = 0 := by
  have hend : (haltedSession.run? haltedSteps).map (fun final =>
      (final.2.input.index, final.2.errorCount)) = some (1, 0) := by
    decide +kernel
  obtain ⟨⟨answers, last⟩, hrun, hlast⟩ := Option.map_eq_some_iff.mp hend
  obtain ⟨events, h, hsteps⟩ := Run.exists_run hrun
  obtain ⟨hindex, hcount⟩ := Prod.mk.inj hlast
  exact ⟨events, last, h, hsteps, hindex, hcount⟩

theorem spends_tokens_haltedSteps :
    ∃ events last, RecoveryConfig.halting.haltOnError = true ∧ Run haltedSession events last ∧
      (∀ e ∈ events, e.op.isDriving = true ∨ e.op.isHandling = true) ∧
      haltedSession.input.index ≤ 0 ∧ 0 < last.input.index ∧
      ∃ t, haltedSession.input.get? 0 = some t ∧ ∃ e ∈ events, e.Passes 0 ∧
        (e.before.input.index = 0 ∧ e.Matched t ∨ e.Dropped t) := by
  obtain ⟨events, last, h, hsteps, hindex, -⟩ := exists_run_haltedSteps
  have hall : ∀ step ∈ haltedSteps, step.2.isDriving = true := by decide
  have hops : ∀ e ∈ events, e.op.isDriving = true ∨ e.op.isHandling = true :=
    fun e he => .inl (hall _ (hsteps e he))
  have hpassed : 0 < last.input.index := by omega
  exact ⟨events, last, rfl, h, hops, Nat.le_refl 0, hpassed,
    Run.spends_tokens h rfl hops (Nat.le_refl 0) hpassed⟩

/-- Not every token behind the cursor was matched, though every error is raised: the `PLUS` was
dropped. -/
theorem not_all_matched_haltedSteps :
    Network.sumNetwork.IsBuilt ∧ haltedSession.config.haltOnError = true ∧
      ∃ events last, Run haltedSession events last ∧
        (∀ e ∈ events, e.strategy = .repair ∧ e.op.isDriving = true) ∧ last.errorCount = 0 ∧
        0 < last.input.index ∧ ¬ ∃ e ∈ events, ∃ t, e.Matched t := by
  obtain ⟨events, last, h, hsteps, hindex, hcount⟩ := exists_run_haltedSteps
  have hall : ∀ step ∈ haltedSteps, step.1 = .repair ∧ step.2.isDriving = true ∧
      ∀ k kinds, step.2 ≠ .matchKind k ∧ step.2 ≠ .matchSet kinds := by
    simp [haltedSteps, Operation.isDriving]
  refine ⟨Network.isBuilt_sumNetwork, rfl, events, last, h, ?_, hcount, by omega, ?_⟩
  · intro e he
    exact ⟨(hall _ (hsteps e he)).1, (hall _ (hsteps e he)).2.1⟩
  · rintro ⟨e, he, t, hmatched⟩
    have hneither := (hall _ (hsteps e he)).2.2
    rcases hmatched.asked with ⟨k, hop⟩ | ⟨kinds, hop⟩
    · exact (hneither k ∅).1 hop
    · exact (hneither 0 kinds).2 hop

end ParseRecovery
