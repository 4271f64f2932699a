import ParseRecovery.Proofs.Session.Bounds
import ParseRecovery.Proofs.Session.Consumption
import ParseRecovery.Proofs.Session.Windows

/-!
Parsing in two stages: a first one that bails, and another that repairs where the first has failed.
Outside a window the first stage gets through exactly where the second has nothing to repair, and then
both do the same (`Session.stages_agree`). Between the two stands a description of such a step that
names no policy (`Session.Smooth`): under each policy it is what passing comes to, so that a run of
such steps is one under the other policy, too (`Run.under`).
-/

namespace ParseRecovery

namespace Session

variable {s last : Session} {strategy : Strategy} {op : Operation} {o : Outcome Response}

/-! ## One step -/

/-- The current token can come next, or the input ends. -/
def IsAligned (s : Session) : Prop :=
  ∃ expected, s.expectedTokens? = some expected ∧
    (s.input.atEof = true ∨ s.input.current.kind ∈ expected)

/-- A step that leaves a policy nothing to do. -/
inductive Smooth (s : Session) : Operation → Outcome Response → Prop
  | placed {op : Operation} {after : Session} (h : s.Places op after) : Smooth s op (became after)
  | matched {op : Operation} (h : s.Matches op) : Smooth s op (s.matchCurrent.respond .symbol)
  | held {predicate : String} {message : Option String} :
      Smooth s (.checkPredicate true predicate message) (became s)
  | aligned (h : s.IsAligned) : Smooth s .sync (became s)

theorem realign?_of_isAligned (h : s.IsAligned) : s.realign? = some s := by
  obtain ⟨expected, hexpected, hfits⟩ := h
  have hnext : ∃ next, s.network.nextTokens? s.state = some next := by
    cases hnext : s.network.nextTokens? s.state with
    | none => simp [expectedTokens?, Network.expectedTokens?, hnext] at hexpected
    | some next => exact ⟨next, rfl⟩
  obtain ⟨next, hnext⟩ := hnext
  rw [realign?, hnext]
  dsimp only
  split
  · rfl
  · rw [hexpected, Option.map_some, s.input.skipUntil_eq_self_iff.mpr]
    rwa [SortedSet.contains_eq_true_iff]

theorem Smooth.perform? (h : s.Smooth op o) (strategy : Strategy) :
    s.perform? strategy op = some o := by
  cases h with
  | placed h =>
    cases h with
    | enter h => rw [Session.perform?, h, Option.map_some]
    | exit h => rw [Session.perform?, h, Option.map_some]
    | set state => rfl
  | matched h =>
    cases h with
    | kind => rw [Session.perform?, matchKind?, if_pos rfl, Option.map_some]
    | set h =>
      rw [Session.perform?, matchSet?, if_pos (SortedSet.contains_eq_true_iff.mpr h),
        Option.map_some]
  | held => rfl
  | aligned h =>
    cases strategy with
    | repair => rw [Session.perform?, sync?, realign?_of_isAligned h, Option.map_some]
    | bail => rfl

theorem Smooth.exists_response (h : s.Smooth op o) : ∃ response, o.result = .ok response := by
  cases h with
  | placed => exact ⟨_, rfl⟩
  | matched => exact ⟨_, rfl⟩
  | held => exact ⟨_, rfl⟩
  | aligned => exact ⟨_, rfl⟩

theorem Smooth.diagnostics_eq (h : s.Smooth op o) : o.session.diagnostics = s.diagnostics := by
  cases h with
  | @placed op after h =>
    show after.diagnostics = s.diagnostics
    rw [h.eq]
  | matched => rfl
  | held => rfl
  | aligned => rfl

theorem Smooth.of_sync (h : s.Smooth .sync o) : s.IsAligned ∧ o = became s := by
  cases h with
  | placed h => cases h
  | matched h => cases h
  | aligned h => exact ⟨h, rfl⟩

/-- What is not smooth, apart from realignments, fails or is reported. -/
theorem Effect.smooth (h : s.Effect strategy op o) (hop : op.isDriving = true)
    (hok : ∃ response, o.result = .ok response)
    (hquiet : strategy = .repair → ¬ s.Reports strategy op o)
    (haligned : op = .sync → s.IsAligned) : s.Smooth op o := by
  obtain ⟨response, hok⟩ := hok
  cases h with
  | placed h => exact .placed h
  | matched h => exact .matched h
  | held => exact .held
  | aligned => exact .aligned (haligned rfl)
  | realigned hexpected =>
    -- the current token is one to stop at, so nothing is skipped
    obtain ⟨expected, hexpected', hfits⟩ := haligned rfl
    cases hexpected.symm.trans hexpected'
    rw [s.input.skipUntil_eq_self_iff.mpr (by rwa [SortedSet.contains_eq_true_iff])]
    exact .aligned (haligned rfl)
  | dropped hop => exact absurd (hop.reports_iff.mpr (.inr ⟨_, rfl⟩)) (hquiet rfl)
  | conjured hop => exact absurd (hop.reports_iff.mpr (.inr ⟨_, rfl⟩)) (hquiet rfl)
  | gaveUp => cases hok
  | @cancelled op expected => exact absurd hok (s.respond_cancelExpecting_ne_ok expected _)
  | refused => cases hok
  | restarted | told | raised | halted | forwarded | answered => cases hop
  | resumed h => cases h <;> cases hop
  | abandoned h => cases h <;> cases hop

/-- Outside a window, with a stack of entered rules, and over tokens none of which marks the end of a
rule. -/
structure Calm (s : Session) : Prop where
  formed : s.network.Formed
  entered : Entered s.network s.stack
  closed : s.window.isOpen = false
  ne_epsilon : ∀ t ∈ s.input.tokens, t.kind ≠ .epsilon

theorem Smooth.calm (h : s.Smooth op o) (hs : s.Calm) : o.session.Calm := by
  cases h with
  | @placed op after h =>
    have hstack := h.entered hs.formed hs.entered
    show after.Calm
    rw [h.eq]
    exact ⟨hs.formed, hstack, hs.closed, hs.ne_epsilon⟩
  | matched =>
    refine ⟨hs.formed, hs.entered, rfl, ?_⟩
    show ∀ t ∈ s.input.consume.tokens, t.kind ≠ .epsilon
    rw [TokenStream.tokens_consume]
    exact hs.ne_epsilon
  | held => exact hs
  | aligned => exact hs

/-- A realignment that leaves the cursor where it is had nothing to skip. -/
theorem Calm.isAligned (hs : s.Calm) {after : Session} (h : s.realign? = some after)
    (hindex : after.input.index = s.input.index) : s.IsAligned := by
  rw [realign?] at h
  cases hnext : s.network.nextTokens? s.state with
  | none => simp [hnext] at h
  | some next =>
    obtain ⟨next', expected, hnext', hexpected, hspec⟩ := Network.exists_expectedTokens? hs.formed
      (Network.lt_states_of_nextTokens? hnext) (hs.entered.follows_lt hs.formed)
    cases hnext.symm.trans hnext'
    refine ⟨expected, hexpected, ?_⟩
    rw [hnext] at h
    dsimp only at h
    split at h
    · -- what can be consumed at the state is expected, and the token is no mark
      rename_i hmem
      rw [TokenStream.peekKind_one, SortedSet.contains_eq_true_iff] at hmem
      exact .inr ((hspec _).1 ⟨hmem, hs.ne_epsilon _ s.input.current_mem⟩)
    · change (s.network.expectedTokens? s.state s.stack).map _ = some after at h
      rw [hexpected] at h
      cases h
      have hstays : s.input.skipUntil expected.contains = s.input :=
        TokenStream.eq_of_index_eq rfl rfl hindex
      rwa [s.input.skipUntil_eq_self_iff, SortedSet.contains_eq_true_iff] at hstays

end Session

namespace Event

/-- The same step under another policy. -/
def under (strategy : Strategy) (e : Event) : Event :=
  { e with strategy := strategy }

def Smooth (e : Event) : Prop :=
  e.before.Smooth e.op e.outcome

/-- What the first stage takes for granted: nothing fails, and decisions are made where the current
token can come next or the input ends. -/
structure PassesBailing (e : Event) : Prop where
  succeeds : ∃ response, e.outcome.result = .ok response
  aligned : e.op = .sync → e.before.IsAligned

/-- What the second stage shows of an input without errors: nothing fails, no diagnostic is delivered,
and decisions are made without skipping. -/
structure PassesRepairing (e : Event) : Prop where
  succeeds : ∃ response, e.outcome.result = .ok response
  quiet : e.news = []
  stays : e.op = .sync → e.after.input.index = e.before.input.index

variable {e : Event}

theorem Smooth.passesBailing (h : e.Smooth) : e.PassesBailing where
  succeeds := h.exists_response
  aligned := by
    intro hop
    rw [Smooth, hop] at h
    exact h.of_sync.1

theorem Smooth.passesRepairing (h : e.Smooth) : e.PassesRepairing where
  succeeds := h.exists_response
  quiet := news_eq (h.diagnostics_eq.trans (List.append_nil _).symm)
  stays := by
    intro hop
    rw [Smooth, hop] at h
    rw [after, h.of_sync.2]
    rfl

section Driving

variable (h : e.Happens) (hop : e.op.isDriving = true)
include h hop

theorem PassesBailing.smooth (hpasses : e.PassesBailing) (hstrategy : e.strategy = .bail) :
    e.Smooth := by
  have heffect := Session.effect_of_perform? (Operation.isParsing_of_isDriving hop) h
  apply heffect.smooth hop hpasses.succeeds _ hpasses.aligned
  intro hrepair
  rw [hstrategy] at hrepair
  cases hrepair

theorem PassesRepairing.smooth (hpasses : e.PassesRepairing) (hstrategy : e.strategy = .repair)
    (hbefore : e.before.Calm) : e.Smooth := by
  have heffect := Session.effect_of_perform? (Operation.isParsing_of_isDriving hop) h
  apply heffect.smooth hop hpasses.succeeds
  · -- outside a window whatever is reported is delivered
    intro _ hreports
    obtain ⟨d, hnews⟩ := (telling_of_effect heffect).tellsOnce.told hreports hbefore.closed
    rw [hpasses.quiet] at hnews
    cases hnews
  · intro hsync
    have hperform : e.before.perform? .repair .sync = some e.outcome := by
      rw [← hstrategy, ← hsync]
      exact h
    obtain ⟨after, hafter, houtcome⟩ := Option.map_eq_some_iff.mp hperform
    apply hbefore.isAligned hafter
    have hstays := hpasses.stays hsync
    rw [Event.after, ← houtcome] at hstays
    exact hstays

end Driving

end Event

/-! ## Runs -/

namespace Run

variable {s last : Session} {events : List Event}

/-- The same steps can be taken under the other policy. -/
theorem under (h : Run s events last) (hsmooth : ∀ e ∈ events, e.Smooth) (strategy : Strategy) :
    Run s (events.map (Event.under strategy)) last := by
  induction h with
  | start => exact .start
  | @step events e h he ih =>
    obtain ⟨hlatest, hearlier⟩ := List.forall_mem_cons.mp hsmooth
    have hhappens : (e.under strategy).Happens := Session.Smooth.perform? hlatest strategy
    exact .step (ih hearlier) hhappens

/-- A session has only one run of the same operations under the same policy. -/
theorem unique {strategy : Strategy} {last' : Session} {events' : List Event}
    (h : Run s events last) (h' : Run s events' last')
    (hstrategy : ∀ e ∈ events, e.strategy = strategy)
    (hstrategy' : ∀ e ∈ events', e.strategy = strategy)
    (hops : events.map Event.op = events'.map Event.op) : events = events' ∧ last = last' := by
  induction h generalizing events' last' with
  | start =>
    cases h' with
    | start => exact ⟨rfl, rfl⟩
    | step => cases hops
  | @step events e h he ih =>
    cases h' with
    | start => cases hops
    | @step events' e' h' he' =>
      obtain ⟨hop, hops⟩ := List.cons.inj hops
      obtain ⟨hlatest, hearlier⟩ := List.forall_mem_cons.mp hstrategy
      obtain ⟨hlatest', hearlier'⟩ := List.forall_mem_cons.mp hstrategy'
      obtain ⟨rfl, hbefore⟩ := ih h' hearlier hearlier' hops
      have houtcome : e.outcome = e'.outcome := by
        rw [Event.Happens, hbefore, hlatest, hop] at he
        rw [Event.Happens, hlatest'] at he'
        exact Option.some.inj (he.symm.trans he')
      have he : e = e' := by
        obtain ⟨before, strategy, op, outcome⟩ := e
        cases hbefore
        cases hlatest.trans hlatest'.symm
        cases hop
        cases houtcome
        rfl
      cases he
      exact ⟨rfl, rfl⟩

/-- The second stage of a parse is smooth if it passes. -/
theorem smooth_of_passesRepairing (h : Run s events last) (hs : s.Calm)
    (hops : ∀ e ∈ events, e.op.isDriving = true) (hstrategy : ∀ e ∈ events, e.strategy = .repair)
    (hpasses : ∀ e ∈ events, e.PassesRepairing) : last.Calm ∧ ∀ e ∈ events, e.Smooth := by
  induction h with
  | start => exact ⟨hs, List.forall_mem_nil _⟩
  | @step events e h he ih =>
    obtain ⟨hop, hops⟩ := List.forall_mem_cons.mp hops
    obtain ⟨hrepair, hstrategy⟩ := List.forall_mem_cons.mp hstrategy
    obtain ⟨hlatest, hearlier⟩ := List.forall_mem_cons.mp hpasses
    obtain ⟨hbefore, hsmooth⟩ := ih hops hstrategy hearlier
    have hstep : e.Smooth := hlatest.smooth he hop hrepair hbefore
    exact ⟨Session.Smooth.calm hstep hbefore, List.forall_mem_cons.mpr ⟨hstep, hsmooth⟩⟩

end Run

namespace Session

variable {s last : Session} {strategy : Strategy} {ops : List Operation} {events : List Event}

/-- The events, newest first, are what the operations do one after another under the policy. -/
structure Performs (s : Session) (strategy : Strategy) (ops : List Operation) (events : List Event)
    (last : Session) : Prop where
  run : Run s events last
  ops_eq : events.reverse.map Event.op = ops
  strategy_eq : ∀ e ∈ events, e.strategy = strategy

namespace Performs

theorem op_mem (h : s.Performs strategy ops events last) {e : Event} (he : e ∈ events) :
    e.op ∈ ops := by
  rw [← h.ops_eq]
  exact List.mem_map.mpr ⟨e, List.mem_reverse.mpr he, rfl⟩

theorem unique (h : s.Performs strategy ops events last) {events' : List Event} {last' : Session}
    (h' : s.Performs strategy ops events' last') : events = events' ∧ last = last' := by
  apply h.run.unique h'.run h.strategy_eq h'.strategy_eq
  have hops := h.ops_eq.trans h'.ops_eq.symm
  rwa [List.map_reverse, List.map_reverse, List.reverse_inj] at hops

theorem under (h : s.Performs strategy ops events last) (hsmooth : ∀ e ∈ events, e.Smooth)
    (other : Strategy) : s.Performs other ops (events.map (Event.under other)) last where
  run := h.run.under hsmooth other
  ops_eq := by
    rw [← List.map_reverse, List.map_map]
    exact h.ops_eq
  strategy_eq := by
    intro e he
    obtain ⟨earlier, -, rfl⟩ := List.mem_map.mp he
    rfl

theorem of_run? {answers : List (Except Failure Response)}
    (h : s.run? (ops.map (strategy, ·)) = some (answers, last)) :
    ∃ events, s.Performs strategy ops events last := by
  obtain ⟨events, hrun, hsteps, -⟩ := Run.exists_run_of_run? .start h
  rw [List.append_nil] at hrun
  refine ⟨events, hrun, ?_, ?_⟩
  · have hops := congrArg (List.map Prod.snd) hsteps
    rw [List.map_map, List.map_map] at hops
    exact hops.trans (List.map_id ops)
  · intro e he
    have hmem : (e.strategy, e.op) ∈ ops.map (strategy, ·) := by
      rw [← hsteps]
      exact List.mem_map.mpr ⟨e, List.mem_reverse.mpr he, rfl⟩
    obtain ⟨op, -, hop⟩ := List.mem_map.mp hmem
    exact (congrArg Prod.fst hop).symm

/-- Operations that are smooth under one policy are so under any, and do the same. -/
theorem agree {first second : List Event} {other : Strategy} {firstLast secondLast : Session}
    (hfirst : s.Performs strategy ops first firstLast)
    (hsecond : s.Performs other ops second secondLast) (hsmooth : ∀ e ∈ first, e.Smooth) :
    (∀ e ∈ second, e.Smooth) ∧ second.map Event.outcome = first.map Event.outcome ∧
      secondLast = firstLast := by
  obtain ⟨rfl, rfl⟩ := hsecond.unique (hfirst.under hsmooth other)
  refine ⟨fun e he => ?_, ?_, rfl⟩
  · obtain ⟨earlier, hearlier, rfl⟩ := List.mem_map.mp he
    exact hsmooth earlier hearlier
  · rw [List.map_map]
    rfl

end Performs

/-! ## Two stages -/

theorem Effect.ne_conjured (h : s.Effect .bail op o) (t : Token) :
    o.result ≠ .ok (.symbol (.conjured t)) := by
  intro hresult
  obtain ⟨hrepair, -⟩ := h.exists_of_conjured hresult
  cases hrepair

/-- The two stages of parsing, from a session outside a window and over no token that marks the end of
a rule. Each can be gone through if nothing out of range is asked for. The first passes exactly if the
second does; then their answers and the sessions after each step are the same. In the first stage only
matching moves the cursor, and no token is made up. -/
theorem stages_agree (hbuilt : s.network.IsBuilt) (hs : Entered s.network s.stack)
    (hclosed : s.window.isOpen = false) (hinput : ∀ t ∈ s.input.tokens, t.kind ≠ .epsilon)
    (hops : ∀ op ∈ ops, op.isDriving = true) :
    (s.state < s.network.states.size → (∀ op ∈ ops, op.isWithin s.network = true) →
      ∀ strategy, ∃ events last, s.Performs strategy ops events last) ∧
    (∀ {first second : List Event} {firstLast secondLast : Session},
      s.Performs .bail ops first firstLast → s.Performs .repair ops second secondLast →
      ((∀ e ∈ first, e.PassesBailing) ↔ ∀ e ∈ second, e.PassesRepairing) ∧
      ((∀ e ∈ first, e.PassesBailing) →
        second.map Event.outcome = first.map Event.outcome ∧ secondLast = firstLast)) ∧
    ∀ {first : List Event} {firstLast : Session}, s.Performs .bail ops first firstLast →
      ∀ e ∈ first, (e.after.input.index ≠ e.before.input.index → e.Matched e.before.input.current) ∧
        ∀ t, e.outcome.result ≠ .ok (.symbol (.conjured t)) := by
  have hn := hbuilt.formed
  refine ⟨fun hstate hwithin strategy => ?_, fun {first second _ _} hfirst hsecond => ?_,
    fun hfirst e he => ?_⟩
  · have hgrounded : s.Grounded := ⟨hn, hstate, hs⟩
    have hsteps : ∀ step ∈ ops.map (strategy, ·), step.2.isWithin s.network = true := by
      simpa using hwithin
    obtain ⟨answers, last, hrun, -, -⟩ := hgrounded.exists_run? hsteps
    obtain ⟨events, hperforms⟩ := Performs.of_run? hrun
    exact ⟨events, last, hperforms⟩
  · have hbailing : (∀ e ∈ first, e.PassesBailing) → ∀ e ∈ first, e.Smooth := by
      intro hpasses e he
      exact (hpasses e he).smooth (hfirst.run.happens he) (hops _ (hfirst.op_mem he))
        (hfirst.strategy_eq e he)
    have hrepairing : (∀ e ∈ second, e.PassesRepairing) → ∀ e ∈ second, e.Smooth := by
      intro hpasses
      have hcalm : s.Calm := ⟨hn, hs, hclosed, hinput⟩
      exact (hsecond.run.smooth_of_passesRepairing hcalm
        (fun e he => hops _ (hsecond.op_mem he)) hsecond.strategy_eq hpasses).2
    refine ⟨⟨fun hpasses e he => ?_, fun hpasses e he => ?_⟩, fun hpasses => ?_⟩
    · exact ((hfirst.agree hsecond (hbailing hpasses)).1 e he).passesRepairing
    · exact ((hsecond.agree hfirst (hrepairing hpasses)).1 e he).passesBailing
    · exact (hfirst.agree hsecond (hbailing hpasses)).2
  · have hop := hops _ (hfirst.op_mem he)
    have hbail := hfirst.strategy_eq e he
    have heffect := effect_of_perform? (Operation.isParsing_of_isDriving hop) (hfirst.run.happens he)
    have hmoves := Event.moves_of_effect (.inl hop) (.inl hbail) heffect
    rw [hbail] at heffect
    refine ⟨fun hmoved => ?_, heffect.ne_conjured⟩
    cases hmoves with
    | stays h => exact absurd (congrArg TokenStream.index h) hmoved
    | matched h => exact h
    | realigned hrepair => cases hbail.symm.trans hrepair

/-! ### A list of sums without errors -/

/-- A list of sums is to be parsed, over `NAME SEMI`. -/
def plainSession : Session :=
  .new Network.sumNetwork {} {} (.ofKinds [1, 3])

/-- The file has been entered, which starts at the state that the session was at. -/
def plainFile : Session :=
  { plainSession with stack := [.root 0] }

def plainOps : List Operation :=
  [.enterRule 0, .sync, .matchKind 1]

def plainEvents : List Event :=
  [⟨plainFile, .bail, .matchKind 1, plainFile.matchCurrent.respond .symbol⟩,
    ⟨plainFile, .bail, .sync, became plainFile⟩,
    ⟨plainSession, .bail, .enterRule 0, became plainFile⟩]

theorem performs_plainEvents :
    plainSession.Performs .bail plainOps plainEvents plainFile.matchCurrent.session where
  run := .step (.step (.step .start rfl) rfl) rfl
  ops_eq := rfl
  strategy_eq := by simp [plainEvents]

theorem passesBailing_of_mem_plainEvents : ∀ e ∈ plainEvents, e.PassesBailing := by
  have haligned : plainFile.IsAligned := by
    have hexpected : plainFile.expectedTokens? = some (SortedSet.ofList [1]) := by
      decide +kernel
    exact ⟨_, hexpected, .inr (by decide)⟩
  have hsmooth : ∀ e ∈ plainEvents, e.Smooth := by
    simp only [plainEvents, List.forall_mem_cons]
    exact ⟨.matched .kind, .aligned haligned, .placed (.enter rfl), List.forall_mem_nil _⟩
  exact fun e he => (hsmooth e he).passesBailing

theorem stages_agree_plainOps :
    plainSession.network.IsBuilt ∧ Entered plainSession.network plainSession.stack ∧
      plainSession.window.isOpen = false ∧
      (∀ t ∈ plainSession.input.tokens, t.kind ≠ .epsilon) ∧
      (∀ op ∈ plainOps, op.isDriving = true) ∧
      plainSession.state < plainSession.network.states.size ∧
      (∀ op ∈ plainOps, op.isWithin plainSession.network = true) ∧
      (∀ e ∈ plainEvents, e.PassesBailing) ∧
      ∃ second, plainSession.Performs .repair plainOps second plainFile.matchCurrent.session ∧
        (∀ e ∈ second, e.PassesRepairing) ∧
        second.map Event.outcome = plainEvents.map Event.outcome := by
  have hinput : ∀ t ∈ plainSession.input.tokens, t.kind ≠ .epsilon := by decide
  have hops : ∀ op ∈ plainOps, op.isDriving = true := by decide
  have hstate : plainSession.state < plainSession.network.states.size := by decide
  have hwithin : ∀ op ∈ plainOps, op.isWithin plainSession.network = true := by decide
  have hpasses := passesBailing_of_mem_plainEvents
  obtain ⟨hruns, hagree, -⟩ := stages_agree Network.isBuilt_sumNetwork .nil rfl hinput hops
  obtain ⟨second, last, hsecond⟩ := hruns hstate hwithin .repair
  obtain ⟨hiff, hsame⟩ := hagree performs_plainEvents hsecond
  obtain ⟨houtcomes, rfl⟩ := hsame hpasses
  exact ⟨Network.isBuilt_sumNetwork, .nil, rfl, hinput, hops, hstate, hwithin, hpasses, second,
    hsecond, hiff.mp hpasses, houtcomes⟩

end Session

end ParseRecovery
