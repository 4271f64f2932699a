import ParseRecovery.Proofs.Session.Progress
import ParseRecovery.Proofs.Session.Windows

/-!
What the stall guard goes by. Resuming notes where it starts to look, in place of the place noted
before, and adds the state it starts from to those noted before; whatever closes the window forgets
both (`Event.Noting`). So the guard knows from which states a parse was resumed in the present window,
and where it was resumed last, but not which of the states belong to that place (`Run.stallMemory`).
It can take a parse that has moved on for one that is stuck (`not_notedTogether_staleEvents`).
-/

namespace ParseRecovery

/-- The steps since a window was last closed, newest first. -/
def sinceClosed (events : List Event) : List Event :=
  events.takeWhile fun e => !e.closes

namespace Event

variable {e : Event}

/-- What a step means for the memory of the guard. -/
inductive Noting (e : Event) : Prop
  | kept (hcloses : e.closes = false) (hresumes : e.resumes = false)
      (hindex : e.after.window.resyncIndex = e.before.window.resyncIndex)
      (hstates : e.after.window.resyncStates = e.before.window.resyncStates)
  | noted (hcloses : e.closes = false) (hresumes : e.resumes = true)
      (hindex : e.after.window.resyncIndex = some e.before.resyncStart)
      (hstates : e.after.window.resyncStates = e.before.window.resyncStates.insert e.before.state)
  | forgotten (hcloses : e.closes = true) (hindex : e.after.window.resyncIndex = none)
      (hstates : e.after.window.resyncStates = ∅)

theorem noting_of_tells (hcloses : e.closes = false) (hresumes : e.resumes = false)
    (h : e.before.Tells e.after) : e.Noting :=
  .kept hcloses hresumes h.samePlace.resyncIndex_eq h.samePlace.resyncStates_eq

theorem noting_of_resumes {f : Fault} {told : Session} (hop : e.before.Resumes e.op f told)
    (hfound : e.found = false) {kinds : KindSet} (h : e.after = told.resyncTo kinds) : e.Noting := by
  have hsame := hop.tells.samePlace
  have hstate := hop.tells.state_eq
  have hstart : told.resyncStart = e.before.resyncStart := by
    rw [Session.resyncStart, Session.resyncStart, hsame.input_eq, hsame.resyncIndex_eq,
      hsame.resyncStates_eq, hstate]
  refine .noted (closes_eq_false hfound hop.ne_reset) (Session.resumes_iff.mpr ⟨f, told, hop⟩) ?_ ?_
  · rw [h, told.resyncTo_eq, ← hstart]
  · rw [h, told.resyncTo_eq, ← hsame.resyncStates_eq, ← hstate]

theorem resumes_eq_false (h : ∀ f told, ¬ e.before.Resumes e.op f told) : e.resumes = false := by
  rw [Bool.eq_false_iff]
  intro hresumes
  obtain ⟨f, told, hop⟩ := Session.resumes_iff.mp hresumes
  exact h f told hop

/-- Each effect of a parser's operations under the repairing policy means one of these. -/
theorem noting_of_effect (hstrategy : e.strategy = .repair)
    (h : e.before.Effect e.strategy e.op e.outcome) : e.Noting := by
  obtain ⟨s, strategy, op, o⟩ := e
  change strategy = .repair at hstrategy
  change s.Effect strategy op o at h
  cases h with
  | placed h =>
    have hwindow := congrArg Session.window h.eq
    cases h with
    | enter | exit | set =>
      exact .kept rfl rfl (congrArg Window.resyncIndex hwindow) (congrArg Window.resyncStates hwindow)
  | restarted => exact .forgotten rfl rfl rfl
  | matched => exact .forgotten rfl rfl rfl
  | dropped => exact .forgotten rfl rfl rfl
  | conjured hop =>
    refine noting_of_tells (closes_eq_false rfl hop.ne_reset) ?_ (.announced _)
    cases hop <;> rfl
  | gaveUp hop =>
    refine noting_of_tells (closes_eq_false rfl hop.ne_reset) ?_ .silent
    cases hop <;> rfl
  | held => exact noting_of_tells rfl rfl .silent
  | refused => exact noting_of_tells rfl rfl (.announced _)
  | told f =>
    exact noting_of_tells (closes_eq_false (found_report s strategy f) Operation.noConfusion) rfl
      (.announced _)
  | raised hf hraised =>
    refine noting_of_tells rfl (resumes_eq_false ?_) (.announced _)
    -- a fault that is raised once it has been told of is not resumed after
    intro f told hop
    cases hop with
    | reported => cases hf
    | unreported hf' htold =>
      cases hf.symm.trans hf'
      rw [hraised] at htold
      cases htold
  | halted hhalt =>
    refine noting_of_tells rfl (resumes_eq_false ?_) .silent
    intro f told hop
    cases hop with
    | reported hgoes => exact absurd (hhalt.symm.trans hgoes) Bool.noConfusion
    | unreported hf => cases hf
  | forwarded => exact noting_of_tells rfl rfl .silent
  | resumed hop hafter =>
    obtain ⟨kinds, -, rfl⟩ := Option.map_eq_some_iff.mp hafter
    exact noting_of_resumes hop rfl rfl
  | cancelled => cases hstrategy
  | abandoned => cases hstrategy
  | aligned => exact noting_of_tells rfl rfl .silent
  | realigned => exact .kept rfl rfl rfl rfl
  | answered h =>
    exact noting_of_tells (closes_eq_false (found_ask strategy h) Operation.noConfusion) rfl .silent

end Event

/-! ## Runs -/

/-- A step of a parse under the repairing policy, starting over included. -/
structure Event.Plain (e : Event) : Prop where
  strategy_eq : e.strategy = .repair
  isParsing : e.op.isParsing = true

namespace Run

variable {s last : Session} {events : List Event}

theorem noting (h : Run s events last) (hplain : ∀ e ∈ events, e.Plain) {e : Event}
    (he : e ∈ events) : e.Noting :=
  Event.noting_of_effect (hplain e he).strategy_eq (h.effect (fun e he => (hplain e he).isParsing) he)

theorem mem_resyncStates_iff (h : Run s events last) (hs : s.window.resyncStates = ∅)
    (hplain : ∀ e ∈ events, e.Plain) {state : StateId} :
    state ∈ last.window.resyncStates ↔
      ∃ e ∈ sinceClosed events, e.resumes = true ∧ e.before.state = state := by
  induction h with
  | start => simp [hs, sinceClosed]
  | @step events e h he ih =>
    have hbefore := ih fun e he => hplain e (List.mem_cons_of_mem _ he)
    rw [sinceClosed, List.takeWhile_cons]
    cases (step h he).noting hplain List.mem_cons_self with
    | kept hcloses hresumes _ hstates =>
      rw [hstates, hbefore, hcloses]
      simp [sinceClosed, hresumes]
    | noted hcloses hresumes _ hstates =>
      rw [hstates, SortedSet.mem_insert, hbefore, hcloses]
      simp only [Bool.not_false, if_true, List.exists_mem_cons_iff, hresumes, true_and]
      exact or_congr_left eq_comm
    | forgotten hcloses _ hstates => simp [hstates, hcloses]

theorem resyncIndex_eq (h : Run s events last) (hs : s.window.resyncIndex = none)
    (hplain : ∀ e ∈ events, e.Plain) :
    last.window.resyncIndex =
      ((sinceClosed events).find? Event.resumes).map fun e => e.before.resyncStart := by
  induction h with
  | start => exact hs
  | @step events e h he ih =>
    have hbefore := ih fun e he => hplain e (List.mem_cons_of_mem _ he)
    rw [sinceClosed, List.takeWhile_cons]
    cases (step h he).noting hplain List.mem_cons_self with
    | kept hcloses hresumes hindex _ =>
      rw [hindex, hbefore, hcloses]
      simp [sinceClosed, hresumes]
    | noted hcloses hresumes hindex _ => simp [hindex, hcloses, hresumes]
    | forgotten hcloses hindex _ => simp [hindex, hcloses]

end Run

/-- What the guard knows after the events, newest first, that lead to `last`. -/
structure StallMemory (events : List Event) (last : Session) : Prop where
  /-- the states from which the parse was resumed in the present window, wherever that was -/
  mem_resyncStates_iff : ∀ state, state ∈ last.window.resyncStates ↔
    ∃ e ∈ sinceClosed events, e.resumes = true ∧ e.before.state = state
  /-- the place at which resuming last started to look in the present window -/
  resyncIndex_eq : last.window.resyncIndex =
    ((sinceClosed events).find? Event.resumes).map fun e => e.before.resyncStart
  /-- resuming will drop a token if the last resuming started here, and any from this state -/
  isStalled_iff : last.isStalled = true ↔
    (∃ e, (sinceClosed events).find? Event.resumes = some e ∧
      e.before.resyncStart = last.input.index) ∧
    ∃ e ∈ sinceClosed events, e.resumes = true ∧ e.before.state = last.state

/-- The guard's memory in every parse from a fresh session under the repairing policy. The older events
of a run are a run, too, so this holds after each of its steps. -/
theorem Run.stallMemory {network : Network} {vocabulary : Vocabulary} {config : RecoveryConfig}
    {input : TokenStream} {events : List Event} {last : Session}
    (h : Run (Session.new network vocabulary config input) events last)
    (hplain : ∀ e ∈ events, e.Plain) : StallMemory events last where
  mem_resyncStates_iff _ := h.mem_resyncStates_iff rfl hplain
  resyncIndex_eq := h.resyncIndex_eq rfl hplain
  isStalled_iff := by
    rw [Session.isStalled_iff, h.mem_resyncStates_iff rfl hplain, h.resyncIndex_eq rfl hplain,
      Option.map_eq_some_iff]

/-! ### A parse that moves on and is taken for stuck -/

-- a list of sums over `PLUS SEMI SEMI`
def staleStart : Session :=
  .new Network.sumNetwork {} {} (.ofKinds [2, 3, 3])

def staleInFile : Session :=
  { staleStart with stack := [.root 0] }

-- at the start of a sum
def staleInSum : Session :=
  { staleStart with
    stack := [.invoked 1 0 6, .root 0]
    state := 2 }

def staleFault : Fault :=
  staleInSum.faultExpecting ∅ .inputMismatch staleInSum.input.current

-- resumed from the start of the sum, the parse skips the `PLUS`
def staleSkipped : Session :=
  staleInSum.resyncTo (SortedSet.ofList [3])

-- resumed at the `SEMI` from behind the name of the sum, it skips nothing
def staleNoted : Session :=
  (staleSkipped.setState 7).resyncTo (SortedSet.ofList [3])

def staleEvents : List Event :=
  [⟨staleNoted, .repair, .setState 2, Session.became (staleNoted.setState 2)⟩,
    ⟨staleSkipped.setState 7, .repair, .recover staleFault, Session.became staleNoted⟩,
    ⟨staleSkipped, .repair, .setState 7, Session.became (staleSkipped.setState 7)⟩,
    ⟨staleInSum, .repair, .recover staleFault, Session.became staleSkipped⟩,
    ⟨staleInFile, .repair, .enterRule 1, Session.became staleInSum⟩,
    ⟨staleStart, .repair, .enterRule 0, Session.became staleInFile⟩]

theorem run_staleEvents : Run staleStart staleEvents (staleNoted.setState 2) := by
  have hkinds : Network.sumNetwork.recoverySet? staleInSum.stack =
      some (SortedSet.ofList [3]) := by decide +kernel
  -- both times the parse is resumed under the same stack
  have hresync : ∀ s : Session, s.network = Network.sumNetwork → s.stack = staleInSum.stack →
      s.perform? .repair (.recover staleFault) =
        some (Session.became (s.resyncTo (SortedSet.ofList [3]))) := by
    intro s hnetwork hstack
    rw [Session.perform?_of_resumes (.direct staleFault), Session.resync?, Session.recoverySet?,
      hnetwork, hstack, hkinds]
    rfl
  refine .step (.step (.step (.step (.step (.step .start ?_) ?_) ?_) ?_) ?_) ?_
  · exact rfl
  · exact rfl
  · exact hresync staleInSum rfl rfl
  · exact rfl
  · exact hresync (staleSkipped.setState 7) rfl rfl
  · exact rfl

theorem plain_of_mem_staleEvents : ∀ e ∈ staleEvents, e.Plain := by
  have hall : ∀ e ∈ staleEvents, e.strategy = .repair ∧ e.op.isParsing = true := by decide +kernel
  exact fun e he => ⟨(hall e he).1, (hall e he).2⟩

theorem stallMemory_staleEvents :
    Run staleStart staleEvents (staleNoted.setState 2) ∧ (∀ e ∈ staleEvents, e.Plain) ∧
      StallMemory staleEvents (staleNoted.setState 2) :=
  ⟨run_staleEvents, plain_of_mem_staleEvents, run_staleEvents.stallMemory plain_of_mem_staleEvents⟩

/-- The memory if both parts of it were about one place: the states noted are those noted for the
place noted, and the guard takes the parse for stuck only if it was resumed here from this state. -/
structure NotedTogether (events : List Event) (last : Session) : Prop where
  mem_resyncStates_iff : ∀ state, state ∈ last.window.resyncStates ↔
    ∃ e ∈ sinceClosed events, e.resumes = true ∧
      some e.before.resyncStart = last.window.resyncIndex ∧ e.before.state = state
  resumed_of_isStalled : last.isStalled = true →
    ∃ e ∈ sinceClosed events, e.resumes = true ∧
      e.before.resyncStart = last.input.index ∧ e.before.state = last.state

/-- The two parts are not about one place. Back at the start of the sum, the parse will drop the
`SEMI`: it was resumed from this state at the `PLUS`, and at the `SEMI` from another. -/
theorem not_notedTogether_staleEvents :
    Network.sumNetwork.IsBuilt ∧ Run staleStart staleEvents (staleNoted.setState 2) ∧
      (∀ e ∈ staleEvents, e.Plain) ∧
      (∀ e ∈ staleEvents, e.resumes = true → e.before.state = 2 → e.before.resyncStart = 0) ∧
      (staleNoted.setState 2).window.resyncIndex = some 1 ∧
      2 ∈ (staleNoted.setState 2).window.resyncStates ∧
      (staleNoted.setState 2).isStalled = true ∧
      ¬ NotedTogether staleEvents (staleNoted.setState 2) := by
  have hfrom : ∀ e ∈ staleEvents,
      e.resumes = true → e.before.state = 2 → e.before.resyncStart = 0 := by decide +kernel
  have hstalled : (staleNoted.setState 2).isStalled = true := by decide +kernel
  have hindex : (staleNoted.setState 2).input.index = 1 := by decide +kernel
  refine ⟨Network.isBuilt_sumNetwork, run_staleEvents, plain_of_mem_staleEvents, hfrom,
    by decide +kernel, by decide +kernel, hstalled, ?_⟩
  intro htogether
  obtain ⟨e, he, hresumes, hstart, hstate⟩ := htogether.resumed_of_isStalled hstalled
  have hzero := hfrom e ((List.takeWhile_sublist _).subset he) hresumes hstate
  rw [hindex, hzero] at hstart
  cases hstart

end ParseRecovery
