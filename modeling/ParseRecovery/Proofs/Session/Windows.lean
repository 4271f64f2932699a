import ParseRecovery.Proofs.Session.Runs

/-!
Error windows over runs of a parser, under any mix of policies. Only what concerns errors is looked
at (`Session.log`): whether a window is open, and the diagnostics delivered and counted. A step either
leaves it, announces one error, closes the window, does the latter two in this order, or starts it
over (`Event.Telling`). Main statement: a window is open exactly since a diagnostic was delivered, a
step that reports delivers one diagnostic unless a window is open, no other step delivers any, and the
count is that of the diagnostics since the last start (`Run.toldOnce`).
-/

namespace ParseRecovery

/-- What a session tells of errors. -/
structure ErrorLog where
  isOpen : Bool
  diagnostics : List Diagnostic
  errorCount : Nat

namespace Session

def log (s : Session) : ErrorLog where
  isOpen := s.window.isOpen
  diagnostics := s.diagnostics
  errorCount := s.errorCount

/-- The operation reports an error: of a predicate that does not hold, of a fault given, or of a
match, which bailing out always reports and repairing only when it comes by a token. -/
def Reports (s : Session) (strategy : Strategy) (op : Operation) (o : Outcome Response) : Prop :=
  let repairs := strategy = .bail ∨ ∃ symbol, o.result = .ok (.symbol symbol)
  match op with
  | .checkPredicate holds _ _ => holds = false
  | .report _ => True
  | .handle failure => failure.unreported?.isSome = true
  | .matchKind k => s.input.current.kind ≠ k ∧ repairs
  | .matchSet kinds => s.input.current.kind ∉ kinds ∧ repairs
  | .repairInline => repairs
  | _ => False

variable {s : Session} {strategy : Strategy} {op : Operation} {o : Outcome Response}

theorem Mismatches.reports_iff (h : s.Mismatches op) :
    s.Reports strategy op o ↔ strategy = .bail ∨ ∃ symbol, o.result = .ok (.symbol symbol) := by
  cases h with
  | kind h => exact and_iff_right h
  | set h => exact and_iff_right h
  | direct => exact Iff.rfl

theorem Mismatches.ne_reset (h : s.Mismatches op) : op ≠ .reset := by
  cases h <;> exact Operation.noConfusion

theorem Matches.not_reports (h : s.Matches op) : ¬ s.Reports strategy op o := by
  cases h with
  | kind => exact fun hreports => hreports.1 rfl
  | set h => exact fun hreports => hreports.1 h

theorem Matches.ne_reset (h : s.Matches op) : op ≠ .reset := by
  cases h <;> exact Operation.noConfusion

theorem diagnostics_announce (s : Session) (d : Diagnostic) :
    (s.announce d).diagnostics = s.diagnostics ++ if s.window.isOpen then [] else [d] := by
  rw [announce]
  split
  · rw [List.append_nil]
  · rfl

theorem errorCount_announce (s : Session) (d : Diagnostic) :
    (s.announce d).errorCount = s.errorCount + (if s.window.isOpen then [] else [d]).length := by
  rw [announce]
  split
  · rfl
  · rfl

theorem Resumes.ne_reset {f : Fault} {told : Session} (h : s.Resumes op f told) : op ≠ .reset := by
  cases h <;> exact Operation.noConfusion

theorem Resumes.log_cases {f : Fault} {told : Session} (h : s.Resumes op f told) :
    ¬ s.Reports strategy op o ∧ told.log = s.log ∨
      s.Reports strategy op o ∧ ∃ d, told.log = (s.announce d).log := by
  -- whoever resumes has told of the fault before, or does so now
  cases h with
  | direct => exact .inl ⟨id, rfl⟩
  | reported => exact .inl ⟨Bool.noConfusion, rfl⟩
  | unreported hf => exact .inr ⟨by rw [Reports, hf]; rfl, _, rfl⟩

end Session

namespace Event

/-- The step matched a token of the input. -/
def found (e : Event) : Bool :=
  match e.outcome.result with
  | .ok (.symbol (.found _)) => true
  | _ => false

/-- The step closes the window. -/
def closes (e : Event) : Bool :=
  e.found || e.restarts

def Reports (e : Event) : Prop :=
  e.before.Reports e.strategy e.op e.outcome

/-- What a step means for the errors of a parse. -/
inductive Telling (e : Event) : Prop
  | silent (hreports : ¬ e.Reports) (hcloses : e.closes = false) (hlog : e.after.log = e.before.log)
  | announced (hreports : e.Reports) (hcloses : e.closes = false) (d : Diagnostic)
      (hlog : e.after.log = (e.before.announce d).log)
  | matched (hreports : ¬ e.Reports) (hfound : e.found = true) (hrestarts : e.restarts = false)
      (hlog : e.after.log = e.before.closeWindow.log)
  | dropped (hreports : e.Reports) (hfound : e.found = true) (hrestarts : e.restarts = false)
      (d : Diagnostic) (hlog : e.after.log = (e.before.announce d).closeWindow.log)
  | restarted (hreports : ¬ e.Reports) (hrestarts : e.restarts = true)
      (hlog : e.after.log = e.before.reset.log)

variable {e : Event}

theorem closes_eq_false (hfound : e.found = false) (hop : e.op ≠ .reset) : e.closes = false := by
  rw [closes, hfound, restarts, decide_eq_false hop]
  rfl

theorem restarts_eq_false (hop : e.op ≠ .reset) : e.restarts = false :=
  decide_eq_false hop

theorem found_report (s : Session) (strategy : Strategy) (f : Fault) :
    found ⟨s, strategy, .report f, (s.report f).respond fun _ => .done⟩ = false := by
  -- a report answers by raising its fault, or with nothing
  rw [found, Outcome.respond]
  rcases s.result_report_cases f with h | h
  · rw [h]
    rfl
  · rw [h]
    rfl

theorem found_ask {s : Session} (strategy : Strategy) {query : Query} {response : Response}
    (h : s.answer? query = some response) :
    found ⟨s, strategy, .ask query, ⟨.ok response, s⟩⟩ = false := by
  cases response with
  | symbol => exact absurd h Session.answer?_ne_symbol
  | _ => rfl

theorem telling_of_resumes {f : Fault} {told : Session} (hop : e.before.Resumes e.op f told)
    (hfound : e.found = false) (hlog : e.after.log = told.log) : e.Telling := by
  have hcloses := closes_eq_false hfound hop.ne_reset
  rcases hop.log_cases with ⟨hreports, htold⟩ | ⟨hreports, d, htold⟩
  · exact .silent hreports hcloses (hlog.trans htold)
  · exact .announced hreports hcloses d (hlog.trans htold)

/-- Each effect of a parser's operations means one of these. -/
theorem telling_of_effect (h : e.before.Effect e.strategy e.op e.outcome) : e.Telling := by
  obtain ⟨s, strategy, op, o⟩ := e
  change s.Effect strategy op o at h
  cases h with
  | @placed _ _ after h =>
    have hlog : after.log = s.log := by
      rw [h.eq]
      rfl
    cases h with
    | enter => exact .silent id rfl hlog
    | exit => exact .silent id rfl hlog
    | set => exact .silent id rfl hlog
  | restarted => exact .restarted id rfl rfl
  | matched h => exact .matched h.not_reports rfl (restarts_eq_false h.ne_reset) rfl
  | dropped hop =>
    refine .dropped ?_ rfl (restarts_eq_false hop.ne_reset) _ rfl
    exact hop.reports_iff.mpr (.inr ⟨_, rfl⟩)
  | conjured hop =>
    refine .announced ?_ (closes_eq_false rfl hop.ne_reset) _ rfl
    exact hop.reports_iff.mpr (.inr ⟨_, rfl⟩)
  | gaveUp hop =>
    apply Telling.silent _ (closes_eq_false rfl hop.ne_reset) rfl
    intro hreports
    rcases hop.reports_iff.mp hreports with hbail | ⟨symbol, hresult⟩
    · cases hbail
    · cases hresult
  | @cancelled op expected hop =>
    have hlog := congrArg Session.log (s.session_cancelExpecting expected)
    rw [Session.session_report] at hlog
    refine .announced ?_ (closes_eq_false ?_ hop.ne_reset) _ hlog
    · exact hop.reports_iff.mpr (.inl rfl)
    · obtain ⟨failure, hfailure⟩ := s.result_cancelExpecting expected
      rw [found, Outcome.respond, hfailure]
      rfl
  | held => exact .silent Bool.noConfusion rfl rfl
  | refused => exact .announced rfl rfl _ rfl
  | @told strategy f =>
    exact .announced trivial (closes_eq_false (found_report s strategy f) Operation.noConfusion) _ rfl
  | raised hf =>
    refine .announced ?_ rfl _ rfl
    rw [Reports, Session.Reports, hf]
    rfl
  | halted => exact .silent Bool.noConfusion rfl rfl
  | forwarded => exact .silent Bool.noConfusion rfl rfl
  | resumed hop hafter =>
    obtain ⟨kinds, -, rfl⟩ := Option.map_eq_some_iff.mp hafter
    exact telling_of_resumes hop rfl rfl
  | abandoned hop => exact telling_of_resumes hop rfl rfl
  | aligned => exact .silent id rfl rfl
  | realigned => exact .silent id rfl rfl
  | @answered strategy query response h =>
    exact .silent id (closes_eq_false (found_ask strategy h) Operation.noConfusion) rfl

/-! ## One step -/

theorem news_eq {new : List Diagnostic} (h : e.after.diagnostics = e.before.diagnostics ++ new) :
    e.news = new := by
  rw [news, Session.news, h]
  exact List.drop_left

/-- Whatever a step reports is delivered once, unless a window is open, and nothing else is. -/
structure TellsOnce (e : Event) : Prop where
  told : e.Reports → e.before.window.isOpen = false → ∃ d, e.news = [d]
  suppressed : e.Reports → e.before.window.isOpen = true → e.news = []
  quiet : ¬ e.Reports → e.news = []

theorem tellsOnce_of_news_eq {d : Diagnostic} (hreports : e.Reports)
    (h : e.news = if e.before.window.isOpen then [] else [d]) : e.TellsOnce where
  told _ hclosed := ⟨d, by rw [h, hclosed]; rfl⟩
  suppressed _ hopen := by rw [h, if_pos hopen]
  quiet hnot := absurd hreports hnot

theorem tellsOnce_of_not_reports (hreports : ¬ e.Reports) (h : e.news = []) : e.TellsOnce where
  told hyes := absurd hyes hreports
  suppressed hyes := absurd hyes hreports
  quiet _ := h

theorem Telling.tellsOnce (h : e.Telling) : e.TellsOnce := by
  cases h with
  | silent hreports _ hlog =>
    apply tellsOnce_of_not_reports hreports
    exact news_eq ((congrArg ErrorLog.diagnostics hlog).trans (List.append_nil _).symm)
  | announced hreports _ d hlog =>
    apply tellsOnce_of_news_eq hreports
    exact news_eq ((congrArg ErrorLog.diagnostics hlog).trans (e.before.diagnostics_announce d))
  | matched hreports _ _ hlog =>
    apply tellsOnce_of_not_reports hreports
    exact news_eq ((congrArg ErrorLog.diagnostics hlog).trans (List.append_nil _).symm)
  | dropped hreports _ _ d hlog =>
    apply tellsOnce_of_news_eq hreports
    exact news_eq ((congrArg ErrorLog.diagnostics hlog).trans (e.before.diagnostics_announce d))
  | restarted hreports _ hlog =>
    apply tellsOnce_of_not_reports hreports
    -- the diagnostics of before are gone, so that dropping as many leaves none
    have hnone : e.after.diagnostics = [] := congrArg ErrorLog.diagnostics hlog
    rw [news, Session.news, hnone, List.drop_nil]

theorem Telling.isOpen_iff (h : e.Telling) :
    e.after.window.isOpen = true ↔
      e.closes = false ∧ (e.before.window.isOpen = true ∨ e.Reports) := by
  cases h with
  | silent hreports hcloses hlog =>
    have hopen : e.after.window.isOpen = e.before.window.isOpen := congrArg ErrorLog.isOpen hlog
    rw [hopen, hcloses, or_iff_left hreports]
    exact (and_iff_right rfl).symm
  | announced hreports hcloses d hlog =>
    have hopen : e.after.window.isOpen = true :=
      (congrArg ErrorLog.isOpen hlog).trans (e.before.isOpen_announce d)
    exact iff_of_true hopen ⟨hcloses, .inr hreports⟩
  | matched _ hfound _ hlog =>
    have hclosed : e.after.window.isOpen = false := congrArg ErrorLog.isOpen hlog
    simp [hclosed, closes, hfound]
  | dropped _ hfound _ d hlog =>
    have hclosed : e.after.window.isOpen = false := congrArg ErrorLog.isOpen hlog
    simp [hclosed, closes, hfound]
  | restarted _ hrestarts hlog =>
    have hclosed : e.after.window.isOpen = false := congrArg ErrorLog.isOpen hlog
    simp [hclosed, closes, hrestarts]

theorem Telling.errorCount_eq (h : e.Telling) :
    e.after.errorCount = if e.restarts then 0 else e.before.errorCount + e.news.length := by
  have htells := h.tellsOnce
  cases h with
  | silent hreports hcloses hlog =>
    have hrestarts : e.restarts = false := (Bool.or_eq_false_iff.mp hcloses).2
    rw [hrestarts, htells.quiet hreports]
    exact congrArg ErrorLog.errorCount hlog
  | announced _ hcloses d hlog =>
    have hrestarts : e.restarts = false := (Bool.or_eq_false_iff.mp hcloses).2
    rw [hrestarts, news_eq ((congrArg ErrorLog.diagnostics hlog).trans
      (e.before.diagnostics_announce d))]
    exact (congrArg ErrorLog.errorCount hlog).trans (e.before.errorCount_announce d)
  | matched hreports _ hrestarts hlog =>
    rw [hrestarts, htells.quiet hreports]
    exact congrArg ErrorLog.errorCount hlog
  | dropped _ _ hrestarts d hlog =>
    rw [hrestarts, news_eq ((congrArg ErrorLog.diagnostics hlog).trans
      (e.before.diagnostics_announce d))]
    exact (congrArg ErrorLog.errorCount hlog).trans (e.before.errorCount_announce d)
  | restarted _ hrestarts hlog =>
    rw [hrestarts]
    exact congrArg ErrorLog.errorCount hlog

theorem TellsOnce.news_ne_nil_iff (h : e.TellsOnce) :
    e.news ≠ [] ↔ e.Reports ∧ e.before.window.isOpen = false := by
  constructor
  · intro hnews
    by_cases hreports : e.Reports
    · refine ⟨hreports, Bool.eq_false_iff.mpr fun hopen => ?_⟩
      exact hnews (h.suppressed hreports hopen)
    · exact absurd (h.quiet hreports) hnews
  · rintro ⟨hreports, hclosed⟩
    obtain ⟨d, hd⟩ := h.told hreports hclosed
    rw [hd]
    exact List.cons_ne_nil d []

end Event

/-! ## Runs -/

namespace Run

variable {s last : Session} {events : List Event}

theorem telling (h : Run s events last) (hops : ∀ e ∈ events, e.op.isParsing = true) {e : Event}
    (he : e ∈ events) : e.Telling :=
  Event.telling_of_effect (h.effect hops he)

theorem isOpen_iff (h : Run s events last) (hs : s.window.isOpen = false)
    (hops : ∀ e ∈ events, e.op.isParsing = true) :
    last.window.isOpen = true ↔ ∃ e ∈ events.takeWhile fun e => !e.closes, e.news ≠ [] := by
  induction h with
  | start => simp [hs]
  | @step events e h he ih =>
    have htelling := telling (.step h he) hops List.mem_cons_self
    have hbefore := ih fun e he => hops e (List.mem_cons_of_mem _ he)
    rw [htelling.isOpen_iff, List.takeWhile_cons]
    cases hcloses : e.closes with
    | true => simp
    | false =>
      -- a report in an open window adds no news, and the window stays open all the same
      simp only [Bool.not_false, if_true, List.mem_cons, or_and_right, exists_or, exists_eq_left]
      rw [htelling.tellsOnce.news_ne_nil_iff, ← hbefore]
      cases e.before.window.isOpen <;> simp

theorem errorCount_eq (h : Run s events last) (hs : s.errorCount = 0)
    (hops : ∀ e ∈ events, e.op.isParsing = true) :
    last.errorCount =
      ((events.takeWhile fun e => !e.restarts).flatMap Event.news).length := by
  induction h with
  | start => exact hs
  | @step events e h he ih =>
    have htelling := telling (.step h he) hops List.mem_cons_self
    have hbefore := ih fun e he => hops e (List.mem_cons_of_mem _ he)
    rw [htelling.errorCount_eq, List.takeWhile_cons, hbefore]
    cases hrestarts : e.restarts with
    | true => rfl
    | false => simp [Nat.add_comm]

theorem exists_closes_between (h : Run s events last) (hs : s.window.isOpen = false)
    (hops : ∀ e ∈ events, e.op.isParsing = true) {newer middle older : List Event}
    {later earlier : Event} (hevents : events = newer ++ later :: (middle ++ earlier :: older))
    (hlater : later.news ≠ []) (hearlier : earlier.news ≠ []) :
    ∃ e ∈ middle ++ [earlier], e.closes = true := by
  subst hevents
  have htells := (h.telling hops (e := later) (by simp)).tellsOnce
  have hclosed := (htells.news_ne_nil_iff.mp hlater).2
  have hopen := h.of_append.1.isOpen_iff hs fun e he =>
    hops e (List.mem_append_right _ (List.mem_cons_of_mem _ he))
  -- were nothing closed in between, the earlier delivery would keep the window open
  apply Classical.byContradiction
  intro hnot
  have hall : ∀ e ∈ middle ++ [earlier], (!e.closes) = true := by
    intro e he
    rw [Bool.not_eq_true', Bool.eq_false_iff]
    exact fun hcloses => hnot ⟨e, he, hcloses⟩
  have hstill : later.before.window.isOpen = true := by
    rw [hopen]
    refine ⟨earlier, ?_, hearlier⟩
    rw [List.append_cons, List.takeWhile_append_of_pos hall]
    simp
  rw [hclosed] at hstill
  cases hstill

end Run

/-- Errors are neither silent nor told twice in the events, newest first, that lead to `last`. -/
structure ToldOnce (events : List Event) (last : Session) : Prop where
  /-- a window is open exactly if something was delivered since the last match or start -/
  isOpen_iff :
    last.window.isOpen = true ↔ ∃ e ∈ events.takeWhile fun e => !e.closes, e.news ≠ []
  /-- a step delivers one diagnostic if it reports and no window is open, else none -/
  tellsOnce : ∀ e ∈ events, e.TellsOnce
  /-- what has been delivered since the last start is counted -/
  errorCount_eq :
    last.errorCount = ((events.takeWhile fun e => !e.restarts).flatMap Event.news).length
  /-- between two deliveries there is a match or a start -/
  closes_between : ∀ newer later middle earlier older,
    events = newer ++ later :: (middle ++ earlier :: older) → later.news ≠ [] →
      earlier.news ≠ [] → ∃ e ∈ middle ++ [earlier], e.closes = true

/-- Every run of a parser from a fresh session, under any mix of policies, tells each error once. The
older events of a run are a run, too, so this holds after each of its steps. -/
theorem Run.toldOnce {network : Network} {vocabulary : Vocabulary} {config : RecoveryConfig}
    {input : TokenStream} {events : List Event} {last : Session}
    (h : Run (Session.new network vocabulary config input) events last)
    (hops : ∀ e ∈ events, e.op.isParsing = true) : ToldOnce events last where
  isOpen_iff := h.isOpen_iff rfl hops
  tellsOnce _ he := (h.telling hops he).tellsOnce
  errorCount_eq := h.errorCount_eq rfl hops
  closes_between _ _ _ _ _ hevents hlater hearlier :=
    h.exists_closes_between rfl hops hevents hlater hearlier

/-! ### A parse with two errors told and one suppressed -/

/-- `pair : A B` with the kinds one and two, over the input `B A B B`. -/
def pairSession : Session :=
  .new
    { states := #[⟨0, .ruleStart, 0, [⟨.token 1, 2⟩]⟩, ⟨1, .ruleStop, 0, []⟩,
        ⟨2, .basic, 0, [⟨.token 2, 1⟩]⟩]
      rules := #[⟨"pair", 0, 1⟩]
      maxKind := 2 }
    {} {} (.ofKinds [2, 1, 2, 2])

/-- The first `B` is dropped, then a predicate fails, and bailing out of a match in the same window
stays silent. -/
def pairSteps : List (Strategy × Operation) :=
  [(.repair, .enterRule 0), (.repair, .matchKind 1), (.repair, .setState 2),
    (.repair, .checkPredicate false "p" none), (.bail, .matchKind 1)]

theorem toldOnce_pairSteps :
    ∃ events last, Run pairSession events last ∧ (∀ e ∈ events, e.op.isParsing = true) ∧
      last.errorCount = 2 ∧ ToldOnce events last := by
  have hcount : (pairSession.run? pairSteps).map (fun final => final.2.errorCount) = some 2 := by
    decide +kernel
  obtain ⟨⟨answers, last⟩, hrun, hlast⟩ := Option.map_eq_some_iff.mp hcount
  obtain ⟨events, h, hsteps⟩ := Run.exists_run hrun
  have hall : ∀ step ∈ pairSteps, step.2.isParsing = true := by decide
  have hops : ∀ e ∈ events, e.op.isParsing = true := fun e he => hall _ (hsteps e he)
  exact ⟨events, last, h, hops, hlast, h.toldOnce hops⟩

end ParseRecovery
