import ParseRecovery.Proofs.Session.Effects

/-!
Runs: any steps of a session one after another, each under its own policy. The events of a run stand
newest first, so that the events since something happened come before it in the list. Each event
continues the run of the older ones (`Run.of_append`), and what is done in order is a run
(`exists_run_of_run?`).
-/

namespace ParseRecovery

/-- What was done to a session under a policy, and what came of it. -/
structure Event where
  before : Session
  strategy : Strategy
  op : Operation
  outcome : Outcome Response

namespace Event

def after (e : Event) : Session :=
  e.outcome.session

/-- The diagnostics that the step delivered. -/
def news (e : Event) : List Diagnostic :=
  Session.news e.before e.after

/-- The step starts the parse over. -/
def restarts (e : Event) : Bool :=
  decide (e.op = .reset)

/-- The step is one that the operations allow. -/
def Happens (e : Event) : Prop :=
  e.before.perform? e.strategy e.op = some e.outcome

end Event

namespace Session

/-- What is done in order begins with its first step and goes on behind it. -/
theorem run?_cons_iff {s last : Session} {step : Strategy × Operation}
    {rest : List (Strategy × Operation)} {answers : List (Except Failure Response)} :
    s.run? (step :: rest) = some (answers, last) ↔
      ∃ o later, s.perform? step.1 step.2 = some o ∧ o.session.run? rest = some (later, last) ∧
        answers = o.result :: later := by
  obtain ⟨strategy, op⟩ := step
  rw [run?]
  constructor
  · intro h
    cases hperform : s.perform? strategy op with
    | none => simp only [hperform, reduceCtorEq] at h
    | some o =>
      simp only [hperform] at h
      cases hrest : o.session.run? rest with
      | none => simp only [hrest, reduceCtorEq] at h
      | some final =>
        simp only [hrest, Option.some.injEq, Prod.mk.injEq] at h
        exact ⟨o, final.1, rfl, by rw [hrest, ← h.2], h.1.symm⟩
  · intro ⟨o, later, hperform, hrest, hanswers⟩
    simp only [hperform, hrest, hanswers]

end Session

/-- From `s` the events, newest first, lead to a session. -/
inductive Run (s : Session) : List Event → Session → Prop
  | start : Run s [] s
  | step {events : List Event} {e : Event} (h : Run s events e.before) (he : e.Happens) :
      Run s (e :: events) e.after

namespace Run

variable {s last : Session} {events : List Event}

theorem of_append {newer older : List Event} {e : Event} (h : Run s (newer ++ e :: older) last) :
    Run s older e.before ∧ e.Happens := by
  induction newer generalizing last with
  | nil =>
    cases h with
    | step h he => exact ⟨h, he⟩
  | cons latest newer ih =>
    cases h with
    | step h _ => exact ih h

theorem happens (h : Run s events last) {e : Event} (he : e ∈ events) : e.Happens := by
  obtain ⟨newer, older, rfl⟩ := List.append_of_mem he
  exact h.of_append.2

theorem effect (h : Run s events last) (hops : ∀ e ∈ events, e.op.isParsing = true) {e : Event}
    (he : e ∈ events) : e.before.Effect e.strategy e.op e.outcome :=
  Session.effect_of_perform? (hops e he) (h.happens he)

theorem change (h : Run s events last) (hops : ∀ e ∈ events, e.op.isParsing = true) {e : Event}
    (he : e ∈ events) : e.before.Change e.op e.after :=
  (h.effect hops he).change

theorem sameGivens (h : Run s events last) : s.SameGivens last := by
  induction h with
  | start => exact .refl s
  | step _ he ih => exact ih.trans (Session.sameGivens_of_perform? he)

theorem sameGivens_of_mem (h : Run s events last) {e : Event} (he : e ∈ events) :
    s.SameGivens e.before := by
  obtain ⟨newer, older, rfl⟩ := List.append_of_mem he
  exact h.of_append.1.sameGivens

theorem exists_run_of_run? {past : List Event} {t : Session} (hpast : Run s past t)
    {steps : List (Strategy × Operation)} {answers : List (Except Failure Response)}
    (h : t.run? steps = some (answers, last)) :
    ∃ events, Run s (events ++ past) last ∧
      events.reverse.map (fun e => (e.strategy, e.op)) = steps ∧
      events.reverse.map (fun e => e.outcome.result) = answers := by
  induction steps generalizing past t answers with
  | nil =>
    cases h
    exact ⟨[], hpast, rfl, rfl⟩
  | cons step rest ih =>
    obtain ⟨strategy, op⟩ := step
    obtain ⟨o, later, hperform, hrest, rfl⟩ := Session.run?_cons_iff.mp h
    -- the first step comes on top of the past, below all that is done after it
    have hstep : Run s (⟨t, strategy, op, o⟩ :: past) o.session := .step hpast hperform
    obtain ⟨events, hrun, hsteps, hanswers⟩ := ih hstep hrest
    refine ⟨events ++ [⟨t, strategy, op, o⟩], ?_, ?_, ?_⟩
    · rw [List.append_assoc]
      exact hrun
    · rw [List.reverse_append, List.map_append, hsteps]
      rfl
    · rw [List.reverse_append, List.map_append, hanswers]
      rfl

/-- What is done in order from the start is a run of just these steps. -/
theorem exists_run {steps : List (Strategy × Operation)} {answers : List (Except Failure Response)}
    (h : s.run? steps = some (answers, last)) :
    ∃ events, Run s events last ∧ ∀ e ∈ events, (e.strategy, e.op) ∈ steps := by
  obtain ⟨events, hrun, hsteps, -⟩ := exists_run_of_run? .start h
  rw [List.append_nil] at hrun
  refine ⟨events, hrun, fun e he => ?_⟩
  rw [← hsteps]
  exact List.mem_map.mpr ⟨e, List.mem_reverse.mpr he, rfl⟩

end Run

end ParseRecovery
