import ParseRecovery.Proofs.Session.Resync

/-!
What becomes of a failure when a rule handles it, where errors are not all raised and errors are
repaired. Either the parse goes on, at the end of the input or at a token that can follow one of the
rules being executed (`Session.IsResumed`), or reporting the failure raises it once more: that is so
for a predicate that does not hold, if it has not been told of before. Main statement:
`Session.handle?_resumes_unless_raised`. So handling may stop a parse though the policy asks for
nothing of the kind (`Session.handle?_raises_predicate`), and goes on with the same fault if it has
been told of.
-/

namespace ParseRecovery

/-- Telling of the failure raises it, whatever the settings: it is still to be told of, and cannot be
repaired. -/
def Failure.isRaised (failure : Failure) : Bool :=
  failure.unreported?.any fun f => !f.cause.isRepairable

namespace Session

/-- The current token ends the input, or can follow one of the rules being executed. -/
def IsResumed (s : Session) : Prop :=
  ∃ kinds, s.recoverySet? = some kinds ∧
    (s.input.atEof = true ∨ s.input.current.kind ∈ kinds)

variable {s : Session}

theorem isResumed_of_resync? {after : Session} (h : s.resync? = some after) :
    after.stack = s.stack ∧ after.IsResumed := by
  obtain ⟨kinds, hkinds, rfl⟩ := Option.map_eq_some_iff.mp h
  -- after dropping a token or not, the cursor is where skipping left it
  have hstops := (if s.isStalled then s.input.consume else s.input).stops_skipUntil kinds.contains
  rw [SortedSet.contains_eq_true_iff] at hstops
  exact ⟨rfl, kinds, hkinds, hstops⟩

theorem Tells.exists_recover? {told : Session} (h : s.Tells told) (hn : s.network.Formed)
    (hs : Entered s.network s.stack) (f : Fault) :
    ∃ after, told.recover? f .repair = some ⟨.ok (), after⟩ ∧ after.stack = s.stack ∧
      after.IsResumed := by
  obtain ⟨kinds, hresync, -⟩ := (h.entered hs).exists_resync? (h.formed hn)
  obtain ⟨hstack, hresumed⟩ := isResumed_of_resync? hresync
  exact ⟨_, by rw [recover?, hresync]; rfl, hstack.trans h.stack_eq, hresumed⟩

section Report

variable (hhalt : s.config.haltOnError = false) {f : Fault}
include hhalt

theorem result_report_of_isRepairable (h : f.cause.isRepairable = true) :
    (s.report f).result = .ok () := by
  simp [report, hhalt, h]

theorem result_report_of_not_isRepairable (h : f.cause.isRepairable = false) :
    (s.report f).result = .error (.reported f) := by
  simp [report, hhalt, h]

end Report

/-- Where errors are not all raised, a failure other than giving the parse up is handled by resuming at
the end of the input or at a token that can follow one of the rules being executed, unless telling of
it raises it. -/
theorem handle?_resumes_unless_raised (hbuilt : s.network.IsBuilt)
    (hs : Entered s.network s.stack) (hhalt : s.config.haltOnError = false) {failure : Failure}
    (hfailure : ∀ f, failure ≠ .cancelled f) :
    (failure.isRaised = true → ∃ f, failure.unreported? = some f ∧
      s.handle? .repair failure = some ⟨.error (.reported f), (s.report f).session⟩) ∧
    (failure.isRaised = false → ∃ after, s.handle? .repair failure = some ⟨.ok (), after⟩ ∧
      after.stack = s.stack ∧ after.IsResumed) := by
  have hn := hbuilt.formed
  cases hunreported : failure.unreported? with
  | some f =>
    have hraised : failure.isRaised = !f.cause.isRepairable := by
      rw [Failure.isRaised, hunreported, Option.any_some]
    rw [hraised, Bool.not_eq_true', Bool.not_eq_false']
    refine ⟨fun h => ?_, fun h => ?_⟩
    · exact ⟨f, rfl, handle?_of_raised hunreported (result_report_of_not_isRepairable hhalt h)⟩
    · rw [handle?_of_told hunreported (result_report_of_isRepairable hhalt h)]
      exact (Tells.announced _).exists_recover? hn hs f
  | none =>
    rw [Failure.isRaised, hunreported, Option.any_none]
    refine ⟨Bool.noConfusion, fun _ => ?_⟩
    cases failure with
    | detected | unrecoverable => cases hunreported
    | cancelled f => exact absurd rfl (hfailure f)
    | reported f =>
      rw [handle?, hhalt, if_neg Bool.noConfusion]
      exact Tells.silent.exists_recover? hn hs f

/-! ### Behind a name that no `SEMI` follows -/

def sumMismatch : Fault :=
  sumSession.faultExpecting ∅ .inputMismatch sumSession.input.current

theorem handle?_resumes_unless_raised_sumSession :
    sumSession.network.IsBuilt ∧ Entered sumSession.network sumSession.stack ∧
      sumSession.config.haltOnError = false ∧
      (∀ f, Failure.unrecoverable sumMismatch ≠ .cancelled f) ∧
      (Failure.unrecoverable sumMismatch).isRaised = false ∧
      ∃ after, sumSession.handle? .repair (.unrecoverable sumMismatch) = some ⟨.ok (), after⟩ ∧
        after.stack = sumSession.stack ∧ after.IsResumed := by
  have hfailure : ∀ f, Failure.unrecoverable sumMismatch ≠ .cancelled f := fun _ =>
    Failure.noConfusion
  have hraised : (Failure.unrecoverable sumMismatch).isRaised = false := rfl
  exact ⟨Network.isBuilt_sumNetwork, entered_sumSession, rfl, hfailure, hraised,
    (handle?_resumes_unless_raised Network.isBuilt_sumNetwork entered_sumSession rfl hfailure).2
      hraised⟩

/-- Handling a predicate that does not hold stops the parse, before a token that follows none of the
rules being executed, though errors are not all raised. If it has been told of, the parse goes on. -/
theorem handle?_raises_predicate :
    sumSession.network.IsBuilt ∧ Entered sumSession.network sumSession.stack ∧
      sumSession.config.haltOnError = false ∧
      ∃ f, sumSession.failedPredicate? "p" none = some f ∧
        (∃ after, sumSession.handle? .repair (.detected f) = some ⟨.error (.reported f), after⟩ ∧
          ¬ after.IsResumed) ∧
        ∃ after, sumSession.handle? .repair (.reported f) = some ⟨.ok (), after⟩ ∧
          after.IsResumed := by
  have hn : sumSession.network.Formed := Network.isBuilt_sumNetwork.formed
  obtain ⟨expected, hexpected⟩ : ∃ expected, sumSession.expectedTokens? = some expected :=
    Option.isSome_iff_exists.mp (by decide +kernel)
  have hrecovery : sumSession.recoverySet? = some (SortedSet.ofList [3]) := by decide +kernel
  let f := sumSession.faultExpecting expected (.failedPredicate "sum" "p" none)
    sumSession.input.current
  have hf : sumSession.failedPredicate? "p" none = some f := by
    rw [failedPredicate?, fault?, hexpected]
    rfl
  have hraises : sumSession.handle? .repair (.detected f) =
      some ⟨.error (.reported f), (sumSession.report f).session⟩ :=
    handle?_of_raised rfl (result_report_of_not_isRepairable rfl rfl)
  have hstays : ¬ (sumSession.report f).session.IsResumed := by
    rintro ⟨kinds, hkinds, hstop⟩
    cases hrecovery.symm.trans hkinds
    rw [session_report, input_announce] at hstop
    exact absurd hstop (by decide)
  obtain ⟨after, hresumes, -, hresumed⟩ := Tells.silent.exists_recover? hn entered_sumSession f
  exact ⟨Network.isBuilt_sumNetwork, entered_sumSession, rfl, f, hf, ⟨_, hraises, hstays⟩, after,
    hresumes, hresumed⟩

end Session

end ParseRecovery
