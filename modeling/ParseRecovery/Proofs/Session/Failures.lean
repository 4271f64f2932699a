import ParseRecovery.Proofs.Session.Windows

/-!
Operations that fail. An operation answers with an error in a few of its effects only, and in those it
has told of one fault at most (`Effect.tells_of_error`): the input, the state, the stack and what the
window remembers are as before. Where the error is not the operation's own to report, nothing at all
has happened (`PassesOn`). Main statement: every failed operation, under either policy, can be retried
from where it was called (`perform?_fails_in_place`).
-/

namespace ParseRecovery

namespace Session

variable {s : Session} {strategy : Strategy} {op : Operation} {o : Outcome Response}
  {failure : Failure}

theorem Tells.eq_or_announced {told : Session} (h : s.Tells told) :
    told = s ∨ s.window.isOpen = false ∧ ∃ d, told = s.openWindow.notify d := by
  cases h with
  | silent => exact .inl rfl
  | announced d =>
    rw [announce]
    split
    · exact .inl rfl
    · rename_i hclosed
      exact .inr ⟨Bool.eq_false_iff.mpr hclosed, d, rfl⟩

/-- Whatever the other operations do, they do it without fail. -/
theorem isParsing_of_error (h : s.perform? strategy op = some o) (hfail : o.result = .error failure) :
    op.isParsing = true := by
  cases op with
  | enterRule | exitRule | setState | reset | matchKind | matchSet | checkPredicate | handle | report
  | recover | repairInline | sync | ask => rfl
  | openWindow | closeWindow | setWindow | seek | consume | mark | release | subscribe | notify
  | takeDiagnostics =>
    cases h
    cases hfail

theorem Effect.tells_of_error (h : s.Effect strategy op o) (hfail : o.result = .error failure) :
    s.Tells o.session := by
  cases h with
  | placed | restarted | matched | dropped | conjured | held | resumed | aligned | realigned
  | answered => cases hfail
  | gaveUp => exact .silent
  | @cancelled op expected =>
    -- giving the parse up tells of the mismatch in the same way as a report of it
    show s.Tells (s.cancelExpecting expected).session
    rw [session_cancelExpecting]
    exact .announced _
  | refused => exact .announced _
  | told => exact .announced _
  | raised => exact .announced _
  | halted => exact .silent
  | forwarded => exact .silent
  | abandoned hop => exact hop.tells

/-- The failure is handed on to the caller, who is left to report it or knows of it already. -/
inductive PassesOn : Strategy → Operation → Failure → Prop
  | unrepaired (op : Operation) (f : Fault) : PassesOn .repair op (.unrecoverable f)
  | reported (strategy : Strategy) (f : Fault) : PassesOn strategy (.handle (.reported f)) (.reported f)
  | cancelled (strategy : Strategy) (f : Fault) :
      PassesOn strategy (.handle (.cancelled f)) (.cancelled f)
  | abandoned (f : Fault) : PassesOn .bail (.recover f) (.cancelled f)

theorem Effect.eq_of_passesOn (h : s.Effect strategy op o) (hfail : o.result = .error failure)
    (hpasses : PassesOn strategy op failure) : o.session = s := by
  cases h with
  | placed | restarted | matched | dropped | conjured | held | resumed | aligned | realigned
  | answered => cases hfail
  | gaveUp | halted | forwarded => rfl
  | cancelled hop =>
    -- only matches are cancelled for their own fault, and those pass nothing on
    cases hpasses with
    | reported | cancelled | abandoned => cases hop
  | refused =>
    cases hfail
    cases hpasses
  | told f =>
    -- what a report raises is reported
    rcases s.result_report_cases f with hresult | hresult
    · rw [Outcome.respond, hresult] at hfail
      cases hfail
      cases hpasses
    · rw [Outcome.respond, hresult] at hfail
      cases hfail
  | raised hf =>
    cases hfail
    cases hpasses
    cases hf
  | abandoned hop =>
    cases hfail
    cases hpasses with
    | cancelled =>
      cases hop with
      | unreported hf => cases hf
    | abandoned =>
      cases hop
      rfl

/-- What a failed operation leaves of a session. -/
structure FailsInPlace (s : Session) (strategy : Strategy) (op : Operation) (failure : Failure)
    (after : Session) : Prop where
  /-- the tokens, the cursor and the markers -/
  input_eq : after.input = s.input
  state_eq : after.state = s.state
  stack_eq : after.stack = s.stack
  resyncIndex_eq : after.window.resyncIndex = s.window.resyncIndex
  resyncStates_eq : after.window.resyncStates = s.window.resyncStates
  /-- at most, one diagnostic was delivered and opened a window -/
  told : after = s ∨ s.window.isOpen = false ∧ ∃ d, after =
    { s with
      window := { s.window with isOpen := true }
      diagnostics := s.diagnostics ++ [d]
      errorCount := s.errorCount + 1 }
  untouched : PassesOn strategy op failure → after = s

/-- An operation that fails has moved nothing, and has told of one fault at most. -/
theorem perform?_fails_in_place (h : s.perform? strategy op = some o)
    (hfail : o.result = .error failure) : s.FailsInPlace strategy op failure o.session := by
  have heffect := effect_of_perform? (isParsing_of_error h hfail) h
  have htold := (heffect.tells_of_error hfail).eq_or_announced
  have huntouched := heffect.eq_of_passesOn hfail
  refine ⟨?_, ?_, ?_, ?_, ?_, htold, huntouched⟩
  all_goals
    rcases htold with heq | ⟨-, d, heq⟩
    · rw [heq]
    · rw [heq]
      rfl

/-- Bailing out of `pair` where a `B` stands in place of the `A` tells of the mismatch, and the match
can be retried under the other policy. -/
theorem perform?_fails_in_place_pairSession :
    ∃ o failure, pairSession.perform? .bail (.matchKind 1) = some o ∧
      o.result = .error failure ∧ o.session.errorCount = 1 ∧
      pairSession.FailsInPlace .bail (.matchKind 1) failure o.session := by
  have hexpected : pairSession.expectedTokens? = some (SortedSet.ofList [1]) := by decide +kernel
  obtain ⟨failure, hfailure⟩ := pairSession.result_cancelExpecting (SortedSet.ofList [1])
  have hperform : pairSession.perform? .bail (.matchKind 1) =
      some ((pairSession.cancelExpecting (SortedSet.ofList [1])).respond .symbol) := by
    have hmismatch : pairSession.input.current.kind ≠ 1 := by decide +kernel
    rw [perform?, matchKind?, if_neg hmismatch, repairInline?, hexpected]
    rfl
  have hfail : ((pairSession.cancelExpecting (SortedSet.ofList [1])).respond .symbol).result =
      .error failure := by
    rw [Outcome.respond, hfailure]
    rfl
  exact ⟨_, failure, hperform, hfail, rfl, perform?_fails_in_place hperform hfail⟩

end Session

end ParseRecovery
