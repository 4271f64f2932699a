import Mathlib.Data.Finset.Card
import ParseRecovery.Proofs.Session.Resync

/-!
Progress of the repairing policy. A window remembers where and from which states a parse was resumed
in it (`Session.Remembers`). No step moves the cursor back, and a step that forgets what is remembered
at its place moves the cursor on, since it matches or drops a token (`Change.advances`). So a parse
that is resumed twice from one state at one token leaves the token behind, and at one token a parse is
resumed at most once more than there are states it is resumed from. Main statement: `Run.progresses`.
-/

namespace ParseRecovery

namespace Session

/-- The operation gets as far as resuming after a fault. -/
def resumes (s : Session) : Operation → Bool
  | .recover _ => true
  | .handle (.reported _) => !s.config.haltOnError
  | .handle (.detected f) | .handle (.unrecoverable f) => (s.report f).result.isOk
  | _ => false

/-- A parse was resumed at the current place, in this window and from the state. -/
def Remembers (s : Session) (state : StateId) : Prop :=
  s.window.resyncIndex = some s.input.index ∧ state ∈ s.window.resyncStates

variable {s : Session} {op : Operation}

theorem resumes_iff : s.resumes op = true ↔ ∃ f told, s.Resumes op f told := by
  have hunreported : ∀ {failure f}, failure.unreported? = some f →
      ((s.report f).result.isOk = true ↔ ∃ f told, s.Resumes (.handle failure) f told) := by
    intro failure f hf
    constructor
    · intro hok
      rcases s.result_report_cases f with h | h
      · rw [h] at hok
        cases hok
      · exact ⟨f, _, .unreported hf h⟩
    · rintro ⟨f', told, hresumes⟩
      cases hresumes with
      | reported => cases hf
      | unreported hf' h =>
        cases hf.symm.trans hf'
        rw [h]
        rfl
  cases op with
  | recover f => exact iff_of_true rfl ⟨f, s, .direct f⟩
  | handle failure =>
    cases failure with
    | detected f => exact hunreported rfl
    | unrecoverable f => exact hunreported rfl
    | reported f =>
      constructor
      · intro hhalt
        exact ⟨f, s, .reported (by simpa [resumes] using hhalt)⟩
      · rintro ⟨f', told, hresumes⟩
        cases hresumes with
        | reported h => simpa [resumes] using h
        | unreported hf => cases hf
    | cancelled f =>
      apply iff_of_false Bool.noConfusion
      rintro ⟨f', told, hresumes⟩
      cases hresumes with
      | unreported hf => cases hf
  | _ =>
    apply iff_of_false Bool.noConfusion
    rintro ⟨f, told, hresumes⟩
    cases hresumes

/-- The sessions are at the same place, and remember the same there. -/
structure SamePlace (s t : Session) : Prop where
  input_eq : t.input = s.input
  resyncIndex_eq : t.window.resyncIndex = s.window.resyncIndex
  resyncStates_eq : t.window.resyncStates = s.window.resyncStates

theorem SamePlace.refl (s : Session) : s.SamePlace s :=
  ⟨rfl, rfl, rfl⟩

theorem Tells.samePlace {told : Session} (h : s.Tells told) : s.SamePlace told := by
  cases h with
  | silent => exact .refl s
  | announced d => constructor <;> simp

theorem SamePlace.remembers_iff {t : Session} (h : s.SamePlace t) {state : StateId} :
    t.Remembers state ↔ s.Remembers state := by
  rw [Remembers, Remembers, h.input_eq, h.resyncIndex_eq, h.resyncStates_eq]

theorem Tells.state_eq {told : Session} (h : s.Tells told) : told.state = s.state := by
  cases h with
  | silent => rfl
  | announced d => exact s.state_announce d

/-- The cursor has moved on, or it has not moved and, at a token, all that was remembered still is. -/
def Advances (s t : Session) : Prop :=
  s.input.index < t.input.index ∨
    s.input.index = t.input.index ∧
      (s.input.atEof = false → ∀ state, s.Remembers state → t.Remembers state)

theorem Advances.index_le {t : Session} (h : s.Advances t) : s.input.index ≤ t.input.index := by
  rcases h with hlt | ⟨heq, -⟩
  · exact Nat.le_of_lt hlt
  · exact Nat.le_of_eq heq

theorem SamePlace.advances {t : Session} (h : s.SamePlace t) : s.Advances t :=
  .inr ⟨by rw [h.input_eq], fun _ _ => h.remembers_iff.mpr⟩

/-! ## Resuming -/

theorem resyncStart_le (s : Session) : s.input.index ≤ s.resyncStart := by
  have hlt := s.input.index_lt
  rw [resyncStart, TokenStream.size]
  split
  · omega
  · exact Nat.le_refl _

theorem index_le_resyncTo (s : Session) (kinds : KindSet) :
    s.input.index ≤ (s.resyncTo kinds).input.index :=
  Nat.le_trans s.resyncStart_le (s.leastFrom_resyncTo kinds).1

theorem advances_resyncTo (s : Session) (kinds : KindSet) :
    s.input.index < (s.resyncTo kinds).input.index ∨
      s.input.index = (s.resyncTo kinds).input.index ∧
        ∀ state, state = s.state ∨ s.Remembers state → (s.resyncTo kinds).Remembers state := by
  have hle := s.index_le_resyncTo kinds
  have hstart := (s.leastFrom_resyncTo kinds).1
  rcases Nat.lt_or_ge s.input.index (s.resyncTo kinds).input.index with hlt | hge
  · exact .inl hlt
  · -- the cursor has not moved, so resuming began to look where it stands, and noted that place
    have hindex := Nat.le_antisymm hle hge
    refine .inr ⟨hindex, fun state hstate => ?_⟩
    have hstart_eq : s.resyncStart = s.input.index :=
      Nat.le_antisymm (hindex ▸ hstart) s.resyncStart_le
    rw [Remembers, ← hindex, resyncTo_eq, hstart_eq]
    refine ⟨rfl, SortedSet.mem_insert.mpr ?_⟩
    exact hstate.imp_right And.right

theorem index_lt_resyncTo (heof : s.input.atEof = false) (h : s.Remembers s.state)
    (kinds : KindSet) : s.input.index < (s.resyncTo kinds).input.index := by
  have hstart := (s.leastFrom_resyncTo kinds).1
  have hsucc := TokenStream.index_succ_lt heof
  rw [resyncStart, if_pos ⟨h.1, h.2⟩, TokenStream.size] at hstart
  omega

section Tells

variable {told : Session} (h : s.Tells told) (kinds : KindSet)
include h

theorem Tells.remembers_resyncTo :
    s.input.index < (told.resyncTo kinds).input.index ∨
      s.input.index = (told.resyncTo kinds).input.index ∧
        ∀ state, state = s.state ∨ s.Remembers state → (told.resyncTo kinds).Remembers state := by
  have hsame := h.samePlace
  simp only [← hsame.input_eq, ← h.state_eq, ← hsame.remembers_iff]
  exact told.advances_resyncTo kinds

theorem Tells.advances_resyncTo : s.Advances (told.resyncTo kinds) := by
  apply (h.remembers_resyncTo kinds).imp_right
  rintro ⟨heq, hmemory⟩
  exact ⟨heq, fun _ state hstate => hmemory state (.inr hstate)⟩

theorem Tells.index_lt_resyncTo (heof : s.input.atEof = false) (hstate : s.Remembers s.state) :
    s.input.index < (told.resyncTo kinds).input.index := by
  have hsame := h.samePlace
  rw [← hsame.input_eq] at heof ⊢
  rw [← h.state_eq, ← hsame.remembers_iff] at hstate
  exact Session.index_lt_resyncTo heof hstate kinds

end Tells

/-! ## Steps -/

theorem advances_matchCurrent (s : Session) : s.Advances s.matchCurrent.session := by
  show s.input.index < s.input.consume.index ∨ s.input.index = s.input.consume.index ∧ _
  rcases Nat.lt_or_eq_of_le s.input.index_le_consume with hlt | heq
  · exact .inl hlt
  · -- all is forgotten, but then the input is at its end
    refine .inr ⟨heq, fun heof => ?_⟩
    have hlt := TokenStream.index_lt_consume heof
    omega

theorem index_lt_dropToken {expected : KindSet} (h : s.canDrop expected = true) :
    s.input.index < (s.dropToken expected).session.input.index := by
  have heof : s.input.atEof = false := by
    simp only [canDrop, Bool.and_eq_true, Bool.not_eq_true'] at h
    exact h.1.1.2
  show s.input.index < (s.announceSurplus expected).input.consume.consume.index
  rw [announceSurplus, input_announce]
  have hfirst := TokenStream.index_lt_consume heof
  have hsecond := s.input.consume.index_le_consume
  omega

/-- No step of a parse moves the cursor back, and what forgets at a token moves on. -/
theorem Change.advances {after : Session} (h : s.Change op after) (hop : op ≠ .reset) :
    s.Advances after := by
  cases h with
  | placed h =>
    rw [h.eq]
    exact SamePlace.advances ⟨rfl, rfl, rfl⟩
  | restarted => exact absurd rfl hop
  | matched => exact s.advances_matchCurrent
  | dropped hdrop => exact .inl (index_lt_dropToken hdrop)
  | told h => exact h.samePlace.advances
  | resumed h kinds => exact h.advances_resyncTo kinds
  | realigned stop =>
    rcases Nat.lt_or_eq_of_le (s.input.index_le_skipUntil stop) with hlt | heq
    · exact .inl hlt
    · -- realigning keeps the window, so at the same place all is remembered
      refine .inr ⟨heq, fun _ state hstate => ?_⟩
      exact ⟨hstate.1.trans (congrArg some heq), hstate.2⟩

end Session

namespace Event

/-- The step is one in the course of a parse, under the repairing policy. -/
structure Repairs (e : Event) : Prop where
  strategy_eq : e.strategy = .repair
  isParsing : e.op.isParsing = true
  ne_reset : e.op ≠ .reset

/-- The step resumes after a fault, unless it bails out. -/
def resumes (e : Event) : Bool :=
  e.before.resumes e.op

/-- The step resumes at a place. -/
def resumesAt (i : Nat) (e : Event) : Bool :=
  e.resumes && decide (e.before.input.index = i)

variable {e : Event}

theorem resumesAt_iff {i : Nat} :
    e.resumesAt i = true ↔ e.resumes = true ∧ e.before.input.index = i := by
  rw [resumesAt, Bool.and_eq_true, decide_eq_true_iff]

theorem exists_resyncTo (hrepairs : e.Repairs) (he : e.Happens) (h : e.resumes = true) :
    ∃ told kinds, e.before.Tells told ∧ e.after = told.resyncTo kinds := by
  obtain ⟨f, told, hresumes⟩ := Session.resumes_iff.mp h
  rw [Happens, hrepairs.strategy_eq, Session.perform?_of_resumes hresumes] at he
  obtain ⟨after, hafter, houtcome⟩ := Option.map_eq_some_iff.mp he
  obtain ⟨kinds, -, rfl⟩ := Option.map_eq_some_iff.mp hafter
  exact ⟨told, kinds, hresumes.tells, by rw [after, ← houtcome]; rfl⟩

end Event

/-! ## Runs -/

namespace Run

variable {s last : Session} {events : List Event}

theorem advances (h : Run s events last) (hrepairs : ∀ e ∈ events, e.Repairs) {e : Event}
    (he : e ∈ events) : e.before.Advances e.after :=
  (h.change (fun e he => (hrepairs e he).isParsing) he).advances (hrepairs e he).ne_reset

theorem get?_index_of_mem (h : Run s events last) {e : Event} (he : e ∈ events) :
    s.input.get? e.before.input.index = some e.before.input.current := by
  rw [TokenStream.get?, ← (h.sameGivens_of_mem he).tokens_eq]
  exact e.before.input.get?_index

theorem atEof_eq_false (h : Run s events last) {i : Nat} {t : Token} (ht : s.input.get? i = some t)
    (heof : t.isEof = false) (hi : last.input.index = i) : last.input.atEof = false := by
  -- the tokens are those of the start
  have htokens := h.sameGivens.tokens_eq
  have hcurrent := last.input.get?_index
  rw [TokenStream.get?, htokens, hi] at hcurrent
  cases hcurrent.symm.trans ht
  exact heof

section AtToken

variable (h : Run s events last) (hrepairs : ∀ e ∈ events, e.Repairs) {i : Nat} {t : Token}
  (ht : s.input.get? i = some t) (heof : t.isEof = false)
include h hrepairs ht heof

/-- Where a step has resumed at a token, the cursor has moved on since, or the state that the step
resumed from is remembered. -/
theorem remembers {e : Event} (he : e ∈ events) (hresumes : e.resumesAt i = true) :
    i < last.input.index ∨ i = last.input.index ∧ last.Remembers e.before.state := by
  induction h with
  | start => cases he
  | @step events latest h hlatest ih =>
    have hrepairs' : ∀ e ∈ events, e.Repairs := fun e he => hrepairs e (List.mem_cons_of_mem _ he)
    have hadvances := (step h hlatest).advances hrepairs List.mem_cons_self
    rcases List.mem_cons.mp he with rfl | hold
    · obtain ⟨hresumes, hi⟩ := Event.resumesAt_iff.mp hresumes
      obtain ⟨told, kinds, htells, hafter⟩ :=
        Event.exists_resyncTo (hrepairs e he) hlatest hresumes
      rw [hafter, ← hi]
      apply (htells.remembers_resyncTo kinds).imp_right
      exact And.imp_right fun hmemory => hmemory _ (.inl rfl)
    · rcases ih hrepairs' hold with hlt | ⟨heq, hmemory⟩
      · exact .inl (Nat.lt_of_lt_of_le hlt hadvances.index_le)
      · -- still at the token, which is not the end of the input
        have hat := h.atEof_eq_false ht heof heq.symm
        rw [heq]
        exact hadvances.imp_right (And.imp_right fun hkeep => hkeep hat _ hmemory)

/-- While the cursor has not passed a token, the steps that resumed there did so from different
states; after that there is one more at most. -/
theorem length_resumesAt_le :
    (last.input.index ≤ i → (events.filter (Event.resumesAt i)).length ≤
      ((events.filter (Event.resumesAt i)).map fun e => e.before.state).toFinset.card) ∧
    (events.filter (Event.resumesAt i)).length ≤
      ((events.filter (Event.resumesAt i)).map fun e => e.before.state).toFinset.card + 1 := by
  induction h with
  | start => exact ⟨fun _ => Nat.le_refl 0, Nat.zero_le 1⟩
  | @step events latest h hlatest ih =>
    have hrepairs' : ∀ e ∈ events, e.Repairs := fun e he => hrepairs e (List.mem_cons_of_mem _ he)
    have hle := ((step h hlatest).advances hrepairs List.mem_cons_self).index_le
    obtain ⟨hdifferent, hmost⟩ := ih hrepairs'
    by_cases hlatest_resumes : latest.resumesAt i = true
    · obtain ⟨hresumes, hi⟩ := Event.resumesAt_iff.mp hlatest_resumes
      have hbound := hdifferent (Nat.le_of_eq hi)
      rw [List.filter_cons_of_pos hlatest_resumes, List.length_cons, List.map_cons,
        List.toFinset_cons]
      by_cases hmem : latest.before.state ∈
          ((events.filter (Event.resumesAt i)).map fun e => e.before.state).toFinset
      · -- resumed there from this state before, so this time the token is left behind
        rw [Finset.insert_eq_of_mem hmem]
        obtain ⟨e, he, hstate⟩ := List.mem_map.mp (List.mem_toFinset.mp hmem)
        obtain ⟨hold, hat⟩ := List.mem_filter.mp he
        have hpassed : i < latest.after.input.index := by
          rcases h.remembers hrepairs' ht heof hold hat with hlt | ⟨-, hmemory⟩
          · exact Nat.lt_of_lt_of_le hlt hle
          · obtain ⟨told, kinds, htells, hafter⟩ :=
              Event.exists_resyncTo (hrepairs latest List.mem_cons_self) hlatest hresumes
            rw [hafter, ← hi]
            rw [hstate] at hmemory
            exact htells.index_lt_resyncTo kinds (h.atEof_eq_false ht heof hi) hmemory
        omega
      · rw [Finset.card_insert_of_notMem hmem]
        omega
    · rw [List.filter_cons_of_neg hlatest_resumes]
      exact ⟨fun hat => hdifferent (Nat.le_trans hle hat), hmost⟩

end AtToken

end Run

/-- The events, newest first, that lead to `last` make progress in the input. -/
structure Progresses (input : TokenStream) (events : List Event) (last : Session) : Prop where
  /-- the cursor never moves back -/
  index_le : ∀ e ∈ events, e.before.input.index ≤ e.after.input.index
  /-- resuming once more at a token, from the same state, leaves the token behind -/
  leaves : ∀ e ∈ events, e.resumes = true → e.before.input.atEof = false →
    last.input.index = e.before.input.index → last.state = e.before.state →
    ∀ op, last.resumes op = true → ∃ o, last.perform? .repair op = some o ∧ o.result = .ok .done ∧
      last.input.index < o.session.input.index
  /-- at one token a parse is resumed at most once more than there are states it is resumed from -/
  resumes_le : ∀ i t, input.get? i = some t → t.isEof = false →
    (events.filter (Event.resumesAt i)).length ≤
      ((events.filter Event.resumes).map fun e => e.before.state).toFinset.card + 1

/-- Every parse of a built network from a fresh session, under the repairing policy and in whatever
order of steps, makes progress. The older events of a run are a run, too, so this holds after each of
its steps. -/
theorem Run.progresses {network : Network} {vocabulary : Vocabulary} {config : RecoveryConfig}
    {input : TokenStream} {events : List Event} {last : Session} (hbuilt : network.IsBuilt)
    (h : Run (Session.new network vocabulary config input) events last)
    (hrepairs : ∀ e ∈ events, e.Repairs) : Progresses input events last where
  index_le _ he := (h.advances hrepairs he).index_le
  leaves e he hresumes heof hi hstate op hop := by
    have hops : ∀ e ∈ events, e.op.isParsing = true := fun e he => (hrepairs e he).isParsing
    have hlast := h.sameGivens.network_eq
    have hentered := h.entered hops hbuilt.formed .nil
    rw [← hlast] at hentered
    obtain ⟨f, told, hresumes_last⟩ := Session.resumes_iff.mp hop
    obtain ⟨kinds, hperform⟩ := hentered.exists_perform? (hlast ▸ hbuilt.formed) hresumes_last
    refine ⟨_, hperform, rfl, ?_⟩
    have ht := h.get?_index_of_mem he
    have hat := h.atEof_eq_false ht heof hi
    -- the cursor has not moved on since the earlier step, so its state is remembered
    rcases h.remembers hrepairs ht heof he (Event.resumesAt_iff.mpr ⟨hresumes, rfl⟩) with
      hlt | ⟨-, hmemory⟩
    · omega
    · rw [← hstate] at hmemory
      exact hresumes_last.tells.index_lt_resyncTo kinds hat hmemory
  resumes_le i t ht heof := by
    apply Nat.le_trans (h.length_resumesAt_le hrepairs ht heof).2
    apply Nat.succ_le_succ
    apply Finset.card_le_card
    intro state hstate
    rw [List.mem_toFinset] at hstate ⊢
    obtain ⟨e, he, rfl⟩ := List.mem_map.mp hstate
    obtain ⟨hmem, hat⟩ := List.mem_filter.mp he
    exact List.mem_map.mpr
      ⟨e, List.mem_filter.mpr ⟨hmem, (Event.resumesAt_iff.mp hat).1⟩, rfl⟩

/-! ### A parse that is stuck, and gets on -/

/-- A sum is to be parsed where a `SEMI` stands, which the file can go on with behind the sum. -/
def stuckSession : Session :=
  .new Network.sumNetwork {} {} (.ofKinds [3, 1])

def stuckFault : Fault :=
  stuckSession.faultExpecting ∅ .inputMismatch stuckSession.input.current

/-- Resuming in the sum skips nothing. -/
def stuckSteps : List (Strategy × Operation) :=
  [(.repair, .enterRule 0), (.repair, .enterRule 1), (.repair, .recover stuckFault)]

/-- Resumed where it stands, the parse leaves the `SEMI` behind when it is resumed from there again. -/
theorem progresses_stuckSteps :
    ∃ events last, Network.sumNetwork.IsBuilt ∧ Run stuckSession events last ∧
      (∀ e ∈ events, e.Repairs) ∧ last.input.index = 0 ∧ last.window.resyncIndex = some 0 ∧
      Progresses stuckSession.input events last := by
  have hstuck : (stuckSession.run? stuckSteps).map (fun final =>
      (final.2.input.index, final.2.window.resyncIndex)) = some (0, some 0) := by
    decide +kernel
  obtain ⟨⟨answers, last⟩, hrun, hlast⟩ := Option.map_eq_some_iff.mp hstuck
  obtain ⟨events, h, hsteps⟩ := Run.exists_run hrun
  have hall : ∀ step ∈ stuckSteps, step.1 = .repair ∧ step.2.isParsing = true ∧ step.2 ≠ .reset := by
    simp [stuckSteps, Operation.isParsing]
  have hrepairs : ∀ e ∈ events, e.Repairs := by
    intro e he
    obtain ⟨hstrategy, hparsing, hreset⟩ := hall _ (hsteps e he)
    exact ⟨hstrategy, hparsing, hreset⟩
  obtain ⟨hindex, hmemory⟩ := Prod.mk.inj hlast
  exact ⟨events, last, Network.isBuilt_sumNetwork, h, hrepairs, hindex, hmemory,
    Run.progresses Network.isBuilt_sumNetwork h hrepairs⟩

end ParseRecovery
