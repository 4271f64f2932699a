import ParseRecovery.Proofs.Network.Formed

/-!
Which networks can be built. Building looks at states and edges in order and reports the first misfit;
whatever it reports is so of what has been made (`Builder.Violates`), and what fits together violates
nothing. Main statement: after any steps, building succeeds exactly if everything fits together, an error
names what does not, and in the network states are numbered by place and every rule has its own start and
stop (`Builder.build_exact`).
-/

namespace ParseRecovery

namespace Network

namespace Builder

/-- What the error says is so of what has been made. -/
inductive Violates (b : Builder) : BuildError → Prop
  | stateRule {s : StateId} {st : State} (hst : b.states[s]? = some st)
      (h : b.rules.size ≤ st.rule) : Violates b (.unknownRule st.rule)
  | stopEdges {s : StateId} {st : State} {info : Rule} (hst : b.states[s]? = some st)
      (hinfo : b.rules[st.rule]? = some info) (hrole : st.role = .ruleStop) (h : st.edges ≠ []) :
      Violates b (.ruleStopHasEdges info.name)
  | target {s : StateId} {st : State} {e : Edge} (hst : b.states[s]? = some st) (he : e ∈ st.edges)
      (h : b.states.size ≤ e.target) : Violates b (.unknownState s e.target)
  | callRule {s : StateId} {st : State} {e : Edge} {rule : RuleIndex} {follow : StateId}
      (hst : b.states[s]? = some st) (he : e ∈ st.edges) (hcall : e.label = .call rule follow)
      (h : b.rules.size ≤ rule) : Violates b (.unknownRule rule)
  | callTarget {s : StateId} {st : State} {e : Edge} {rule : RuleIndex} {follow : StateId} {info : Rule}
      (hst : b.states[s]? = some st) (he : e ∈ st.edges) (hcall : e.label = .call rule follow)
      (hinfo : b.rules[rule]? = some info) (h : info.start ≠ e.target) :
      Violates b (.ruleTargetMismatch s e.target info.name)
  | follow {s : StateId} {st : State} {e : Edge} {rule : RuleIndex} {follow : StateId}
      (hst : b.states[s]? = some st) (he : e ∈ st.edges) (hcall : e.label = .call rule follow)
      (h : b.states.size ≤ follow) : Violates b (.unknownState s follow)
  | kind {s : StateId} {st : State} {e : Edge} {k : TokenKind} (hst : b.states[s]? = some st)
      (he : e ∈ st.edges) (hspells : e.label.Spells k) (huser : 1 ≤ k) (h : b.maxKind < k) :
      Violates b (.kindOutOfRange s k b.maxKind)

variable {b : Builder} {err : BuildError}

theorem Violates.not_fits (h : b.Violates err) : ¬ b.Fits := by
  intro hfits
  cases h with
  | stateRule hst h => exact absurd (hfits.rule_lt hst) (Nat.not_lt.mpr h)
  | stopEdges hst _ hrole h => exact h (hfits.stop_edges hst hrole)
  | target hst he h => exact absurd (hfits.edge hst he).target_lt (Nat.not_lt.mpr h)
  | callRule hst he hcall h =>
    obtain ⟨info, hinfo, -⟩ := Option.map_eq_some_iff.mp ((hfits.edge hst he).call_target hcall)
    exact absurd (Array.getElem?_eq_some_iff.mp hinfo).1 (Nat.not_lt.mpr h)
  | callTarget hst he hcall hinfo h =>
    have hstart := (hfits.edge hst he).call_target hcall
    rw [ruleStart?, hinfo] at hstart
    exact h (Option.some.inj hstart)
  | follow hst he hcall h => exact absurd ((hfits.edge hst he).follow_lt hcall) (Nat.not_lt.mpr h)
  | kind hst he hspells huser h =>
    exact absurd ((hfits.edge hst he).kind_le hspells huser) (Int.not_le.mpr h)

/-! ## What is reported is so -/

section Edges

variable {s : StateId} {st : State} {e : Edge} (hst : b.states[s]? = some st) (he : e ∈ st.edges)
include hst he

theorem violates_of_kindMisfit? {k : TokenKind} (hspells : e.label.Spells k)
    (h : b.kindMisfit? s k = some err) : b.Violates err := by
  unfold kindMisfit? at h
  split at h
  · rename_i hbeyond
    cases h
    obtain ⟨huser, hmax⟩ := (Bool.and_eq_true _ _).mp hbeyond
    exact .kind hst he hspells (TokenKind.isUser_iff.mp huser) (of_decide_eq_true hmax)
  · cases h

theorem violates_of_callMisfit? {rule : RuleIndex} {follow : StateId}
    (hcall : e.label = .call rule follow) (h : b.callMisfit? s e.target rule follow = some err) :
    b.Violates err := by
  unfold callMisfit? at h
  split at h
  · rename_i hnone
    cases h
    exact .callRule hst he hcall (Array.getElem?_eq_none_iff.mp hnone)
  · rename_i info hinfo
    split at h
    · rename_i hstart
      cases h
      exact .callTarget hst he hcall hinfo hstart
    · split at h
      · rename_i hknows
        cases h
        exact .follow hst he hcall (by simpa [knows] using hknows)
      · cases h

theorem violates_of_edgeMisfit? (h : b.edgeMisfit? s e = some err) : b.Violates err := by
  unfold edgeMisfit? at h
  split at h
  · rename_i hknows
    cases h
    exact .target hst he (by simpa [knows] using hknows)
  · split at h
    · rename_i rule follow hcall
      exact violates_of_callMisfit? hst he hcall h
    · obtain ⟨k, hk, hmisfit⟩ := List.exists_of_findSome?_eq_some h
      exact violates_of_kindMisfit? hst he (Label.mem_spelled_iff.mp hk) hmisfit

end Edges

theorem violates_of_stateMisfit? {s : StateId} {st : State} (hst : b.states[s]? = some st)
    (hid : st.id = s) (h : b.stateMisfit? st = some err) : b.Violates err := by
  unfold stateMisfit? at h
  split at h
  · rename_i hnone
    cases h
    exact .stateRule hst (Array.getElem?_eq_none_iff.mp hnone)
  · rename_i info hinfo
    split at h
    · rename_i hstop
      cases h
      exact .stopEdges hst hinfo hstop.1 hstop.2
    · rw [hid] at h
      obtain ⟨e, he, hmisfit⟩ := List.exists_of_findSome?_eq_some h
      exact violates_of_edgeMisfit? hst he hmisfit

/-- States are known by their numbers in an error, so these have to be their places. -/
theorem Coherent.violates (hb : b.Coherent) (h : b.build = .error err) : b.Violates err := by
  unfold build at h
  split at h
  · rename_i hmisfit
    cases h
    obtain ⟨st, hmem, hstate⟩ := List.exists_of_findSome?_eq_some hmisfit
    obtain ⟨s, hst⟩ := List.getElem?_of_mem hmem
    rw [Array.getElem?_toList] at hst
    exact violates_of_stateMisfit? hst (hb.id_eq hst) hstate
  · cases h

theorem Coherent.exists_build_iff (hb : b.Coherent) : (∃ n, b.build = .ok n) ↔ b.Fits := by
  constructor
  · rintro ⟨n, hn⟩
    exact (build_eq_ok hn).2
  · intro hfits
    cases hbuild : b.build with
    | ok n => exact ⟨n, rfl⟩
    | error err => exact absurd hfits (hb.violates hbuild).not_fits

/-- Whatever steps have been taken, building succeeds exactly if everything fits together, and an error
says what does not. In the network the states are as they were made, numbered by place, and every rule
has a start and a stop of its own. -/
theorem build_exact (maxKind : TokenKind) (steps : List Step) :
    ((∃ n, ((new maxKind).run steps).build = .ok n) ↔ ((new maxKind).run steps).Fits) ∧
    (∀ err, ((new maxKind).run steps).build = .error err →
      ((new maxKind).run steps).Violates err) ∧
    ∀ n, ((new maxKind).run steps).build = .ok n →
      n.states = ((new maxKind).run steps).states ∧ n.rules = ((new maxKind).run steps).rules ∧
      (∀ (s : StateId) (st : State), n.state? s = some st → st.id = s) ∧
      ∀ (r : RuleIndex) (info : Rule), n.rules[r]? = some info →
        (∃ st, n.state? info.start = some st ∧ st.role = .ruleStart ∧ st.rule = r) ∧
        ∃ st, n.state? info.stop = some st ∧ st.role = .ruleStop ∧ st.rule = r := by
  have hb : ((new maxKind).run steps).Coherent := (coherent_new maxKind).run steps
  refine ⟨hb.exists_build_iff, fun err => hb.violates, fun n hn => ?_⟩
  obtain ⟨rfl, -⟩ := build_eq_ok hn
  exact ⟨rfl, rfl, fun s st => hb.id_eq, fun r info hr => ⟨hb.start hr, hb.stop hr⟩⟩

-- a call made before its rule is declared leads nowhere for good
example : ((new 1).run [.rule "file", .call 0 1 1, .rule "tail"]).build =
    .error (.unknownState 0 nowhere) :=
  rfl

end Builder

end Network

end ParseRecovery
