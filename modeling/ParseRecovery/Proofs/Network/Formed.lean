import ParseRecovery.Network.Builder

/-!
What building a network guarantees. Making a network keeps its states numbered by place and every
declared rule between its own start and stop (`Builder.Coherent`); building checks that the rest fits
together (`Builder.Fits`). A built network is `Formed`: whatever it refers to is there.
-/

namespace ParseRecovery

namespace Network

namespace Builder

/-- States are numbered by place, and every declared rule has its start and its stop. -/
structure Coherent (b : Builder) : Prop where
  id_eq : ∀ {s : StateId} {st : State}, b.states[s]? = some st → st.id = s
  start : ∀ {r : RuleIndex} {info : Rule}, b.rules[r]? = some info →
    ∃ st : State, b.states[info.start]? = some st ∧ st.role = .ruleStart ∧ st.rule = r
  stop : ∀ {r : RuleIndex} {info : Rule}, b.rules[r]? = some info →
    ∃ st : State, b.states[info.stop]? = some st ∧ st.role = .ruleStop ∧ st.rule = r

theorem coherent_new (maxKind : TokenKind) : Coherent (new maxKind) where
  id_eq h := by simp [new] at h
  start h := by simp [new] at h
  stop h := by simp [new] at h

theorem getElem?_addState {b : Builder} {rule : RuleIndex} {role : Role} {s : StateId} {st : State}
    (h : b.states[s]? = some st) : (b.addState rule role).states[s]? = some st := by
  obtain ⟨hlt, rfl⟩ := Array.getElem?_eq_some_iff.mp h
  simp [addState, Array.getElem?_push_lt, hlt]

theorem getElem?_addState_size (b : Builder) (rule : RuleIndex) (role : Role) :
    (b.addState rule role).states[b.states.size]? = some ⟨b.states.size, role, rule, []⟩ := by
  simp [addState]

theorem Coherent.addState {b : Builder} (h : b.Coherent) (rule : RuleIndex) (role : Role) :
    (b.addState rule role).Coherent where
  id_eq {s st} hs := by
    rw [Builder.addState, Array.getElem?_push] at hs
    split at hs
    · rename_i heq
      cases hs
      exact heq.symm
    · exact h.id_eq hs
  start hr := by
    obtain ⟨st, hst, hrest⟩ := h.start hr
    exact ⟨st, getElem?_addState hst, hrest⟩
  stop hr := by
    obtain ⟨st, hst, hrest⟩ := h.stop hr
    exact ⟨st, getElem?_addState hst, hrest⟩

theorem Coherent.addRule {b : Builder} (h : b.Coherent) (name : String) :
    (b.addRule name).Coherent := by
  let started := b.addState b.rules.size .ruleStart
  have hmade := (h.addState b.rules.size .ruleStart).addState b.rules.size .ruleStop
  have hstart : (b.addRule name).states[b.states.size]? =
      some ⟨b.states.size, .ruleStart, b.rules.size, []⟩ :=
    getElem?_addState (b := started) (getElem?_addState_size b _ _)
  have hstop : (b.addRule name).states[b.states.size + 1]? =
      some ⟨b.states.size + 1, .ruleStop, b.rules.size, []⟩ := by
    have hsize : started.states.size = b.states.size + 1 := by simp [started, Builder.addState]
    have hlast := getElem?_addState_size started b.rules.size .ruleStop
    rwa [hsize] at hlast
  refine ⟨hmade.id_eq, ?_, ?_⟩
  · intro r info hr
    change (b.rules.push ⟨name, b.states.size, b.states.size + 1⟩)[r]? = some info at hr
    rw [Array.getElem?_push] at hr
    split at hr
    · rename_i heq
      cases hr
      exact ⟨_, hstart, rfl, heq.symm⟩
    · exact hmade.start hr
  · intro r info hr
    change (b.rules.push ⟨name, b.states.size, b.states.size + 1⟩)[r]? = some info at hr
    rw [Array.getElem?_push] at hr
    split at hr
    · rename_i heq
      cases hr
      exact ⟨_, hstop, rfl, heq.symm⟩
    · exact hmade.stop hr

theorem getElem?_addEdge {b : Builder} {s : StateId} {st : State} (h : b.states[s]? = some st)
    (source : StateId) (edge : Edge) :
    ∃ st', (b.addEdge source edge).states[s]? = some st' ∧ st'.id = st.id ∧ st'.role = st.role ∧
      st'.rule = st.rule := by
  rw [addEdge, Array.getElem?_modify, h]
  -- whether or not the edge is put here, the state keeps all but its edges
  split
  · exact ⟨_, rfl, rfl, rfl, rfl⟩
  · exact ⟨_, rfl, rfl, rfl, rfl⟩

theorem Coherent.addEdge {b : Builder} (h : b.Coherent) (source : StateId) (edge : Edge) :
    (b.addEdge source edge).Coherent where
  id_eq {s st} hs := by
    have hb : ∃ old, b.states[s]? = some old := by
      rw [Builder.addEdge, Array.getElem?_modify] at hs
      cases hold : b.states[s]? with
      | none => simp [hold] at hs
      | some old => exact ⟨old, rfl⟩
    obtain ⟨old, hold⟩ := hb
    obtain ⟨st', hst', hid, -⟩ := getElem?_addEdge hold source edge
    obtain rfl : st' = st := Option.some.inj (hst'.symm.trans hs)
    exact hid.trans (h.id_eq hold)
  start hr := by
    obtain ⟨st, hst, hrole, hrule⟩ := h.start hr
    obtain ⟨st', hst', -, hrole', hrule'⟩ := getElem?_addEdge hst source edge
    exact ⟨st', hst', hrole'.trans hrole, hrule'.trans hrule⟩
  stop hr := by
    obtain ⟨st, hst, hrole, hrule⟩ := h.stop hr
    obtain ⟨st', hst', -, hrole', hrule'⟩ := getElem?_addEdge hst source edge
    exact ⟨st', hst', hrole'.trans hrole, hrule'.trans hrule⟩

theorem Coherent.perform {b : Builder} (h : b.Coherent) (step : Step) :
    (b.perform step).Coherent := by
  cases step with
  | rule name => exact h.addRule name
  | state rule role => exact h.addState rule role
  | edge source edge => exact h.addEdge source edge
  | call source rule follow => exact h.addEdge source _

theorem Coherent.run {b : Builder} (h : b.Coherent) (steps : List Step) :
    (b.run steps).Coherent := by
  induction steps generalizing b with
  | nil => exact h
  | cons step steps ih => exact ih (h.perform step)

end Builder

/-- The network comes from building what some steps have made. -/
def IsBuilt (n : Network) : Prop :=
  ∃ maxKind steps, ((Builder.new maxKind).run steps).build = .ok n

/-- Whatever the network refers to is there: states are numbered by place and belong to declared
rules, edges lead to states, calls lead to the start of the rule they call, the stop of a rule has
no edges, and every declared rule has its start and its stop. -/
structure Formed (n : Network) : Prop where
  id_eq : ∀ {s st}, n.state? s = some st → st.id = s
  rule_lt : ∀ {s st}, n.state? s = some st → st.rule < n.rules.size
  stop_edges : ∀ {s st}, n.state? s = some st → st.role = .ruleStop → st.edges = []
  target_lt : ∀ {s st e}, n.state? s = some st → e ∈ st.edges → e.target < n.states.size
  call_target : ∀ {s st e rule follow}, n.state? s = some st → e ∈ st.edges →
    e.label = .call rule follow → n.ruleStart? rule = some e.target
  follow_lt : ∀ {s st e rule follow}, n.state? s = some st → e ∈ st.edges →
    e.label = .call rule follow → follow < n.states.size
  start : ∀ {r s}, n.ruleStart? r = some s →
    ∃ st, n.state? s = some st ∧ st.role = .ruleStart ∧ st.rule = r
  stop : ∀ {r s}, n.ruleStop? r = some s →
    ∃ st, n.state? s = some st ∧ st.role = .ruleStop ∧ st.rule = r

/-- The label spells the kind out. -/
inductive Label.Spells : Label → TokenKind → Prop
  | token (k : TokenKind) : Spells (.token k) k
  | lo (lo hi : TokenKind) : Spells (.range lo hi) lo
  | hi (lo hi : TokenKind) : Spells (.range lo hi) hi
  | oneOf {kinds : KindSet} {k : TokenKind} (h : k ∈ kinds) : Spells (.oneOf kinds) k
  | noneOf {kinds : KindSet} {k : TokenKind} (h : k ∈ kinds) : Spells (.noneOf kinds) k

theorem Label.mem_spelled_iff {label : Label} {k : TokenKind} :
    k ∈ label.spelled ↔ label.Spells k := by
  constructor
  · intro h
    cases label with
    | token k' =>
      cases List.mem_singleton.mp h
      exact .token k
    | range lo hi =>
      rcases List.mem_cons.mp h with rfl | h
      · exact .lo k hi
      · cases List.mem_singleton.mp h
        exact .hi lo k
    | oneOf kinds => exact .oneOf h
    | noneOf kinds => exact .noneOf h
    | anyToken | epsilon | call | predicate | action => cases h
  · intro h
    cases h with
    | token => exact List.mem_singleton_self k
    | lo => exact List.mem_cons_self
    | hi => exact List.mem_cons_of_mem _ List.mem_cons_self
    | oneOf h => exact h
    | noneOf h => exact h

namespace Builder

/-! ## Checking -/

/-- The edge leads to a state; if it calls a rule, the rule is declared, the edge leads to its start, and
the follow state is there; and no kind of the grammar's own that it spells out is beyond the greatest. -/
structure FitsEdge (b : Builder) (e : Edge) : Prop where
  target_lt : e.target < b.states.size
  call_target : ∀ {rule follow}, e.label = .call rule follow → b.ruleStart? rule = some e.target
  follow_lt : ∀ {rule follow}, e.label = .call rule follow → follow < b.states.size
  kind_le : ∀ {k}, e.label.Spells k → 1 ≤ k → k ≤ b.maxKind

/-- All that has been made fits together: states belong to declared rules, stops have no edges, and every
edge fits. -/
structure Fits (b : Builder) : Prop where
  rule_lt : ∀ {s : StateId} {st : State}, b.states[s]? = some st → st.rule < b.rules.size
  stop_edges : ∀ {s : StateId} {st : State}, b.states[s]? = some st → st.role = .ruleStop →
    st.edges = []
  edge : ∀ {s : StateId} {st : State} {e : Edge}, b.states[s]? = some st → e ∈ st.edges →
    b.FitsEdge e

theorem kindMisfit?_eq_none {b : Builder} {source : StateId} {k : TokenKind}
    (h : b.kindMisfit? source k = none) (huser : 1 ≤ k) : k ≤ b.maxKind := by
  rw [kindMisfit?, TokenKind.isUser_iff.mpr huser, Bool.true_and] at h
  by_cases hle : k ≤ b.maxKind
  · exact hle
  · rw [if_pos (decide_eq_true (Int.lt_of_not_ge hle))] at h
    cases h

theorem callMisfit?_eq_none {b : Builder} {source target : StateId} {rule : RuleIndex}
    {follow : StateId} (h : b.callMisfit? source target rule follow = none) :
    b.ruleStart? rule = some target ∧ follow < b.states.size := by
  unfold callMisfit? at h
  split at h
  · cases h
  · rename_i declared hdeclared
    split at h
    · cases h
    · rename_i hstart
      split at h
      · cases h
      · rename_i hknows
        refine ⟨?_, by simpa [knows] using hknows⟩
        simpa [ruleStart?, hdeclared] using hstart

theorem target_lt_of_edgeMisfit? {b : Builder} {source : StateId} {e : Edge}
    (h : b.edgeMisfit? source e = none) : e.target < b.states.size := by
  unfold edgeMisfit? at h
  split at h
  · cases h
  · rename_i hknows
    simpa [knows] using hknows

theorem callMisfit?_of_edgeMisfit? {b : Builder} {source : StateId} {e : Edge} {rule : RuleIndex}
    {follow : StateId} (h : b.edgeMisfit? source e = none) (hlabel : e.label = .call rule follow) :
    b.callMisfit? source e.target rule follow = none := by
  unfold edgeMisfit? at h
  split at h
  · cases h
  · simpa [hlabel] using h

theorem kindMisfit?_of_edgeMisfit? {b : Builder} {source : StateId} {e : Edge} {k : TokenKind}
    (h : b.edgeMisfit? source e = none) (hk : e.label.Spells k) : b.kindMisfit? source k = none := by
  rw [← Label.mem_spelled_iff] at hk
  unfold edgeMisfit? at h
  split at h
  · cases h
  · split at h
    · rename_i hcall
      rw [hcall] at hk
      cases hk
    · exact List.findSome?_eq_none_iff.mp h k hk

theorem fitsEdge_of_edgeMisfit? {b : Builder} {source : StateId} {e : Edge}
    (h : b.edgeMisfit? source e = none) : b.FitsEdge e where
  target_lt := target_lt_of_edgeMisfit? h
  call_target hcall := (callMisfit?_eq_none (callMisfit?_of_edgeMisfit? h hcall)).1
  follow_lt hcall := (callMisfit?_eq_none (callMisfit?_of_edgeMisfit? h hcall)).2
  kind_le hk := kindMisfit?_eq_none (kindMisfit?_of_edgeMisfit? h hk)

theorem stateMisfit?_eq_none {b : Builder} {st : State} (h : b.stateMisfit? st = none) :
    st.rule < b.rules.size ∧ (st.role = .ruleStop → st.edges = []) ∧
      ∀ e ∈ st.edges, b.edgeMisfit? st.id e = none := by
  unfold stateMisfit? at h
  split at h
  · cases h
  · rename_i declared hdeclared
    split at h
    · cases h
    · rename_i hstop
      refine ⟨(Array.getElem?_eq_some_iff.mp hdeclared).1, ?_, List.findSome?_eq_none_iff.mp h⟩
      intro hrole
      by_cases hedges : st.edges = []
      · exact hedges
      · exact absurd ⟨hrole, hedges⟩ hstop

theorem build_eq_ok {b : Builder} {n : Network} (h : b.build = .ok n) :
    n = ⟨b.states, b.rules, b.maxKind⟩ ∧ b.Fits := by
  unfold build at h
  split at h
  · cases h
  · rename_i hnone
    cases h
    have hfit : ∀ {s : StateId} {st : State}, b.states[s]? = some st → b.stateMisfit? st = none := by
      intro s st hst
      have hmem : st ∈ b.states.toList := Array.mem_toList_iff.mpr (Array.mem_of_getElem? hst)
      exact List.findSome?_eq_none_iff.mp hnone st hmem
    refine ⟨rfl, ?_, ?_, ?_⟩
    · intro s st hst
      exact (stateMisfit?_eq_none (hfit hst)).1
    · intro s st hst
      exact (stateMisfit?_eq_none (hfit hst)).2.1
    · intro s st e hst he
      exact fitsEdge_of_edgeMisfit? ((stateMisfit?_eq_none (hfit hst)).2.2 e he)

theorem Coherent.formed {b : Builder} {n : Network} (hb : b.Coherent) (h : b.build = .ok n) :
    n.Formed := by
  obtain ⟨rfl, hfits⟩ := build_eq_ok h
  refine ⟨hb.id_eq, hfits.rule_lt, hfits.stop_edges, ?_, ?_, ?_, ?_, ?_⟩
  · intro s st e hst he
    exact (hfits.edge hst he).target_lt
  · intro s st e rule follow hst he
    exact (hfits.edge hst he).call_target
  · intro s st e rule follow hst he
    exact (hfits.edge hst he).follow_lt
  · intro r s hs
    obtain ⟨info, hinfo, rfl⟩ := Option.map_eq_some_iff.mp hs
    exact hb.start hinfo
  · intro r s hs
    obtain ⟨info, hinfo, rfl⟩ := Option.map_eq_some_iff.mp hs
    exact hb.stop hinfo

end Builder

theorem IsBuilt.formed {n : Network} (h : n.IsBuilt) : n.Formed := by
  obtain ⟨maxKind, steps, hbuild⟩ := h
  exact ((Builder.coherent_new maxKind).run steps).formed hbuild

theorem exists_state?_iff {n : Network} {s : StateId} :
    (∃ st, n.state? s = some st) ↔ s < n.states.size := by
  constructor
  · rintro ⟨st, hst⟩
    exact (Array.getElem?_eq_some_iff.mp hst).1
  · intro hlt
    exact ⟨n.states[s], Array.getElem?_eq_getElem hlt⟩

theorem lt_rules_of_ruleStart? {n : Network} {r : RuleIndex} {s : StateId}
    (h : n.ruleStart? r = some s) : r < n.rules.size := by
  obtain ⟨info, hinfo, -⟩ := Option.map_eq_some_iff.mp h
  exact (Array.getElem?_eq_some_iff.mp hinfo).1

namespace Formed

variable {n : Network}

theorem stop_lt (h : n.Formed) {r : RuleIndex} {s : StateId} (hs : n.ruleStop? r = some s) :
    s < n.states.size := by
  obtain ⟨st, hst, -⟩ := h.stop hs
  exact exists_state?_iff.mp ⟨st, hst⟩

end Formed

end Network

end ParseRecovery
