import ParseRecovery.Proofs.Network.Expected

/-!
The order of edges. A walk follows the edges of a state in order, and what it has visited on one
branch blocks another. Where edges stay inside their rule, it still visits just what cut moves reach,
and these know edges only by membership. So two networks with the same states but for the order of
edges have the same next kinds everywhere, and whatever is asked of them through these
(`Reordered.lookahead_eq`).
-/

namespace ParseRecovery

namespace Network

/-- The same state, with its edges in another order. -/
structure State.Reordered (st st' : State) : Prop where
  id_eq : st'.id = st.id
  role_eq : st'.role = st.role
  rule_eq : st'.rule = st.rule
  edges_perm : st'.edges.Perm st.edges

/-- The same rules and states, with the edges of each state in another order. -/
structure Reordered (n n' : Network) : Prop where
  rules_eq : n'.rules = n.rules
  maxKind_eq : n'.maxKind = n.maxKind
  size_eq : n'.states.size = n.states.size
  state : ∀ {s st st'}, n.state? s = some st → n'.state? s = some st' → st.Reordered st'

variable {n n' : Network}

namespace Reordered

theorem symm (h : n.Reordered n') : n'.Reordered n where
  rules_eq := h.rules_eq.symm
  maxKind_eq := h.maxKind_eq.symm
  size_eq := h.size_eq.symm
  state hst hst' :=
    have hstate := h.state hst' hst
    ⟨hstate.id_eq.symm, hstate.role_eq.symm, hstate.rule_eq.symm, hstate.edges_perm.symm⟩

theorem exists_state? (h : n.Reordered n') {s : StateId} {st : State} (hst : n.state? s = some st) :
    ∃ st', n'.state? s = some st' ∧ st.Reordered st' := by
  have hs : s < n'.states.size := by
    rw [h.size_eq]
    exact exists_state?_iff.mp ⟨st, hst⟩
  obtain ⟨st', hst'⟩ := exists_state?_iff.mpr hs
  exact ⟨st', hst', h.state hst hst'⟩

/-! ## What cut moves see of a network -/

theorem hasEdge (h : n.Reordered n') {s : StateId} {e : Edge} (he : n.HasEdge s e) :
    n'.HasEdge s e := by
  obtain ⟨st, hst, hmem⟩ := he
  obtain ⟨st', hst', hstate⟩ := h.exists_state? hst
  exact ⟨st', hst', hstate.edges_perm.mem_iff.mpr hmem⟩

theorem isStop (h : n.Reordered n') {s : StateId} (hs : n.IsStop s) : n'.IsStop s := by
  obtain ⟨st, hst, hrole⟩ := hs
  obtain ⟨st', hst', hstate⟩ := h.exists_state? hst
  exact ⟨st', hst', hstate.role_eq.trans hrole⟩

theorem ruleOf?_eq (h : n.Reordered n') (s : StateId) : n'.ruleOf? s = n.ruleOf? s := by
  unfold ruleOf?
  cases hst : n.state? s with
  | none =>
    cases hst' : n'.state? s with
    | none => rfl
    | some st' =>
      obtain ⟨st, hst₁, -⟩ := h.symm.exists_state? hst'
      cases hst.symm.trans hst₁
  | some st =>
    obtain ⟨st', hst', hstate⟩ := h.exists_state? hst
    rw [hst', Option.map_some, Option.map_some, hstate.rule_eq]

theorem pending_eq (h : n.Reordered n') (s : StateId) (returns : List StateId) :
    n'.pending s returns = n.pending s returns := by
  induction returns generalizing s with
  | nil => rfl
  | cons follow rest ih => rw [pending, pending, h.ruleOf?_eq, ih]

theorem cutMove (h : n.Reordered n') {c c' : Configuration} (hmove : n.CutMove c c') :
    n'.CutMove c c' := by
  cases hmove with
  | silent he hsilent => exact .silent (h.hasEdge he) hsilent
  | call he hcall hfree => exact .call (h.hasEdge he) hcall (by rwa [h.pending_eq])
  | ret hs => exact .ret (h.isStop hs)

theorem emits (h : n.Reordered n') {c : Configuration} {k : TokenKind} (hc : n.Emits c k) :
    n'.Emits c k := by
  rcases hc with ⟨e, kinds, he, hkinds, hmem⟩ | ⟨rfl, hstop, hdue⟩
  · exact .inl ⟨e, kinds, h.hasEdge he, by rwa [h.maxKind_eq], hmem⟩
  · exact .inr ⟨rfl, h.isStop hstop, hdue⟩

end Reordered

theorem Scoped.reordered (hscoped : n.Scoped) (h : n.Reordered n') : n'.Scoped := by
  intro s e he
  rw [h.ruleOf?_eq, h.ruleOf?_eq]
  exact hscoped (h.symm.hasEdge he)

/-! ## Next kinds -/

namespace Reordered

theorem mem_nextTokens? (h : n.Reordered n') (hn : n.Formed) (hn' : n'.Formed) (hscoped : n.Scoped)
    {s : StateId} {next next' : KindSet} (hnext : n.nextTokens? s = some next)
    (hnext' : n'.nextTokens? s = some next') {k : TokenKind} (hk : k ∈ next) : k ∈ next' := by
  obtain ⟨c, hreach, hemits⟩ := (mem_nextTokens?_iff_cutReaches hn hscoped hnext).mp hk
  have hreach' : n'.CutReaches (s, []) c := hreach.lift id fun _ _ => h.cutMove
  exact (mem_nextTokens?_iff_cutReaches hn' (hscoped.reordered h) hnext').mpr
    ⟨c, hreach', h.emits hemits⟩

theorem nextTokens?_eq (h : n.Reordered n') (hn : n.Formed) (hn' : n'.Formed) (hscoped : n.Scoped)
    (s : StateId) : n'.nextTokens? s = n.nextTokens? s := by
  cases hnext : n.nextTokens? s with
  | none =>
    cases hnext' : n'.nextTokens? s with
    | none => rfl
    | some next' =>
      -- the state is there in both networks, or in neither
      have hs := lt_states_of_nextTokens? hnext'
      rw [h.size_eq] at hs
      obtain ⟨next, hsome⟩ := hn.exists_nextTokens? hs
      cases hnext.symm.trans hsome
  | some next =>
    have hs := lt_states_of_nextTokens? hnext
    rw [← h.size_eq] at hs
    obtain ⟨next', hnext'⟩ := hn'.exists_nextTokens? hs
    have hsame : next' = next := SortedSet.ext fun k =>
      ⟨h.symm.mem_nextTokens? hn' hn (hscoped.reordered h) hnext' hnext,
        h.mem_nextTokens? hn hn' hscoped hnext hnext'⟩
    rw [hnext', hsame]

end Reordered

/-! ## What is asked through next kinds -/

theorem mergeFollows?_congr (h : ∀ s, n'.nextTokens? s = n.nextTokens? s) (expected next : KindSet)
    (stack : Stack) : n'.mergeFollows? expected next stack = n.mergeFollows? expected next stack := by
  induction stack generalizing expected next with
  | nil => rfl
  | cons frame outer ih => simp only [mergeFollows?, h, ih]

theorem expectedTokens?_congr (h : ∀ s, n'.nextTokens? s = n.nextTokens? s) (s : StateId)
    (stack : Stack) : n'.expectedTokens? s stack = n.expectedTokens? s stack := by
  simp only [expectedTokens?, h, mergeFollows?_congr h]

/-- Over built networks with the same rules and states, whose edges stay inside their rule, lookahead
is the same in whatever order the edges of a state come. It is defined at every state there is. -/
theorem Reordered.lookahead_eq (h : n.Reordered n') (hbuilt : n.IsBuilt) (hbuilt' : n'.IsBuilt)
    (hscoped : n.Scoped) :
    (∀ s < n.states.size, ∃ next, n.nextTokens? s = some next ∧ n'.nextTokens? s = some next) ∧
      (∀ s stack, n'.expectedTokens? s stack = n.expectedTokens? s stack) ∧
      (∀ stack, n'.recoverySet? stack = n.recoverySet? stack) ∧
      ∀ s k, n'.accepts? s k = n.accepts? s k := by
  have hnext := h.nextTokens?_eq hbuilt.formed hbuilt'.formed hscoped
  refine ⟨fun s hs => ?_, expectedTokens?_congr hnext, fun stack => ?_, fun s k => ?_⟩
  · obtain ⟨next, hsome⟩ := hbuilt.formed.exists_nextTokens? hs
    exact ⟨next, hsome, (hnext s).trans hsome⟩
  · simp only [recoverySet?, hnext]
  · rw [accepts?, accepts?, hnext]

/-! ### Edges the other way round -/

def State.reversed (st : State) : State :=
  { st with edges := st.edges.reverse }

def reversed (n : Network) : Network :=
  { n with states := (n.states.toList.map State.reversed).toArray }

theorem reordered_reversed (n : Network) : n.Reordered n.reversed where
  rules_eq := rfl
  maxKind_eq := rfl
  size_eq := by simp [reversed]
  state := by
    intro s st st' hst hst'
    have hmap : n.reversed.state? s = (n.state? s).map State.reversed := by simp [reversed, state?]
    rw [hst', hst] at hmap
    cases hmap
    exact ⟨rfl, rfl, rfl, List.reverse_perm st.edges⟩

theorem isBuilt_reversed_sumNetwork : sumNetwork.reversed.IsBuilt :=
  ⟨3, [.rule "file", .rule "sum", .rule "tail", .state 0 .basic, .state 1 .basic, .call 0 1 6,
    .call 6 2 1, .edge 2 ⟨.token 1, 3⟩, .call 2 1 7, .edge 7 ⟨.token 2, 3⟩, .edge 4 ⟨.epsilon, 5⟩,
    .edge 4 ⟨.token 3, 5⟩], rfl⟩

theorem lookahead_eq_reversed_sumNetwork :
    sumNetwork.Reordered sumNetwork.reversed ∧ sumNetwork.IsBuilt ∧ sumNetwork.reversed.IsBuilt ∧
      sumNetwork.Scoped ∧ sumNetwork.reversed ≠ sumNetwork ∧
      (∀ s < 8, ∃ next, sumNetwork.nextTokens? s = some next ∧
        sumNetwork.reversed.nextTokens? s = some next) ∧
      (∀ s stack, sumNetwork.reversed.expectedTokens? s stack = sumNetwork.expectedTokens? s stack) ∧
      (∀ stack, sumNetwork.reversed.recoverySet? stack = sumNetwork.recoverySet? stack) ∧
      ∀ s k, sumNetwork.reversed.accepts? s k = sumNetwork.accepts? s k :=
  ⟨reordered_reversed sumNetwork, isBuilt_sumNetwork, isBuilt_reversed_sumNetwork, scoped_sumNetwork,
    by decide, Reordered.lookahead_eq (reordered_reversed sumNetwork) isBuilt_sumNetwork
      isBuilt_reversed_sumNetwork scoped_sumNetwork⟩

end Network

end ParseRecovery
