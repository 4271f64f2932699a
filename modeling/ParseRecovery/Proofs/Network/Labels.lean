import ParseRecovery.Proofs.Network.Termination

/-!
The two readings of a label. A parser asks whether a label admits the token at hand (`Label.admits`),
lookahead asks which kinds it consumes (`Label.kinds?`). Main statement: for every label, bound and kind
the two agree, so whatever an edge of a state admits is accepted at the state
(`label_readings_agree`).
-/

namespace ParseRecovery

namespace Network

theorem Label.admits_iff {label : Label} {max k : TokenKind} :
    label.admits max k = true ↔ ∃ kinds, label.kinds? max = some kinds ∧ k ∈ kinds := by
  cases label with
  | token k' =>
    simp only [admits, kinds?, beq_iff_eq, Option.some.injEq, exists_eq_left', SortedSet.mem_ofList,
      List.mem_singleton]
    exact eq_comm
  | range lo hi => simp [admits, kinds?]
  | oneOf kinds => simp [admits, kinds?]
  | noneOf kinds => simp [admits, kinds?, and_assoc]
  | anyToken => simp [admits, kinds?]
  | epsilon | call | predicate | action => simp [admits, kinds?]

variable {n : Network}

/-- An exploration collects what the edges that it follows consume. -/
theorem Explores.collects {s : StateId} {es : List Edge} {w w' : Walk}
    (h : n.Explores (.follow s es) w w') {e : Edge} (he : e ∈ es) {kinds : KindSet}
    (hkinds : e.label.kinds? n.maxKind = some kinds) {k : TokenKind} (hk : k ∈ kinds) :
    k ∈ w'.found := by
  induction es generalizing w with
  | nil => cases he
  | cons e' es ih =>
    rcases List.mem_cons.mp he with rfl | hlater
    · cases h with
      | cut hcall => simp [hcall, Label.kinds?] at hkinds
      | called hcall => simp [hcall, Label.kinds?] at hkinds
      | collected hkinds' hrest =>
        cases hkinds.symm.trans hkinds'
        exact hrest.found_subset (SortedSet.mem_union.mpr (.inr hk))
      | passed hsilent => cases hl : e.label <;> simp [hl, Label.isSilent, Label.kinds?] at *
    · cases h with
      | cut _ _ hrest => exact ih hrest hlater
      | called _ _ _ hrest => exact ih hrest hlater
      | collected _ hrest => exact ih hrest hlater
      | passed _ _ hrest => exact ih hrest hlater

/-- A state that is entered for the first time has its edges followed. -/
theorem Explores.collects_edge {s : StateId} {st : State} (hst : n.state? s = some st)
    (hrole : st.role ≠ .ruleStop) {w w' : Walk} (h : n.Explores (.enter s) w w')
    (hnew : (s, w.returns) ∉ w.visited) {e : Edge} (he : e ∈ st.edges) {kinds : KindSet}
    (hkinds : e.label.kinds? n.maxKind = some kinds) {k : TokenKind} (hk : k ∈ kinds) :
    k ∈ w'.found := by
  cases h with
  | seen hseen => exact absurd hseen hnew
  | ended hst' hstop =>
    cases hst.symm.trans hst'
    exact absurd hstop hrole
  | returned hst' hstop =>
    cases hst.symm.trans hst'
    exact absurd hstop hrole
  | entered hst' _ hin =>
    cases hst.symm.trans hst'
    exact hin.collects he hkinds hk

theorem mem_nextTokens?_of_edge {s : StateId} {st : State} (hst : n.state? s = some st)
    (hrole : st.role ≠ .ruleStop) {e : Edge} (he : e ∈ st.edges) {kinds : KindSet}
    (hkinds : e.label.kinds? n.maxKind = some kinds) {k : TokenKind} (hk : k ∈ kinds)
    {next : KindSet} (h : n.nextTokens? s = some next) : k ∈ next := by
  obtain ⟨w, hw, rfl⟩ := Option.map_eq_some_iff.mp h
  have hnew : (s, Walk.returns {}) ∉ Walk.visited {} := List.not_mem_nil
  exact (explores_of_walk? hw).collects_edge hst hrole hnew he hkinds hk

/-- A label admits a kind exactly if it consumes tokens, and the kind is one of those it consumes. So at a
state of a built network every kind that one of its edges admits is accepted; the state is not the stop of
a rule then, since that has no edges. -/
theorem label_readings_agree :
    (∀ (label : Label) (max k : TokenKind),
      label.admits max k = true ↔ ∃ kinds, label.kinds? max = some kinds ∧ k ∈ kinds) ∧
    ∀ (n : Network) (s : StateId) (st : State) (e : Edge) (k : TokenKind), n.IsBuilt →
      n.state? s = some st → e ∈ st.edges → e.label.admits n.maxKind k = true →
        st.role ≠ .ruleStop ∧ n.accepts? s k = some true := by
  refine ⟨fun label max k => Label.admits_iff, fun n s st e k hbuilt hst he hadmits => ?_⟩
  have hn := hbuilt.formed
  have hrole : st.role ≠ .ruleStop := by
    intro hstop
    rw [hn.stop_edges hst hstop] at he
    cases he
  obtain ⟨next, hnext⟩ := hn.exists_nextTokens? (exists_state?_iff.mp ⟨st, hst⟩)
  obtain ⟨kinds, hkinds, hk⟩ := Label.admits_iff.mp hadmits
  have hmem := mem_nextTokens?_of_edge hst hrole he hkinds hk hnext
  refine ⟨hrole, ?_⟩
  rw [accepts?, hnext, Option.map_some, SortedSet.contains_eq_true_iff.mpr hmem]

/-! ### Labels at the ends of the vocabulary -/

/-- A choice over the kinds one and two, with an inverted range, a range that begins at the end of the
input, and a negated set. -/
def edgedStart : State where
  id := 0
  role := .ruleStart
  rule := 0
  edges := [⟨.range 2 1, 1⟩, ⟨.range .eof 1, 1⟩, ⟨.noneOf (SortedSet.ofList [.eof, 1]), 1⟩]

def edgedNetwork : Network where
  states := #[edgedStart, ⟨1, .ruleStop, 0, []⟩]
  rules := #[⟨"edged", 0, 1⟩]
  maxKind := 2

theorem isBuilt_edgedNetwork : edgedNetwork.IsBuilt :=
  ⟨2, .rule "edged" :: edgedStart.edges.map (.edge 0), rfl⟩

/-- The range admits the reserved kinds that it spans, and the negated set the greatest kind but not the
one beyond it. -/
theorem label_readings_agree_edgedNetwork :
    edgedNetwork.IsBuilt ∧ edgedNetwork.state? 0 = some edgedStart ∧
      (⟨.range .eof 1, 1⟩ ∈ edgedStart.edges ∧ (Label.range .eof 1).admits 2 .eof = true ∧
        edgedNetwork.accepts? 0 .eof = some true) ∧
      (⟨.noneOf (SortedSet.ofList [.eof, 1]), 1⟩ ∈ edgedStart.edges ∧
        (Label.noneOf (SortedSet.ofList [.eof, 1])).admits 2 2 = true ∧
        (Label.noneOf (SortedSet.ofList [.eof, 1])).admits 2 3 = false ∧
        edgedNetwork.accepts? 0 2 = some true) := by
  have hst : edgedNetwork.state? 0 = some edgedStart := rfl
  have hrange : ⟨.range .eof 1, 1⟩ ∈ edgedStart.edges := by decide
  have hlow : (Label.range .eof 1).admits 2 .eof = true := by decide
  have hopen : ⟨.noneOf (SortedSet.ofList [.eof, 1]), 1⟩ ∈ edgedStart.edges := by decide
  have hhigh : (Label.noneOf (SortedSet.ofList [.eof, 1])).admits 2 2 = true := by decide
  have haccepts := label_readings_agree.2 edgedNetwork 0 edgedStart
  exact ⟨isBuilt_edgedNetwork, hst,
    ⟨hrange, hlow, (haccepts _ .eof isBuilt_edgedNetwork hst hrange hlow).2⟩,
    ⟨hopen, hhigh, by decide, (haccepts _ 2 isBuilt_edgedNetwork hst hopen hhigh).2⟩⟩

end Network

end ParseRecovery
