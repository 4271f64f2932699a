import ParseRecovery.Proofs.Network.Expected

/-!
At which kinds a parse can be resumed. The recovery set of a stack holds the next kinds of all its
follow states, whether or not the rules between can end (`exists_recoverySet?`). The expected kinds
of a caller are found by a walk through its callers that stops early. Beside the end of the input and
the next kinds of the caller itself they hold kinds of the recovery set only
(`exists_expectedTokens?`), so leaving one rule after another comes to the same set
(`expected_or_canFollow_iff`).
-/

namespace ParseRecovery

namespace Network

variable {n : Network}

/-- At the stop of a rule nothing but its end comes next. -/
theorem eq_epsilon_of_mem_nextTokens? (hn : n.Formed) {s : StateId} (hs : n.IsStop s)
    {next : KindSet} (hnext : n.nextTokens? s = some next) {k : TokenKind} (hk : k ∈ next) :
    k = .epsilon := by
  obtain ⟨c, hreach, hemits⟩ := emits_of_mem_nextTokens? hnext hk
  -- no edge leads away from a stop, and nothing is due
  have hc : c = (s, []) := by
    cases hreach.cases_head with
    | inl h => exact h.symm
    | inr h =>
      obtain ⟨c', hmove, -⟩ := h
      cases hmove with
      | silent he => exact absurd he (hn.not_hasEdge_of_isStop hs _)
      | call he => exact absurd he (hn.not_hasEdge_of_isStop hs _)
  subst hc
  rcases hemits with ⟨e, kinds, he, -⟩ | ⟨rfl, -⟩
  · exact absurd he (hn.not_hasEdge_of_isStop hs e)
  · rfl

/-- The expected kinds are there, and hold the next kinds of the state and beside them kinds that can
follow in a caller. -/
theorem exists_expectedTokens? (hn : n.Formed) {s : StateId} (hs : s < n.states.size) {stack : Stack}
    (hstack : ∀ f ∈ follows stack, f < n.states.size) :
    ∃ next all, n.nextTokens? s = some next ∧ n.expectedTokens? s stack = some all ∧ ∀ k,
      (k ∈ next ∧ k ≠ .epsilon → k ∈ all) ∧
      (k ∈ all → k ∈ next ∧ k ≠ .epsilon ∨ k = .eof ∨ n.CanFollow stack k) := by
  obtain ⟨next, hnext⟩ := hn.exists_nextTokens? hs
  have hclean : .epsilon ∉ next.erase .epsilon := by simp
  have hmerged : ∃ all, n.mergeFollows? (next.erase .epsilon) next stack = some all ∧ _ :=
    exists_mergeFollows? hn hstack hclean
  obtain ⟨all, hmerge, hspec⟩ := hmerged
  refine ⟨next, all, hnext, by rw [expectedTokens?, hnext]; exact hmerge, fun k => ?_⟩
  rw [← SortedSet.mem_erase]
  exact hspec k

/-- What a frame adds to what can follow in its callers is expected once it has been left, for its
follow state or for the stop of its rule, and no more is, apart from the end of the input. -/
theorem expected_or_canFollow_iff (hn : n.Formed) {frame : Frame} {outer : Stack} {home : StateId}
    (hhome : home < n.states.size)
    (hreturn : frame.follow = some home ∨ frame.follow = none ∧ n.IsStop home)
    (hstack : ∀ f ∈ follows outer, f < n.states.size) {k : TokenKind} (hk : k ≠ .eof) :
    (∃ expected, n.expectedTokens? home outer = some expected ∧ k ∈ expected) ∨
      n.CanFollow outer k ↔ n.CanFollow (frame :: outer) k := by
  obtain ⟨next, all, hnext, hall, hspec⟩ := exists_expectedTokens? hn hhome hstack
  obtain ⟨hkeep, honly⟩ := hspec k
  simp only [hall, Option.some.injEq, exists_eq_left', canFollow_cons_iff]
  rcases hreturn with hfollow | ⟨hnone, hstop⟩
  · -- back at the follow state: its next kinds count on either side
    simp only [hfollow, Option.some.injEq, exists_eq_left', hnext]
    constructor
    · rintro (hmem | hout)
      · rcases honly hmem with ⟨hmem, hne⟩ | heof | hout
        · exact .inl ⟨hne, hmem⟩
        · exact absurd heof hk
        · exact .inr hout
      · exact .inr hout
    · rintro (⟨hne, hmem⟩ | hout)
      · exact .inl (hkeep ⟨hmem, hne⟩)
      · exact .inr hout
  · -- back at the stop of the rule: nothing comes next there but what can follow further out
    simp only [hnone, reduceCtorEq, false_and, exists_false, and_false, false_or]
    apply or_iff_right_of_imp
    intro hmem
    rcases honly hmem with ⟨hmem, hne⟩ | heof | hout
    · exact absurd (eq_epsilon_of_mem_nextTokens? hn hstop hnext hmem) hne
    · exact absurd heof hk
    · exact hout

theorem exists_collect (hn : n.Formed) {states : List StateId}
    (hstates : ∀ f ∈ states, f < n.states.size) (set : KindSet) :
    ∃ all, states.foldlM (fun set s => (n.nextTokens? s).map (set ∪ ·)) set = some all ∧ ∀ k,
      k ∈ all ↔ k ∈ set ∨ ∃ f ∈ states, ∃ beyond, n.nextTokens? f = some beyond ∧ k ∈ beyond := by
  induction states generalizing set with
  | nil => exact ⟨set, rfl, fun k => by simp⟩
  | cons f states ih =>
    obtain ⟨hf, hrest⟩ := List.forall_mem_cons.mp hstates
    obtain ⟨beyond, hbeyond⟩ := hn.exists_nextTokens? hf
    obtain ⟨all, hall, hspec⟩ := ih hrest (set ∪ beyond)
    refine ⟨all, ?_, fun k => ?_⟩
    · rw [List.foldlM_cons, hbeyond]
      exact hall
    · rw [hspec, SortedSet.mem_union, List.exists_mem_cons_iff, hbeyond, or_assoc]
      simp only [Option.some.injEq, exists_eq_left']

/-- The recovery set is there, and holds what can follow in the stack. -/
theorem exists_recoverySet? (hn : n.Formed) {stack : Stack}
    (hstack : ∀ f ∈ follows stack, f < n.states.size) :
    ∃ kinds, n.recoverySet? stack = some kinds ∧ ∀ k, k ∈ kinds ↔ n.CanFollow stack k := by
  obtain ⟨all, hall, hspec⟩ := exists_collect hn hstack ∅
  refine ⟨all.erase .epsilon, by rw [recoverySet?, hall]; rfl, fun k => ?_⟩
  rw [SortedSet.mem_erase, hspec, CanFollow, and_comm]
  simp only [SortedSet.not_mem_empty, false_or]

end Network

end ParseRecovery
