import ParseRecovery.Proofs.Session.Agreement

/-!
What realigning before a decision comes to. The policy looks at the next kinds of the state first, which
can hold the mark for the end of a rule, and asks for the kinds expected in context only if the current
token is not among them. Unless a token has the reserved kind of the mark the shortcut shows in no
answer (`realign?_eq`): what is a next kind of the state is expected. Main statement: realigning moves to
the first token, from the current one on, that is expected or ends the input, and does nothing else, so
doing it twice is doing it once (`sync?_stops_at_first`).
-/

namespace ParseRecovery

namespace Session

variable {s : Session}

theorem leastFrom_skipUntil_contains (s : Session) (expected : KindSet) :
    s.input.LeastFrom s.input.index (fun t => t.isEof = true ∨ t.kind ∈ expected)
      (s.input.skipUntil expected.contains).index :=
  (s.input.leastFrom_skipUntil expected.contains).congr fun t => by
    rw [SortedSet.contains_eq_true_iff]

/-- The kinds expected in context are there, and hold the next kinds of the state but for the mark. -/
theorem exists_next_expected (hn : s.network.Formed) (hstate : s.state < s.network.states.size)
    (hstack : ∀ f ∈ Network.follows s.stack, f < s.network.states.size) :
    ∃ next expected, s.network.nextTokens? s.state = some next ∧ s.expectedTokens? = some expected ∧
      ∀ k ∈ next, k ≠ .epsilon → k ∈ expected := by
  obtain ⟨next, expected, hnext, hexpected, hspec⟩ := Network.exists_expectedTokens? hn hstate hstack
  exact ⟨next, expected, hnext, hexpected, fun k hk hne => (hspec k).1 ⟨hk, hne⟩⟩

/-- Whether or not the shortcut is taken, input is skipped up to what is expected in context. -/
theorem realign?_eq {next expected : KindSet} (hnext : s.network.nextTokens? s.state = some next)
    (hexpected : s.expectedTokens? = some expected)
    (hfits : s.input.current.kind ∈ next → s.input.current.kind ∈ expected) :
    s.realign? = some { s with input := s.input.skipUntil expected.contains } := by
  rw [realign?, hnext]
  dsimp only
  split
  · rename_i hshortcut
    rw [TokenStream.peekKind_one, SortedSet.contains_eq_true_iff] at hshortcut
    have hstays : s.input.skipUntil expected.contains = s.input := by
      rw [TokenStream.skipUntil_eq_self_iff, SortedSet.contains_eq_true_iff]
      exact .inr (hfits hshortcut)
    rw [hstays]
  · rw [hexpected, Option.map_some]

theorem isAligned_skipUntil {expected : KindSet} (hexpected : s.expectedTokens? = some expected) :
    IsAligned { s with input := s.input.skipUntil expected.contains } := by
  have hstops := s.input.stops_skipUntil expected.contains
  rw [SortedSet.contains_eq_true_iff] at hstops
  exact ⟨expected, hexpected, hstops⟩

/-- Before a decision the repairing policy moves to the first token that is expected in context or ends
the input, and changes nothing else. No token is a next kind of the state without being expected, and
where the policy has moved to it stays. -/
theorem sync?_stops_at_first (hbuilt : s.network.IsBuilt) (hstate : s.state < s.network.states.size)
    (hstack : ∀ f ∈ Network.follows s.stack, f < s.network.states.size)
    (hclean : ∀ t ∈ s.input.tokens, t.kind ≠ .epsilon) :
    ∃ next expected after, s.network.nextTokens? s.state = some next ∧
      s.expectedTokens? = some expected ∧ s.sync? .repair = some after ∧
      s.input.LeastFrom s.input.index (fun t => t.isEof = true ∨ t.kind ∈ expected)
        after.input.index ∧
      after = { s with input := s.input.seek after.input.index } ∧
      (∀ t ∈ s.input.tokens, t.kind ∈ next → t.kind ∈ expected) ∧
      after.sync? .repair = some after := by
  obtain ⟨next, expected, hnext, hexpected, hspec⟩ :=
    exists_next_expected hbuilt.formed hstate hstack
  have hfits : ∀ t ∈ s.input.tokens, t.kind ∈ next → t.kind ∈ expected := fun t ht hk =>
    hspec t.kind hk (hclean t ht)
  have hrealign := realign?_eq hnext hexpected (hfits _ s.input.current_mem)
  refine ⟨next, expected, _, hnext, hexpected, hrealign, leastFrom_skipUntil_contains s expected, ?_,
    hfits, realign?_of_isAligned (isAligned_skipUntil hexpected)⟩
  show _ = { s with input := s.input.seek (s.input.skipUntil expected.contains).index }
  rw [← s.input.eq_seek (s.input.tokens_skipUntil _) rfl]

/-- Behind a sum of `sumSession` only the mark is a next kind, and two names are skipped for the `SEMI`
that the file expects. -/
theorem sync?_stops_at_first_sumSession :
    sumSession.network.IsBuilt ∧ sumSession.state < sumSession.network.states.size ∧
      (∀ f ∈ Network.follows sumSession.stack, f < sumSession.network.states.size) ∧
      (∀ t ∈ sumSession.input.tokens, t.kind ≠ .epsilon) ∧
      sumSession.network.nextTokens? sumSession.state = some (SortedSet.ofList [.epsilon]) ∧
      ∃ expected after, sumSession.expectedTokens? = some expected ∧
        sumSession.sync? .repair = some after ∧ after.input.index = 2 ∧
        sumSession.input.LeastFrom 0 (fun t => t.isEof = true ∨ t.kind ∈ expected)
          after.input.index ∧
        after.sync? .repair = some after := by
  have hstate : sumSession.state < sumSession.network.states.size := by decide
  have hstack : ∀ f ∈ Network.follows sumSession.stack, f < sumSession.network.states.size := by
    decide
  have hclean : ∀ t ∈ sumSession.input.tokens, t.kind ≠ .epsilon := by decide +kernel
  obtain ⟨next, expected, after, -, hexpected, hsync, hleast, -, -, hagain⟩ :=
    sync?_stops_at_first Network.isBuilt_sumNetwork hstate hstack hclean
  refine ⟨Network.isBuilt_sumNetwork, hstate, hstack, hclean, by decide +kernel, expected, after,
    hexpected, hsync, ?_, hleast, hagain⟩
  have hindex : (sumSession.sync? .repair).map (fun after => after.input.index) = some 2 := by
    decide +kernel
  rw [hsync] at hindex
  exact Option.some.inj hindex

end Session

end ParseRecovery
