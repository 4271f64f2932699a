import ParseRecovery.Proofs.Network.Resumption
import ParseRecovery.Proofs.Session.Delivery
import ParseRecovery.Proofs.Session.Windows

/-!
What the inline repair makes of a match. The settings, two tokens of lookahead and the kinds that can
come next settle whether it may drop the current token (`Session.Droppable`) and whether it may make
one up (`Session.Conjurable`). Main statement: it does the first of the two that it may, else gives up
with the session as it was, and a repair tells of the mismatch unless a window is open
(`Session.repairInline?_exact`).
-/

namespace ParseRecovery

namespace TokenStream

variable {s : TokenStream}

theorem consume_consume (s : TokenStream) : s.consume.consume = s.seek (s.index + 2) := by
  refine eq_of_index_eq (s.consume.tokens_consume.trans s.tokens_consume)
    (s.consume.markers_consume.trans s.markers_consume) ?_
  have hsize : s.consume.size = s.size := by rw [size, tokens_consume, size]
  show _ = min (s.index + 2) (s.size - 1)
  rw [index_consume, hsize, index_consume]
  omega

theorem get?_index_succ (h : s.atEof = false) : s.get? (s.index + 1) = some s.consume.current := by
  have hlt := index_succ_lt h
  have hindex : s.consume.index = s.index + 1 := by
    rw [index_consume, size]
    omega
  rw [← hindex, ← s.get?_consume, get?_index]

theorem peekKind_two (h : s.atEof = false) : s.peekKind 2 = s.consume.current.kind := by
  rw [peekKind, peek?_two h]
  rfl

theorem peekKind_one_ne_eof_iff : s.peekKind 1 ≠ .eof ↔ s.atEof = false := by
  rw [ne_eq, peekKind_one_eq_eof_iff, Bool.not_eq_true]

end TokenStream

theorem KindSet.minUser?_eq_none_iff {s : KindSet} : s.minUser? = none ↔ ∀ k ∈ s, ¬ 1 ≤ k := by
  simp only [minUser?, List.find?_eq_none, SortedSet.mem_toList, TokenKind.isUser_iff]

namespace Session

/-! ## What may be done -/

/-- The current token is surplus: the one behind it can come next, and the policy may drop it. -/
structure Droppable (s : Session) (expected : KindSet) : Prop where
  goesOn : s.config.haltOnError = false
  enabled : s.config.singleTokenDeletion = true
  not_eof : s.input.peekKind 1 ≠ .eof
  surplus : s.input.peekKind 1 ∉ expected
  fits : s.input.peekKind 2 ∈ expected

/-- A token of the grammar's own can come next, and the policy may make one up here. -/
structure Conjurable (s : Session) (expected : KindSet) : Prop where
  goesOn : s.config.haltOnError = false
  enabled : s.config.singleTokenInsertion = true
  exists_kind : ∃ k ∈ expected, 1 ≤ k
  not_eof_or : s.input.peekKind 1 ≠ .eof ∨ s.config.reportMissingAtEof = true

variable {s : Session} {expected : KindSet}

theorem droppable_iff :
    s.Droppable expected ↔ s.config.haltOnError = false ∧ s.canDrop expected = true := by
  simp only [canDrop, Bool.and_eq_true, Bool.not_eq_true', SortedSet.contains_eq_true_iff,
    SortedSet.contains_eq_false_iff, ← TokenStream.peekKind_one_ne_eof_iff]
  constructor
  · rintro ⟨hgoes, henabled, heof, hsurplus, hfits⟩
    exact ⟨hgoes, ⟨⟨henabled, heof⟩, hsurplus⟩, hfits⟩
  · rintro ⟨hgoes, ⟨⟨henabled, heof⟩, hsurplus⟩, hfits⟩
    exact ⟨hgoes, henabled, heof, hsurplus, hfits⟩

theorem exists_conjuredKind?_iff :
    (∃ kind, s.conjuredKind? expected = some kind) ↔
      s.config.singleTokenInsertion = true ∧ (∃ k ∈ expected, 1 ≤ k) ∧
        (s.input.peekKind 1 ≠ .eof ∨ s.config.reportMissingAtEof = true) := by
  have hleast : (∃ kind, expected.minUser? = some kind) ↔ ∃ k ∈ expected, 1 ≤ k := by
    rw [← Option.ne_none_iff_exists', ne_eq, KindSet.minUser?_eq_none_iff]
    simp
  rw [TokenStream.peekKind_one_ne_eof_iff, ← hleast, conjuredKind?]
  split
  · rename_i hmay
    simp only [Bool.and_eq_true, Bool.or_eq_true, Bool.not_eq_true'] at hmay
    exact ⟨fun h => ⟨hmay.1, h, hmay.2⟩, fun h => h.2.1⟩
  · rename_i hmay
    simp only [Bool.and_eq_true, Bool.or_eq_true, Bool.not_eq_true'] at hmay
    refine iff_of_false (fun h => by simp at h) fun h => hmay ⟨h.1, h.2.2⟩

/-! ## What is done -/

/-- The current token was told of as a mismatch, unless a window was open. -/
structure TellsMismatch (s : Session) (expected : KindSet) (after : Session) : Prop where
  silent : s.window.isOpen = true →
    after.diagnostics = s.diagnostics ∧ after.errorCount = s.errorCount
  told : s.window.isOpen = false → ∃ d, after.diagnostics = s.diagnostics ++ [d] ∧
    after.errorCount = s.errorCount + 1 ∧ d.fault =
      { cause := .inputMismatch
        offending := s.input.current
        expected := expected
        ruleStack := s.ruleStack
        state := s.state }

/-- The token behind the current one was matched, which closes the window. -/
structure Drops (s : Session) (expected : KindSet) (o : Outcome MatchedSymbol) : Prop where
  found : ∃ t, s.input.get? (s.input.index + 1) = some t ∧ o.result = .ok (.found t)
  index_eq : o.session.input.index = min (s.input.index + 2) (s.input.size - 1)
  tells : s.TellsMismatch expected o.session
  session_eq : o.session =
    { s with
      input := s.input.seek (s.input.index + 2)
      window := { isOpen := false, resyncIndex := none, resyncStates := ∅ }
      diagnostics := o.session.diagnostics
      errorCount := o.session.errorCount }

/-- A token was made up before the current one, which leaves a window open. -/
structure Conjures (s : Session) (expected : KindSet) (o : Outcome MatchedSymbol) : Prop where
  conjured : ∃ t, o.result = .ok (.conjured t) ∧ t.index = none ∧ t.span.start = t.span.stop ∧
    expected.IsLeastUser t.kind
  tells : s.TellsMismatch expected o.session
  session_eq : o.session =
    { s with
      window := { s.window with isOpen := true }
      diagnostics := o.session.diagnostics
      errorCount := o.session.errorCount }

theorem announce_eq (s : Session) (d : Diagnostic) :
    s.announce d =
      { s with
        window := { s.window with isOpen := true }
        diagnostics := (s.announce d).diagnostics
        errorCount := (s.announce d).errorCount } := by
  rw [announce]
  split
  · rename_i hopen
    rw [← hopen]
  · rfl

theorem tellsMismatch_of_announce {after : Session} {message : String}
    (hdiagnostics : after.diagnostics = (s.announce (s.diagnostic
      (s.faultExpecting expected .inputMismatch s.input.current) message)).diagnostics)
    (hcount : after.errorCount = (s.announce (s.diagnostic
      (s.faultExpecting expected .inputMismatch s.input.current) message)).errorCount) :
    s.TellsMismatch expected after := by
  rw [diagnostics_announce] at hdiagnostics
  rw [errorCount_announce] at hcount
  constructor
  · intro hopen
    simpa [hopen] using And.intro hdiagnostics hcount
  · intro hclosed
    simp only [hclosed, Bool.false_eq_true, if_false] at hdiagnostics hcount
    exact ⟨_, hdiagnostics, hcount, rfl⟩

theorem closeWindow_announce (s : Session) (d : Diagnostic) (input : TokenStream) :
    { (s.announce d).closeWindow with input := input } =
      { s with
        input := input
        window := {}
        diagnostics := (s.announce d).diagnostics
        errorCount := (s.announce d).errorCount } := by
  rw [announce]
  split <;> rfl

theorem drops_dropToken (h : s.Droppable expected) : s.Drops expected (s.dropToken expected) := by
  have heof := TokenStream.peekKind_one_ne_eof_iff.mp h.not_eof
  have hinput : (s.announceSurplus expected).input = s.input := s.input_announce _
  have hsession : (s.dropToken expected).session =
      { (s.announceSurplus expected).closeWindow with input := s.input.seek (s.input.index + 2) } := by
    rw [dropToken, hinput, TokenStream.consume_consume]
  refine ⟨?_, ?_, ?_, ?_⟩
  · refine ⟨s.input.consume.current, TokenStream.get?_index_succ heof, ?_⟩
    rw [dropToken, hinput]
  · rw [hsession]
    rfl
  · rw [hsession]
    exact tellsMismatch_of_announce rfl rfl
  · rw [hsession]
    exact closeWindow_announce s _ _

theorem conjures_conjureToken {kind : TokenKind} (h : s.conjuredKind? expected = some kind) :
    s.Conjures expected (s.conjureToken expected kind) := by
  refine ⟨⟨_, rfl, rfl, rfl, isLeastUser_of_conjuredKind? h⟩, ?_, s.announce_eq _⟩
  exact tellsMismatch_of_announce rfl rfl

/-! ## Which of these is done -/

section Choice

variable (hexpected : s.expectedTokens? = some expected)
include hexpected

theorem repairInline?_of_droppable (h : s.Droppable expected) :
    s.repairInline? .repair = some (s.dropToken expected) := by
  obtain ⟨hgoes, hdrop⟩ := droppable_iff.mp h
  rw [repairInline?, hexpected, Option.map_some, repairExpecting, hgoes, hdrop]
  rfl

theorem repairInline?_of_conjurable (hnot : ¬ s.Droppable expected) (h : s.Conjurable expected) :
    ∃ kind, s.conjuredKind? expected = some kind ∧
      s.repairInline? .repair = some (s.conjureToken expected kind) := by
  obtain ⟨kind, hkind⟩ := exists_conjuredKind?_iff.mpr ⟨h.enabled, h.exists_kind, h.not_eof_or⟩
  have hdrop : ¬ s.canDrop expected = true := fun hdrop => hnot (droppable_iff.mpr ⟨h.goesOn, hdrop⟩)
  refine ⟨kind, hkind, ?_⟩
  rw [repairInline?, hexpected, Option.map_some, repairExpecting, h.goesOn, if_neg Bool.noConfusion,
    if_neg hdrop, hkind]

theorem repairInline?_of_neither (hdrop : ¬ s.Droppable expected) (hconjure : ¬ s.Conjurable expected) :
    s.repairInline? .repair = some (s.giveUp expected) := by
  rw [repairInline?, hexpected, Option.map_some, repairExpecting]
  split
  · rfl
  · rename_i hhalt
    rw [Bool.not_eq_true] at hhalt
    rw [if_neg fun h => hdrop (droppable_iff.mpr ⟨hhalt, h⟩)]
    cases hkind : s.conjuredKind? expected with
    | none => rfl
    | some kind =>
      obtain ⟨henabled, hexists, heof⟩ := exists_conjuredKind?_iff.mp ⟨kind, hkind⟩
      exact absurd ⟨hhalt, henabled, hexists, heof⟩ hconjure

end Choice

/-- The repair came by a token that can come next, told of one error, and dropped one token at most. -/
def RepairsAtOnce (s : Session) (expected : KindSet) (o : Outcome MatchedSymbol) : Prop :=
  ∃ symbol d, o.result = .ok symbol ∧ symbol.token.kind ∈ expected ∧
    o.session.diagnostics = s.diagnostics ++ [d] ∧
    o.session.input.index ≤ s.input.index + 1 + if symbol.isConjured then 0 else 1

theorem Drops.repairsAtOnce {o : Outcome MatchedSymbol} (h : s.Drops expected o)
    (hdrop : s.Droppable expected) (hclosed : s.window.isOpen = false) :
    s.RepairsAtOnce expected o := by
  obtain ⟨t, ht, hresult⟩ := h.found
  obtain ⟨d, hd, -⟩ := h.tells.told hclosed
  have heof := TokenStream.peekKind_one_ne_eof_iff.mp hdrop.not_eof
  -- the token that was matched is the second one of the lookahead
  have hcurrent : s.input.consume.current = t :=
    Option.some.inj ((TokenStream.get?_index_succ heof).symm.trans ht)
  have hfits := hdrop.fits
  rw [TokenStream.peekKind_two heof, hcurrent] at hfits
  refine ⟨.found t, d, hresult, hfits, hd, ?_⟩
  rw [h.index_eq]
  exact Nat.min_le_left _ _

theorem Conjures.repairsAtOnce {o : Outcome MatchedSymbol} (h : s.Conjures expected o)
    (hclosed : s.window.isOpen = false) : s.RepairsAtOnce expected o := by
  obtain ⟨t, hresult, -, -, hleast⟩ := h.conjured
  obtain ⟨d, hd, -⟩ := h.tells.told hclosed
  refine ⟨.conjured t, d, hresult, hleast.mem, hd, ?_⟩
  rw [h.session_eq]
  exact Nat.le_succ _

/-- Behind a choice, with a token left before the end of the input. -/
def surplusSession : Session :=
  { choiceSession [3] with state := 1 }

end Session

end ParseRecovery
