import ParseRecovery.Proofs.Network.Formed
import ParseRecovery.Proofs.Session.Effects

/-!
What a match delivers. Once the current token is not of a kind that was asked for, the match is left
to the inline repair, which no longer knows what was asked for: it goes by all the kinds that can come
next. So a match that does not fail delivers a kind that is expected (`match_delivers_expected`), and
where several are, perhaps another than the one asked for (`match_delivers_another`).
-/

namespace ParseRecovery

namespace KindSet

/-- The kind is the least of the grammar's own in the set. -/
structure IsLeastUser (s : KindSet) (k : TokenKind) : Prop where
  mem : k ∈ s
  isUser : 1 ≤ k
  le : ∀ j ∈ s, 1 ≤ j → k ≤ j

theorem isLeastUser_of_minUser? {s : KindSet} {k : TokenKind} (h : s.minUser? = some k) :
    s.IsLeastUser k := by
  obtain ⟨huser, below, above, hlist, hbelow⟩ := List.find?_eq_some_iff_append.mp h
  have hascending := s.ascending
  rw [hlist, List.pairwise_append] at hascending
  refine ⟨?_, TokenKind.isUser_iff.mp huser, fun j hj hpos => ?_⟩
  · rw [← SortedSet.mem_toList, hlist]
    exact List.mem_append_right below List.mem_cons_self
  · rw [← SortedSet.mem_toList, hlist, List.mem_append, List.mem_cons] at hj
    -- what stands before `k` was passed over, what stands behind it is greater
    rcases hj with hj | rfl | hj
    · have hnot := hbelow j hj
      rw [TokenKind.isUser_iff.mpr hpos] at hnot
      cases hnot
    · exact Int.le_refl j
    · exact Int.le_of_lt ((List.pairwise_cons.mp hascending.2.1).1 j hj)

end KindSet

theorem TokenStream.peek?_two {s : TokenStream} (h : s.atEof = false) :
    s.peek? 2 = some s.consume.current := by
  have hlt := index_succ_lt h
  have hplace : min (s.index + 1) (s.tokens.size - 1) = s.index + 1 := by omega
  simp [peek?, place?, consume, current, hplace, hlt]

namespace Session

/-- What a match for some kinds delivers where others are expected, too. -/
inductive Delivers (s : Session) (kinds expected : KindSet) : MatchedSymbol → Prop
  /-- the current token, which is of a kind asked for -/
  | asked (h : s.input.current.kind ∈ kinds) : Delivers s kinds expected (.found s.input.current)
  /-- the token behind the current one, which is dropped -/
  | behind {t : Token} (hkinds : s.input.current.kind ∉ kinds)
      (hsurplus : s.input.current.kind ∉ expected) (ht : s.input.peek? 2 = some t)
      (hkind : t.kind ∈ expected) : Delivers s kinds expected (.found t)
  /-- a made-up token of the least kind that is expected -/
  | least {t : Token} (hkinds : s.input.current.kind ∉ kinds) (hkind : expected.IsLeastUser t.kind) :
      Delivers s kinds expected (.conjured t)

variable {s : Session} {kinds expected : KindSet} {symbol : MatchedSymbol}

theorem Delivers.kind_mem (h : s.Delivers kinds expected symbol) (hkinds : ∀ k ∈ kinds, k ∈ expected) :
    symbol.token.kind ∈ expected := by
  cases h with
  | asked h => exact hkinds _ h
  | behind _ _ _ hkind => exact hkind
  | least _ hkind => exact hkind.mem

theorem delivers_dropToken (hkinds : s.input.current.kind ∉ kinds) (hdrop : s.canDrop expected = true) :
    s.Delivers kinds expected (.found (s.announceSurplus expected).input.consume.current) := by
  simp only [canDrop, Bool.and_eq_true, Bool.not_eq_true', TokenStream.peekKind_one] at hdrop
  obtain ⟨⟨⟨-, heof⟩, hsurplus⟩, hbehind⟩ := hdrop
  rw [announceSurplus, input_announce]
  have hpeek := TokenStream.peek?_two heof
  refine .behind hkinds (fun hmem => ?_) hpeek ?_
  · rw [SortedSet.contains_eq_true_iff.mpr hmem] at hsurplus
    cases hsurplus
  · rw [TokenStream.peekKind, hpeek] at hbehind
    exact SortedSet.contains_eq_true_iff.mp hbehind

theorem isLeastUser_of_conjuredKind? {kind : TokenKind} (h : s.conjuredKind? expected = some kind) :
    expected.IsLeastUser kind := by
  rw [conjuredKind?] at h
  split at h
  · exact KindSet.isLeastUser_of_minUser? h
  · cases h

theorem delivers_conjureToken (hkinds : s.input.current.kind ∉ kinds) {kind : TokenKind}
    (hkind : s.conjuredKind? expected = some kind) (name : String) (place : Span) :
    s.Delivers kinds expected (.conjured (.missing kind name place)) :=
  .least hkinds (isLeastUser_of_conjuredKind? hkind)

theorem delivers_of_matchSet? (hexpected : s.expectedTokens? = some expected)
    {o : Outcome MatchedSymbol} (h : s.matchSet? .repair kinds = some o)
    (hsymbol : o.result = .ok symbol) : s.Delivers kinds expected symbol := by
  have hperform : s.perform? .repair (.matchSet kinds) = some (o.respond .symbol) :=
    congrArg (Option.map (Outcome.respond .symbol)) h
  have hresult : (o.respond .symbol).result = .ok (.symbol symbol) := by
    rw [Outcome.respond, hsymbol]
    rfl
  have heffect := effect_of_perform? rfl hperform
  generalize o.respond .symbol = response at heffect hresult
  cases heffect with
  | placed hop => cases hop
  | resumed hop => cases hop
  | gaveUp => cases hresult
  | matched hop =>
    cases hop with
    | set hmem =>
      cases hresult
      exact .asked hmem
  | dropped hop hexpected' _ hdrop =>
    cases hexpected.symm.trans hexpected'
    cases hop with
    | set hkinds =>
      cases hresult
      exact delivers_dropToken hkinds hdrop
  | conjured hop hexpected' _ _ hkind =>
    cases hexpected.symm.trans hexpected'
    cases hop with
    | set hkinds =>
      cases hresult
      exact delivers_conjureToken hkinds hkind _ _

-- asking for one kind is asking for the set of it
theorem matchKind?_eq_matchSet? (s : Session) (strategy : Strategy) (k : TokenKind) :
    s.matchKind? strategy k = s.matchSet? strategy (SortedSet.ofList [k]) := by
  rw [matchKind?, matchSet?]
  by_cases h : s.input.current.kind = k
  · rw [if_pos h, if_pos (by simp [h])]
  · rw [if_neg h, if_neg (by simp [h])]

theorem exists_matchSet?_delivers (hexpected : s.expectedTokens? = some expected)
    (hkinds : ∀ k ∈ kinds, k ∈ expected) :
    ∃ o, s.matchSet? .repair kinds = some o ∧ ∀ symbol, o.result = .ok symbol →
      symbol.token.kind ∈ expected ∧ s.Delivers kinds expected symbol := by
  have hexists : ∃ o, s.matchSet? .repair kinds = some o := by
    rw [matchSet?, repairInline?, hexpected]
    split
    · exact ⟨_, rfl⟩
    · exact ⟨_, rfl⟩
  obtain ⟨o, ho⟩ := hexists
  refine ⟨o, ho, fun symbol hsymbol => ?_⟩
  have hdelivers := delivers_of_matchSet? hexpected ho hsymbol
  exact ⟨hdelivers.kind_mem hkinds, hdelivers⟩

/-- A match for kinds that are expected delivers, unless it fails, a kind that is expected. It is one
of those asked for if the current token is; otherwise the repair goes by all that is expected. -/
theorem match_delivers_expected (hexpected : s.expectedTokens? = some expected) :
    (∀ k ∈ expected, ∃ o, s.matchKind? .repair k = some o ∧ ∀ symbol, o.result = .ok symbol →
      symbol.token.kind ∈ expected ∧ s.Delivers (SortedSet.ofList [k]) expected symbol) ∧
    ∀ kinds : KindSet, (∀ k ∈ kinds, k ∈ expected) →
      ∃ o, s.matchSet? .repair kinds = some o ∧ ∀ symbol, o.result = .ok symbol →
        symbol.token.kind ∈ expected ∧ s.Delivers kinds expected symbol := by
  refine ⟨fun k hk => ?_, fun kinds hkinds => exists_matchSet?_delivers hexpected hkinds⟩
  rw [matchKind?_eq_matchSet?]
  apply exists_matchSet?_delivers hexpected
  intro j hj
  rw [List.mem_singleton.mp (SortedSet.mem_ofList.mp hj)]
  exact hk

/-! ### Two kinds to choose from -/

/-- `choice : A | B` over tokens of the given kinds, where `A`, `B` and one more are those from one to
three. -/
def choiceSession (kinds : List TokenKind) : Session :=
  { Session.new
      { states := #[⟨0, .ruleStart, 0, [⟨.token 1, 1⟩, ⟨.token 2, 1⟩]⟩, ⟨1, .ruleStop, 0, []⟩]
        rules := #[⟨"choice", 0, 1⟩]
        maxKind := 3 }
      {} {} (.ofKinds kinds) with
    stack := [.root 0] }

theorem isBuilt_choiceSession (kinds : List TokenKind) : (choiceSession kinds).network.IsBuilt :=
  ⟨3, [.rule "choice", .edge 0 ⟨.token 1, 1⟩, .edge 0 ⟨.token 2, 1⟩], rfl⟩

theorem expectedTokens?_choiceSession (kinds : List TokenKind) :
    (choiceSession kinds).expectedTokens? = some (SortedSet.ofList [1, 2]) := by
  show (choiceSession []).network.expectedTokens? 0 [.root 0] = _
  decide +kernel

/-- What a match delivers unless it fails: whether the token is made up, and its kind. -/
def delivered? (o : Option (Outcome MatchedSymbol)) : Option (Bool × TokenKind) :=
  o.bind fun o => o.result.toOption.map fun symbol => (symbol.isConjured, symbol.token.kind)

/-- Where an `A` and a `B` are expected and a `B` is asked for, a match drops a surplus token for the
`A` behind it. -/
theorem match_delivers_expected_choiceSession :
    (choiceSession [3, 1]).expectedTokens? = some (SortedSet.ofList [1, 2]) ∧
      2 ∈ SortedSet.ofList [1, (2 : TokenKind)] ∧
      ∃ o symbol, (choiceSession [3, 1]).matchKind? .repair 2 = some o ∧ o.result = .ok symbol ∧
        symbol.isConjured = false ∧ symbol.token.kind = 1 ∧
        (choiceSession [3, 1]).Delivers (SortedSet.ofList [2]) (SortedSet.ofList [1, 2]) symbol := by
  have hexpected := expectedTokens?_choiceSession [3, 1]
  have hmem : 2 ∈ SortedSet.ofList [1, (2 : TokenKind)] := by decide
  obtain ⟨o, ho, hdelivers⟩ := (match_delivers_expected hexpected).1 2 hmem
  have hdelivered : delivered? ((choiceSession [3, 1]).matchKind? .repair 2) = some (false, 1) := by
    decide +kernel
  rw [ho] at hdelivered
  cases hresult : o.result with
  | error failure =>
    simp only [delivered?, Option.bind_some, hresult, Except.toOption] at hdelivered
    cases hdelivered
  | ok symbol =>
    simp only [delivered?, Option.bind_some, hresult, Except.toOption] at hdelivered
    obtain ⟨hconjured, hkind⟩ := Prod.mk.inj (Option.some.inj hdelivered)
    exact ⟨hexpected, hmem, o, symbol, ho, hresult, hconjured, hkind, (hdelivers symbol hresult).2⟩

/-- A match does not always deliver what was asked for, though it was expected: where a `B` is asked
for, it makes an `A` up, or drops a surplus token for the `A` behind it. -/
theorem match_delivers_another :
    (∀ kinds, (choiceSession kinds).network.IsBuilt ∧
      (choiceSession kinds).expectedTokens? = some (SortedSet.ofList [1, 2])) ∧
    delivered? ((choiceSession [3, 3]).matchKind? .repair 2) = some (true, 1) ∧
    delivered? ((choiceSession [3, 1]).matchKind? .repair 2) = some (false, 1) ∧
    delivered? ((choiceSession [3, 3]).matchSet? .repair (SortedSet.ofList [2])) = some (true, 1) ∧
    delivered? ((choiceSession [3, 1]).matchSet? .repair (SortedSet.ofList [2])) = some (false, 1) :=
  ⟨fun kinds => ⟨isBuilt_choiceSession kinds, expectedTokens?_choiceSession kinds⟩, by decide +kernel,
    by decide +kernel, by decide +kernel, by decide +kernel⟩

end Session

end ParseRecovery
