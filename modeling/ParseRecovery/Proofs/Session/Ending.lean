import ParseRecovery.Proofs.Session.Delivery
import ParseRecovery.Proofs.Session.Progress
import ParseRecovery.Proofs.Stream.Lookahead

/-!
Whether a parse that has come to the end of its input stays there. The cursor stops at the last token,
which ends the input, and nothing but seeking and starting over moves it back. So the end of the input
is for good if only the last token is of that kind. If another one is, the cursor moves past it: by
consuming, by a match that asks for the end of the input, or where the parse is resumed a second time
from one state (`Session.Effect.input_eq_of_atEof`). Main statement: the end of the input is for good if
and only if no token before the last is of that kind (`TokenStream.absorbs_iff`).
-/

namespace ParseRecovery

/-- The operation moves the cursor back, or to any place. -/
def Operation.rewinds : Operation → Bool
  | .seek _ | .reset => true
  | _ => false

namespace TokenStream

def Move.isSeek : Move → Bool
  | .seek _ => true
  | _ => false

variable {s t : TokenStream}

theorem atEof_congr (htokens : t.tokens = s.tokens) (hindex : t.index = s.index) :
    t.atEof = s.atEof := by
  have hpeek := peek?_congr htokens hindex 1
  rw [peek?_one, peek?_one] at hpeek
  rw [atEof, atEof, Option.some.inj hpeek]

/-! ## At the last token -/

theorem index_le_perform {move : Move} (h : move.isSeek = false) : s.index ≤ (s.perform move).index := by
  cases move with
  | consume => exact s.index_le_consume
  | seek => cases h
  | mark | release => exact Nat.le_refl _

theorem index_le_run {moves : List Move} (h : ∀ move ∈ moves, move.isSeek = false) :
    s.index ≤ (s.run moves).index := by
  induction moves generalizing s with
  | nil => exact Nat.le_refl _
  | cons move moves ih =>
    obtain ⟨hmove, hmoves⟩ := List.forall_mem_cons.mp h
    exact Nat.le_trans (index_le_perform hmove) (ih hmoves)

theorem index_eq_of_last (hlast : s.index + 1 = s.size) (htokens : t.tokens = s.tokens)
    (hle : s.index ≤ t.index) : t.index = s.index := by
  have hlt := t.index_lt
  rw [htokens] at hlt
  rw [size] at hlast
  omega

/-- Only the last token ends the input. -/
def EndsOnce (s : TokenStream) : Prop :=
  ∀ i t, s.get? i = some t → t.isEof = true → i + 1 = s.size

theorem EndsOnce.last_of_atEof (h : s.EndsOnce) (heof : s.atEof = true) : s.index + 1 = s.size :=
  h s.index s.current s.get?_index heof

theorem EndsOnce.congr (h : s.EndsOnce) (htokens : t.tokens = s.tokens) : t.EndsOnce := by
  simp only [EndsOnce, get?, size] at h ⊢
  rwa [htokens]

theorem isEof_withIndex (t : Token) (i : Nat) : (t.withIndex i).isEof = t.isEof :=
  rfl

theorem EndsOnce.not_isEof_of_mem {tokens : List Token} (h : (ofTokens tokens).EndsOnce) {t : Token}
    (ht : t ∈ tokens.dropLast) : t.isEof = false := by
  refine Bool.eq_false_iff.mpr fun heof => ?_
  obtain ⟨i, hi, rfl⟩ := List.getElem_of_mem ht
  rw [List.length_dropLast] at hi
  rw [List.getElem_dropLast] at heof
  have hget := (holds_ofTokens tokens).token i _ (List.getElem?_eq_getElem (Nat.lt_of_lt_pred hi))
  have hlast := h i _ hget heof
  have hsize := (holds_ofTokens tokens).length_le_size
  omega

theorem endsOnce_ofTokens {tokens : List Token} (h : ∀ t ∈ tokens.dropLast, t.isEof = false) :
    (ofTokens tokens).EndsOnce := by
  have hholds := holds_ofTokens tokens
  intro i t ht heof
  have hlt : i < (ofTokens tokens).size := (Array.getElem?_eq_some_iff.mp ht).1
  rcases Nat.lt_or_ge i tokens.length with hgiven | hbehind
  · have hget : (ofTokens tokens).get? i = some (tokens[i].withIndex i) :=
      hholds.token i _ (List.getElem?_eq_getElem hgiven)
    cases ht.symm.trans hget
    rw [isEof_withIndex] at heof
    -- so it is the last of the given tokens, and no sentinel comes behind it
    have hlast : i + 1 = tokens.length := by
      refine Decidable.byContradiction fun hne => ?_
      have hmem : tokens[i] ∈ tokens.dropLast := by
        rw [List.mem_iff_getElem]
        exact ⟨i, by rw [List.length_dropLast]; omega, List.getElem_dropLast _⟩
      rw [h _ hmem] at heof
      cases heof
    have hends : tokens.getLast?.any Token.isEof = true := by
      rw [List.getLast?_eq_getElem?, ← hlast, Nat.add_sub_cancel, List.getElem?_eq_getElem hgiven]
      exact heof
    rw [hholds.complete hends, hlast]
  · cases hends : tokens.getLast?.any Token.isEof with
    | true =>
      rw [hholds.complete hends] at hlt
      omega
    | false =>
      have hsize := (hholds.sentinel hends).1
      omega

end TokenStream

namespace Session

variable {s : Session} {strategy : Strategy} {op : Operation} {o : Outcome Response}

theorem index_le_of_perform? (h : s.perform? strategy op = some o) (hop : op.rewinds = false) :
    s.input.index ≤ o.session.input.index := by
  cases hparsing : op.isParsing with
  | true =>
    refine ((effect_of_perform? hparsing h).change.advances ?_).index_le
    rintro rfl
    cases hop
  | false =>
    cases op with
    | consume =>
      cases h
      exact s.input.index_le_consume
    | openWindow | closeWindow | setWindow | mark | release | subscribe | notify | takeDiagnostics =>
      cases h
      exact Nat.le_refl _
    | seek => cases hop
    | _ => cases hparsing

theorem input_resyncTo_of_atEof (heof : s.input.atEof = true) (h : ¬ s.Remembers s.state)
    (kinds : KindSet) : (s.resyncTo kinds).input = s.input := by
  have hstalled : ¬ s.isStalled = true := fun hstalled => h (isStalled_iff.mp hstalled)
  rw [resyncTo, if_neg hstalled]
  exact s.input.skipUntil_eq_self_iff.mpr (.inl heof)

/-- At a token that ends the input, wherever it stands, a step of a parse moves the cursor only by
starting over, by matching that token, or by resuming where and from where it resumed before. -/
theorem Effect.input_eq_of_atEof (h : s.Effect strategy op o) (heof : s.input.atEof = true) :
    o.session.input = s.input ∨ op = .reset ∨ s.Matches op ∨
      s.resumes op = true ∧ s.Remembers s.state := by
  cases h with
  | @placed _ _ after h =>
    left
    show after.input = s.input
    rw [h.eq]
  | restarted => exact .inr (.inl rfl)
  | matched h => exact .inr (.inr (.inl h))
  | dropped _ _ _ hdrop => simp [canDrop, heof] at hdrop
  | conjured => exact .inl (s.input_announce _)
  | @cancelled op expected =>
    left
    show (s.cancelExpecting expected).session.input = s.input
    rw [session_cancelExpecting]
    exact s.input_announce _
  | refused | told | raised => exact .inl (s.input_announce _)
  | gaveUp | held | halted | forwarded | aligned | answered => exact .inl rfl
  | @resumed _ f told after hop hafter =>
    obtain ⟨kinds, -, rfl⟩ := Option.map_eq_some_iff.mp hafter
    have hsame := hop.tells.samePlace
    rw [← hop.tells.state_eq, ← hsame.remembers_iff, ← hsame.input_eq]
    rw [← hsame.input_eq] at heof
    by_cases hstalled : told.Remembers told.state
    · exact .inr (.inr (.inr ⟨resumes_iff.mpr ⟨f, told, hop⟩, hstalled⟩))
    · exact .inl (input_resyncTo_of_atEof heof hstalled kinds)
  | abandoned hop => exact .inl hop.tells.samePlace.input_eq
  | realigned => exact .inl (s.input.skipUntil_eq_self_iff.mpr (.inl heof))

end Session

namespace Run

variable {s last : Session} {events : List Event}

theorem index_le (h : Run s events last) (hops : ∀ e ∈ events, e.op.rewinds = false) :
    s.input.index ≤ last.input.index := by
  induction h with
  | start => exact Nat.le_refl _
  | @step events e h he ih =>
    obtain ⟨hop, hops⟩ := List.forall_mem_cons.mp hops
    exact Nat.le_trans (ih hops) (Session.index_le_of_perform? he hop)

end Run

namespace TokenStream

/-- Once the current token ends the input it goes on to do so, at the same place, whatever moves are
made short of seeking. -/
def AbsorbsMoves (s : TokenStream) : Prop :=
  ∀ earlier later, (∀ move ∈ earlier, move.isSeek = false) → (∀ move ∈ later, move.isSeek = false) →
    (s.run earlier).peekKind 1 = .eof →
      ((s.run earlier).run later).index = (s.run earlier).index ∧
        ((s.run earlier).run later).peekKind 1 = .eof

/-- Once a parse over the same tokens is at the end of the input it stays there, whatever is done short
of seeking and starting over. -/
def AbsorbsRuns (s : TokenStream) : Prop :=
  ∀ start events last, start.input.tokens = s.tokens → Run start events last →
    (∀ e ∈ events, e.op.rewinds = false) → start.input.atEof = true →
      last.input.index = start.input.index ∧ last.input.atEof = true

variable {s : TokenStream}

theorem EndsOnce.absorbsMoves (h : s.EndsOnce) : s.AbsorbsMoves := by
  intro earlier later hearlier hlater hkind
  have heof := peekKind_one_eq_eof_iff.mp hkind
  have hlast := (h.congr (s.tokens_run earlier)).last_of_atEof heof
  have htokens := (s.run earlier).tokens_run later
  have hindex := index_eq_of_last hlast htokens (index_le_run hlater)
  exact ⟨hindex, peekKind_one_eq_eof_iff.mpr ((atEof_congr htokens hindex).trans heof)⟩

theorem EndsOnce.absorbsRuns (h : s.EndsOnce) : s.AbsorbsRuns := by
  intro start events last hstart hrun hops heof
  have hlast := (h.congr hstart).last_of_atEof heof
  have htokens := hrun.sameGivens.tokens_eq
  have hindex := index_eq_of_last hlast htokens (hrun.index_le hops)
  exact ⟨hindex, (atEof_congr htokens hindex).trans heof⟩

theorem size_consume (s : TokenStream) : s.consume.size = s.size := by
  rw [size, tokens_consume, size]

theorem index_run_consume (s : TokenStream) (i : Nat) :
    (s.run (List.replicate i .consume)).index = min (s.index + i) (s.size - 1) := by
  have hlt : s.index < s.size := s.index_lt
  induction i generalizing s with
  | zero =>
    show s.index = _
    omega
  | succ i ih =>
    show (s.consume.run (List.replicate i .consume)).index = _
    rw [ih s.consume s.consume.index_lt, index_consume, size_consume]
    omega

section Consuming

variable {tokens : List Token} {i : Nat}

theorem index_run_consume_of_lt (h : i < (ofTokens tokens).size) :
    ((ofTokens tokens).run (List.replicate i .consume)).index = i := by
  rw [index_run_consume]
  show min (0 + i) _ = i
  omega

theorem peekKind_run_consume {t : Token} (h : (ofTokens tokens).get? i = some t) :
    ((ofTokens tokens).run (List.replicate i .consume)).peekKind 1 = t.kind := by
  have hlt : i < (ofTokens tokens).size := (Array.getElem?_eq_some_iff.mp h).1
  have hcurrent := ((ofTokens tokens).run (List.replicate i .consume)).get?_index
  rw [get?, tokens_run, ← get?, index_run_consume_of_lt hlt, h] at hcurrent
  rw [peekKind_one, ← Option.some.inj hcurrent]

theorem not_isSeek_of_mem_replicate :
    ∀ move ∈ List.replicate i Move.consume, move.isSeek = false := by
  intro move hmove
  rw [List.eq_of_mem_replicate hmove]
  rfl

/-- Consuming goes past a token that ends the input before the last. -/
theorem AbsorbsMoves.endsOnce (h : (ofTokens tokens).AbsorbsMoves) : (ofTokens tokens).EndsOnce := by
  intro i t ht heof
  have hlt : i < (ofTokens tokens).size := (Array.getElem?_eq_some_iff.mp ht).1
  refine Decidable.byContradiction fun hne => ?_
  have hsucc : i + 1 < (ofTokens tokens).size := by omega
  have hkind := (peekKind_run_consume ht).trans (TokenKind.isEof_iff.mp heof)
  obtain ⟨hstays, -⟩ := h _ (List.replicate 1 .consume) not_isSeek_of_mem_replicate
    not_isSeek_of_mem_replicate hkind
  rw [run_run, List.replicate_append_replicate, index_run_consume_of_lt hsucc,
    index_run_consume_of_lt hlt] at hstays
  omega

end Consuming

/-- Matching the end of the input goes past a token of that kind before the last. -/
theorem AbsorbsRuns.endsOnce (h : s.AbsorbsRuns) : s.EndsOnce := by
  intro i t ht heof
  have hlt : i < s.size := (Array.getElem?_eq_some_iff.mp ht).1
  let start := Session.new default {} {} (s.seek i)
  have hindex : start.input.index = i := by
    show min i (s.size - 1) = i
    omega
  have hcurrent : start.input.current = t := by
    have hget := start.input.get?_index
    rw [hindex] at hget
    exact Option.some.inj (hget.symm.trans ht)
  have hkind : start.input.current.kind = .eof := by
    rw [hcurrent]
    exact TokenKind.isEof_iff.mp heof
  have hmatch : start.matchKind? .repair .eof = some start.matchCurrent := if_pos hkind
  have hperform : start.perform? .repair (.matchKind .eof) =
      some (start.matchCurrent.respond .symbol) :=
    congrArg (Option.map (Outcome.respond .symbol)) hmatch
  have hrun : Run start [⟨start, .repair, .matchKind .eof, _⟩] _ := .step .start hperform
  have hops : ∀ e ∈ [(⟨start, .repair, .matchKind .eof, start.matchCurrent.respond .symbol⟩ : Event)],
      e.op.rewinds = false := by
    intro e he
    rw [List.mem_singleton.mp he]
    rfl
  have hstart : start.input.atEof = true := by
    rw [TokenStream.atEof, hcurrent]
    exact heof
  obtain ⟨hstays, -⟩ := h start _ _ rfl hrun hops hstart
  change start.input.consume.index = start.input.index at hstays
  have hsize : start.input.size = s.size := rfl
  rw [index_consume, hsize, hindex] at hstays
  omega

/-- The end of the input is for good, in the stream and in every parse over it, if and only if no token
before the last of the given ones is of that kind. Over any tokens, a step of a parse leaves a token of
that kind behind only by starting over, by matching it, or by resuming there once more from one state. -/
theorem absorbs_iff (tokens : List Token) :
    ((ofTokens tokens).AbsorbsMoves ↔ ∀ t ∈ tokens.dropLast, t.isEof = false) ∧
    ((ofTokens tokens).AbsorbsRuns ↔ ∀ t ∈ tokens.dropLast, t.isEof = false) ∧
    ∀ (s : Session) strategy op o, op.isParsing = true → s.perform? strategy op = some o →
      s.input.atEof = true → o.session.input = s.input ∨ op = .reset ∨ s.Matches op ∨
        s.resumes op = true ∧ s.Remembers s.state := by
  refine ⟨⟨fun h t ht => h.endsOnce.not_isEof_of_mem ht, fun h => (endsOnce_ofTokens h).absorbsMoves⟩,
    ⟨fun h t ht => h.endsOnce.not_isEof_of_mem ht, fun h => (endsOnce_ofTokens h).absorbsRuns⟩, ?_⟩
  intro s strategy op o hparsing hperform heof
  exact (Session.effect_of_perform? hparsing hperform).input_eq_of_atEof heof

/-- Over the end of the input and one more token, consuming moves on from the end of the input, and so
does a parse that matches it. -/
theorem not_absorbs_inner_eof :
    (ofKinds [.eof, 1]).peekKind 1 = .eof ∧ (ofKinds [.eof, 1]).consume.index = 1 ∧
      (ofKinds [.eof, 1]).consume.peekKind 1 = 1 ∧
      (Session.choiceSession [.eof, 1]).network.IsBuilt ∧
      (Session.choiceSession [.eof, 1]).input = ofKinds [.eof, 1] ∧
      ∃ o, (Session.choiceSession [.eof, 1]).matchKind? .repair .eof = some o ∧
        o.session.input.atEof = false := by
  refine ⟨by decide +kernel, by decide +kernel, by decide +kernel,
    Session.isBuilt_choiceSession [.eof, 1], rfl, (Session.choiceSession [.eof, 1]).matchCurrent, ?_,
    by decide +kernel⟩
  exact if_pos (by decide +kernel)

end TokenStream

end ParseRecovery
