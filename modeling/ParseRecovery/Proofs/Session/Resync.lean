import ParseRecovery.Proofs.Network.Resumption
import ParseRecovery.Proofs.Session.Stacks

/-!
Where a parse resumes after a rule has failed. A token is acceptable to a caller if it is expected
once some of the rules being executed have been left (`Session.AcceptsAfterExits`). The recovery set
knows nothing of ends that can or cannot be reached, yet apart from the end of the input it holds
exactly the acceptable kinds (`acceptsAfterExits_iff`): whatever a caller expects behind its own next
kinds is a next kind of a caller further out. Main statement: resuming skips to the first token that
is acceptable or ends the input, and changes nothing else (`recover?_stops_at_first`).
-/

namespace ParseRecovery

namespace Session

/-- Leave the innermost rules one after another. -/
def exits? (s : Session) : Nat → Option Session
  | 0 => some s
  | m + 1 => s.exitRule?.bind fun after => after.exits? m

/-- The kind is expected once some of the rules being executed, at least one, have been left. -/
def AcceptsAfterExits (s : Session) (k : TokenKind) : Prop :=
  ∃ m, 1 ≤ m ∧ m ≤ s.stack.length ∧
    ∃ t expected, s.exits? m = some t ∧ t.expectedTokens? = some expected ∧ k ∈ expected

variable {s : Session}

theorem exits?_succ {after : Session} (h : s.exitRule? = some after) (m : Nat) :
    s.exits? (m + 1) = after.exits? m := by
  rw [exits?, h]
  rfl

theorem not_acceptsAfterExits_of_nil (h : s.stack = []) (k : TokenKind) :
    ¬ s.AcceptsAfterExits k := by
  rintro ⟨m, hpos, hle, -⟩
  rw [h, List.length_nil] at hle
  omega

theorem acceptsAfterExits_cons_iff {after : Session} (h : s.exitRule? = some after)
    (hlength : s.stack.length = after.stack.length + 1) {k : TokenKind} :
    s.AcceptsAfterExits k ↔
      (∃ expected, after.expectedTokens? = some expected ∧ k ∈ expected) ∨
        after.AcceptsAfterExits k := by
  constructor
  · rintro ⟨m, hpos, hle, t, expected, ht, hexpected, hk⟩
    obtain ⟨d, rfl⟩ := Nat.exists_eq_add_of_le' hpos
    rw [exits?_succ h] at ht
    -- the first exit leads to the caller, any others lead on from there
    cases d with
    | zero =>
      cases ht
      exact .inl ⟨expected, hexpected, hk⟩
    | succ d => exact .inr ⟨d + 1, by omega, by omega, t, expected, ht, hexpected, hk⟩
  · rintro (⟨expected, hexpected, hk⟩ | ⟨m, hpos, hle, t, expected, ht, hexpected, hk⟩)
    · exact ⟨1, by omega, by omega, after, expected, exits?_succ h 0, hexpected, hk⟩
    · exact ⟨m + 1, by omega, by omega, t, expected, (exits?_succ h m).trans ht, hexpected, hk⟩

/-- Rules of an entered stack can be left as far as there are any, and what is expected then is
known. -/
theorem Entered.exists_exits? (hn : s.network.Formed) (hs : Entered s.network s.stack) {m : Nat}
    (hpos : 1 ≤ m) (hle : m ≤ s.stack.length) :
    ∃ t expected, s.exits? m = some t ∧ t.expectedTokens? = some expected := by
  generalize hstack : s.stack = stack at hs
  induction stack generalizing s m with
  | nil =>
    rw [hstack, List.length_nil] at hle
    omega
  | cons frame outer ih =>
    have hentered := hs
    rw [← hstack] at hentered
    obtain ⟨home, hexit, hhome, -⟩ := hentered.exists_exitRule? hn hstack
    have houter := (hs.of_cons hn).1
    rw [hstack, List.length_cons] at hle
    obtain ⟨d, rfl⟩ := Nat.exists_eq_add_of_le' hpos
    rw [exits?_succ hexit]
    cases d with
    | zero =>
      obtain ⟨next, all, -, hall, -⟩ :=
        Network.exists_expectedTokens? hn hhome (houter.follows_lt hn)
      exact ⟨_, all, rfl, hall⟩
    | succ d =>
      exact ih (s := { s with stack := outer, state := home }) hn (by omega)
        (Nat.le_of_succ_le_succ hle) rfl houter

/-- Apart from the end of the input, acceptable is what can follow in the stack. -/
theorem acceptsAfterExits_iff (hn : s.network.Formed) (hs : Entered s.network s.stack)
    {k : TokenKind} (hk : k ≠ .eof) : s.AcceptsAfterExits k ↔ s.network.CanFollow s.stack k := by
  generalize hstack : s.stack = stack at hs
  induction stack generalizing s with
  | nil =>
    apply iff_of_false (not_acceptsAfterExits_of_nil hstack k)
    rintro ⟨-, f, hf, -⟩
    cases hf
  | cons frame outer ih =>
    have hentered := hs
    rw [← hstack] at hentered
    obtain ⟨home, hexit, hhome, hreturn⟩ := hentered.exists_exitRule? hn hstack
    have houter := (hs.of_cons hn).1
    have hbehind : AcceptsAfterExits { s with stack := outer, state := home } k ↔
        s.network.CanFollow outer k :=
      ih (s := { s with stack := outer, state := home }) hn rfl houter
    rw [acceptsAfterExits_cons_iff hexit (by rw [hstack]; rfl), hbehind]
    exact Network.expected_or_canFollow_iff hn hhome hreturn (houter.follows_lt hn) hk

/-! ## Resuming -/

/-- Where resuming starts to look: one token further if it ended up here before, in this window and
from this state. -/
def resyncStart (s : Session) : Nat :=
  if s.window.resyncIndex = some s.input.index ∧ s.state ∈ s.window.resyncStates then
    min (s.input.index + 1) (s.input.size - 1)
  else s.input.index

theorem isStalled_iff : s.isStalled = true ↔
    s.window.resyncIndex = some s.input.index ∧ s.state ∈ s.window.resyncStates := by
  simp [isStalled]

theorem index_resyncInput (s : Session) :
    (if s.isStalled then s.input.consume else s.input).index = s.resyncStart := by
  rw [resyncStart]
  by_cases hstalled : s.isStalled = true
  · rw [if_pos hstalled, if_pos (isStalled_iff.mp hstalled), TokenStream.index_consume]
  · rw [if_neg hstalled, if_neg (mt isStalled_iff.mpr hstalled)]

theorem resyncTo_eq (s : Session) (kinds : KindSet) :
    s.resyncTo kinds =
      { s with
        input := s.input.seek (s.resyncTo kinds).input.index
        window :=
          { s.window with
            resyncIndex := some s.resyncStart
            resyncStates := s.window.resyncStates.insert s.state } } := by
  have hmarkers : (s.resyncTo kinds).input.markers = s.input.markers := by
    show (if s.isStalled then s.input.consume else s.input).markers = _
    split
    · exact s.input.markers_consume
    · rfl
  rw [← s.input.eq_seek (sameGivens_resyncTo s kinds).tokens_eq hmarkers, ← index_resyncInput]
  rfl

theorem leastFrom_resyncTo (s : Session) (kinds : KindSet) :
    s.input.LeastFrom s.resyncStart (fun t => t.isEof = true ∨ t.kind ∈ kinds)
      (s.resyncTo kinds).input.index := by
  have hleast := TokenStream.leastFrom_skipUntil
    (if s.isStalled then s.input.consume else s.input) kinds.contains
  rw [index_resyncInput] at hleast
  have hget : ∀ i, (if s.isStalled then s.input.consume else s.input).get? i = s.input.get? i := by
    intro i
    split
    · exact s.input.get?_consume i
    · rfl
  simp only [TokenStream.LeastFrom, hget, SortedSet.contains_eq_true_iff] at hleast
  exact hleast

theorem Entered.exists_resync? (hn : s.network.Formed) (hs : Entered s.network s.stack) :
    ∃ kinds, s.resync? = some (s.resyncTo kinds) ∧
      ∀ k, k ∈ kinds ↔ s.network.CanFollow s.stack k := by
  obtain ⟨kinds, hkinds, hspec⟩ := Network.exists_recoverySet? hn (hs.follows_lt hn)
  exact ⟨kinds, by rw [resync?, recoverySet?, hkinds]; rfl, hspec⟩

theorem perform?_of_resumes {op : Operation} {f : Fault} {told : Session}
    (h : s.Resumes op f told) : s.perform? .repair op = told.resync?.map became := by
  have hrecover : (told.recover? f .repair).map (Outcome.respond fun _ => .done) =
      told.resync?.map became := by
    rw [recover?, Option.map_map]
    rfl
  cases h with
  | direct => exact hrecover
  | reported hhalt =>
    rw [perform?, handle?, hhalt]
    exact hrecover
  | unreported hf hresult =>
    rw [perform?, handle?_of_told hf hresult]
    exact hrecover

theorem Entered.exists_perform? (hn : s.network.Formed) (hs : Entered s.network s.stack)
    {op : Operation} {f : Fault} {told : Session} (h : s.Resumes op f told) :
    ∃ kinds, s.perform? .repair op = some (became (told.resyncTo kinds)) := by
  obtain ⟨kinds, hresync, -⟩ := (h.tells.entered hs).exists_resync? (h.tells.formed hn)
  exact ⟨kinds, by rw [perform?_of_resumes h, hresync]; rfl⟩

/-- After any fault the repairing policy resumes, at the first token that is acceptable once some
rules have been left, or ends the input. It moves the cursor and notes where and from which state it
started, no more. -/
theorem recover?_stops_at_first (hbuilt : s.network.IsBuilt) (hs : Entered s.network s.stack)
    (f : Fault) :
    (∀ m, 1 ≤ m → m ≤ s.stack.length →
      ∃ t expected, s.exits? m = some t ∧ t.expectedTokens? = some expected) ∧
    ∃ after, s.recover? f .repair = some ⟨.ok (), after⟩ ∧
      s.input.LeastFrom s.resyncStart (fun t => t.isEof = true ∨ s.AcceptsAfterExits t.kind)
        after.input.index ∧
      after =
        { s with
          input := s.input.seek after.input.index
          window :=
            { s.window with
              resyncIndex := some s.resyncStart
              resyncStates := s.window.resyncStates.insert s.state } } := by
  have hn := hbuilt.formed
  refine ⟨fun m hpos hle => hs.exists_exits? hn hpos hle, ?_⟩
  obtain ⟨kinds, hresync, hkinds⟩ := hs.exists_resync? hn
  refine ⟨s.resyncTo kinds, by rw [recover?, hresync]; rfl, ?_, s.resyncTo_eq kinds⟩
  apply (s.leastFrom_resyncTo kinds).congr
  intro t
  apply or_congr_right'
  intro heof
  have hkind : t.kind ≠ .eof := fun h => heof (TokenKind.isEof_iff.mpr h)
  rw [hkinds, acceptsAfterExits_iff hn hs hkind]

/-! ### Resuming in a list of sums -/

/-- Behind the name of a sum of `sumNetwork`, over `NAME NAME SEMI`: what the file expects behind the
sum is two tokens away. -/
def sumSession : Session :=
  { Session.new Network.sumNetwork {} {} (.ofKinds [1, 1, 3]) with
    stack := [.invoked 1 0 6, .root 0]
    state := 3 }

theorem entered_sumSession : Entered sumSession.network sumSession.stack := by
  let fresh := Session.new Network.sumNetwork {} {} (.ofKinds [1, 1, 3])
  have hfile : Entered Network.sumNetwork [.root 0] := @Entered.enter _ fresh _ 0 .nil rfl rfl
  have hsum : Entered Network.sumNetwork [.invoked 1 0 6, .root 0] :=
    @Entered.enter _ { fresh with stack := [.root 0] } _ 1 hfile rfl rfl
  exact hsum

theorem recover?_stops_at_first_sumSession :
    sumSession.network.IsBuilt ∧ Entered sumSession.network sumSession.stack ∧
      ∃ after, sumSession.recover?
          (sumSession.faultExpecting ∅ .inputMismatch sumSession.input.current) .repair =
            some ⟨.ok (), after⟩ ∧
        after.input.index = 2 ∧
        sumSession.input.LeastFrom 0
          (fun t => t.isEof = true ∨ sumSession.AcceptsAfterExits t.kind) after.input.index := by
  obtain ⟨-, after, hrecover, hleast, -⟩ :=
    recover?_stops_at_first Network.isBuilt_sumNetwork entered_sumSession
      (sumSession.faultExpecting ∅ .inputMismatch sumSession.input.current)
  refine ⟨Network.isBuilt_sumNetwork, entered_sumSession, after, hrecover, ?_, hleast⟩
  have hindex : (sumSession.resync?.map fun after => after.input.index) = some 2 := by
    decide +kernel
  obtain ⟨resumed, hresumed, hat⟩ := Option.map_eq_some_iff.mp hindex
  rw [recover?, hresumed] at hrecover
  cases hrecover
  exact hat

end Session

end ParseRecovery
