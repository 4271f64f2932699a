import ParseRecovery.Session.Operation
import ParseRecovery.Proofs.Cursor

/-!
What an operation can do to a session. `Effect` lists it for the operations of a parser in the course
of a parse, one case for each thing that can happen, with what led to it; the operations themselves
need not be unfolded again (`effect_of_perform?`). `Change` lists what becomes of the session, where
nothing else counts. What a parse is given never changes, whatever is done
(`sameGivens_of_perform?`).
-/

namespace ParseRecovery

/-- Operations of a parser in the course of a parse, and questions. The others reach past it: they set
the window, move the cursor, or deliver and take diagnostics by hand. -/
def Operation.isParsing : Operation → Bool
  | .enterRule _ | .exitRule | .setState _ | .reset | .matchKind _ | .matchSet _
  | .checkPredicate .. | .handle _ | .report _ | .recover _ | .repairInline | .sync | .ask _ => true
  | _ => false

/-- The fault of a failure that listeners have not been told of, unless the parse is given up. -/
def Failure.unreported? : Failure → Option Fault
  | .detected f | .unrecoverable f => some f
  | .reported _ | .cancelled _ => none

namespace Session

/-! ## Announcing -/

section Announce

variable (s : Session) (d : Diagnostic)

@[simp] theorem network_announce : (s.announce d).network = s.network := by
  unfold announce
  split <;> rfl

@[simp] theorem vocabulary_announce : (s.announce d).vocabulary = s.vocabulary := by
  unfold announce
  split <;> rfl

@[simp] theorem config_announce : (s.announce d).config = s.config := by
  unfold announce
  split <;> rfl

@[simp] theorem input_announce : (s.announce d).input = s.input := by
  unfold announce
  split <;> rfl

@[simp] theorem stack_announce : (s.announce d).stack = s.stack := by
  unfold announce
  split <;> rfl

@[simp] theorem state_announce : (s.announce d).state = s.state := by
  unfold announce
  split <;> rfl

@[simp] theorem resyncIndex_announce :
    (s.announce d).window.resyncIndex = s.window.resyncIndex := by
  unfold announce
  split <;> rfl

@[simp] theorem resyncStates_announce :
    (s.announce d).window.resyncStates = s.window.resyncStates := by
  unfold announce
  split <;> rfl

@[simp] theorem isOpen_announce : (s.announce d).window.isOpen = true := by
  unfold announce
  split
  · assumption
  · rfl

end Announce

/-- The session, with a diagnostic announced or not. -/
inductive Tells (s : Session) : Session → Prop
  | silent : Tells s s
  | announced (d : Diagnostic) : Tells s (s.announce d)

@[simp] theorem session_report (s : Session) (f : Fault) :
    (s.report f).session = s.announce (s.diagnostic f (s.faultMessage f)) :=
  rfl

theorem session_cancelExpecting (s : Session) (expected : KindSet) :
    (s.cancelExpecting expected).session =
      (s.report (s.faultExpecting expected .inputMismatch s.input.current)).session := by
  unfold cancelExpecting
  dsimp only
  split <;> rfl

theorem result_cancelExpecting (s : Session) (expected : KindSet) :
    ∃ failure, (s.cancelExpecting expected).result = .error failure := by
  unfold cancelExpecting
  dsimp only
  split
  · exact ⟨_, rfl⟩
  · exact ⟨_, rfl⟩

theorem result_report_cases (s : Session) (f : Fault) :
    (s.report f).result = .error (.reported f) ∨ (s.report f).result = .ok () := by
  unfold report
  dsimp only
  split
  · exact .inl rfl
  · exact .inr rfl

/-! ## What led to an effect -/

/-- The operation goes to another rule or state. -/
inductive Places (s : Session) : Operation → Session → Prop
  | enter {rule : RuleIndex} {after : Session} (h : s.enterRule? rule = some after) :
      Places s (.enterRule rule) after
  | exit {after : Session} (h : s.exitRule? = some after) : Places s .exitRule after
  | set (state : StateId) : Places s (.setState state) (s.setState state)

/-- The operation asks for a token of a kind that the current one has. -/
inductive Matches (s : Session) : Operation → Prop
  | kind : Matches s (.matchKind s.input.current.kind)
  | set {kinds : KindSet} (h : s.input.current.kind ∈ kinds) : Matches s (.matchSet kinds)

/-- The operation is left to the inline repair. -/
inductive Mismatches (s : Session) : Operation → Prop
  | kind {k : TokenKind} (h : s.input.current.kind ≠ k) : Mismatches s (.matchKind k)
  | set {kinds : KindSet} (h : s.input.current.kind ∉ kinds) : Mismatches s (.matchSet kinds)
  | direct : Mismatches s .repairInline

/-- The operation resumes after a fault; `told` is the session in which it does. -/
inductive Resumes (s : Session) : Operation → Fault → Session → Prop
  | direct (f : Fault) : Resumes s (.recover f) f s
  | reported {f : Fault} (h : s.config.haltOnError = false) :
      Resumes s (.handle (.reported f)) f s
  | unreported {failure : Failure} {f : Fault} (hf : failure.unreported? = some f)
      (h : (s.report f).result = .ok ()) : Resumes s (.handle failure) f (s.report f).session

/-- What an operation of a parser does under a policy. -/
inductive Effect (s : Session) : Strategy → Operation → Outcome Response → Prop
  | placed {strategy : Strategy} {op : Operation} {after : Session} (h : s.Places op after) :
      Effect s strategy op (became after)
  | restarted {strategy : Strategy} : Effect s strategy .reset (became s.reset)
  | matched {strategy : Strategy} {op : Operation} (h : s.Matches op) :
      Effect s strategy op (s.matchCurrent.respond .symbol)
  | dropped {op : Operation} {expected : KindSet} (hop : s.Mismatches op)
      (hexpected : s.expectedTokens? = some expected) (hhalt : s.config.haltOnError = false)
      (hdrop : s.canDrop expected = true) :
      Effect s .repair op ((s.dropToken expected).respond .symbol)
  | conjured {op : Operation} {expected : KindSet} {kind : TokenKind} (hop : s.Mismatches op)
      (hexpected : s.expectedTokens? = some expected) (hhalt : s.config.haltOnError = false)
      (hdrop : s.canDrop expected = false) (hkind : s.conjuredKind? expected = some kind) :
      Effect s .repair op ((s.conjureToken expected kind).respond .symbol)
  | gaveUp {op : Operation} {expected : KindSet} (hop : s.Mismatches op)
      (hexpected : s.expectedTokens? = some expected)
      (hnone : s.config.haltOnError = true ∨
        s.canDrop expected = false ∧ s.conjuredKind? expected = none) :
      Effect s .repair op ((s.giveUp expected).respond .symbol)
  | cancelled {op : Operation} {expected : KindSet} (hop : s.Mismatches op)
      (hexpected : s.expectedTokens? = some expected) :
      Effect s .bail op ((s.cancelExpecting expected).respond .symbol)
  | held {strategy : Strategy} {predicate : String} {message : Option String} :
      Effect s strategy (.checkPredicate true predicate message) (became s)
  | refused {strategy : Strategy} {predicate : String} {message : Option String} {f : Fault}
      (hf : s.failedPredicate? predicate message = some f) :
      Effect s strategy (.checkPredicate false predicate message)
        ⟨.error (.reported f), (s.report f).session⟩
  | told {strategy : Strategy} (f : Fault) :
      Effect s strategy (.report f) ((s.report f).respond fun _ => .done)
  | raised {strategy : Strategy} {failure : Failure} {f : Fault}
      (hf : failure.unreported? = some f) (h : (s.report f).result = .error (.reported f)) :
      Effect s strategy (.handle failure) ⟨.error (.reported f), (s.report f).session⟩
  | halted {strategy : Strategy} {f : Fault} (h : s.config.haltOnError = true) :
      Effect s strategy (.handle (.reported f)) ⟨.error (.reported f), s⟩
  | forwarded {strategy : Strategy} (f : Fault) :
      Effect s strategy (.handle (.cancelled f)) ⟨.error (.cancelled f), s⟩
  | resumed {op : Operation} {f : Fault} {told after : Session} (hop : s.Resumes op f told)
      (hafter : told.resync? = some after) : Effect s .repair op (became after)
  | abandoned {op : Operation} {f : Fault} {told : Session} (hop : s.Resumes op f told) :
      Effect s .bail op ⟨.error (.cancelled f), told⟩
  | aligned {strategy : Strategy} : Effect s strategy .sync (became s)
  | realigned {expected : KindSet} (hexpected : s.expectedTokens? = some expected) :
      Effect s .repair .sync (became { s with input := s.input.skipUntil expected.contains })
  | answered {strategy : Strategy} {query : Query} {response : Response}
      (h : s.answer? query = some response) : Effect s strategy (.ask query) ⟨.ok response, s⟩

/-! ## Operations have these effects -/

variable {s : Session} {strategy : Strategy} {op : Operation} {o : Outcome Response}

theorem effect_of_repairInline? (hop : s.Mismatches op)
    (h : (s.repairInline? strategy).map (Outcome.respond .symbol) = some o) :
    s.Effect strategy op o := by
  obtain ⟨outcome, hrepair, rfl⟩ := Option.map_eq_some_iff.mp h
  cases strategy with
  | bail =>
    obtain ⟨expected, hexpected, rfl⟩ := Option.map_eq_some_iff.mp hrepair
    exact .cancelled hop hexpected
  | repair =>
    obtain ⟨expected, hexpected, rfl⟩ := Option.map_eq_some_iff.mp hrepair
    unfold repairExpecting
    split
    · rename_i hhalt
      exact .gaveUp hop hexpected (.inl hhalt)
    · rename_i hhalt
      split
      · rename_i hdrop
        exact .dropped hop hexpected (Bool.eq_false_iff.mpr hhalt) hdrop
      · rename_i hdrop
        split
        · rename_i kind hkind
          exact .conjured hop hexpected (Bool.eq_false_iff.mpr hhalt) (Bool.eq_false_iff.mpr hdrop)
            hkind
        · rename_i hkind
          exact .gaveUp hop hexpected (.inr ⟨Bool.eq_false_iff.mpr hdrop, hkind⟩)

theorem effect_of_recover? {f : Fault} {told : Session} (hop : s.Resumes op f told)
    (h : (told.recover? f strategy).map (Outcome.respond fun _ => .done) = some o) :
    s.Effect strategy op o := by
  obtain ⟨outcome, hrecover, rfl⟩ := Option.map_eq_some_iff.mp h
  cases strategy with
  | bail =>
    cases hrecover
    exact .abandoned hop
  | repair =>
    obtain ⟨after, hafter, rfl⟩ := Option.map_eq_some_iff.mp hrecover
    exact .resumed hop hafter

section Unreported

variable {failure : Failure} {f : Fault} (hf : failure.unreported? = some f)
include hf

theorem handle?_of_raised (h : (s.report f).result = .error (.reported f)) :
    s.handle? strategy failure = some ⟨.error (.reported f), (s.report f).session⟩ := by
  cases failure with
  | detected | unrecoverable =>
    cases hf
    simp only [handle?, h]
  | reported | cancelled => cases hf

theorem handle?_of_told (h : (s.report f).result = .ok ()) :
    s.handle? strategy failure = (s.report f).session.recover? f strategy := by
  cases failure with
  | detected | unrecoverable =>
    cases hf
    simp only [handle?, h]
  | reported | cancelled => cases hf

end Unreported

theorem effect_of_handle? {failure : Failure}
    (h : (s.handle? strategy failure).map (Outcome.respond fun _ => .done) = some o) :
    s.Effect strategy (.handle failure) o := by
  -- a failure that is still to be told of goes on to resuming only if the report is not raised
  have hunreported : ∀ {f : Fault}, failure.unreported? = some f →
      s.Effect strategy (.handle failure) o := by
    intro f hf
    rcases s.result_report_cases f with hresult | hresult
    · rw [handle?_of_raised hf hresult] at h
      cases h
      exact .raised hf hresult
    · rw [handle?_of_told hf hresult] at h
      exact effect_of_recover? (.unreported hf hresult) h
  cases failure with
  | detected f => exact hunreported rfl
  | unrecoverable f => exact hunreported rfl
  | reported f =>
    rw [handle?] at h
    split at h
    · rename_i hhalt
      cases h
      exact .halted hhalt
    · rename_i hhalt
      exact effect_of_recover? (.reported (Bool.eq_false_iff.mpr hhalt)) h
  | cancelled f =>
    cases h
    exact .forwarded f

/-- What an operation of a parser does is one of the effects. -/
theorem effect_of_perform? (hop : op.isParsing = true) (h : s.perform? strategy op = some o) :
    s.Effect strategy op o := by
  cases op with
  | enterRule rule =>
    obtain ⟨after, hafter, rfl⟩ := Option.map_eq_some_iff.mp h
    exact .placed (.enter hafter)
  | exitRule =>
    obtain ⟨after, hafter, rfl⟩ := Option.map_eq_some_iff.mp h
    exact .placed (.exit hafter)
  | setState state =>
    cases h
    exact .placed (.set state)
  | reset =>
    cases h
    exact .restarted
  | matchKind k =>
    rw [perform?, matchKind?] at h
    split at h
    · rename_i hkind
      cases h
      rw [← hkind]
      exact .matched .kind
    · rename_i hkind
      exact effect_of_repairInline? (.kind hkind) h
  | matchSet kinds =>
    rw [perform?, matchSet?] at h
    split at h
    · rename_i hkinds
      cases h
      exact .matched (.set (SortedSet.contains_eq_true_iff.mp hkinds))
    · rename_i hkinds
      exact effect_of_repairInline? (.set (by simpa using hkinds)) h
  | checkPredicate holds predicate message =>
    rw [perform?, checkPredicate?] at h
    split at h
    · rename_i hholds
      cases h
      rw [hholds]
      exact .held
    · rename_i hholds
      rw [Bool.eq_false_iff.mpr hholds]
      obtain ⟨outcome, hrefused, rfl⟩ := Option.map_eq_some_iff.mp h
      obtain ⟨f, hf, rfl⟩ := Option.map_eq_some_iff.mp hrefused
      exact .refused hf
  | handle failure => exact effect_of_handle? h
  | report f =>
    cases h
    exact .told f
  | recover f => exact effect_of_recover? (.direct f) h
  | repairInline => exact effect_of_repairInline? .direct h
  | sync =>
    obtain ⟨after, hafter, rfl⟩ := Option.map_eq_some_iff.mp h
    cases strategy with
    | bail =>
      cases hafter
      exact .aligned
    | repair =>
      rw [sync?, realign?] at hafter
      split at hafter
      · cases hafter
      · split at hafter
        · cases hafter
          exact .aligned
        · obtain ⟨expected, hexpected, rfl⟩ := Option.map_eq_some_iff.mp hafter
          exact .realigned hexpected
  | ask query =>
    obtain ⟨response, hresponse, rfl⟩ := Option.map_eq_some_iff.mp h
    exact .answered hresponse
  | openWindow => cases hop
  | closeWindow => cases hop
  | setWindow => cases hop
  | seek => cases hop
  | consume => cases hop
  | mark => cases hop
  | release => cases hop
  | subscribe => cases hop
  | notify => cases hop
  | takeDiagnostics => cases hop

/-! ## Tokens that are made up -/

theorem respond_cancelExpecting_ne_ok (s : Session) (expected : KindSet) (response : Response) :
    ((s.cancelExpecting expected).respond .symbol).result ≠ .ok response := by
  intro h
  obtain ⟨failure, hfailure⟩ := s.result_cancelExpecting expected
  rw [Outcome.respond, hfailure] at h
  cases h

theorem respond_report_ne_symbol (s : Session) (f : Fault) (symbol : MatchedSymbol) :
    ((s.report f).respond fun _ => .done).result ≠ .ok (.symbol symbol) := by
  intro h
  -- a report answers by raising its fault, or with nothing
  rcases s.result_report_cases f with hreport | hreport
  · rw [Outcome.respond, hreport] at h
    cases h
  · rw [Outcome.respond, hreport] at h
    cases h

theorem answer?_ne_symbol {query : Query} {symbol : MatchedSymbol} :
    s.answer? query ≠ some (.symbol symbol) := by
  cases query <;> simp [answer?]

/-- Only the repairing policy makes a token up, of the kind and at the place that it has decided on. -/
theorem Effect.exists_of_conjured (h : s.Effect strategy op o) {t : Token}
    (hresult : o.result = .ok (.symbol (.conjured t))) :
    strategy = .repair ∧ ∃ expected kind, s.expectedTokens? = some expected ∧
      s.conjuredKind? expected = some kind ∧
        t = .missing kind (s.vocabulary.displayName kind) s.conjuredPlace := by
  cases h with
  | placed | restarted | matched | dropped | gaveUp | held | refused | raised | halted | forwarded
  | resumed | abandoned | aligned | realigned => cases hresult
  | conjured _ hexpected _ _ hkind =>
    cases hresult
    exact ⟨rfl, _, _, hexpected, hkind, rfl⟩
  | @cancelled op expected => exact absurd hresult (s.respond_cancelExpecting_ne_ok expected _)
  | told f => exact absurd hresult (s.respond_report_ne_symbol f _)
  | answered h =>
    cases hresult
    exact absurd h answer?_ne_symbol

/-- What is done by hand, past a parser, makes no token up. -/
theorem isParsing_of_conjured (h : s.perform? strategy op = some o) {t : Token}
    (hresult : o.result = .ok (.symbol (.conjured t))) : op.isParsing = true := by
  cases op with
  | openWindow | closeWindow | setWindow | seek | consume | mark | release | subscribe | notify
  | takeDiagnostics =>
    cases h
    cases hresult
  | enterRule | exitRule | setState | reset | matchKind | matchSet | checkPredicate | handle | report
  | recover | repairInline | sync | ask => rfl

/-! ## What becomes of a session -/

theorem eq_of_enterRule? {rule : RuleIndex} {after : Session} (h : s.enterRule? rule = some after) :
    ∃ start, s.network.ruleStart? rule = some start ∧
      after = { s with stack := s.frameOf rule :: s.stack, state := start } := by
  rw [enterRule?] at h
  split at h
  · cases h
  · rename_i start hstart
    exact ⟨start, hstart, (Option.some.inj h).symm⟩

theorem eq_of_exitRule? {after : Session} (h : s.exitRule? = some after) :
    s.stack = [] ∧ after = s ∨
      ∃ frame outer home, s.stack = frame :: outer ∧
        frame.follow.or (s.network.ruleStop? frame.rule) = some home ∧
          after = { s with stack := outer, state := home } := by
  rw [exitRule?] at h
  split at h
  · rename_i hstack
    exact .inl ⟨hstack, (Option.some.inj h).symm⟩
  · rename_i frame outer hstack
    split at h
    · cases h
    · rename_i home hhome
      exact .inr ⟨frame, outer, home, hstack, hhome, (Option.some.inj h).symm⟩

theorem Places.eq {after : Session} (h : s.Places op after) :
    after = { s with stack := after.stack, state := after.state } := by
  cases h with
  | enter h =>
    obtain ⟨start, -, rfl⟩ := eq_of_enterRule? h
    rfl
  | exit h =>
    rcases eq_of_exitRule? h with ⟨-, rfl⟩ | ⟨frame, outer, home, -, -, rfl⟩
    · rfl
    · rfl
  | set => rfl

theorem Resumes.tells {f : Fault} {told : Session} (h : s.Resumes op f told) : s.Tells told := by
  cases h with
  | direct => exact .silent
  | reported => exact .silent
  | unreported => exact .announced _

/-- What an operation of a parser makes of a session, whatever it answers. -/
inductive Change (s : Session) : Operation → Session → Prop
  | placed {op : Operation} {after : Session} (h : s.Places op after) : Change s op after
  | restarted : Change s .reset s.reset
  | matched {op : Operation} : Change s op s.matchCurrent.session
  | dropped {op : Operation} {expected : KindSet} (hdrop : s.canDrop expected = true) :
      Change s op (s.dropToken expected).session
  | told {op : Operation} {after : Session} (h : s.Tells after) : Change s op after
  | resumed {op : Operation} {told : Session} (h : s.Tells told) (kinds : KindSet) :
      Change s op (told.resyncTo kinds)
  | realigned {op : Operation} (stop : TokenKind → Bool) :
      Change s op { s with input := s.input.skipUntil stop }

theorem Effect.change (h : s.Effect strategy op o) : s.Change op o.session := by
  cases h with
  | placed h => exact .placed h
  | restarted => exact .restarted
  | matched => exact .matched
  | dropped _ _ _ hdrop => exact .dropped hdrop
  | conjured => exact .told (.announced _)
  | gaveUp => exact .told .silent
  | @cancelled op expected =>
    show s.Change op (s.cancelExpecting expected).session
    rw [session_cancelExpecting]
    exact .told (.announced _)
  | held => exact .told .silent
  | refused => exact .told (.announced _)
  | told => exact .told (.announced _)
  | raised => exact .told (.announced _)
  | halted => exact .told .silent
  | forwarded => exact .told .silent
  | resumed hop hafter =>
    obtain ⟨kinds, -, rfl⟩ := Option.map_eq_some_iff.mp hafter
    exact .resumed hop.tells kinds
  | abandoned hop => exact .told hop.tells
  | aligned => exact .told .silent
  | realigned => exact .realigned _
  | answered => exact .told .silent

/-! ## What a parse is given -/

/-- What a parse is given is the same in both sessions. -/
structure SameGivens (s t : Session) : Prop where
  network_eq : t.network = s.network
  vocabulary_eq : t.vocabulary = s.vocabulary
  config_eq : t.config = s.config
  tokens_eq : t.input.tokens = s.input.tokens

theorem SameGivens.refl (s : Session) : s.SameGivens s :=
  ⟨rfl, rfl, rfl, rfl⟩

theorem SameGivens.trans {s t u : Session} (hst : s.SameGivens t) (htu : t.SameGivens u) :
    s.SameGivens u where
  network_eq := htu.network_eq.trans hst.network_eq
  vocabulary_eq := htu.vocabulary_eq.trans hst.vocabulary_eq
  config_eq := htu.config_eq.trans hst.config_eq
  tokens_eq := htu.tokens_eq.trans hst.tokens_eq

theorem Tells.sameGivens {told : Session} (h : s.Tells told) : s.SameGivens told := by
  cases h with
  | silent => exact .refl s
  | announced d => constructor <;> simp

theorem sameGivens_resyncTo (s : Session) (kinds : KindSet) : s.SameGivens (s.resyncTo kinds) := by
  refine ⟨rfl, rfl, rfl, ?_⟩
  rw [resyncTo]
  split <;> simp

/-- No step of a parse changes what it is given. -/
theorem Change.sameGivens {after : Session} (h : s.Change op after) : s.SameGivens after := by
  cases h with
  | placed h =>
    rw [h.eq]
    exact ⟨rfl, rfl, rfl, rfl⟩
  | restarted => exact ⟨rfl, rfl, rfl, rfl⟩
  | matched => exact ⟨rfl, rfl, rfl, s.input.tokens_consume⟩
  | dropped =>
    apply (Tells.announced _).sameGivens.trans
    refine ⟨rfl, rfl, rfl, ?_⟩
    exact (TokenStream.tokens_consume _).trans (TokenStream.tokens_consume _)
  | told h => exact h.sameGivens
  | resumed h kinds => exact h.sameGivens.trans (sameGivens_resyncTo _ kinds)
  | realigned => exact ⟨rfl, rfl, rfl, rfl⟩

/-- What is done by hand, past a parser, leaves the state and the stack alone. -/
theorem eq_of_not_isParsing (hop : op.isParsing = false) (h : s.perform? strategy op = some o) :
    s.SameGivens o.session ∧ o.session.state = s.state ∧ o.session.stack = s.stack := by
  cases op with
  | consume =>
    cases h
    exact ⟨⟨rfl, rfl, rfl, s.input.tokens_consume⟩, rfl, rfl⟩
  | openWindow | closeWindow | setWindow | seek | mark | release | subscribe | notify
  | takeDiagnostics =>
    cases h
    exact ⟨⟨rfl, rfl, rfl, rfl⟩, rfl, rfl⟩
  | enterRule | exitRule | setState | reset | matchKind | matchSet | checkPredicate | handle | report
  | recover | repairInline | sync | ask => cases hop

theorem sameGivens_of_perform? (h : s.perform? strategy op = some o) : s.SameGivens o.session := by
  cases hop : op.isParsing with
  | true => exact (effect_of_perform? hop h).change.sameGivens
  | false => exact (eq_of_not_isParsing hop h).1

end Session

end ParseRecovery
