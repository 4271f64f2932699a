import ParseRecovery.Proofs.Network.Resumption
import ParseRecovery.Proofs.Session.Delivery
import ParseRecovery.Proofs.Session.Placement

/-!
The kinds that a parse comes by. Building checks the kinds that labels spell out, and for a range only
its two ends; still no label of a built network consumes a kind of the grammar's own beyond the greatest
(`IsBuilt.within_of_kinds?`), so no lookahead set holds one. Main statement: the next, the expected and
the recovery kinds stay within the grammar's own, the last two are without the mark for the end of a rule,
and what a repair makes up is an expected kind of the grammar's own (`lookahead_within_alphabet`).
-/

namespace ParseRecovery

namespace KindSet

/-- The kinds of the grammar's own in the set end at `max`. Reserved kinds may be in it. -/
def Within (s : KindSet) (max : TokenKind) : Prop :=
  ∀ k ∈ s, 1 ≤ k → k ≤ max

/-- Kinds that tokens of the input can have: those of the grammar's own end at `max`, and the mark for the
end of a rule is not among them. -/
structure OfTokens (s : KindSet) (max : TokenKind) : Prop where
  within : s.Within max
  unmarked : .epsilon ∉ s

variable {s t : KindSet} {max : TokenKind}

theorem within_empty (max : TokenKind) : Within ∅ max :=
  fun k hk => absurd hk (SortedSet.not_mem_empty k)

theorem Within.union (hs : s.Within max) (ht : t.Within max) : (s ∪ t).Within max := by
  intro k hk
  rcases SortedSet.mem_union.mp hk with hk | hk
  · exact hs k hk
  · exact ht k hk

theorem Within.ofTokens_erase (h : s.Within max) : OfTokens (s.erase .epsilon) max where
  within k hk := h k (SortedSet.mem_erase.mp hk).1
  unmarked hk := (SortedSet.mem_erase.mp hk).2 rfl

theorem OfTokens.insert_eof (h : s.OfTokens max) : OfTokens (s.insert .eof) max where
  within k hk huser := by
    rcases SortedSet.mem_insert.mp hk with rfl | hk
    · exact absurd huser (by decide)
    · exact h.within k hk huser
  unmarked hk := by
    rcases SortedSet.mem_insert.mp hk with heq | hk
    · exact absurd heq (by decide)
    · exact h.unmarked hk

theorem IsLeastUser.isEof_eq_false {t : Token} (h : IsLeastUser s t.kind) : t.isEof = false := by
  rw [Token.isEof, Bool.eq_false_iff, ne_eq, TokenKind.isEof_iff]
  intro heof
  have huser := h.isUser
  rw [heof] at huser
  exact absurd huser (by decide)

end KindSet

theorem Session.exists_isLeastUser_of_conjured {s : Session} {strategy : Strategy} {op : Operation}
    {o : Outcome Response} (h : s.perform? strategy op = some o) {t : Token}
    (hresult : o.result = .ok (.symbol (.conjured t))) :
    ∃ expected, s.expectedTokens? = some expected ∧ expected.IsLeastUser t.kind := by
  have heffect := effect_of_perform? (isParsing_of_conjured h hresult) h
  obtain ⟨-, expected, kind, hexpected, hkind, rfl⟩ := heffect.exists_of_conjured hresult
  exact ⟨expected, hexpected, isLeastUser_of_conjuredKind? hkind⟩

namespace Network

/-- A label consumes no kind of the grammar's own beyond `max` if it spells none out. The kinds of a range
end at the greater of its ends, and those of an open label at `max`. -/
theorem Label.within_of_kinds? {label : Label} {max : TokenKind}
    (hspelled : ∀ {k}, label.Spells k → 1 ≤ k → k ≤ max) {kinds : KindSet}
    (h : label.kinds? max = some kinds) : kinds.Within max := by
  cases label with
  | token k' =>
    cases h
    intro k hk huser
    rw [List.mem_singleton.mp (SortedSet.mem_ofList.mp hk)] at huser ⊢
    exact hspelled (.token k') huser
  | range lo hi =>
    cases h
    intro k hk huser
    have hle := (KindSet.mem_range.mp hk).2
    exact Int.le_trans hle (hspelled (.hi lo hi) (Int.le_trans huser hle))
  | oneOf set =>
    cases h
    intro k hk huser
    exact hspelled (.oneOf hk) huser
  | noneOf set =>
    cases h
    intro k hk _
    exact (KindSet.mem_complement.mp hk).2.1
  | anyToken =>
    cases h
    intro k hk _
    exact (KindSet.mem_range.mp hk).2
  | epsilon | call | predicate | action => cases h

variable {n : Network}

theorem IsBuilt.within_of_kinds? (hbuilt : n.IsBuilt) {s : StateId} {e : Edge} (he : n.HasEdge s e)
    {kinds : KindSet} (h : e.label.kinds? n.maxKind = some kinds) : kinds.Within n.maxKind := by
  obtain ⟨maxKind, steps, hbuild⟩ := hbuilt
  obtain ⟨rfl, hfits⟩ := Builder.build_eq_ok hbuild
  obtain ⟨st, hst, hmem⟩ := he
  exact Label.within_of_kinds? (hfits.edge hst hmem).kind_le h

section Lookahead

variable (hbuilt : n.IsBuilt)
include hbuilt

theorem within_of_nextTokens? {s : StateId} {next : KindSet} (h : n.nextTokens? s = some next) :
    next.Within n.maxKind := by
  intro k hk huser
  obtain ⟨c, -, ⟨e, kinds, he, hkinds, hmem⟩ | ⟨rfl, -⟩⟩ := emits_of_mem_nextTokens? h hk
  · exact hbuilt.within_of_kinds? he hkinds k hmem huser
  · exact absurd huser (by decide)

theorem ofTokens_of_mergeFollows? {expected next all : KindSet} (hexpected : expected.OfTokens n.maxKind)
    {stack : Stack} (h : n.mergeFollows? expected next stack = some all) : all.OfTokens n.maxKind := by
  induction stack generalizing expected next with
  | nil =>
    unfold mergeFollows? at h
    split at h
    · cases h
      exact hexpected.insert_eof
    · cases h
      exact hexpected
  | cons frame outer ih =>
    unfold mergeFollows? at h
    split at h
    · dsimp only at h
      split at h
      · cases h
        exact hexpected.insert_eof
      · split at h
        · cases h
        · rename_i beyond hbeyond
          have hwithin := hexpected.within.union (within_of_nextTokens? hbuilt hbeyond)
          exact ih hwithin.ofTokens_erase h
    · cases h
      exact hexpected

theorem ofTokens_of_expectedTokens? {s : StateId} {stack : Stack} {expected : KindSet}
    (h : n.expectedTokens? s stack = some expected) : expected.OfTokens n.maxKind := by
  unfold expectedTokens? at h
  split at h
  · cases h
  · rename_i next hnext
    have hwithin := within_of_nextTokens? hbuilt hnext
    exact ofTokens_of_mergeFollows? hbuilt hwithin.ofTokens_erase h

theorem within_of_collect {states : List StateId} {set all : KindSet} (hset : set.Within n.maxKind)
    (h : states.foldlM (fun set s => (n.nextTokens? s).map (set ∪ ·)) set = some all) :
    all.Within n.maxKind := by
  induction states generalizing set with
  | nil =>
    cases h
    exact hset
  | cons s states ih =>
    rw [List.foldlM_cons, Option.bind_eq_bind, Option.bind_eq_some_iff] at h
    obtain ⟨joined, hjoined, hrest⟩ := h
    obtain ⟨next, hnext, rfl⟩ := Option.map_eq_some_iff.mp hjoined
    exact ih (hset.union (within_of_nextTokens? hbuilt hnext)) hrest

theorem ofTokens_of_recoverySet? {stack : Stack} {kinds : KindSet}
    (h : n.recoverySet? stack = some kinds) : kinds.OfTokens n.maxKind := by
  obtain ⟨all, hall, rfl⟩ := Option.map_eq_some_iff.mp h
  exact (within_of_collect hbuilt (KindSet.within_empty _) hall).ofTokens_erase

end Lookahead

/-- Whatever the state and the stack, the kinds that can come next, and those at which a parse can be
resumed, stay within the grammar's own, and the mark for the end of a rule is only among the next kinds of
a state. A token that is made up, in whatever operation, is of an expected kind of the grammar's own. -/
theorem lookahead_within_alphabet (hbuilt : n.IsBuilt) :
    (∀ (s : StateId) (stack : Stack), s < n.states.size →
      (∀ f ∈ follows stack, f < n.states.size) →
      ∃ next expected recovery, n.nextTokens? s = some next ∧
        n.expectedTokens? s stack = some expected ∧ n.recoverySet? stack = some recovery ∧
        KindSet.Within next n.maxKind ∧ KindSet.OfTokens expected n.maxKind ∧
        KindSet.OfTokens recovery n.maxKind) ∧
    ∀ (session : Session) (op : Operation) (o : Outcome Response) (t : Token),
      session.network = n → session.perform? .repair op = some o →
      o.result = .ok (.symbol (.conjured t)) →
      ∃ expected, session.expectedTokens? = some expected ∧ t.kind ∈ expected ∧
        (1 ≤ t.kind ∧ t.kind ≤ n.maxKind) ∧ t.isEof = false := by
  constructor
  · intro s stack hs hstack
    obtain ⟨next, expected, hnext, hexpected, -⟩ := exists_expectedTokens? hbuilt.formed hs hstack
    obtain ⟨recovery, hrecovery, -⟩ := exists_recoverySet? hbuilt.formed hstack
    exact ⟨next, expected, recovery, hnext, hexpected, hrecovery,
      within_of_nextTokens? hbuilt hnext, ofTokens_of_expectedTokens? hbuilt hexpected,
      ofTokens_of_recoverySet? hbuilt hrecovery⟩
  · intro session op o t hnetwork hperform hresult
    subst hnetwork
    obtain ⟨expected, hexpected, hleast⟩ := Session.exists_isLeastUser_of_conjured hperform hresult
    have hle := (ofTokens_of_expectedTokens? hbuilt hexpected).within _ hleast.mem hleast.isUser
    exact ⟨expected, hexpected, hleast.mem, ⟨hleast.isUser, hle⟩, hleast.isEof_eq_false⟩

end Network

/-! ### A label that holds the mark -/

namespace Session

/-- A rule whose one label spans the kinds from the mark for the end of a rule up to the greatest, over
tokens of kinds beyond. -/
def markedSession : Session :=
  { Session.new
      { states := #[⟨0, .ruleStart, 0, [⟨.range .epsilon 2, 1⟩]⟩, ⟨1, .ruleStop, 0, []⟩]
        rules := #[⟨"marked", 0, 1⟩]
        maxKind := 2 }
      {} {} (.ofKinds [3, 3]) with
    stack := [.invoked 0 0 0, .root 0] }

theorem isBuilt_markedSession : markedSession.network.IsBuilt :=
  ⟨2, [.rule "marked", .edge 0 ⟨.range .epsilon 2, 1⟩], rfl⟩

/-- The mark is among the next kinds, by the label. It is not expected, and a token that is missing is
made up of the least kind of the grammar's own. -/
theorem lookahead_within_alphabet_markedSession :
    (markedSession.network.IsBuilt ∧ markedSession.state < markedSession.network.states.size ∧
      ∀ f ∈ Network.follows markedSession.stack, f < markedSession.network.states.size) ∧
    ∃ next expected o t, markedSession.network.nextTokens? markedSession.state = some next ∧
      .epsilon ∈ next ∧ markedSession.expectedTokens? = some expected ∧
      (KindSet.OfTokens expected 2 ∧ .eof ∈ expected) ∧
      markedSession.perform? .repair (.matchKind 2) = some o ∧
      o.result = .ok (.symbol (.conjured t)) ∧ t.kind ∈ expected ∧ 1 ≤ t.kind ∧ t.kind ≤ 2 := by
  have hstate : markedSession.state < markedSession.network.states.size := by decide
  have hfollows : ∀ f ∈ Network.follows markedSession.stack,
      f < markedSession.network.states.size := by decide
  have hconjured : conjuredSpan? (markedSession.perform? .repair (.matchKind 2)) =
      some ⟨0, 0, 1, 1⟩ := by decide +kernel
  have hnext : markedSession.network.nextTokens? markedSession.state =
      some (SortedSet.ofList [.epsilon, .eof, 0, 1, 2]) := by decide +kernel
  have hexpected : markedSession.expectedTokens? = some (SortedSet.ofList [.eof, 0, 1, 2]) := by
    decide +kernel
  obtain ⟨o, t, hperform, hresult, -⟩ := exists_of_conjuredSpan? hconjured
  obtain ⟨hsets, hkinds⟩ := Network.lookahead_within_alphabet isBuilt_markedSession
  obtain ⟨next, expected, recovery, -, hall, -, -, hclean, -⟩ :=
    hsets markedSession.state markedSession.stack hstate hfollows
  obtain ⟨expected', hall', hmem, hwithin, -⟩ := hkinds markedSession _ o t rfl hperform hresult
  cases hexpected.symm.trans hall
  cases hexpected.symm.trans hall'
  exact ⟨⟨isBuilt_markedSession, hstate, hfollows⟩, _, _, o, t, hnext, by decide, hexpected,
    ⟨hclean, by decide⟩, hperform, hresult, hmem, hwithin⟩

end Session

end ParseRecovery
