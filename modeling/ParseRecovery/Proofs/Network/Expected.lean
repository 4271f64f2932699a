import ParseRecovery.Proofs.Network.Cuts

/-!
What a parser can expect in context. The stack of rules being executed says where to return to, up
to the first frame that does not know (`returnsOf`); from there on the end of the input is expected.

On any formed network the expected kinds are defined, and beyond the next kinds of the state they
hold next kinds of follow states on the stack and the end of the input (`exists_mergeFollows?`). Main
statements: where edges stay inside their rule, labels never hold the mark for the end of a rule and
no rule is both nullable and left-recursive, the next kinds of a state are exactly those that can be
consumed after silent moves, with the mark where the end of a rule can be reached (`nextTokens?_exact`),
and the expected kinds are exactly those that can be consumed in context, with the end of the input
where the end of the outermost rule can be reached (`expectedTokens?_exact`).
-/

namespace ParseRecovery

namespace Network

variable {n : Network}

/-- The states to return to, innermost first, up to the first frame that has none. -/
def returnsOf : Stack → List StateId
  | [] => []
  | frame :: outer =>
      match frame.follow with
      | none => []
      | some follow => follow :: returnsOf outer

/-- A stack ends where nothing is known to return to, or has a frame with a follow state on top. -/
theorem stackInduction {motive : Stack → Prop}
    (bottom : ∀ stack, returnsOf stack = [] → motive stack)
    (invoked : ∀ frame outer follow, frame.follow = some follow → motive outer →
      motive (frame :: outer)) (stack : Stack) : motive stack := by
  induction stack with
  | nil => exact bottom [] rfl
  | cons frame outer ih =>
    cases hfollow : frame.follow with
    | none => exact bottom _ (by simp [returnsOf, hfollow])
    | some follow => exact invoked frame outer follow hfollow ih

@[simp] theorem mem_follows {stack : Stack} {s : StateId} :
    s ∈ follows stack ↔ ∃ frame ∈ stack, frame.follow = some s := by
  simp [follows]

theorem follows_cons {frame : Frame} {follow : StateId} (h : frame.follow = some follow)
    (outer : Stack) : follows (frame :: outer) = follow :: follows outer := by
  simp [follows, h]

/-- A kind is a next kind of a follow state of the stack. -/
def CanFollow (n : Network) (stack : Stack) (k : TokenKind) : Prop :=
  k ≠ .epsilon ∧ ∃ f ∈ follows stack, ∃ beyond, n.nextTokens? f = some beyond ∧ k ∈ beyond

theorem canFollow_cons_iff {frame : Frame} {outer : Stack} {k : TokenKind} :
    n.CanFollow (frame :: outer) k ↔
      (k ≠ .epsilon ∧ ∃ f, frame.follow = some f ∧ ∃ beyond, n.nextTokens? f = some beyond ∧
        k ∈ beyond) ∨ n.CanFollow outer k := by
  simp only [CanFollow, mem_follows, List.mem_cons, or_and_right, exists_or, exists_eq_left,
    and_or_left]

/-! ## Merging follow states -/

section Merge

variable {expected next : KindSet}

theorem mergeFollows?_of_not_mem (h : .epsilon ∉ next) (stack : Stack) :
    n.mergeFollows? expected next stack = some expected := by
  unfold mergeFollows?
  rw [if_neg (by simpa using h)]

theorem mergeFollows?_bottom (h : .epsilon ∈ next) {stack : Stack} (hstack : returnsOf stack = []) :
    n.mergeFollows? expected next stack = some (expected.insert .eof) := by
  unfold mergeFollows?
  rw [if_pos (by simpa using h)]
  cases stack with
  | nil => rfl
  | cons frame outer =>
    cases hfollow : frame.follow with
    | none => simp only [hfollow]
    | some follow => simp [returnsOf, hfollow] at hstack

theorem mergeFollows?_cons (h : .epsilon ∈ next) {frame : Frame} {follow : StateId}
    (hfollow : frame.follow = some follow) {beyond : KindSet}
    (hbeyond : n.nextTokens? follow = some beyond) (outer : Stack) :
    n.mergeFollows? expected next (frame :: outer) =
      n.mergeFollows? ((expected ∪ beyond).erase .epsilon) beyond outer := by
  rw [mergeFollows?, if_pos (by simpa using h)]
  simp only [hfollow, hbeyond]

theorem exists_mergeFollows? (hn : n.Formed) {stack : Stack}
    (hstack : ∀ f ∈ follows stack, f < n.states.size) (hclean : .epsilon ∉ expected) :
    ∃ all, n.mergeFollows? expected next stack = some all ∧ ∀ k,
      (k ∈ expected → k ∈ all) ∧
      (k ∈ all → k ∈ expected ∨ k = .eof ∨ n.CanFollow stack k) := by
  induction stack using stackInduction generalizing expected next with
  | bottom stack hbottom =>
    by_cases hend : .epsilon ∈ next
    · refine ⟨_, mergeFollows?_bottom hend hbottom, fun k => ⟨fun hk => ?_, fun hk => ?_⟩⟩
      · exact SortedSet.mem_insert.mpr (.inr hk)
      · rcases SortedSet.mem_insert.mp hk with rfl | hk
        · exact .inr (.inl rfl)
        · exact .inl hk
    · exact ⟨expected, mergeFollows?_of_not_mem hend stack, fun k => ⟨id, .inl⟩⟩
  | invoked frame outer follow hfollow ih =>
    by_cases hend : .epsilon ∈ next
    · rw [follows_cons hfollow] at hstack
      obtain ⟨hin, houter⟩ := List.forall_mem_cons.mp hstack
      obtain ⟨beyond, hbeyond⟩ := hn.exists_nextTokens? hin
      -- merging goes on with the follow state in place of the state, and a set without the mark
      have hclean' : .epsilon ∉ (expected ∪ beyond).erase .epsilon := by simp
      obtain ⟨all, hall, hspec⟩ := ih houter hclean'
      refine ⟨all, (mergeFollows?_cons hend hfollow hbeyond outer).trans hall, fun k => ?_⟩
      obtain ⟨hkeep, honly⟩ := hspec k
      rw [SortedSet.mem_erase, SortedSet.mem_union] at hkeep honly
      refine ⟨fun hk => hkeep ⟨.inl hk, fun heq => hclean (heq ▸ hk)⟩, fun hk => ?_⟩
      rw [canFollow_cons_iff]
      rcases honly hk with ⟨hk | hk, hne⟩ | rfl | hbehind
      · exact .inl hk
      · exact .inr (.inr (.inl ⟨hne, follow, hfollow, beyond, hbeyond, hk⟩))
      · exact .inr (.inl rfl)
      · exact .inr (.inr (.inr hbehind))
    · exact ⟨expected, mergeFollows?_of_not_mem hend _, fun k => ⟨id, .inl⟩⟩

end Merge

/-! ## Expectations in context -/

/-- A kind can come next in a configuration: silent moves lead to an edge that consumes it, or, for
the end of the input, to the end of the outermost rule. -/
def Expects (n : Network) (c : Configuration) (k : TokenKind) : Prop :=
  (∃ c', n.Reaches c c' ∧ n.Offers c' k) ∨ k = .eof ∧ ∃ c', n.Reaches c c' ∧ n.AtEnd c'

/-- No label holds the mark for the end of a rule. -/
def NoEpsilonLabels (n : Network) : Prop :=
  ∀ {s : StateId} {e : Edge} {kinds : KindSet}, n.HasEdge s e →
    e.label.kinds? n.maxKind = some kinds → .epsilon ∉ kinds

/-- A kind can be consumed without a return below the state. -/
def CanConsume (n : Network) (s : StateId) (k : TokenKind) : Prop :=
  ∃ c, n.Reaches (s, []) c ∧ n.Offers c k

/-- The end of the state's level can be reached silently. -/
def CanEnd (n : Network) (s : StateId) : Prop :=
  ∃ u, n.Skips s u ∧ n.IsStop u

theorem CanConsume.expects {s : StateId} {k : TokenKind} (h : n.CanConsume s k)
    (returns : List StateId) : n.Expects (s, returns) k := by
  obtain ⟨⟨t, due⟩, hreach, hoffers⟩ := h
  exact .inl ⟨_, (reaches_nil_iff.mp hreach).reaches returns, hoffers.of_state _⟩

theorem expects_nil_iff {s : StateId} {k : TokenKind} :
    n.Expects (s, []) k ↔ n.CanConsume s k ∨ k = .eof ∧ n.CanEnd s := by
  rw [Expects, reaches_atEnd_iff]
  rfl

theorem expects_cons_iff {s follow : StateId} {rest : List StateId} {k : TokenKind} :
    n.Expects (s, follow :: rest) k ↔
      n.CanConsume s k ∨ n.CanEnd s ∧ n.Expects (follow, rest) k := by
  constructor
  · rintro (⟨c, hreach, hoffers⟩ | ⟨rfl, c, hreach, hend⟩)
    -- either the return is still due, or the end of the level was reached and it was taken
    · rcases reaches_cons_iff.mp hreach with ⟨t, due, rfl, hdown⟩ | ⟨hlevel, hbehind⟩
      · exact .inl ⟨(t, due), reaches_nil_iff.mpr hdown, hoffers.of_state due⟩
      · exact .inr ⟨hlevel, .inl ⟨c, hbehind, hoffers⟩⟩
    · rcases reaches_cons_iff.mp hreach with ⟨t, due, rfl, -⟩ | ⟨hlevel, hbehind⟩
      · exact absurd hend not_atEnd_append_cons
      · exact .inr ⟨hlevel, .inr ⟨rfl, c, hbehind, hend⟩⟩
  · rintro (hahead | ⟨hlevel, ⟨c, hreach, hoffers⟩ | ⟨rfl, c, hreach, hend⟩⟩)
    · exact hahead.expects _
    · exact .inl ⟨c, reaches_cons_iff.mpr (.inr ⟨hlevel, hreach⟩), hoffers⟩
    · exact .inr ⟨rfl, c, reaches_cons_iff.mpr (.inr ⟨hlevel, hreach⟩), hend⟩

/-- The set tells what comes next at a state: which kinds can be consumed, and by the mark whether
the end of the level can be reached. -/
structure TellsNext (n : Network) (s : StateId) (next : KindSet) : Prop where
  mark : .epsilon ∈ next ↔ n.CanEnd s
  kinds : ∀ k, k ∈ next.erase .epsilon ↔ n.CanConsume s k

section Sound

variable {s : StateId} {next : KindSet} (h : n.nextTokens? s = some next)
include h

theorem canConsume_of_mem_nextTokens? {k : TokenKind} (hk : k ∈ next) (hne : k ≠ .epsilon) :
    n.CanConsume s k := by
  obtain ⟨c, hreach, hoffers | ⟨rfl, -⟩⟩ := emits_of_mem_nextTokens? h hk
  · exact ⟨c, hreach, hoffers⟩
  · exact absurd rfl hne

-- the mark is in no label, so it is there for the end of the level only
theorem exists_atEnd_of_mem_nextTokens? (hlabels : n.NoEpsilonLabels) (hk : .epsilon ∈ next) :
    ∃ c, n.Reaches (s, []) c ∧ n.AtEnd c := by
  obtain ⟨c, hreach, ⟨e, kinds, he, hkinds, hmem⟩ | ⟨-, hend⟩⟩ := emits_of_mem_nextTokens? h hk
  · exact absurd hmem (hlabels he hkinds)
  · exact ⟨c, hreach, hend⟩

end Sound

section Exact

variable (hn : n.Formed) (hscoped : n.Scoped) (hlabels : n.NoEpsilonLabels)
  (hfree : n.NoNullableRecursion)
include hn hscoped hlabels hfree

theorem tellsNext_nextTokens? {s : StateId} {next : KindSet} (h : n.nextTokens? s = some next) :
    n.TellsNext s next := by
  have hiff : ∀ k, k ∈ next ↔ ∃ c, n.Reaches (s, []) c ∧ n.Emits c k := fun k =>
    mem_nextTokens?_iff hn hscoped hfree h
  constructor
  · rw [CanEnd, ← reaches_atEnd_iff]
    refine ⟨exists_atEnd_of_mem_nextTokens? h hlabels, ?_⟩
    rintro ⟨c, hreach, hend⟩
    exact (hiff .epsilon).mpr ⟨c, hreach, .inr ⟨rfl, hend⟩⟩
  · intro k
    rw [SortedSet.mem_erase]
    constructor
    · rintro ⟨hk, hne⟩
      exact canConsume_of_mem_nextTokens? h hk hne
    · rintro ⟨c, hreach, hoffers⟩
      refine ⟨(hiff k).mpr ⟨c, hreach, .inl hoffers⟩, ?_⟩
      rintro rfl
      obtain ⟨e, kinds, he, hkinds, hmem⟩ := hoffers
      exact hlabels he hkinds hmem

/-- Merging adds what comes next in context to a set that has what comes next at the state. -/
theorem mergeFollows?_exact {stack : Stack} (hstack : ∀ f ∈ follows stack, f < n.states.size)
    {s : StateId} {next expected : KindSet} (hnext : n.TellsNext s next)
    (hclean : .epsilon ∉ expected) (hahead : ∀ k, n.CanConsume s k → k ∈ expected) :
    ∃ all, n.mergeFollows? expected next stack = some all ∧
      ∀ k, k ∈ all ↔ k ∈ expected ∨ n.Expects (s, returnsOf stack) k := by
  induction stack using stackInduction generalizing expected next s with
  | bottom stack hbottom =>
    rw [hbottom]
    by_cases hend : .epsilon ∈ next
    -- nothing is due any more, so behind the end of this level only the input can end
    · refine ⟨_, mergeFollows?_bottom hend hbottom, fun k => ?_⟩
      rw [SortedSet.mem_insert, expects_nil_iff]
      have hlevel := hnext.mark.mp hend
      have hk := hahead k
      tauto
    · refine ⟨_, mergeFollows?_of_not_mem hend stack, fun k => ?_⟩
      rw [expects_nil_iff]
      have hlevel := mt hnext.mark.mpr hend
      have hk := hahead k
      tauto
  | invoked frame outer follow hfollow ih =>
    have hreturns : returnsOf (frame :: outer) = follow :: returnsOf outer := by
      simp [returnsOf, hfollow]
    rw [hreturns]
    rw [follows_cons hfollow] at hstack
    obtain ⟨hin, houter⟩ := List.forall_mem_cons.mp hstack
    by_cases hend : .epsilon ∈ next
    · obtain ⟨beyond, hbeyond⟩ := hn.exists_nextTokens? hin
      have htells := tellsNext_nextTokens? hn hscoped hlabels hfree hbeyond
      have hmerged : ∀ k, k ∈ (expected ∪ beyond).erase .epsilon ↔
          k ∈ expected ∨ n.CanConsume follow k := by
        intro k
        rw [← htells.kinds k, SortedSet.mem_erase, SortedSet.mem_union, SortedSet.mem_erase]
        have hne : k ∈ expected → k ≠ .epsilon := fun hk heq => hclean (heq ▸ hk)
        tauto
      have hclean' : .epsilon ∉ (expected ∪ beyond).erase .epsilon := by simp
      have hahead' : ∀ k, n.CanConsume follow k → k ∈ (expected ∪ beyond).erase .epsilon :=
        fun k hk => (hmerged k).mpr (.inr hk)
      obtain ⟨all, hall, hspec⟩ := ih houter htells hclean' hahead'
      refine ⟨all, (mergeFollows?_cons hend hfollow hbeyond outer).trans hall, fun k => ?_⟩
      rw [hspec, hmerged, expects_cons_iff]
      have hlevel := hnext.mark.mp hend
      have hk := hahead k
      have hbehind : n.CanConsume follow k → n.Expects (follow, returnsOf outer) k := fun h =>
        h.expects _
      tauto
    · -- the end of the level is out of reach, and so is whatever is due behind it
      refine ⟨_, mergeFollows?_of_not_mem hend _, fun k => ?_⟩
      rw [expects_cons_iff]
      have hlevel := mt hnext.mark.mpr hend
      have hk := hahead k
      tauto

end Exact

/-- The next kinds at a state of a built network whose labels never hold the mark for the end of a rule.
Each is consumed after silent moves, and the mark is there only if these lead to the end of a rule with
nothing due. Where edges stay inside their rule and no rule is both nullable and left-recursive, none is
left out. -/
theorem nextTokens?_exact (hbuilt : n.IsBuilt) (hlabels : n.NoEpsilonLabels) {s : StateId}
    (hs : s < n.states.size) :
    ∃ next, n.nextTokens? s = some next ∧
      (∀ k ∈ next, k ≠ .epsilon → ∃ c, n.Reaches (s, []) c ∧ n.Offers c k) ∧
      (.epsilon ∈ next → ∃ c, n.Reaches (s, []) c ∧ n.AtEnd c) ∧
      (n.Scoped → n.NoNullableRecursion →
        (∀ k, (∃ c, n.Reaches (s, []) c ∧ n.Offers c k) → k ∈ next) ∧
          ((∃ c, n.Reaches (s, []) c ∧ n.AtEnd c) → .epsilon ∈ next)) := by
  have hn := hbuilt.formed
  obtain ⟨next, hnext⟩ := hn.exists_nextTokens? hs
  refine ⟨next, hnext, fun k => canConsume_of_mem_nextTokens? hnext,
    exists_atEnd_of_mem_nextTokens? hnext hlabels, fun hscoped hfree => ?_⟩
  have htells := tellsNext_nextTokens? hn hscoped hlabels hfree hnext
  constructor
  · intro k hk
    exact (SortedSet.mem_erase.mp ((htells.kinds k).mpr hk)).1
  · intro hend
    exact htells.mark.mpr (reaches_atEnd_iff.mp hend)

/-- The expected kinds in context, on a built network whose edges stay inside their rule, whose
labels never hold the mark for the end of a rule, and in which no rule is both nullable and
left-recursive. -/
theorem expectedTokens?_exact (hbuilt : n.IsBuilt) (hscoped : n.Scoped)
    (hlabels : n.NoEpsilonLabels) (hfree : n.NoNullableRecursion) {s : StateId}
    (hs : s < n.states.size) {stack : Stack} (hstack : ∀ f ∈ follows stack, f < n.states.size) :
    ∃ expected, n.expectedTokens? s stack = some expected ∧
      ∀ k, k ∈ expected ↔ n.Expects (s, returnsOf stack) k := by
  have hn := hbuilt.formed
  obtain ⟨next, hnext⟩ := hn.exists_nextTokens? hs
  have htells := tellsNext_nextTokens? hn hscoped hlabels hfree hnext
  have hclean : .epsilon ∉ next.erase .epsilon := by simp
  obtain ⟨all, hmerge, hspec⟩ := mergeFollows?_exact hn hscoped hlabels hfree hstack htells hclean
    fun k => (htells.kinds k).mpr
  refine ⟨all, by rw [expectedTokens?, hnext]; exact hmerge, fun k => ?_⟩
  rw [hspec, htells.kinds]
  constructor
  · rintro (hahead | hk)
    · exact hahead.expects _
    · exact hk
  · exact .inr

/-! ### A network with left recursion -/

/-- `file : sum tail`, `sum : sum PLUS | NAME` and `tail : SEMI ?`, with the kinds of `NAME`, `PLUS`
and `SEMI` from one to three. -/
def sumNetwork : Network where
  states := #[⟨0, .ruleStart, 0, [⟨.call 1 6, 2⟩]⟩, ⟨1, .ruleStop, 0, []⟩,
    ⟨2, .ruleStart, 1, [⟨.call 1 7, 2⟩, ⟨.token 1, 3⟩]⟩, ⟨3, .ruleStop, 1, []⟩,
    ⟨4, .ruleStart, 2, [⟨.token 3, 5⟩, ⟨.epsilon, 5⟩]⟩, ⟨5, .ruleStop, 2, []⟩,
    ⟨6, .basic, 0, [⟨.call 2 1, 4⟩]⟩, ⟨7, .basic, 1, [⟨.token 2, 3⟩]⟩]
  rules := #[⟨"file", 0, 1⟩, ⟨"sum", 2, 3⟩, ⟨"tail", 4, 5⟩]
  maxKind := 3

theorem isBuilt_sumNetwork : sumNetwork.IsBuilt :=
  ⟨3, [.rule "file", .rule "sum", .rule "tail", .state 0 .basic, .state 1 .basic, .call 0 1 6,
    .call 6 2 1, .call 2 1 7, .edge 2 ⟨.token 1, 3⟩, .edge 7 ⟨.token 2, 3⟩, .edge 4 ⟨.token 3, 5⟩,
    .edge 4 ⟨.epsilon, 5⟩], rfl⟩

/-- What holds of the edges of every state holds of every edge. -/
theorem forall_hasEdge {P : StateId → Edge → Prop}
    (h : ∀ s < n.states.size, ∀ e ∈ ((n.state? s).map State.edges).getD [], P s e) {s : StateId}
    {e : Edge} (he : n.HasEdge s e) : P s e := by
  obtain ⟨st, hst, hmem⟩ := he
  have hlt : s < n.states.size := exists_state?_iff.mp ⟨st, hst⟩
  exact h s hlt e (by rw [hst]; exact hmem)

theorem scoped_sumNetwork : sumNetwork.Scoped := fun {s e} he =>
  forall_hasEdge (P := fun s e => sumNetwork.ruleOf? e.resume = sumNetwork.ruleOf? s) (by decide) he

theorem noEpsilonLabels_sumNetwork : sumNetwork.NoEpsilonLabels := by
  intro s e kinds he hkinds
  have h := forall_hasEdge (n := sumNetwork)
    (P := fun _ e => ∀ kinds ∈ e.label.kinds? 3, .epsilon ∉ kinds) (by decide) he
  exact h kinds hkinds

/-- States of `sumNetwork` from which the end of the level can be reached at most. -/
abbrev ending : List StateId :=
  [1, 3, 4, 5, 6]

theorem mem_ending_of_isStop {s : StateId} (h : sumNetwork.IsStop s) : s ∈ ending := by
  obtain ⟨st, hst, hrole⟩ := h
  have hlt : s < 8 := exists_state?_iff.mp ⟨st, hst⟩
  have hall : ∀ s < 8, ∀ st ∈ sumNetwork.state? s, st.role = .ruleStop → s ∈ ending := by decide
  exact hall s hlt st hst hrole

theorem mem_ending_of_skips {s t : StateId} (h : sumNetwork.Skips s t) (ht : t ∈ ending) :
    s ∈ ending := by
  induction h with
  | refl => exact ht
  | silent _ he hsilent ih =>
    have hedge := forall_hasEdge (n := sumNetwork) (P := fun s e =>
      e.label.isSilent = true → e.target ∈ ending → s ∈ ending) (by decide) he
    exact ih (hedge hsilent ht)
  | @across s t u e rule follow _ he hcall _ hu ih ihin =>
    have hedge := forall_hasEdge (n := sumNetwork) (P := fun s e =>
      e.label.isEpsilon = true → e.target ∈ ending → s ∈ ending) (by decide) he
    exact ih (hedge (by rw [hcall]; rfl) (ihin (mem_ending_of_isStop hu)))

theorem tail_level_of_reaches {c : Configuration} (h : sumNetwork.Reaches (4, []) c) :
    c = (4, []) ∨ c = (5, []) := by
  induction h with
  | refl => exact .inl rfl
  | tail _ hmove ih =>
    cases hmove with
    | @silent s e returns he hsilent =>
      have hedge := forall_hasEdge (n := sumNetwork)
        (P := fun s e => s ∈ [4, 5] → e.target = 5) (by decide) he
      right
      rcases ih with ih | ih <;> cases ih <;> simp [hedge (by simp)]
    | @call s e returns rule follow he hcall =>
      have hedge := forall_hasEdge (n := sumNetwork)
        (P := fun s e => s ∈ [4, 5] → e.label ∈ [.token 3, .epsilon]) (by decide) he
      rcases ih with ih | ih <;> cases ih <;> simp [hcall] at hedge
    | ret => rcases ih with ih | ih <;> cases ih

theorem noNullableRecursion_sumNetwork : sumNetwork.NoNullableRecursion := by
  rintro r ⟨⟨start, c, hstart, hreach, hend⟩, ⟨start', c', e, follow, hstart', hreach', he, hcall⟩⟩
  cases hstart.symm.trans hstart'
  have hmem : start ∈ ending := by
    obtain ⟨u, hskips, hu⟩ := reaches_atEnd_iff.mp ⟨c, hreach, hend⟩
    exact mem_ending_of_skips hskips (mem_ending_of_isStop hu)
  have hr : r < 3 := lt_rules_of_ruleStart? hstart
  have hall : ∀ r < 3, ∀ start ∈ sumNetwork.ruleStart? r, start ∈ ending → start = 4 := by decide
  obtain rfl := hall r hr start hstart hmem
  have hedge := forall_hasEdge (n := sumNetwork)
    (P := fun s e => s ∈ [4, 5] → e.label ∈ [.token 3, .epsilon]) (by decide) he
  rcases tail_level_of_reaches hreach' with rfl | rfl <;> simp [hcall] at hedge

theorem nextTokens?_exact_sumNetwork :
    sumNetwork.IsBuilt ∧ sumNetwork.NoEpsilonLabels ∧ sumNetwork.Scoped ∧
      sumNetwork.NoNullableRecursion ∧
      ∃ next, sumNetwork.nextTokens? 6 = some next ∧
        (∀ k, k ≠ .epsilon → (k ∈ next ↔ ∃ c, sumNetwork.Reaches (6, []) c ∧ sumNetwork.Offers c k)) ∧
        (.epsilon ∈ next ↔ ∃ c, sumNetwork.Reaches (6, []) c ∧ sumNetwork.AtEnd c) := by
  obtain ⟨next, hnext, hkinds, hmark, hall⟩ :=
    nextTokens?_exact isBuilt_sumNetwork noEpsilonLabels_sumNetwork (s := 6) (by decide)
  obtain ⟨hkinds', hmark'⟩ := hall scoped_sumNetwork noNullableRecursion_sumNetwork
  exact ⟨isBuilt_sumNetwork, noEpsilonLabels_sumNetwork, scoped_sumNetwork,
    noNullableRecursion_sumNetwork, next, hnext, fun k hne => ⟨fun hk => hkinds k hk hne, hkinds' k⟩,
    hmark, hmark'⟩

/-- Behind a `sum` of the file its `tail` can come, or the end of the input. -/
theorem expectedTokens?_exact_sumNetwork :
    sumNetwork.IsBuilt ∧ sumNetwork.Scoped ∧ sumNetwork.NoEpsilonLabels ∧
      sumNetwork.NoNullableRecursion ∧
      ∃ expected, sumNetwork.expectedTokens? 3 [.invoked 1 0 6, .root 0] = some expected ∧
        ∀ k, k ∈ expected ↔
          sumNetwork.Expects (3, returnsOf [.invoked 1 0 6, .root 0]) k :=
  ⟨isBuilt_sumNetwork, scoped_sumNetwork, noEpsilonLabels_sumNetwork,
    noNullableRecursion_sumNetwork,
    expectedTokens?_exact isBuilt_sumNetwork scoped_sumNetwork noEpsilonLabels_sumNetwork
      noNullableRecursion_sumNetwork (by decide) (by decide)⟩

end Network

end ParseRecovery
