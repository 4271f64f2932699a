import ParseRecovery.Proofs.Network.Termination

/-!
What a lookahead walk cuts off. Where edges stay inside their rule (`Scoped`), the rules with a call
under way can be read off a configuration (`pending`), so that a walk explores a fixed graph: the
moves of the network without calls of pending rules (`CutMove`). A walk visits all of that graph and
nothing else (`mem_nextTokens?_iff_cutReaches`).

Cutting such calls loses nothing as long as no rule is both nullable and left-recursive: a call that
is cut either cannot be completed, and then its start was already visited, or it would make a rule
both (`Skips.cutReaches`, `Descends.exists_cutDescends`). Main statement: there, the next kinds of a
state are exactly what the configurations that are reached without consuming a token contribute
(`mem_nextTokens?_iff`).
-/

namespace ParseRecovery

namespace Network

/-- The rule of a state. -/
def ruleOf? (n : Network) (s : StateId) : Option RuleIndex :=
  (n.state? s).map State.rule

/-- Where the rule of its source goes on after an edge: behind a call, or else at the target. -/
def Edge.resume (e : Edge) : StateId :=
  match e.label with
  | .call _ follow => follow
  | _ => e.target

/-- Edges stay inside their rule: no edge but a call leads to another rule, and behind a call the
rule that made it goes on. -/
def Scoped (n : Network) : Prop :=
  ∀ {s : StateId} {e : Edge}, n.HasEdge s e → n.ruleOf? e.resume = n.ruleOf? s

/-- The rules with a call under way: of the state, and of every follow state that is due but the
last, which belongs to the rule that the walk began in. -/
def pending (n : Network) : StateId → List StateId → List RuleIndex
  | _, [] => []
  | s, follow :: rest => (n.ruleOf? s).toList ++ n.pending follow rest

/-- A silent step that calls no pending rule. -/
inductive CutMove (n : Network) : Configuration → Configuration → Prop
  | silent {s : StateId} {e : Edge} {returns : List StateId} (he : n.HasEdge s e)
      (hsilent : e.label.isSilent = true) : CutMove n (s, returns) (e.target, returns)
  | call {s : StateId} {e : Edge} {returns : List StateId} {rule : RuleIndex} {follow : StateId}
      (he : n.HasEdge s e) (hcall : e.label = .call rule follow)
      (hfree : rule ∉ n.pending s returns) : CutMove n (s, returns) (e.target, follow :: returns)
  | ret {s follow : StateId} {returns : List StateId} (hs : n.IsStop s) :
      CutMove n (s, follow :: returns) (follow, returns)

/-- Any number of silent steps that call no pending rule. -/
abbrev CutReaches (n : Network) : Configuration → Configuration → Prop :=
  Relation.ReflTransGen n.CutMove

variable {n : Network}

theorem Edge.resume_of_silent {e : Edge} (h : e.label.isSilent = true) : e.resume = e.target := by
  unfold resume
  split
  · rename_i hcall
    simp [hcall, Label.isSilent] at h
  · rfl

theorem Edge.resume_of_call {e : Edge} {rule : RuleIndex} {follow : StateId}
    (h : e.label = .call rule follow) : e.resume = follow := by
  simp [resume, h]

theorem Scoped.ruleOf?_target (h : n.Scoped) {s : StateId} {e : Edge} (he : n.HasEdge s e)
    (hsilent : e.label.isSilent = true) : n.ruleOf? e.target = n.ruleOf? s := by
  rw [← Edge.resume_of_silent hsilent]
  exact h he

theorem Scoped.ruleOf?_follow (h : n.Scoped) {s : StateId} {e : Edge} {rule : RuleIndex}
    {follow : StateId} (he : n.HasEdge s e) (hcall : e.label = .call rule follow) :
    n.ruleOf? follow = n.ruleOf? s := by
  rw [← Edge.resume_of_call hcall]
  exact h he

theorem Formed.ruleOf?_call_target (h : n.Formed) {s : StateId} {e : Edge} {rule : RuleIndex}
    {follow : StateId} (he : n.HasEdge s e) (hcall : e.label = .call rule follow) :
    n.ruleOf? e.target = some rule := by
  obtain ⟨started, hstarted, -, hrule⟩ := h.start (h.ruleStart?_of_call he hcall)
  rw [ruleOf?, hstarted, Option.map_some, hrule]

theorem pending_congr {s t : StateId} (h : n.ruleOf? s = n.ruleOf? t) (returns : List StateId) :
    n.pending s returns = n.pending t returns := by
  cases returns with
  | nil => rfl
  | cons follow rest => rw [pending, pending, h]

theorem pending_call (hn : n.Formed) (hscoped : n.Scoped) {s : StateId} {e : Edge}
    {rule : RuleIndex} {follow : StateId} (he : n.HasEdge s e) (hcall : e.label = .call rule follow)
    (returns : List StateId) :
    n.pending e.target (follow :: returns) = rule :: n.pending s returns := by
  rw [pending, hn.ruleOf?_call_target he hcall, pending_congr (hscoped.ruleOf?_follow he hcall)]
  rfl

/-! ## Walks explore the graph of cut moves -/

/-- The calls under way are those that can be read off the configuration. -/
def Walk.Aligned (n : Network) (s : StateId) (w : Walk) : Prop :=
  w.called.Perm (n.pending s w.returns)

namespace Walk.Aligned

variable {s : StateId} {w : Walk}

theorem silent (h : w.Aligned n s) (hscoped : n.Scoped) {e : Edge} (he : n.HasEdge s e)
    (hsilent : e.label.isSilent = true) : w.Aligned n e.target := by
  rw [Aligned, pending_congr (hscoped.ruleOf?_target he hsilent)]
  exact h

theorem enterCall (h : w.Aligned n s) (hn : n.Formed) (hscoped : n.Scoped) {e : Edge}
    {rule : RuleIndex} {follow : StateId} (he : n.HasEdge s e)
    (hcall : e.label = .call rule follow) : (w.enterCall rule follow).Aligned n e.target := by
  change (rule :: w.called).Perm (n.pending e.target (follow :: w.returns))
  rw [pending_call hn hscoped he hcall]
  exact List.Perm.cons rule h

theorem enterReturn (h : w.Aligned n s) {st : State} (hst : n.state? s = some st)
    {follow : StateId} {rest : List StateId} (hdue : w.returns = follow :: rest) :
    (w.enterReturn st.rule rest).Aligned n follow := by
  have hcalled : w.called.Perm (st.rule :: n.pending follow rest) := by
    rw [Aligned, hdue, pending, ruleOf?, hst] at h
    exact h
  have herase := hcalled.erase st.rule
  rwa [List.erase_cons_head] at herase

theorem explores (h : w.Aligned n s) {t : Task} {w' : Walk} (hw : n.Explores t w w') :
    w'.Aligned n s := by
  rw [Aligned, hw.returns_eq]
  exact hw.called_perm.trans h

end Walk.Aligned

/-- What leaves a configuration along an edge is known to the walk. -/
structure Followed (n : Network) (c : Configuration) (w : Walk) (e : Edge) : Prop where
  silent : e.label.isSilent = true → (e.target, c.2) ∈ w.visited
  call : ∀ {rule follow}, e.label = .call rule follow → rule ∉ n.pending c.1 c.2 →
    (e.target, follow :: c.2) ∈ w.visited
  kinds : ∀ {kinds k}, e.label.kinds? n.maxKind = some kinds → k ∈ kinds → k ∈ w.found

/-- Whatever leaves a configuration, and whatever it contributes, is known to the walk. -/
structure Settled (n : Network) (w : Walk) (c : Configuration) : Prop where
  moves : ∀ {c'}, n.CutMove c c' → c' ∈ w.visited
  emits : ∀ {k}, n.Emits c k → k ∈ w.found

theorem Followed.explores {c : Configuration} {w w' : Walk} {e : Edge} (h : n.Followed c w e)
    {t : Task} (hw : n.Explores t w w') : n.Followed c w' e where
  silent hsilent := hw.visited_subset (h.silent hsilent)
  call hcall hfree := hw.visited_subset (h.call hcall hfree)
  kinds hkinds hk := hw.found_subset (h.kinds hkinds hk)

theorem Settled.explores {c : Configuration} {w w' : Walk} (h : n.Settled w c) {t : Task}
    (hw : n.Explores t w w') : n.Settled w' c where
  moves hmove := hw.visited_subset (h.moves hmove)
  emits hk := hw.found_subset (h.emits hk)

theorem settled_of_ended (hn : n.Formed) {s : StateId} (hs : n.IsStop s) {w : Walk}
    (hfound : .epsilon ∈ w.found) : n.Settled w (s, []) where
  moves hmove := by
    cases hmove with
    | silent he => exact absurd he (hn.not_hasEdge_of_isStop hs _)
    | call he => exact absurd he (hn.not_hasEdge_of_isStop hs _)
  emits hk := by
    rcases hk with ⟨e, kinds, he, -⟩ | ⟨rfl, -⟩
    · exact absurd he (hn.not_hasEdge_of_isStop hs e)
    · exact hfound

theorem settled_of_returned (hn : n.Formed) {s follow : StateId} {rest : List StateId}
    (hs : n.IsStop s) {w : Walk} (hvisited : (follow, rest) ∈ w.visited) :
    n.Settled w (s, follow :: rest) where
  moves hmove := by
    cases hmove with
    | silent he => exact absurd he (hn.not_hasEdge_of_isStop hs _)
    | call he => exact absurd he (hn.not_hasEdge_of_isStop hs _)
    | ret => exact hvisited
  emits hk := by
    rcases hk with ⟨e, kinds, he, -⟩ | ⟨-, hend⟩
    · exact absurd he (hn.not_hasEdge_of_isStop hs e)
    · cases hend.2

theorem settled_of_followed {s : StateId} {st : State} (hst : n.state? s = some st)
    (hrole : st.role ≠ .ruleStop) {returns : List StateId} {w : Walk}
    (hedges : ∀ e ∈ st.edges, n.Followed (s, returns) w e) : n.Settled w (s, returns) := by
  have hstate : ∀ {st'}, n.state? s = some st' → st' = st := fun hst' =>
    Option.some.inj (hst'.symm.trans hst)
  have hfollowed : ∀ {e}, n.HasEdge s e → n.Followed (s, returns) w e := by
    rintro e ⟨st', hst', he⟩
    exact hedges e (hstate hst' ▸ he)
  have hnot : ¬ n.IsStop s := by
    rintro ⟨st', hst', hstop⟩
    exact hrole (hstate hst' ▸ hstop)
  refine ⟨fun hmove => ?_, fun hk => ?_⟩
  · cases hmove with
    | silent he hsilent => exact (hfollowed he).silent hsilent
    | call he hcall hfree => exact (hfollowed he).call hcall hfree
    | ret hs => exact absurd hs hnot
  · rcases hk with ⟨e, kinds, he, hkinds, hk⟩ | ⟨-, hs, -⟩
    · exact (hfollowed he).kinds hkinds hk
    · exact absurd hs hnot

/-- Every configuration visited between two walks is settled in the later one. -/
def SettledSince (n : Network) (w w' : Walk) : Prop :=
  ∀ c ∈ w'.visited, c ∉ w.visited → n.Settled w' c

theorem settledSince_refl (w : Walk) : n.SettledSince w w :=
  fun _ hc hnew => absurd hc hnew

theorem SettledSince.trans {w w₁ w' : Walk} (h : n.SettledSince w w₁) (h' : n.SettledSince w₁ w')
    {t : Task} (hw : n.Explores t w₁ w') : n.SettledSince w w' := by
  intro c hc hnew
  by_cases hc₁ : c ∈ w₁.visited
  · exact (h c hc₁ hnew).explores hw
  · exact h' c hc hc₁

theorem SettledSince.of_visit {w w' : Walk} {s : StateId} (h : n.SettledSince (w.visit s) w')
    (hself : n.Settled w' (s, w.returns)) : n.SettledSince w w' := by
  intro c hc hnew
  by_cases hc₁ : c ∈ (w.visit s).visited
  -- a visit adds the configuration that it is at, and no other
  · rcases List.mem_cons.mp hc₁ with rfl | hmem
    · exact hself
    · exact absurd hmem hnew
  · exact h c hc hc₁

theorem followed_call {c : Configuration} {w : Walk} {e : Edge} {rule : RuleIndex}
    {follow : StateId} (hcall : e.label = .call rule follow)
    (h : rule ∉ n.pending c.1 c.2 → (e.target, follow :: c.2) ∈ w.visited) : n.Followed c w e where
  silent hsilent := by simp [hcall, Label.isSilent] at hsilent
  call {r f} hcall' hfree := by
    cases hcall.symm.trans hcall'
    exact h hfree
  kinds hkinds := by simp [hcall, Label.kinds?] at hkinds

theorem followed_kinds {c : Configuration} {w : Walk} {e : Edge} {kinds : KindSet}
    (hkinds : e.label.kinds? n.maxKind = some kinds) (h : ∀ k ∈ kinds, k ∈ w.found) :
    n.Followed c w e where
  silent hsilent := by cases hl : e.label <;> simp [hl, Label.isSilent, Label.kinds?] at *
  call hcall := by simp [hcall, Label.kinds?] at hkinds
  kinds hkinds' hk := by
    cases hkinds.symm.trans hkinds'
    exact h _ hk

theorem followed_silent {c : Configuration} {w : Walk} {e : Edge} (hsilent : e.label.isSilent = true)
    (h : (e.target, c.2) ∈ w.visited) : n.Followed c w e where
  silent _ := h
  call hcall := by simp [hcall, Label.isSilent] at hsilent
  kinds hkinds := by cases hl : e.label <;> simp [hl, Label.isSilent, Label.kinds?] at *

/-- What a task is to achieve, with these returns due. -/
def Task.Achieved (n : Network) (returns : List StateId) (w : Walk) : Task → Prop
  | .enter s => (s, returns) ∈ w.visited
  | .follow s es => ∀ e ∈ es, n.Followed (s, returns) w e

/-- An exploration achieves its task, and settles whatever it visits for the first time. -/
theorem Explores.settles (hn : n.Formed) (hscoped : n.Scoped) {t : Task} {w w' : Walk}
    (h : n.Explores t w w') {s : StateId} (hs : t.StartsAt n s) (haligned : w.Aligned n s) :
    t.Achieved n w.returns w' ∧ n.SettledSince w w' := by
  induction h generalizing s with
  | seen hseen => exact ⟨hseen, settledSince_refl _⟩
  | @ended t st w hst hstop hdue =>
    cases hs
    refine ⟨List.mem_cons_self, SettledSince.of_visit (settledSince_refl _) ?_⟩
    rw [hdue]
    exact settled_of_ended hn ⟨st, hst, hstop⟩ (SortedSet.mem_insert.mpr (.inl rfl))
  | @returned t follow rest st w w' hst hstop hdue hin ih =>
    cases hs
    -- what is handed back differs from `w'` in returns and calls, which settling does not look at
    obtain ⟨hfollow, hsettled⟩ := ih (startsAt_enter _) (haligned.enterReturn hst hdue)
    have hself : n.Settled w' (t, w.returns) := by
      rw [hdue]
      exact settled_of_returned hn ⟨st, hst, hstop⟩ hfollow
    have hall : n.SettledSince w w' := SettledSince.of_visit hsettled hself
    exact ⟨hin.visited_subset List.mem_cons_self, fun c hc hnew =>
      ⟨(hall c hc hnew).moves, (hall c hc hnew).emits⟩⟩
  | entered hst hrole hin ih =>
    cases hs
    obtain ⟨hedges, hsettled⟩ := ih (startsAt_edges hst) haligned
    exact ⟨hin.visited_subset List.mem_cons_self,
      hsettled.of_visit (settled_of_followed hst hrole hedges)⟩
  | done => exact ⟨List.forall_mem_nil _, settledSince_refl _⟩
  | cut hcall hcalled hrest ih =>
    obtain ⟨hedges, hsettled⟩ := ih hs.tail haligned
    obtain ⟨rfl, -⟩ := hs
    -- the call is of a rule under way, which is a pending one
    refine ⟨List.forall_mem_cons.mpr ⟨followed_call hcall fun hfree => ?_, hedges⟩, hsettled⟩
    exact absurd (haligned.mem_iff.mp hcalled) hfree
  | @called t follow e es rule w w₁ w' hcall hfree hin hrest ih ihrest =>
    -- the edge alone is an exploration, too, so the walk is aligned when the others are followed
    have hedge : n.Explores (.follow t [e]) w (w₁.leaveCall rule) := .called hcall hfree hin .done
    obtain ⟨htarget, hsettled⟩ :=
      ih (startsAt_enter _) (haligned.enterCall hn hscoped hs.hasEdge hcall)
    obtain ⟨hedges, hsettledrest⟩ := ihrest hs.tail (haligned.explores hedge)
    obtain ⟨rfl, -⟩ := hs
    rw [hedge.returns_eq] at hedges
    have hleft : n.SettledSince w (w₁.leaveCall rule) := fun c hc hnew =>
      ⟨(hsettled c hc hnew).moves, (hsettled c hc hnew).emits⟩
    refine ⟨List.forall_mem_cons.mpr ⟨?_, hedges⟩, hleft.trans hsettledrest hrest⟩
    exact followed_call hcall fun _ => hrest.visited_subset htarget
  | collected hkinds hrest ih =>
    obtain ⟨hedges, hsettled⟩ := ih hs.tail haligned
    obtain ⟨rfl, -⟩ := hs
    refine ⟨List.forall_mem_cons.mpr ⟨followed_kinds hkinds fun k hk => ?_, hedges⟩, hsettled⟩
    exact hrest.found_subset (SortedSet.mem_union.mpr (.inr hk))
  | passed hsilent hin hrest ih ihrest =>
    obtain ⟨htarget, hsettled⟩ :=
      ih (startsAt_enter _) (haligned.silent hscoped hs.hasEdge hsilent)
    obtain ⟨hedges, hsettledrest⟩ := ihrest hs.tail (haligned.explores hin)
    obtain ⟨rfl, -⟩ := hs
    rw [hin.returns_eq] at hedges
    refine ⟨List.forall_mem_cons.mpr ⟨?_, hedges⟩, hsettled.trans hsettledrest hrest⟩
    exact followed_silent hsilent (hrest.visited_subset htarget)

/-- A walk finds whatever is contributed by a configuration that cut moves reach. -/
theorem emits_mem_nextTokens? (hn : n.Formed) (hscoped : n.Scoped) {s : StateId} {next : KindSet}
    (h : n.nextTokens? s = some next) {c : Configuration} (hc : n.CutReaches (s, []) c)
    {k : TokenKind} (hk : n.Emits c k) : k ∈ next := by
  obtain ⟨w, hw, rfl⟩ := Option.map_eq_some_iff.mp h
  have haligned : Walk.Aligned n s {} := List.Perm.refl []
  obtain ⟨hstart, hsettled⟩ :=
    (explores_of_walk? hw).settles hn hscoped (startsAt_enter s) haligned
  -- the walk began with nothing visited, so all that it visited is settled
  have hvisited : ∀ c, n.CutReaches (s, []) c → c ∈ w.visited := by
    intro c hc
    induction hc with
    | refl => exact hstart
    | tail _ hmove ih => exact (hsettled _ ih (List.not_mem_nil)).moves hmove
  exact (hsettled c (hvisited c hc) (List.not_mem_nil)).emits hk

theorem keptByWalks_cutReaches (hn : n.Formed) (hscoped : n.Scoped) (c : Configuration) :
    n.KeptByWalks fun s w => w.Aligned n s ∧ n.CutReaches c (s, w.returns) where
  silent h he hsilent := ⟨h.1.silent hscoped he hsilent, h.2.tail (.silent he hsilent)⟩
  call h he hcall hfree := by
    have hnot := mt h.1.mem_iff.mpr hfree
    exact ⟨h.1.enterCall hn hscoped he hcall, h.2.tail (.call he hcall hnot)⟩
  ret h hst hstop hdue := by
    obtain ⟨haligned, hreach⟩ := h
    rw [hdue] at hreach
    exact ⟨haligned.enterReturn hst hdue, hreach.tail (.ret ⟨_, hst, hstop⟩)⟩
  congr h hreturns hcalled := by
    rw [Walk.Aligned, hreturns]
    exact ⟨hcalled.trans h.1, h.2⟩

/-- The next kinds of a state are what the configurations contribute that cut moves reach from it. -/
theorem mem_nextTokens?_iff_cutReaches (hn : n.Formed) (hscoped : n.Scoped) {s : StateId}
    {next : KindSet} (h : n.nextTokens? s = some next) {k : TokenKind} :
    k ∈ next ↔ ∃ c, n.CutReaches (s, []) c ∧ n.Emits c k := by
  constructor
  · intro hk
    have hkept := keptByWalks_cutReaches hn hscoped (s, [])
    obtain ⟨u, v, ⟨-, hreach⟩, hemits⟩ := found_of_mem_nextTokens? hkept ⟨.refl [], .refl⟩ h hk
    exact ⟨_, hreach, hemits⟩
  · rintro ⟨c, hreach, hemits⟩
    exact emits_mem_nextTokens? hn hscoped h hreach hemits

/-! ## Cutting loses nothing -/

/-- No rule is both nullable and left-recursive. -/
def NoNullableRecursion (n : Network) : Prop :=
  ∀ r, ¬ (n.Nullable r ∧ n.LeftRecursive r)

theorem Skips.ruleOf?_eq (hscoped : n.Scoped) {s t : StateId} (h : n.Skips s t) :
    n.ruleOf? t = n.ruleOf? s := by
  induction h with
  | refl => rfl
  | silent _ he hsilent ih => exact (hscoped.ruleOf?_target he hsilent).trans ih
  | across _ he hcall _ _ ih _ => exact (hscoped.ruleOf?_follow he hcall).trans ih

/-- Whichever rules are pending, their starts reach the state. -/
def PendingReach (n : Network) (c : Configuration) : Prop :=
  ∀ r ∈ n.pending c.1 c.2, ∃ start due, n.ruleStart? r = some start ∧
    n.Reaches (start, []) (c.1, due)

theorem PendingReach.skips (hscoped : n.Scoped) {s t : StateId} {returns : List StateId}
    (h : n.PendingReach (s, returns)) (hst : n.Skips s t) : n.PendingReach (t, returns) := by
  intro r hr
  rw [pending_congr (hst.ruleOf?_eq hscoped)] at hr
  obtain ⟨start, due, hstart, hreach⟩ := h r hr
  exact ⟨start, due, hstart, hreach.trans (hst.reaches due)⟩

theorem PendingReach.call (hn : n.Formed) (hscoped : n.Scoped) {s : StateId}
    {returns : List StateId} (h : n.PendingReach (s, returns)) {e : Edge} {rule : RuleIndex}
    {follow : StateId} (he : n.HasEdge s e) (hcall : e.label = .call rule follow) :
    n.PendingReach (e.target, follow :: returns) := by
  intro r hr
  rw [pending_call hn hscoped he hcall] at hr
  rcases List.mem_cons.mp hr with rfl | hr
  · exact ⟨e.target, [], hn.ruleStart?_of_call he hcall, .refl⟩
  · obtain ⟨start, due, hstart, hreach⟩ := h r hr
    exact ⟨start, follow :: due, hstart, hreach.tail (.call he hcall)⟩

theorem not_mem_pending_of_across (hn : n.Formed) (hfree : n.NoNullableRecursion) {s u : StateId}
    {returns : List StateId} (h : n.PendingReach (s, returns)) {e : Edge} {rule : RuleIndex}
    {follow : StateId} (he : n.HasEdge s e) (hcall : e.label = .call rule follow)
    (hin : n.Skips e.target u) (hu : n.IsStop u) : rule ∉ n.pending s returns := by
  intro hr
  obtain ⟨start, due, hstart, hreach⟩ := h rule hr
  -- the call is completed silently, and it is reached from the start of its own rule
  have hnullable : n.Nullable rule :=
    ⟨e.target, (u, []), hn.ruleStart?_of_call he hcall, hin.reaches [], hu, rfl⟩
  have hrecursive : n.LeftRecursive rule :=
    ⟨start, (s, due), e, follow, hstart, hreach, he, hcall⟩
  exact hfree rule ⟨hnullable, hrecursive⟩

theorem Skips.cutReaches (hn : n.Formed) (hscoped : n.Scoped) (hfree : n.NoNullableRecursion)
    {s t : StateId} (h : n.Skips s t) {returns : List StateId}
    (hpending : n.PendingReach (s, returns)) : n.CutReaches (s, returns) (t, returns) := by
  induction h generalizing returns with
  | refl => exact .refl
  | silent _ he hsilent ih => exact (ih hpending).tail (.silent he hsilent)
  | across hst he hcall hin hu ih ihin =>
    have hpendingt := hpending.skips hscoped hst
    have hnot := not_mem_pending_of_across hn hfree hpendingt he hcall hin hu
    have hentered := (ih hpending).tail (.call he hcall hnot)
    have hended := ihin (hpendingt.call hn hscoped he hcall)
    exact (hentered.trans hended).tail (.ret hu)

/-- Descending without a call that is cut. -/
inductive CutDescends (n : Network) (s : StateId) : StateId → List StateId → Prop
  | level {t : StateId} (hst : n.Skips s t) : CutDescends n s t []
  | call {t u : StateId} {e : Edge} {rule : RuleIndex} {follow : StateId} {due : List StateId}
      (hst : CutDescends n s t due) (he : n.HasEdge t e) (hcall : e.label = .call rule follow)
      (hfree : rule ∉ n.pending t due) (hin : n.Skips e.target u) :
      CutDescends n s u (follow :: due)

namespace CutDescends

variable {s t : StateId} {due : List StateId}

theorem skips (h : n.CutDescends s t due) {u : StateId} (htu : n.Skips t u) :
    n.CutDescends s u due := by
  cases h with
  | level hst => exact .level (hst.trans htu)
  | call hst he hcall hfree hin => exact .call hst he hcall hfree (hin.trans htu)

theorem pendingReach (hn : n.Formed) (hscoped : n.Scoped) (h : n.CutDescends s t due) :
    n.PendingReach (t, due) := by
  induction h with
  | level => exact List.forall_mem_nil _
  | call _ he hcall _ hin ih => exact (ih.call hn hscoped he hcall).skips hscoped hin

theorem cutReaches (hn : n.Formed) (hscoped : n.Scoped) (hfree : n.NoNullableRecursion)
    (h : n.CutDescends s t due) : n.CutReaches (s, []) (t, due) := by
  induction h with
  | level hst => exact hst.cutReaches hn hscoped hfree (List.forall_mem_nil _)
  | call hst he hcall hnot hin ih =>
    have hpending := (hst.pendingReach hn hscoped).call hn hscoped he hcall
    exact (ih.tail (.call he hcall hnot)).trans (hin.cutReaches hn hscoped hfree hpending)

theorem exists_start (hn : n.Formed) (hscoped : n.Scoped) (h : n.CutDescends s t due)
    {r : RuleIndex} (hr : r ∈ n.pending t due) :
    ∃ start above, n.ruleStart? r = some start ∧ n.CutDescends s start above := by
  induction h with
  | level => cases hr
  | call hst he hcall hnot hin ih =>
    rw [pending_congr (hin.ruleOf?_eq hscoped), pending_call hn hscoped he hcall] at hr
    rcases List.mem_cons.mp hr with rfl | hr
    · exact ⟨_, _, hn.ruleStart?_of_call he hcall, .call hst he hcall hnot (.refl _)⟩
    · exact ih hr

end CutDescends

/-- Whatever is descended to is descended to without a call that is cut, perhaps with other calls
under way. -/
theorem Descends.exists_cutDescends (hn : n.Formed) (hscoped : n.Scoped) {s t : StateId}
    {due : List StateId} (h : n.Descends s t due) : ∃ above, n.CutDescends s t above := by
  induction h with
  | level hst => exact ⟨[], .level hst⟩
  | @call t u e rule follow due hst he hcall hin ih =>
    obtain ⟨above, hcut⟩ := ih
    by_cases hpending : rule ∈ n.pending t above
    · -- the start of the rule was descended to before, and all goes on from there
      obtain ⟨start, above', hstart, hcut'⟩ := hcut.exists_start hn hscoped hpending
      cases hstart.symm.trans (hn.ruleStart?_of_call he hcall)
      exact ⟨above', hcut'.skips hin⟩
    · exact ⟨follow :: above, .call hcut he hcall hpending hin⟩

/-- The next kinds of a state are what the configurations contribute that are reached from it
without consuming a token. -/
theorem mem_nextTokens?_iff (hn : n.Formed) (hscoped : n.Scoped) (hfree : n.NoNullableRecursion)
    {s : StateId} {next : KindSet} (h : n.nextTokens? s = some next) {k : TokenKind} :
    k ∈ next ↔ ∃ c, n.Reaches (s, []) c ∧ n.Emits c k := by
  constructor
  · exact emits_of_mem_nextTokens? h
  · rintro ⟨⟨t, due⟩, hreach, hoffers | ⟨rfl, hend⟩⟩
    -- what is offered does not depend on the calls under way, the end of the level has none
    · obtain ⟨above, hcut⟩ := (reaches_nil_iff.mp hreach).exists_cutDescends hn hscoped
      exact emits_mem_nextTokens? hn hscoped h (hcut.cutReaches hn hscoped hfree)
        (.inl (hoffers.of_state above))
    · obtain rfl : due = [] := hend.2
      have hskips := reaches_level_iff.mp hreach
      have hcut : n.CutReaches (s, []) (t, []) :=
        hskips.cutReaches hn hscoped hfree (List.forall_mem_nil _)
      exact emits_mem_nextTokens? hn hscoped h hcut (.inr ⟨rfl, hend⟩)

end Network

end ParseRecovery
