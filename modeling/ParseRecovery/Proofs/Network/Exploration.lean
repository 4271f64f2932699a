import ParseRecovery.Network.Lookahead
import ParseRecovery.Proofs.Network.Moves

/-!
What a lookahead walk does, without its depth: `Explores` has one case for each thing that can
happen at a state or along an edge, and whatever `walk?` answers is such an exploration
(`explores_of_walk?`).

An exploration hands the returns and the calls under way back as it found them, never forgets a
configuration or a kind, and collects only what its walks come by (`Explores.found_sound`), which can
be reached from where it began (`emits_of_mem_nextTokens?`).
-/

namespace ParseRecovery

namespace Network

/-- A label calls a rule, or consumes tokens, or is silent. -/
theorem Label.cases_kinds (label : Label) (max : TokenKind) :
    (∃ rule follow, label = .call rule follow) ∨ (∃ kinds, label.kinds? max = some kinds) ∨
      label.isSilent = true := by
  cases label <;> simp [kinds?, isSilent]

namespace Walk

variable {max : TokenKind} {enter : StateId → Walk → Option Walk} {w : Walk} {e : Edge}

theorem along?_call {rule : RuleIndex} {follow : StateId} (h : e.label = .call rule follow) :
    along? max enter w e =
      if rule ∈ w.called then some w
      else (enter e.target (w.enterCall rule follow)).map (·.leaveCall rule) := by
  simp [along?, h]

theorem along?_kinds {kinds : KindSet} (h : e.label.kinds? max = some kinds) :
    along? max enter w e = some (w.collect kinds) := by
  unfold along?
  split
  · rename_i hcall
    simp [hcall, Label.kinds?] at h
  · simp [h]

theorem along?_silent (h : e.label.isSilent = true) : along? max enter w e = enter e.target w := by
  unfold along?
  split
  · rename_i hcall
    simp [hcall, Label.isSilent] at h
  · cases hlabel : e.label <;> simp [hlabel, Label.isSilent, Label.kinds?] at h ⊢

theorem hasVisited_iff {s : StateId} : w.hasVisited s = true ↔ (s, w.returns) ∈ w.visited := by
  simp [hasVisited]

end Walk

/-- What is to be walked: a state, or edges of a state. -/
inductive Task where
  | enter (s : StateId)
  | follow (s : StateId) (edges : List Edge)

/-- How a walk goes on, from the walk before a task to the walk after it. -/
inductive Explores (n : Network) : Task → Walk → Walk → Prop
  | seen {s : StateId} {w : Walk} (hseen : (s, w.returns) ∈ w.visited) : Explores n (.enter s) w w
  | ended {s : StateId} {st : State} {w : Walk} (hst : n.state? s = some st)
      (hstop : st.role = .ruleStop) (hdue : w.returns = []) :
      Explores n (.enter s) w (w.visit s).reachEnd
  | returned {s follow : StateId} {rest : List StateId} {st : State} {w w' : Walk}
      (hst : n.state? s = some st) (hstop : st.role = .ruleStop) (hdue : w.returns = follow :: rest)
      (hin : Explores n (.enter follow) ((w.visit s).enterReturn st.rule rest) w') :
      Explores n (.enter s) w (w'.leaveReturn (w.visit s) st.rule follow)
  | entered {s : StateId} {st : State} {w w' : Walk} (hst : n.state? s = some st)
      (hrole : st.role ≠ .ruleStop) (hin : Explores n (.follow s st.edges) (w.visit s) w') :
      Explores n (.enter s) w w'
  | done {s : StateId} {w : Walk} : Explores n (.follow s []) w w
  | cut {s follow : StateId} {e : Edge} {es : List Edge} {rule : RuleIndex} {w w' : Walk}
      (hcall : e.label = .call rule follow) (hcalled : rule ∈ w.called)
      (hrest : Explores n (.follow s es) w w') : Explores n (.follow s (e :: es)) w w'
  | called {s follow : StateId} {e : Edge} {es : List Edge} {rule : RuleIndex} {w w₁ w' : Walk}
      (hcall : e.label = .call rule follow) (hfree : rule ∉ w.called)
      (hin : Explores n (.enter e.target) (w.enterCall rule follow) w₁)
      (hrest : Explores n (.follow s es) (w₁.leaveCall rule) w') :
      Explores n (.follow s (e :: es)) w w'
  | collected {s : StateId} {e : Edge} {es : List Edge} {kinds : KindSet} {w w' : Walk}
      (hkinds : e.label.kinds? n.maxKind = some kinds)
      (hrest : Explores n (.follow s es) (w.collect kinds) w') :
      Explores n (.follow s (e :: es)) w w'
  | passed {s : StateId} {e : Edge} {es : List Edge} {w w₁ w' : Walk}
      (hsilent : e.label.isSilent = true) (hin : Explores n (.enter e.target) w w₁)
      (hrest : Explores n (.follow s es) w₁ w') : Explores n (.follow s (e :: es)) w w'

variable {n : Network}

theorem explores_of_foldlM (enter : StateId → Walk → Option Walk)
    (henter : ∀ {s w w'}, enter s w = some w' → n.Explores (.enter s) w w') (s : StateId)
    {es : List Edge} {w w' : Walk} (h : es.foldlM (Walk.along? n.maxKind enter) w = some w') :
    n.Explores (.follow s es) w w' := by
  induction es generalizing w with
  | nil =>
    cases h
    exact .done
  | cons e es ih =>
    rw [List.foldlM_cons, Option.bind_eq_bind, Option.bind_eq_some_iff] at h
    obtain ⟨w₁, hedge, hrest⟩ := h
    rcases e.label.cases_kinds n.maxKind with ⟨rule, follow, hcall⟩ | ⟨kinds, hkinds⟩ | hsilent
    · rw [Walk.along?_call hcall] at hedge
      split at hedge
      · rename_i hcalled
        cases hedge
        exact .cut hcall hcalled (ih hrest)
      · rename_i hfree
        obtain ⟨w₂, hin, rfl⟩ := Option.map_eq_some_iff.mp hedge
        exact .called hcall hfree (henter hin) (ih hrest)
    · rw [Walk.along?_kinds hkinds] at hedge
      cases hedge
      exact .collected hkinds (ih hrest)
    · rw [Walk.along?_silent hsilent] at hedge
      exact .passed hsilent (henter hedge) (ih hrest)

/-- Whatever the depth, a walk that ends is an exploration. -/
theorem explores_of_walk? {depth : Nat} {s : StateId} {w w' : Walk}
    (h : n.walk? depth s w = some w') : n.Explores (.enter s) w w' := by
  induction depth generalizing s w w' with
  | zero => cases h
  | succ depth ih =>
    rw [walk?] at h
    split at h
    · rename_i hseen
      cases h
      exact .seen (Walk.hasVisited_iff.mp hseen)
    · split at h
      · cases h
      · rename_i st hst
        dsimp only at h
        split at h
        · rename_i hstop
          split at h
          · rename_i hdue
            cases h
            exact .ended hst hstop hdue
          · rename_i hdue
            obtain ⟨w₁, hin, rfl⟩ := Option.map_eq_some_iff.mp h
            exact .returned hst hstop hdue (ih hin)
        · rename_i hrole
          exact .entered hst hrole (explores_of_foldlM (n.walk? depth) ih s h)

/-! ## What an exploration leaves as it was -/

theorem Explores.returns_eq {t : Task} {w w' : Walk} (h : n.Explores t w w') :
    w'.returns = w.returns := by
  induction h with
  | seen => rfl
  | ended => rfl
  | returned _ _ hdue _ ih => rw [Walk.leaveReturn, ih, hdue, Walk.enterReturn]
  | entered _ _ _ ih => exact ih
  | done => rfl
  | cut _ _ _ ih => exact ih
  | called _ _ _ _ ih ihrest => rw [ihrest, Walk.leaveCall, ih, Walk.enterCall, List.tail_cons]
  | collected _ _ ih => exact ih
  | passed _ _ _ ih ihrest => rw [ihrest, ih]

theorem Explores.called_perm {t : Task} {w w' : Walk} (h : n.Explores t w w') :
    w'.called.Perm w.called := by
  induction h with
  | seen => rfl
  | ended => rfl
  | @returned s follow rest st w w' _ _ _ _ ih =>
    -- the rule is put back only if it was under way, and then in front
    change w'.called.Perm (w.called.erase st.rule) at ih
    simp only [Walk.leaveReturn, Walk.visit, List.contains_iff_mem]
    split
    · rename_i hmem
      exact (ih.cons st.rule).trans (List.perm_cons_erase hmem).symm
    · rename_i hmem
      rwa [List.erase_of_not_mem hmem] at ih
  | entered _ _ _ ih => exact ih
  | done => rfl
  | cut _ _ _ ih => exact ih
  | @called s follow e es rule w w₁ w' _ _ _ _ ih ihrest =>
    have hleave : (w₁.called.erase rule).Perm ((rule :: w.called).erase rule) := ih.erase rule
    rw [List.erase_cons_head] at hleave
    exact ihrest.trans hleave
  | collected _ _ ih => exact ih
  | passed _ _ _ ih ihrest => exact ihrest.trans ih

theorem Explores.visited_subset {t : Task} {w w' : Walk} (h : n.Explores t w w') :
    w.visited ⊆ w'.visited := by
  induction h with
  | seen => exact fun _ hc => hc
  | ended => exact fun _ hc => List.mem_cons_of_mem _ hc
  | returned _ _ _ _ ih => exact fun _ hc => ih (List.mem_cons_of_mem _ hc)
  | entered _ _ _ ih => exact fun _ hc => ih (List.mem_cons_of_mem _ hc)
  | done => exact fun _ hc => hc
  | cut _ _ _ ih => exact ih
  | called _ _ _ _ ih ihrest => exact fun _ hc => ihrest (ih hc)
  | collected _ _ ih => exact ih
  | passed _ _ _ ih ihrest => exact fun _ hc => ihrest (ih hc)

theorem Explores.found_subset {t : Task} {w w' : Walk} (h : n.Explores t w w') {k : TokenKind}
    (hk : k ∈ w.found) : k ∈ w'.found := by
  induction h with
  | seen => exact hk
  | ended => exact SortedSet.mem_insert.mpr (.inr hk)
  | returned _ _ _ _ ih => exact ih hk
  | entered _ _ _ ih => exact ih hk
  | done => exact hk
  | cut _ _ _ ih => exact ih hk
  | called _ _ _ _ ih ihrest => exact ihrest (ih hk)
  | collected _ _ ih => exact ih (SortedSet.mem_union.mpr (.inl hk))
  | passed _ _ _ ih ihrest => exact ihrest (ih hk)

/-! ## What an exploration collects -/

/-- What a configuration contributes to a lookahead set: the kinds it offers, and the mark for the
end of the rule. -/
def Emits (n : Network) (c : Configuration) (k : TokenKind) : Prop :=
  n.Offers c k ∨ k = .epsilon ∧ n.AtEnd c

/-- The state that a task starts from, provided that the edges to follow are edges of the state. -/
def Task.StartsAt (n : Network) : Task → StateId → Prop
  | .enter s, t => s = t
  | .follow s es, t => s = t ∧ ∀ e ∈ es, n.HasEdge s e

theorem startsAt_enter (s : StateId) : (Task.enter s).StartsAt n s :=
  rfl

theorem Task.StartsAt.tail {s t : StateId} {e : Edge} {es : List Edge}
    (h : (Task.follow s (e :: es)).StartsAt n t) : (Task.follow s es).StartsAt n t :=
  ⟨h.1, fun e' he' => h.2 e' (List.mem_cons_of_mem e he')⟩

theorem Task.StartsAt.hasEdge {s t : StateId} {e : Edge} {es : List Edge}
    (h : (Task.follow s (e :: es)).StartsAt n t) : n.HasEdge t e := by
  obtain ⟨rfl, hes⟩ := h
  exact hes e List.mem_cons_self

theorem startsAt_edges {s : StateId} {st : State} (hst : n.state? s = some st) :
    (Task.follow s st.edges).StartsAt n s :=
  ⟨rfl, fun _ he => ⟨st, hst, he⟩⟩

/-- A property of walks at states that is kept by whatever a walk does, and does not look at what was
visited and found. -/
structure KeptByWalks (n : Network) (P : StateId → Walk → Prop) : Prop where
  silent : ∀ {s w e}, P s w → n.HasEdge s e → e.label.isSilent = true → P e.target w
  call : ∀ {s w e rule follow}, P s w → n.HasEdge s e → e.label = .call rule follow →
    rule ∉ w.called → P e.target (w.enterCall rule follow)
  ret : ∀ {s w st follow rest}, P s w → n.state? s = some st → st.role = .ruleStop →
    w.returns = follow :: rest → P follow (w.enterReturn st.rule rest)
  congr : ∀ {s w w'}, P s w → w'.returns = w.returns → w'.called.Perm w.called → P s w'

/-- What an exploration collects comes from walks that have such a property. -/
theorem Explores.found_sound {P : StateId → Walk → Prop} (hP : n.KeptByWalks P) {t : Task}
    {w w' : Walk} (h : n.Explores t w w') {s : StateId} (hs : t.StartsAt n s) (hw : P s w)
    {k : TokenKind} (hk : k ∈ w'.found) :
    k ∈ w.found ∨ ∃ u v, P u v ∧ n.Emits (u, v.returns) k := by
  -- a kind comes from before, from here, or from a walk that goes on from here
  induction h generalizing s with
  | seen => exact .inl hk
  | ended hst hstop hdue =>
    cases hs
    rcases SortedSet.mem_insert.mp hk with rfl | hk
    · exact .inr ⟨_, _, hw, .inr ⟨rfl, ⟨_, hst, hstop⟩, hdue⟩⟩
    · exact .inl hk
  | @returned t follow rest st w w' hst hstop hdue _ ih =>
    cases hs
    have hvisited : P t (w.visit t) := hP.congr hw rfl (.refl _)
    exact ih (startsAt_enter _) (hP.ret hvisited hst hstop hdue) hk
  | entered hst _ _ ih =>
    cases hs
    exact ih (startsAt_edges hst) (hP.congr hw rfl (.refl _)) hk
  | done => exact .inl hk
  | cut _ _ _ ih => exact ih hs.tail hw hk
  | @called t follow e es rule w w₁ w' hcall hfree hin _ ih ihrest =>
    -- the other edges are followed with the returns and calls that the call left as they were
    have hedge : n.Explores (.follow t [e]) w (w₁.leaveCall rule) := .called hcall hfree hin .done
    rcases ihrest hs.tail (hP.congr hw hedge.returns_eq hedge.called_perm) hk with hk | hfound
    · exact ih (startsAt_enter _) (hP.call hw hs.hasEdge hcall hfree) hk
    · exact .inr hfound
  | collected hkinds _ ih =>
    rcases ih hs.tail (hP.congr hw rfl (.refl _)) hk with hk | hfound
    · rcases SortedSet.mem_union.mp hk with hk | hk
      · exact .inl hk
      · exact .inr ⟨_, _, hw, .inl ⟨_, _, hs.hasEdge, hkinds, hk⟩⟩
    · exact .inr hfound
  | passed hsilent hin _ ih ihrest =>
    rcases ihrest hs.tail (hP.congr hw hin.returns_eq hin.called_perm) hk with hk | hfound
    · exact ih (startsAt_enter _) (hP.silent hw hs.hasEdge hsilent) hk
    · exact .inr hfound

theorem found_of_mem_nextTokens? {P : StateId → Walk → Prop} (hP : n.KeptByWalks P) {s : StateId}
    (hs : P s {}) {next : KindSet} (h : n.nextTokens? s = some next) {k : TokenKind}
    (hk : k ∈ next) : ∃ u v, P u v ∧ n.Emits (u, v.returns) k := by
  obtain ⟨w, hw, rfl⟩ := Option.map_eq_some_iff.mp h
  rcases (explores_of_walk? hw).found_sound hP (startsAt_enter s) hs hk with hk | hfound
  · exact absurd hk (SortedSet.not_mem_empty k)
  · exact hfound

theorem keptByWalks_reaches (c : Configuration) :
    n.KeptByWalks fun s w => n.Reaches c (s, w.returns) where
  silent hreach he hsilent := hreach.tail (.silent he hsilent)
  call hreach he hcall _ := hreach.tail (.call he hcall)
  ret hreach hst hstop hdue := by
    rw [hdue] at hreach
    exact hreach.tail (.ret ⟨_, hst, hstop⟩)
  congr hreach hreturns _ := by
    rw [hreturns]
    exact hreach

theorem emits_of_mem_nextTokens? {s : StateId} {next : KindSet} (h : n.nextTokens? s = some next)
    {k : TokenKind} (hk : k ∈ next) : ∃ c, n.Reaches (s, []) c ∧ n.Emits c k := by
  obtain ⟨u, v, hreach, hemits⟩ := found_of_mem_nextTokens? (keptByWalks_reaches (s, [])) .refl h hk
  exact ⟨_, hreach, hemits⟩

end Network

end ParseRecovery
