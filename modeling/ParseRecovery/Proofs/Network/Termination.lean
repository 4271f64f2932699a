import ParseRecovery.Proofs.Network.Exploration
import Mathlib.Data.Finset.Prod
import Mathlib.Data.List.Perm.Subperm

/-!
Lookahead walks end within their depth. A walk never has more returns due than calls under way
(`Walk.Bounded`), and calls under way are of different rules, so that a walk enters only finitely
many configurations, each of them once. What is not visited yet bounds the depth that is needed
(`Entry.Roomy`), from each state that the walk enters to the next (`Enters`). Main statements: the walk
over a built network ends at every state, with these bounds wherever it comes (`walk?_ends`), and so at
every state of a formed network the next kinds are defined (`Formed.exists_nextTokens?`).
-/

namespace ParseRecovery

namespace Network

/-- Lists of at most `length` numbers below `count`. -/
def boundedLists (count : Nat) : Nat → Finset (List Nat)
  | 0 => {[]}
  | length + 1 =>
      insert [] ((Finset.range count ×ˢ boundedLists count length).image fun p => p.1 :: p.2)

theorem mem_boundedLists {count length : Nat} {xs : List Nat} (hlength : xs.length ≤ length)
    (hxs : ∀ x ∈ xs, x < count) : xs ∈ boundedLists count length := by
  induction length generalizing xs with
  | zero =>
    rw [List.length_eq_zero_iff.mp (Nat.le_zero.mp hlength)]
    exact Finset.mem_singleton_self _
  | succ length ih =>
    cases xs with
    | nil => exact Finset.mem_insert_self _ _
    | cons x xs =>
      have hx : x ∈ Finset.range count := Finset.mem_range.mpr (hxs x List.mem_cons_self)
      have hrest : xs ∈ boundedLists count length := by
        refine ih (by simpa using hlength) fun y hy => hxs y (List.mem_cons_of_mem x hy)
      refine Finset.mem_insert_of_mem (Finset.mem_image.mpr ⟨(x, xs), ?_, rfl⟩)
      exact Finset.mem_product.mpr ⟨hx, hrest⟩

theorem card_boundedLists_le (count length : Nat) :
    (boundedLists count length).card ≤ (count + 1) ^ length := by
  induction length with
  | zero => simp [boundedLists]
  | succ length ih =>
    have hcons : ((Finset.range count ×ˢ boundedLists count length).image
        fun p => p.1 :: p.2).card ≤ count * (boundedLists count length).card := by
      refine Finset.card_image_le.trans ?_
      rw [Finset.card_product, Finset.card_range]
    have hpos : 1 ≤ (count + 1) ^ length := Nat.one_le_pow _ _ (Nat.succ_pos _)
    calc (boundedLists count (length + 1)).card
        ≤ count * (boundedLists count length).card + 1 :=
          (Finset.card_insert_le _ _).trans (Nat.add_le_add_right hcons 1)
      _ ≤ count * (count + 1) ^ length + (count + 1) ^ length :=
          Nat.add_le_add (Nat.mul_le_mul_left _ ih) hpos
      _ = (count + 1) ^ (length + 1) := by rw [Nat.pow_succ', Nat.succ_mul]

/-- The configurations that a walk can enter. -/
def configurations (n : Network) : Finset Configuration :=
  Finset.range n.states.size ×ˢ boundedLists n.states.size n.rules.size

/-- The configurations that a walk can still enter. -/
def unvisited (n : Network) (w : Walk) : Finset Configuration :=
  n.configurations.filter (· ∉ w.visited)

/-- Calls under way are of different declared rules, and no more returns are due than there are
calls under way. -/
structure Walk.Bounded (n : Network) (w : Walk) : Prop where
  nodup : w.called.Nodup
  declared : ∀ r ∈ w.called, r < n.rules.size
  returns_le : w.returns.length ≤ w.called.length
  returns_lt : ∀ s ∈ w.returns, s < n.states.size

variable {n : Network}

namespace Walk

theorem bounded_empty : Bounded n {} where
  nodup := List.nodup_nil
  declared := by simp
  returns_le := Nat.le_refl 0
  returns_lt := by simp

theorem Bounded.visit {w : Walk} (h : w.Bounded n) (s : StateId) : (w.visit s).Bounded n :=
  ⟨h.nodup, h.declared, h.returns_le, h.returns_lt⟩

theorem Bounded.enterCall {w : Walk} (h : w.Bounded n) {rule : RuleIndex} {follow : StateId}
    (hfree : rule ∉ w.called) (hrule : rule < n.rules.size) (hfollow : follow < n.states.size) :
    (w.enterCall rule follow).Bounded n where
  nodup := List.nodup_cons.mpr ⟨hfree, h.nodup⟩
  declared := List.forall_mem_cons.mpr ⟨hrule, h.declared⟩
  returns_le := Nat.succ_le_succ h.returns_le
  returns_lt := List.forall_mem_cons.mpr ⟨hfollow, h.returns_lt⟩

theorem Bounded.enterReturn {w : Walk} (h : w.Bounded n) (rule : RuleIndex) {follow : StateId}
    {rest : List StateId} (hdue : w.returns = follow :: rest) :
    (w.enterReturn rule rest).Bounded n where
  nodup := h.nodup.erase rule
  declared r hr := h.declared r (List.mem_of_mem_erase hr)
  returns_le := by
    have hle := h.returns_le
    rw [hdue, List.length_cons] at hle
    -- one return is taken away, and at most one call
    have herase := List.length_erase (a := rule) (l := w.called)
    change rest.length ≤ (w.called.erase rule).length
    split at herase <;> omega
  returns_lt s hs := h.returns_lt s (by rw [hdue]; exact List.mem_cons_of_mem follow hs)

theorem Bounded.congr {w w' : Walk} (h : w.Bounded n) (hreturns : w'.returns = w.returns)
    (hcalled : w'.called.Perm w.called) : w'.Bounded n where
  nodup := hcalled.nodup_iff.mpr h.nodup
  declared r hr := h.declared r (hcalled.mem_iff.mp hr)
  returns_le := by
    rw [hreturns, hcalled.length_eq]
    exact h.returns_le
  returns_lt := by
    rw [hreturns]
    exact h.returns_lt

theorem Bounded.called_le_rules {w : Walk} (h : w.Bounded n) : w.called.length ≤ n.rules.size := by
  have hsub : w.called ⊆ List.range n.rules.size := fun r hr =>
    List.mem_range.mpr (h.declared r hr)
  have hle := (List.subperm_of_subset h.nodup hsub).length_le
  rwa [List.length_range] at hle

theorem Bounded.returns_le_rules {w : Walk} (h : w.Bounded n) : w.returns.length ≤ n.rules.size :=
  h.returns_le.trans h.called_le_rules

theorem Bounded.mem_configurations {w : Walk} (h : w.Bounded n) {s : StateId}
    (hs : s < n.states.size) : (s, w.returns) ∈ n.configurations :=
  Finset.mem_product.mpr
    ⟨Finset.mem_range.mpr hs, mem_boundedLists h.returns_le_rules h.returns_lt⟩

end Walk

theorem card_unvisited_le {w w' : Walk} (h : w.visited ⊆ w'.visited) :
    (n.unvisited w').card ≤ (n.unvisited w).card := by
  refine Finset.card_le_card (Finset.monotone_filter_right _ ?_)
  exact fun c _ hc hmem => hc (h hmem)

theorem card_unvisited_visit_lt {w : Walk} (hw : w.Bounded n) {s : StateId}
    (hs : s < n.states.size) (hnew : (s, w.returns) ∉ w.visited) :
    (n.unvisited (w.visit s)).card < (n.unvisited w).card := by
  refine Finset.card_lt_card (Finset.ssubset_iff_subset_ne.mpr ⟨?_, ?_⟩)
  · exact Finset.monotone_filter_right _ fun c _ hc hmem => hc (List.mem_cons_of_mem _ hmem)
  · intro heq
    have hmem : (s, w.returns) ∈ n.unvisited w :=
      Finset.mem_filter.mpr ⟨hw.mem_configurations hs, hnew⟩
    rw [← heq] at hmem
    exact (Finset.mem_filter.mp hmem).2 List.mem_cons_self

theorem card_configurations_lt_walkDepth (n : Network) : n.configurations.card < n.walkDepth := by
  rw [configurations, Finset.card_product, Finset.card_range, walkDepth]
  exact Nat.lt_succ_of_le (Nat.mul_le_mul_left _ (card_boundedLists_le _ _))

/-! ## States entered on the way -/

/-- A state that a walk enters: the depth left there, and the walk so far. -/
structure Entry where
  depth : Nat
  state : StateId
  walk : Walk

/-- The walk after all that begins with the entry. -/
def Entry.after? (n : Network) (c : Entry) : Option Walk :=
  n.walk? c.depth c.state c.walk

/-- With which walk the target of an edge is entered: a call is added, unless one of the rule is under
way. -/
inductive Walk.Follows (w : Walk) (e : Edge) : Walk → Prop
  | silent (hsilent : e.label.isSilent = true) : Follows w e w
  | call {rule : RuleIndex} {follow : StateId} (hcall : e.label = .call rule follow)
      (hfree : rule ∉ w.called) : Follows w e (w.enterCall rule follow)

/-- At a state that was not visited yet, some of its edges have been walked. -/
inductive Underway (n : Network) : Entry → List Edge → Walk → Prop
  | edges {depth : Nat} {s : StateId} {st : State} {earlier later : List Edge} {w w₁ : Walk}
      (hnew : (s, w.returns) ∉ w.visited) (hst : n.state? s = some st)
      (hrole : st.role ≠ .ruleStop) (hedges : earlier ++ later = st.edges)
      (hearlier : earlier.foldlM (Walk.along? n.maxKind (n.walk? depth)) (w.visit s) = some w₁) :
      Underway n ⟨depth + 1, s, w⟩ later w₁

/-- From one state others are entered: from the stop of a rule the innermost follow state, from any
other state the targets of its edges, one after another. -/
inductive Enters (n : Network) : Entry → Entry → Prop
  | returned {depth : Nat} {s follow : StateId} {rest : List StateId} {st : State} {w : Walk}
      (hnew : (s, w.returns) ∉ w.visited) (hst : n.state? s = some st)
      (hstop : st.role = .ruleStop) (hdue : w.returns = follow :: rest) :
      Enters n ⟨depth + 1, s, w⟩ ⟨depth, follow, (w.visit s).enterReturn st.rule rest⟩
  | along {depth : Nat} {s : StateId} {e : Edge} {later : List Edge} {w w₁ w₂ : Walk}
      (hunder : n.Underway ⟨depth + 1, s, w⟩ (e :: later) w₁) (hfollows : w₁.Follows e w₂) :
      Enters n ⟨depth + 1, s, w⟩ ⟨depth, e.target, w₂⟩

/-- How a walk stands at an entry, outside of what is entered from there: as it comes, before and
behind each edge, and when all is done. -/
inductive Entry.Passes (n : Network) (c : Entry) : Walk → Prop
  | coming : Passes n c c.walk
  | underway {later : List Edge} {w : Walk} (hunder : n.Underway c later w) : Passes n c w
  | leaving {w : Walk} (hafter : c.after? n = some w) : Passes n c w

theorem Enters.depth_eq {c c' : Entry} (h : n.Enters c c') : c.depth = c'.depth + 1 := by
  cases h <;> rfl

theorem Underway.exists_explores {c : Entry} {later : List Edge} {w : Walk}
    (h : n.Underway c later w) : ∃ earlier,
      n.Explores (.follow c.state earlier) (c.walk.visit c.state) w := by
  cases h with
  | @edges depth s st earlier later w w₁ _ _ _ _ hearlier =>
    exact ⟨earlier, explores_of_foldlM (n.walk? depth) explores_of_walk? s hearlier⟩

theorem Underway.hasEdge {c : Entry} {e : Edge} {later : List Edge} {w : Walk}
    (h : n.Underway c (e :: later) w) : n.HasEdge c.state e := by
  cases h with
  | edges _ hst _ hedges => exact ⟨_, hst, by simp [← hedges]⟩

theorem Underway.not_mem_visited {c : Entry} {later : List Edge} {w : Walk}
    (h : n.Underway c later w) : (c.state, c.walk.returns) ∉ c.walk.visited := by
  cases h with
  | edges hnew => exact hnew

/-- At each entry a walk keeps the returns that are due and the calls under way. -/
theorem Entry.Passes.keeps {c : Entry} {w : Walk} (h : c.Passes n w) :
    w.returns = c.walk.returns ∧ w.called.Perm c.walk.called := by
  cases h with
  | coming => exact ⟨rfl, .refl _⟩
  | underway hunder =>
    obtain ⟨earlier, hexp⟩ := hunder.exists_explores
    exact ⟨hexp.returns_eq, hexp.called_perm⟩
  | leaving hafter =>
    have hexp : n.Explores (.enter c.state) c.walk w := explores_of_walk? hafter
    exact ⟨hexp.returns_eq, hexp.called_perm⟩

theorem Walk.Follows.visited_eq {w w₁ : Walk} {e : Edge} (h : w.Follows e w₁) :
    w₁.visited = w.visited := by
  cases h <;> rfl

theorem exists_along? (max : TokenKind) {enter : StateId → Walk → Option Walk} {e : Edge} {w : Walk}
    (henter : ∀ {w₁}, w.Follows e w₁ → ∃ w', enter e.target w₁ = some w') :
    ∃ w', Walk.along? max enter w e = some w' := by
  rcases e.label.cases_kinds max with ⟨rule, follow, hcall⟩ | ⟨kinds, hkinds⟩ | hsilent
  · rw [Walk.along?_call hcall]
    split
    · exact ⟨w, rfl⟩
    · rename_i hfree
      obtain ⟨w', hw'⟩ := henter (.call hcall hfree)
      exact ⟨w'.leaveCall rule, by rw [hw']; rfl⟩
  · exact ⟨_, Walk.along?_kinds hkinds⟩
  · rw [Walk.along?_silent hsilent]
    exact henter (.silent hsilent)

theorem Underway.step {depth : Nat} {s : StateId} {e : Edge} {later : List Edge} {w w₁ w₂ : Walk}
    (h : n.Underway ⟨depth + 1, s, w⟩ (e :: later) w₁)
    (hedge : Walk.along? n.maxKind (n.walk? depth) w₁ e = some w₂) :
    n.Underway ⟨depth + 1, s, w⟩ later w₂ := by
  cases h with
  | @edges _ _ st earlier _ _ _ hnew hst hrole hedges hearlier =>
    -- the edge joins those that have been walked
    have hsplit : (earlier ++ [e]) ++ later = st.edges := by simp [← hedges]
    refine .edges hnew hst hrole hsplit ?_
    rw [List.foldlM_append, hearlier]
    show [e].foldlM _ w₁ = some w₂
    rw [List.foldlM_cons, hedge]
    rfl

theorem Underway.exists_foldlM {depth : Nat} {s : StateId} {later : List Edge} {w w₁ : Walk}
    (h : n.Underway ⟨depth + 1, s, w⟩ later w₁)
    (henter : ∀ {c}, n.Enters ⟨depth + 1, s, w⟩ c → ∃ w', c.after? n = some w') :
    ∃ w', later.foldlM (Walk.along? n.maxKind (n.walk? depth)) w₁ = some w' := by
  induction later generalizing w₁ with
  | nil => exact ⟨w₁, rfl⟩
  | cons e later ih =>
    obtain ⟨w₂, hedge⟩ : ∃ w₂, Walk.along? n.maxKind (n.walk? depth) w₁ e = some w₂ :=
      exists_along? n.maxKind fun hfollows => henter (.along h hfollows)
    rw [List.foldlM_cons, hedge]
    exact ih (h.step hedge)

/-- A walk goes on as long as all that it enters does. -/
theorem exists_after?_of_enters {depth : Nat} {s : StateId} {w : Walk} (hs : s < n.states.size)
    (h : ∀ {c}, n.Enters ⟨depth + 1, s, w⟩ c → ∃ w', c.after? n = some w') :
    ∃ w', n.walk? (depth + 1) s w = some w' := by
  obtain ⟨st, hst⟩ := exists_state?_iff.mpr hs
  rw [walk?]
  split
  · exact ⟨w, rfl⟩
  · rename_i hseen
    rw [Walk.hasVisited_iff] at hseen
    simp only [hst]
    split
    · rename_i hstop
      split
      · exact ⟨_, rfl⟩
      · rename_i follow rest hdue
        obtain ⟨w', hw'⟩ : ∃ w', n.walk? depth follow _ = some w' :=
          h (.returned hseen hst hstop hdue)
        exact ⟨_, by rw [hw']; rfl⟩
    · rename_i hrole
      have hunder : n.Underway ⟨depth + 1, s, w⟩ st.edges (w.visit s) :=
        .edges hseen hst hrole (List.nil_append _) rfl
      exact hunder.exists_foldlM h

/-! ## What every entry keeps -/

theorem Walk.Bounded.follows {w w₁ : Walk} (h : w.Bounded n) (hn : n.Formed) {s : StateId} {e : Edge}
    (he : n.HasEdge s e) (hfollows : w.Follows e w₁) : w₁.Bounded n := by
  cases hfollows with
  | silent => exact h
  | call hcall hfree =>
    have hrule := lt_rules_of_ruleStart? (hn.ruleStart?_of_call he hcall)
    obtain ⟨st, hst, hmem⟩ := he
    exact h.enterCall hfree hrule (hn.follow_lt hst hmem hcall)

/-- The state is there, the walk so far is bounded, and there is more depth left than there are
configurations to enter. -/
structure Entry.Roomy (n : Network) (c : Entry) : Prop where
  state_lt : c.state < n.states.size
  bounded : c.walk.Bounded n
  room : (n.unvisited c.walk).card < c.depth

namespace Entry.Roomy

theorem enters (hn : n.Formed) {c c' : Entry} (h : c.Roomy n) (hc : n.Enters c c') :
    c'.Roomy n := by
  cases hc with
  | @returned depth s follow rest st w hnew hst hstop hdue =>
    refine ⟨h.bounded.returns_lt follow ?_, (h.bounded.visit s).enterReturn st.rule hdue, ?_⟩
    · show follow ∈ w.returns
      rw [hdue]
      exact List.mem_cons_self
    -- the visit takes a configuration away, which pays for the level of depth
    · exact Nat.lt_of_lt_of_le (card_unvisited_visit_lt h.bounded h.state_lt hnew)
        (Nat.lt_succ_iff.mp h.room)
  | @along depth s e later w w₁ w₂ hunder hfollows =>
    have he : n.HasEdge s e := hunder.hasEdge
    obtain ⟨earlier, hexp⟩ := hunder.exists_explores
    have hbounded : w₁.Bounded n := h.bounded.congr hexp.returns_eq hexp.called_perm
    refine ⟨?_, hbounded.follows hn he hfollows, ?_⟩
    · obtain ⟨st, hst, hmem⟩ := he
      exact hn.target_lt hst hmem
    · show (n.unvisited w₂).card < depth
      calc (n.unvisited w₂).card
          = (n.unvisited w₁).card := by rw [unvisited, hfollows.visited_eq, unvisited]
        _ ≤ (n.unvisited (w.visit s)).card := card_unvisited_le hexp.visited_subset
        _ < depth := Nat.lt_of_lt_of_le
            (card_unvisited_visit_lt h.bounded h.state_lt hunder.not_mem_visited)
            (Nat.lt_succ_iff.mp h.room)

theorem exists_after? (hn : n.Formed) {c : Entry} (h : c.Roomy n) : ∃ w', c.after? n = some w' := by
  obtain ⟨depth, s, w⟩ := c
  induction depth generalizing s w with
  | zero => exact absurd h.room (Nat.not_lt_zero _)
  | succ depth ih =>
    apply exists_after?_of_enters h.state_lt
    intro c hc
    obtain ⟨depth', s', w'⟩ := c
    obtain rfl : depth = depth' := Nat.succ.inj hc.depth_eq
    exact ih s' w' (h.enters hn hc)

theorem start {s : StateId} (hs : s < n.states.size) {depth : Nat} (hdepth : n.walkDepth ≤ depth) :
    Entry.Roomy n ⟨depth, s, {}⟩ where
  state_lt := hs
  bounded := Walk.bounded_empty
  room := Nat.lt_of_lt_of_le (Nat.lt_of_le_of_lt (Finset.card_le_card (Finset.filter_subset _ _))
    (card_configurations_lt_walkDepth n)) hdepth

end Entry.Roomy

theorem Formed.exists_nextTokens? (hn : n.Formed) {s : StateId} (hs : s < n.states.size) :
    ∃ next, n.nextTokens? s = some next := by
  obtain ⟨w, hw⟩ : ∃ w, n.walk? n.walkDepth s {} = some w :=
    (Entry.Roomy.start hs (Nat.le_refl _)).exists_after? hn
  exact ⟨w.found, by rw [nextTokens?, hw]; rfl⟩

theorem lt_states_of_nextTokens? {s : StateId} {next : KindSet} (h : n.nextTokens? s = some next) :
    s < n.states.size := by
  obtain ⟨w, hw, -⟩ := Option.map_eq_some_iff.mp h
  rw [walkDepth, walk?] at hw
  cases hstate : n.state? s with
  | none => simp [hstate, Walk.hasVisited] at hw
  | some state => exact exists_state?_iff.mp ⟨state, hstate⟩

/-! ## More depth changes nothing -/

theorem Walk.along?_mono {max : TokenKind} {enter enter' : StateId → Walk → Option Walk}
    (h : ∀ {s w w'}, enter s w = some w' → enter' s w = some w') {w w' : Walk} {e : Edge}
    (hw : Walk.along? max enter w e = some w') : Walk.along? max enter' w e = some w' := by
  rcases e.label.cases_kinds max with ⟨rule, follow, hcall⟩ | ⟨kinds, hkinds⟩ | hsilent
  · rw [Walk.along?_call hcall] at hw ⊢
    split at hw
    · rename_i hcalled
      rw [if_pos hcalled]
      exact hw
    · rename_i hfree
      obtain ⟨w₁, hin, rfl⟩ := Option.map_eq_some_iff.mp hw
      rw [if_neg hfree, h hin]
      rfl
  · rw [Walk.along?_kinds hkinds] at hw ⊢
    exact hw
  · rw [Walk.along?_silent hsilent] at hw ⊢
    exact h hw

theorem foldlM_along?_mono {max : TokenKind} {enter enter' : StateId → Walk → Option Walk}
    (h : ∀ {s w w'}, enter s w = some w' → enter' s w = some w') {es : List Edge} {w w' : Walk}
    (hw : es.foldlM (Walk.along? max enter) w = some w') :
    es.foldlM (Walk.along? max enter') w = some w' := by
  induction es generalizing w with
  | nil => exact hw
  | cons e es ih =>
    rw [List.foldlM_cons, Option.bind_eq_bind, Option.bind_eq_some_iff] at hw
    obtain ⟨w₁, hedge, hrest⟩ := hw
    rw [List.foldlM_cons, Walk.along?_mono h hedge]
    exact ih hrest

theorem walk?_mono {depth depth' : Nat} (hdepth : depth ≤ depth') {s : StateId} {w w' : Walk}
    (h : n.walk? depth s w = some w') : n.walk? depth' s w = some w' := by
  induction depth generalizing depth' s w w' with
  | zero => cases h
  | succ depth ih =>
    obtain ⟨deeper, rfl⟩ := Nat.exists_eq_add_of_lt hdepth
    have hle : depth ≤ depth + deeper := Nat.le_add_right depth deeper
    rw [walk?] at h ⊢
    split at h
    · rename_i hseen
      rw [if_pos hseen]
      exact h
    · rename_i hseen
      rw [if_neg hseen]
      cases hst : n.state? s with
      | none => simp only [hst, reduceCtorEq] at h
      | some st =>
        simp only [hst] at h ⊢
        split at h
        · rename_i hstop
          rw [if_pos hstop]
          split at h
          · exact h
          · obtain ⟨w₁, hin, rfl⟩ := Option.map_eq_some_iff.mp h
            rw [ih hle hin]
            rfl
        · rename_i hrole
          rw [if_neg hrole]
          exact foldlM_along?_mono (ih hle) h

/-! ## Walks end -/

/-- A lookahead walk over a built network ends at every state that there is, and more depth than its
own changes nothing. Whatever is entered on the way comes to an end, and leaves the returns that are due
and the calls under way as it found them. At no time are more returns due than there are rules with a
call under way, so no more than there are rules. -/
theorem walk?_ends (hbuilt : n.IsBuilt) {s : StateId} (hs : s < n.states.size) :
    (∃ w, ∀ depth, n.walkDepth ≤ depth → n.walk? depth s {} = some w) ∧
      ∀ depth c, n.walkDepth ≤ depth → Relation.ReflTransGen n.Enters ⟨depth, s, {}⟩ c →
        (∃ after, n.walk? c.depth c.state c.walk = some after) ∧
        ∀ w, c.Passes n w →
          (w.returns = c.walk.returns ∧ w.called.Perm c.walk.called) ∧
          (w.called.Nodup ∧ ∀ r ∈ w.called, r < n.rules.size) ∧
          w.returns.length ≤ w.called.length ∧ w.called.length ≤ n.rules.size := by
  have hn := hbuilt.formed
  constructor
  · obtain ⟨w, hw⟩ := (Entry.Roomy.start hs (Nat.le_refl _)).exists_after? hn
    exact ⟨w, fun depth hdepth => walk?_mono hdepth hw⟩
  · intro depth c hdepth hreach
    have hroomy : c.Roomy n := by
      induction hreach with
      | refl => exact .start hs hdepth
      | tail _ henters ih => exact ih.enters hn henters
    refine ⟨hroomy.exists_after? hn, fun w hpasses => ?_⟩
    obtain ⟨hreturns, hcalled⟩ := hpasses.keeps
    have hbounded := hroomy.bounded.congr hreturns hcalled
    exact ⟨⟨hreturns, hcalled⟩, ⟨hbounded.nodup, hbounded.declared⟩, hbounded.returns_le,
      hbounded.called_le_rules⟩

/-! ### A network whose rules end in each other -/

/-- `outer` calls `inner`, which calls itself first, can go round in a circle and can end where `outer`
does. -/
def tangledNetwork : Network where
  states := #[⟨0, .ruleStart, 0, [⟨.call 1 1, 2⟩]⟩, ⟨1, .ruleStop, 0, []⟩,
    ⟨2, .ruleStart, 1, [⟨.call 1 3, 2⟩, ⟨.epsilon, 4⟩]⟩, ⟨3, .ruleStop, 1, []⟩,
    ⟨4, .basic, 1, [⟨.epsilon, 2⟩, ⟨.token 1, 3⟩, ⟨.epsilon, 1⟩]⟩]
  rules := #[⟨"outer", 0, 1⟩, ⟨"inner", 2, 3⟩]
  maxKind := 1

theorem isBuilt_tangledNetwork : tangledNetwork.IsBuilt :=
  ⟨1, [.rule "outer", .rule "inner", .state 1 .basic, .call 0 1 1, .call 2 1 3, .edge 2 ⟨.epsilon, 4⟩,
    .edge 4 ⟨.epsilon, 2⟩, .edge 4 ⟨.token 1, 3⟩, .edge 4 ⟨.epsilon, 1⟩], rfl⟩

theorem walk?_ends_tangledNetwork :
    tangledNetwork.IsBuilt ∧ 0 < tangledNetwork.states.size ∧
      (∃ w, ∀ depth, tangledNetwork.walkDepth ≤ depth → tangledNetwork.walk? depth 0 {} = some w) ∧
      ∀ depth c, tangledNetwork.walkDepth ≤ depth →
        Relation.ReflTransGen tangledNetwork.Enters ⟨depth, 0, {}⟩ c →
        (∃ after, tangledNetwork.walk? c.depth c.state c.walk = some after) ∧
        ∀ w, c.Passes tangledNetwork w →
          (w.returns = c.walk.returns ∧ w.called.Perm c.walk.called) ∧
          (w.called.Nodup ∧ ∀ r ∈ w.called, r < 2) ∧
          w.returns.length ≤ w.called.length ∧ w.called.length ≤ 2 := by
  have hs : 0 < tangledNetwork.states.size := by decide
  exact ⟨isBuilt_tangledNetwork, hs, walk?_ends isBuilt_tangledNetwork hs⟩

end Network

end ParseRecovery
