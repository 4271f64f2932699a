import ParseRecovery.Proofs.Network.Formed

/-!
Which edges a built network has. A step that asks for an edge is heeded if the source of the edge has
been made by then (`Builder.heeds`). Otherwise nothing is done and nothing is noted, so building cannot
report it, although it does report an edge that leads to a state that is never made. Main statement: the
edges of a built network are those that the heeded steps asked for, in order, and these are all edges
that were asked for only if every source was made before its edges (`Builder.build_keeps_heeded`).
-/

namespace ParseRecovery

namespace Network

/-- The edges from a state among all that were asked for with their sources, in order. -/
def edgesFrom (s : StateId) (asked : List (StateId × Edge)) : List Edge :=
  (asked.filter fun ask => ask.1 = s).map Prod.snd

@[simp]
theorem edgesFrom_nil (s : StateId) : edgesFrom s [] = [] :=
  rfl

@[simp]
theorem edgesFrom_append (s : StateId) (asked more : List (StateId × Edge)) :
    edgesFrom s (asked ++ more) = edgesFrom s asked ++ edgesFrom s more := by
  simp [edgesFrom]

theorem edgesFrom_cons_self (s : StateId) (e : Edge) (asked : List (StateId × Edge)) :
    edgesFrom s ((s, e) :: asked) = e :: edgesFrom s asked := by
  simp [edgesFrom]

theorem edgesFrom_eq_nil {s : StateId} {asked : List (StateId × Edge)}
    (h : ∀ ask ∈ asked, ask.1 ≠ s) : edgesFrom s asked = [] := by
  simpa [edgesFrom] using h

/-- The states have the edges that were asked for, each at its source in the order of asking, and no
others. -/
structure Keeps (states : Array State) (asked : List (StateId × Edge)) : Prop where
  source_lt : ∀ ask ∈ asked, ask.1 < states.size
  edges_eq : ∀ {s : StateId} {st : State}, states[s]? = some st → st.edges = edgesFrom s asked

namespace Builder

/-- The edge that the step asks for, with its source. -/
def asks? (b : Builder) : Step → Option (StateId × Edge)
  | .rule _ => none
  | .state _ _ => none
  | .edge source edge => some (source, edge)
  | .call source rule follow => some (source, b.callEdge rule follow)

/-- The edges that the steps ask for, in order. Where a call leads depends on the rules declared so far. -/
def asked (b : Builder) : List Step → List (StateId × Edge)
  | [] => []
  | step :: steps => (b.asks? step).toList ++ (b.perform step).asked steps

/-- If the step asks for an edge, then its source has been made. -/
def heeds (b : Builder) (step : Step) : Bool :=
  (b.asks? step).all fun ask => b.knows ask.1

/-- The steps without those that ask for an edge in vain. -/
def heeded (b : Builder) : List Step → List Step
  | [] => []
  | step :: steps =>
      if b.heeds step then step :: (b.perform step).heeded steps else b.heeded steps

variable {b : Builder} {step : Step} {steps : List Step}

theorem perform_of_asks? {source : StateId} {e : Edge} (h : b.asks? step = some (source, e)) :
    b.perform step = b.addEdge source e := by
  cases step with
  | edge | call =>
    cases h
    rfl
  | rule | state => cases h

theorem exists_ask_of_not_heeds (h : ¬ b.heeds step = true) :
    ∃ source e, b.asks? step = some (source, e) ∧ b.states.size ≤ source := by
  unfold heeds at h
  cases hask : b.asks? step with
  | none => simp [hask] at h
  | some ask => exact ⟨ask.1, ask.2, rfl, by simpa [hask, knows] using h⟩

/-! ## Steps that are not heeded -/

theorem addEdge_of_size_le {source : StateId} (h : b.states.size ≤ source) (e : Edge) :
    b.addEdge source e = b := by
  have hsame : (b.states.modify source fun s => { s with edges := s.edges ++ [e] }) = b.states := by
    apply Array.toList_inj.mp
    rw [Array.toList_modify, List.modify_eq_self (by simpa using h)]
  rw [addEdge, hsame]

theorem perform_of_not_heeds (h : ¬ b.heeds step = true) : b.perform step = b := by
  obtain ⟨source, e, hask, hsize⟩ := exists_ask_of_not_heeds h
  rw [perform_of_asks? hask, addEdge_of_size_le hsize]

theorem run_heeded (b : Builder) (steps : List Step) : b.run (b.heeded steps) = b.run steps := by
  induction steps generalizing b with
  | nil => rfl
  | cons step steps ih =>
    rw [heeded]
    split
    · exact ih (b.perform step)
    · rename_i hvain
      calc b.run (b.heeded steps)
          = b.run steps := ih b
        _ = (b.perform step).run steps := by rw [perform_of_not_heeds hvain]

theorem heeded_sublist (b : Builder) (steps : List Step) : (b.heeded steps).Sublist steps := by
  induction steps generalizing b with
  | nil => exact .slnil
  | cons step steps ih =>
    rw [heeded]
    split
    · exact (ih (b.perform step)).cons_cons step
    · exact (ih b).cons step

/-- All steps are heeded exactly if each one is when it is taken. -/
theorem heeded_eq_self_iff : b.heeded steps = steps ↔
    ∀ earlier step later, steps = earlier ++ step :: later → (b.run earlier).heeds step := by
  induction steps generalizing b with
  | nil => simp [heeded]
  | cons first rest ih =>
    by_cases hfirst : b.heeds first = true
    · rw [heeded, if_pos hfirst, List.cons_inj_right, ih]
      constructor
      · intro h earlier step later hsplit
        rcases List.cons_eq_append_iff.mp hsplit with ⟨rfl, hhead⟩ | ⟨earlier', rfl, hrest⟩
        · cases hhead
          exact hfirst
        · exact h earlier' step later hrest
      · intro h earlier step later hsplit
        exact h (first :: earlier) step later (by rw [hsplit, List.cons_append])
    · have hdropped : b.heeded (first :: rest) ≠ first :: rest := by
        intro hall
        have hle := (heeded_sublist b rest).length_le
        rw [heeded, if_neg hfirst] at hall
        rw [hall, List.length_cons] at hle
        omega
      exact iff_of_false hdropped fun h => hfirst (h [] first rest rfl)

/-! ## What is kept -/

theorem keeps_new (maxKind : TokenKind) : Keeps (new maxKind).states [] where
  source_lt ask h := by cases h
  edges_eq h := by simp [new] at h

theorem keeps_addState {kept : List (StateId × Edge)} (h : Keeps b.states kept) (rule : RuleIndex)
    (role : Role) : Keeps (b.addState rule role).states kept where
  source_lt ask hask := by
    rw [addState, Array.size_push]
    exact Nat.lt_succ_of_lt (h.source_lt ask hask)
  edges_eq {s st} hst := by
    rw [addState, Array.getElem?_push] at hst
    split at hst
    · rename_i hlast
      cases hst
      rw [hlast, edgesFrom_eq_nil fun ask hask => Nat.ne_of_lt (h.source_lt ask hask)]
    · exact h.edges_eq hst

theorem keeps_addEdge {kept : List (StateId × Edge)} (h : Keeps b.states kept) {source : StateId}
    (hsource : source < b.states.size) (e : Edge) :
    Keeps (b.addEdge source e).states (kept ++ [(source, e)]) where
  source_lt ask hask := by
    rw [addEdge, Array.size_modify]
    rcases List.mem_append.mp hask with hask | hask
    · exact h.source_lt ask hask
    · cases List.mem_singleton.mp hask
      exact hsource
  edges_eq {s st} hst := by
    rw [edgesFrom_append]
    rw [addEdge, Array.getElem?_modify] at hst
    split at hst
    · rename_i hs
      subst hs
      obtain ⟨old, hold, rfl⟩ := Option.map_eq_some_iff.mp hst
      rw [edgesFrom_cons_self, edgesFrom_nil, ← h.edges_eq hold]
    · rename_i hs
      rw [edgesFrom_eq_nil (show ∀ ask ∈ [(source, e)], ask.1 ≠ s by simpa using hs), List.append_nil]
      exact h.edges_eq hst

/-- A step that is heeded adds the edge it asks for, and touches no other. -/
theorem keeps_perform {kept : List (StateId × Edge)} (h : Keeps b.states kept)
    (hheeds : b.heeds step = true) :
    Keeps (b.perform step).states (kept ++ (b.asks? step).toList) := by
  have hknown : ∀ {source e}, b.asks? step = some (source, e) → source < b.states.size := by
    intro source e hask
    simpa [heeds, hask, knows] using hheeds
  cases step with
  | rule name =>
    rw [asks?, Option.toList_none, List.append_nil]
    exact keeps_addState (keeps_addState h _ _) _ _
  | state rule role =>
    rw [asks?, Option.toList_none, List.append_nil]
    exact keeps_addState h rule role
  | edge source e => exact keeps_addEdge h (hknown rfl) e
  | call source rule follow => exact keeps_addEdge h (hknown rfl) _

theorem keeps_run {kept : List (StateId × Edge)} (h : Keeps b.states kept) (steps : List Step) :
    Keeps (b.run (b.heeded steps)).states (kept ++ b.asked (b.heeded steps)) := by
  -- what was kept before these steps is carried along, since their edges come after it
  induction steps generalizing b kept with
  | nil => simpa [heeded, asked, run] using h
  | cons step steps ih =>
    rw [heeded]
    split
    · rename_i hheeds
      rw [asked, ← List.append_assoc]
      exact ih (keeps_perform h hheeds)
    · exact ih h

/-! ## What is lost -/

theorem asked_heeded_sublist (b : Builder) (steps : List Step) :
    (b.asked (b.heeded steps)).Sublist (b.asked steps) := by
  induction steps generalizing b with
  | nil => exact .slnil
  | cons step steps ih =>
    rw [heeded, asked]
    split
    · exact (ih (b.perform step)).append_left _
    · rename_i hvain
      rw [perform_of_not_heeds hvain]
      exact (ih b).trans (List.sublist_append_right _ _)

/-- If a step is not heeded, then some state has fewer edges than were asked for. -/
theorem exists_lost (h : b.heeded steps ≠ steps) : ∃ ask ∈ b.asked steps,
    (edgesFrom ask.1 (b.asked (b.heeded steps))).length <
      (edgesFrom ask.1 (b.asked steps)).length := by
  induction steps generalizing b with
  | nil => exact absurd rfl h
  | cons step steps ih =>
    by_cases hstep : b.heeds step = true
    · rw [heeded, if_pos hstep] at h ⊢
      obtain ⟨ask, hask, hlost⟩ := ih fun hrest => h (by rw [hrest])
      refine ⟨ask, List.mem_append_right _ hask, ?_⟩
      simpa only [asked, edgesFrom_append, List.length_append] using Nat.add_lt_add_left hlost _
    · obtain ⟨source, e, hask, -⟩ := exists_ask_of_not_heeds hstep
      have hasked : b.asked (step :: steps) = (source, e) :: b.asked steps := by
        rw [asked, hask, perform_of_not_heeds hstep]
        rfl
      refine ⟨(source, e), by simp [hasked], ?_⟩
      have hle : (edgesFrom source (b.asked (b.heeded steps))).length ≤
          (edgesFrom source (b.asked steps)).length :=
        (((asked_heeded_sublist b steps).filter _).map Prod.snd).length_le
      rw [heeded, if_neg hstep, hasked, edgesFrom_cons_self, List.length_cons]
      exact Nat.lt_succ_of_le hle

/-- If a network has been built, then leaving out the steps that were not heeded gives the same. Its states
have exactly the edges that the others asked for, in order. These are all edges that were asked for if
and only if every source was made before its edges. -/
theorem build_keeps_heeded (maxKind : TokenKind) (steps : List Step) {n : Network}
    (h : ((new maxKind).run steps).build = .ok n) :
    ((new maxKind).run ((new maxKind).heeded steps)).build = .ok n ∧
    Keeps n.states ((new maxKind).asked ((new maxKind).heeded steps)) ∧
    (Keeps n.states ((new maxKind).asked steps) ↔
      ∀ earlier step later, steps = earlier ++ step :: later →
        ((new maxKind).run earlier).heeds step) := by
  have hkept : Keeps n.states ((new maxKind).asked ((new maxKind).heeded steps)) := by
    obtain ⟨rfl, -⟩ := build_eq_ok h
    have hrun := keeps_run (keeps_new maxKind) steps
    rwa [run_heeded, List.nil_append] at hrun
  refine ⟨by rwa [run_heeded], hkept, ?_⟩
  rw [← heeded_eq_self_iff]
  constructor
  · intro hall
    refine Decidable.byContradiction fun hdropped => ?_
    obtain ⟨ask, hask, hlost⟩ := exists_lost hdropped
    -- the source has been made in the end, so that its edges can be compared
    have hst := Array.getElem?_eq_getElem (hall.source_lt ask hask)
    rw [← hall.edges_eq hst, ← hkept.edges_eq hst] at hlost
    exact Nat.lt_irrefl _ hlost
  · intro hheeded
    rwa [hheeded] at hkept

/-- `pair : NAME (PLUS | SEMI)`. The state after `NAME` is made after an edge that leads to it, which is
kept, and after the first of its own edges, which is not. -/
def lostSteps : List Step :=
  [.rule "pair", .edge 0 ⟨.token 1, 2⟩, .edge 2 ⟨.token 2, 1⟩, .state 0 .basic, .edge 2 ⟨.token 3, 1⟩]

def lostNetwork : Network where
  states := #[⟨0, .ruleStart, 0, [⟨.token 1, 2⟩]⟩, ⟨1, .ruleStop, 0, []⟩,
    ⟨2, .basic, 0, [⟨.token 3, 1⟩]⟩]
  rules := #[⟨"pair", 0, 1⟩]
  maxKind := 3

theorem build_keeps_heeded_lostSteps :
    ((new 3).run lostSteps).build = .ok lostNetwork ∧
    Keeps lostNetwork.states [(0, ⟨.token 1, 2⟩), (2, ⟨.token 3, 1⟩)] :=
  ⟨rfl, (build_keeps_heeded 3 lostSteps rfl).2.1⟩

/-- Building does not keep every edge that was asked for, nor report what it does not keep. -/
theorem not_keeps_lostSteps :
    ((new 3).run lostSteps).build = .ok lostNetwork ∧
    ¬ Keeps lostNetwork.states ((new 3).asked lostSteps) := by
  refine ⟨rfl, fun h => ?_⟩
  have hedges : [⟨.token 3, 1⟩] = [⟨.token 2, 1⟩, (⟨.token 3, 1⟩ : Edge)] := h.edges_eq (s := 2) rfl
  cases hedges

end Builder

end Network

end ParseRecovery
