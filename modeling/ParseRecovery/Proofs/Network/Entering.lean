import ParseRecovery.Proofs.Network.Expected

/-!
What can come next before a rule is entered and after. A walk from a state whose only edge calls a
rule goes through the rule with that call under way, so it cuts calls of the rule that a walk from
the rule's start follows once (`SpareMove`). The calls that are cut lead back to the start with more
returns due, so what can be consumed is the same if the rule does not end without consuming a token,
and there are none of them if the rule is not left-recursive.

Main statement: to enter a rule loses no expected kind, and adds none unless the rule is both nullable
and left-recursive (`OnlyCall.expectedTokens?`).
-/

namespace ParseRecovery

namespace Network

/-- A silent step that calls no pending rule, and not the rule `r` either. -/
inductive SpareMove (n : Network) (r : RuleIndex) : Configuration → Configuration → Prop
  | silent {s : StateId} {e : Edge} {returns : List StateId} (he : n.HasEdge s e)
      (hsilent : e.label.isSilent = true) : SpareMove n r (s, returns) (e.target, returns)
  | call {s : StateId} {e : Edge} {returns : List StateId} {rule : RuleIndex} {follow : StateId}
      (he : n.HasEdge s e) (hcall : e.label = .call rule follow)
      (hfree : rule ∉ n.pending s returns) (hspared : rule ≠ r) :
      SpareMove n r (s, returns) (e.target, follow :: returns)
  | ret {s follow : StateId} {returns : List StateId} (hs : n.IsStop s) :
      SpareMove n r (s, follow :: returns) (follow, returns)

/-- Any number of silent steps that call no pending rule and not the rule `r`. -/
abbrev SpareReaches (n : Network) (r : RuleIndex) : Configuration → Configuration → Prop :=
  Relation.ReflTransGen (n.SpareMove r)

variable {n : Network} {r : RuleIndex}

theorem CutMove.move {c c' : Configuration} (h : n.CutMove c c') : n.Move c c' := by
  cases h with
  | silent he hsilent => exact .silent he hsilent
  | call he hcall _ => exact .call he hcall
  | ret hs => exact .ret hs

theorem CutReaches.reaches {c c' : Configuration} (h : n.CutReaches c c') : n.Reaches c c' :=
  Relation.ReflTransGen.mono (fun _ _ => CutMove.move) _ _ h

theorem SpareMove.cutMove {c c' : Configuration} (h : n.SpareMove r c c') : n.CutMove c c' := by
  cases h with
  | silent he hsilent => exact .silent he hsilent
  | call he hcall hfree _ => exact .call he hcall hfree
  | ret hs => exact .ret hs

theorem SpareReaches.cutReaches {c c' : Configuration} (h : n.SpareReaches r c c') :
    n.CutReaches c c' :=
  Relation.ReflTransGen.mono (fun _ _ => SpareMove.cutMove) _ _ h

/-! ## Below a call -/

theorem pending_append_subset (s : StateId) (above below : List StateId) :
    n.pending s above ⊆ n.pending s (above ++ below) := by
  induction above generalizing s with
  | nil => exact List.nil_subset _
  | cons follow above ih =>
    rw [List.cons_append, pending, pending]
    exact List.append_subset.mpr ⟨List.subset_append_left _ _,
      List.subset_append_of_subset_right _ (ih follow)⟩

section Below

variable (hn : n.Formed) (hscoped : n.Scoped) {t : StateId} (ht : n.ruleOf? t = some r)
include hn hscoped ht

/-- Below a call of `r` one more rule is pending, and that is `r`. -/
theorem SpareReaches.pending_append {c : Configuration} (h : n.SpareReaches r (t, []) c)
    (f : StateId) : n.pending c.1 (c.2 ++ [f]) = n.pending c.1 c.2 ++ [r] := by
  induction h with
  | refl => simp [pending, ht]
  | tail _ hmove ih =>
    cases hmove with
    | silent he hsilent =>
      rw [pending_congr (hscoped.ruleOf?_target he hsilent),
        pending_congr (hscoped.ruleOf?_target he hsilent)]
      exact ih
    | call he hcall _ _ =>
      rw [List.cons_append, pending_call hn hscoped he hcall, pending_call hn hscoped he hcall,
        List.cons_append]
      exact congrArg _ ih
    | ret hs =>
      simp only [List.cons_append, pending, List.append_assoc] at ih
      exact List.append_cancel_left ih

theorem SpareReaches.below {c : Configuration} (h : n.SpareReaches r (t, []) c) (f : StateId) :
    n.CutReaches (t, [f]) (c.1, c.2 ++ [f]) := by
  induction h with
  | refl => exact .refl
  | tail hreach hmove ih =>
    have hpending := SpareReaches.pending_append hn hscoped ht hreach f
    cases hmove with
    | silent he hsilent => exact ih.tail (.silent he hsilent)
    | call he hcall hfree hspared =>
      refine ih.tail (.call he hcall ?_)
      rw [hpending, List.mem_append, List.mem_singleton, not_or]
      exact ⟨hfree, hspared⟩
    | ret hs => exact ih.tail (.ret hs)

/-- What is reached below a call of `r` is reached in it without another call of `r`, or behind it
after its end was reached so. -/
theorem CutReaches.of_below {f : StateId} {c : Configuration} (h : n.CutReaches (t, [f]) c) :
    (∃ x due, c = (x, due ++ [f]) ∧ n.SpareReaches r (t, []) (x, due)) ∨
      ∃ u, n.SpareReaches r (t, []) (u, []) ∧ n.IsStop u ∧ n.CutReaches (f, []) c := by
  induction h with
  | refl => exact .inl ⟨t, [], rfl, .refl⟩
  | tail _ hmove ih =>
    rcases ih with ⟨x, due, rfl, hin⟩ | ⟨u, hin, hu, hbehind⟩
    · have hpending := SpareReaches.pending_append hn hscoped ht hin f
      generalize hc : (x, due ++ [f]) = c at hmove
      cases hmove with
      | silent he hsilent =>
        cases hc
        exact .inl ⟨_, due, rfl, hin.tail (.silent he hsilent)⟩
      | call he hcall hfree =>
        cases hc
        rw [hpending, List.mem_append, List.mem_singleton, not_or] at hfree
        exact .inl ⟨_, _ :: due, rfl, hin.tail (.call he hcall hfree.1 hfree.2)⟩
      | ret hs =>
        obtain ⟨rfl, hdue⟩ := Prod.mk.inj hc
        -- the return was due in the call, or it is the return of the call
        cases due with
        | nil =>
          obtain ⟨rfl, rfl⟩ := List.cons.inj hdue
          exact .inr ⟨x, hin, hs, .refl⟩
        | cons follow due =>
          obtain ⟨rfl, rfl⟩ := List.cons.inj hdue
          exact .inl ⟨_, due, rfl, hin.tail (.ret hs)⟩
    · exact .inr ⟨u, hin, hu, hbehind.tail hmove⟩

end Below

/-! ## What is spared is not missed -/

section Spared

variable {t : StateId} (ht : n.ruleStart? r = some t)
include ht

theorem CutReaches.spareReaches (hr : ¬ n.LeftRecursive r) {c : Configuration}
    (h : n.CutReaches (t, []) c) : n.SpareReaches r (t, []) c := by
  induction h with
  | refl => exact .refl
  | tail hreach hmove ih =>
    cases hmove with
    | silent he hsilent => exact ih.tail (.silent he hsilent)
    | call he hcall hfree =>
      refine ih.tail (.call he hcall hfree ?_)
      rintro rfl
      exact hr ⟨t, _, _, _, ht, CutReaches.reaches hreach, he, hcall⟩
    | ret hs => exact ih.tail (.ret hs)

/-- Where a rule that is not nullable calls itself again, it starts over with more returns due, and
none of them is ever taken. -/
theorem CutReaches.exists_spareReaches (hn : n.Formed) (hr : ¬ n.Nullable r) {c : Configuration}
    (h : n.CutReaches (t, []) c) :
    ∃ above below, c.2 = above ++ below ∧ n.SpareReaches r (t, []) (c.1, above) := by
  induction h with
  | refl => exact ⟨[], [], rfl, .refl⟩
  | tail _ hmove ih =>
    obtain ⟨above, below, hdue, hin⟩ := ih
    cases hmove with
    | silent he hsilent => exact ⟨above, below, hdue, hin.tail (.silent he hsilent)⟩
    | @call s e returns rule follow he hcall hfree =>
      obtain rfl : returns = above ++ below := hdue
      by_cases hspared : rule = r
      · have hstart := hn.ruleStart?_of_call he hcall
        rw [hspared, ht] at hstart
        cases hstart
        exact ⟨[], follow :: (above ++ below), rfl, .refl⟩
      · have hfree' : rule ∉ n.pending s above := fun hmem =>
          hfree (pending_append_subset s above below hmem)
        exact ⟨follow :: above, below, rfl, hin.tail (.call he hcall hfree' hspared)⟩
    | @ret s follow returns hs =>
      cases above with
      | nil => exact absurd ⟨t, (s, []), ht, hin.cutReaches.reaches, hs, rfl⟩ hr
      | cons f above =>
        obtain ⟨rfl, rfl⟩ := List.cons.inj hdue
        exact ⟨above, below, rfl, hin.tail (.ret hs)⟩

theorem CutReaches.exists_above (hn : n.Formed) (hr : ¬ (n.Nullable r ∧ n.LeftRecursive r))
    {x : StateId} {due : List StateId} (h : n.CutReaches (t, []) (x, due)) :
    ∃ above, n.SpareReaches r (t, []) (x, above) := by
  by_cases hrecursive : n.LeftRecursive r
  · have hnullable : ¬ n.Nullable r := fun hnullable => hr ⟨hnullable, hrecursive⟩
    obtain ⟨above, -, -, hin⟩ := CutReaches.exists_spareReaches ht hn hnullable h
    exact ⟨above, hin⟩
  · exact ⟨due, CutReaches.spareReaches ht hrecursive h⟩

-- a rule that can end is nullable, so nothing is spared in it
theorem CutReaches.spareReaches_of_isStop (hr : ¬ (n.Nullable r ∧ n.LeftRecursive r)) {u : StateId}
    (hu : n.IsStop u) (h : n.CutReaches (t, []) (u, [])) : n.SpareReaches r (t, []) (u, []) := by
  have hnullable : n.Nullable r := ⟨t, (u, []), ht, CutReaches.reaches h, hu, rfl⟩
  exact CutReaches.spareReaches ht (fun hrecursive => hr ⟨hnullable, hrecursive⟩) h

end Spared

/-! ## The next kinds of a call -/

/-- The only edge of a state calls a rule. -/
structure OnlyCall (n : Network) (s : StateId) (e : Edge) (r : RuleIndex) (f : StateId) : Prop where
  hasEdge_iff : ∀ {e'}, n.HasEdge s e' ↔ e' = e
  label_eq : e.label = .call r f

/-- A kind comes next in a call: it is one of the next kinds inside, or the end can be reached there
and it is one of those behind. -/
def ComesNext (inside behind : KindSet) (k : TokenKind) : Prop :=
  k ≠ .epsilon ∧ k ∈ inside ∨ .epsilon ∈ inside ∧ k ∈ behind

theorem onlyCall_of_edges {s : StateId} {st : State} {e : Edge} {f : StateId}
    (hst : n.state? s = some st) (honly : st.edges = [e]) (hcall : e.label = .call r f) :
    n.OnlyCall s e r f where
  label_eq := hcall
  hasEdge_iff {e'} := by
    constructor
    · rintro ⟨st', hst', hmem⟩
      cases hst.symm.trans hst'
      rw [honly] at hmem
      exact List.mem_singleton.mp hmem
    · rintro rfl
      exact ⟨st, hst, by simp [honly]⟩

namespace OnlyCall

variable {s : StateId} {e : Edge} {f : StateId} (h : n.OnlyCall s e r f)
include h

theorem hasEdge : n.HasEdge s e :=
  h.hasEdge_iff.mpr rfl

theorem not_emits (hn : n.Formed) (k : TokenKind) : ¬ n.Emits (s, []) k := by
  rintro (⟨e', kinds, he, hkinds, -⟩ | ⟨-, hstop, -⟩)
  · rw [h.hasEdge_iff.mp he, h.label_eq] at hkinds
    cases hkinds
  · exact hn.not_hasEdge_of_isStop hstop e h.hasEdge

theorem cutReaches_iff {c : Configuration} :
    n.CutReaches (s, []) c ↔ c = (s, []) ∨ n.CutReaches (e.target, [f]) c := by
  constructor
  · intro hreach
    rcases Relation.ReflTransGen.cases_head hreach with rfl | ⟨c', hmove, hrest⟩
    · exact .inl rfl
    · cases hmove with
      | silent he hsilent =>
        rw [h.hasEdge_iff.mp he, h.label_eq] at hsilent
        cases hsilent
      | call he hcall =>
        cases h.hasEdge_iff.mp he
        cases h.label_eq.symm.trans hcall
        exact .inr hrest
  · rintro (rfl | hreach)
    · exact .refl
    · exact .head (.call h.hasEdge h.label_eq List.not_mem_nil) hreach

variable (hn : n.Formed) (hscoped : n.Scoped) (hclean : ¬ n.CanConsume e.target .epsilon)
  {next inside behind : KindSet} (hnext : n.nextTokens? s = some next)
  (hinside : n.nextTokens? e.target = some inside) (hbehind : n.nextTokens? f = some behind)
include hn hscoped hclean hnext hinside hbehind

theorem comesNext_of_mem {k : TokenKind} (hk : k ∈ next) : ComesNext inside behind k := by
  have ht : n.ruleOf? e.target = some r := hn.ruleOf?_call_target h.hasEdge h.label_eq
  obtain ⟨c, hreach, hemits⟩ := (mem_nextTokens?_iff_cutReaches hn hscoped hnext).mp hk
  rcases h.cutReaches_iff.mp hreach with rfl | hreach
  · exact absurd hemits (h.not_emits hn k)
  · rcases CutReaches.of_below hn hscoped ht hreach with ⟨x, due, rfl, hin⟩ | ⟨u, hin, hu, hreach⟩
    · rcases hemits with hoffers | ⟨-, hend⟩
      · have hoffers' : n.Offers (x, due) k := hoffers.of_state due
        have hmem := emits_mem_nextTokens? hn hscoped hinside hin.cutReaches (.inl hoffers')
        refine .inl ⟨?_, hmem⟩
        rintro rfl
        exact hclean ⟨(x, due), hin.cutReaches.reaches, hoffers'⟩
      · exact absurd hend not_atEnd_append_cons
    · exact .inr ⟨emits_mem_nextTokens? hn hscoped hinside hin.cutReaches (.inr ⟨rfl, hu, rfl⟩),
        emits_mem_nextTokens? hn hscoped hbehind hreach hemits⟩

theorem mem_of_comesNext (hr : ¬ (n.Nullable r ∧ n.LeftRecursive r)) {k : TokenKind}
    (hk : ComesNext inside behind k) : k ∈ next := by
  have ht : n.ruleOf? e.target = some r := hn.ruleOf?_call_target h.hasEdge h.label_eq
  have hstart : n.ruleStart? r = some e.target := hn.ruleStart?_of_call h.hasEdge h.label_eq
  have hgoes : ∀ {c}, n.CutReaches (e.target, [f]) c → n.Emits c k → k ∈ next := fun hreach hemits =>
    emits_mem_nextTokens? hn hscoped hnext (h.cutReaches_iff.mpr (.inr hreach)) hemits
  rcases hk with ⟨hne, hk⟩ | ⟨hend, hk⟩
  · obtain ⟨⟨x, due⟩, hreach, hemits⟩ := (mem_nextTokens?_iff_cutReaches hn hscoped hinside).mp hk
    -- what is offered does not depend on the returns that are due
    have hoffers : n.Offers (x, due) k := hemits.resolve_right fun hend => hne hend.1
    obtain ⟨above, hin⟩ := CutReaches.exists_above hstart hn hr hreach
    exact hgoes (hin.below hn hscoped ht f) (.inl (hoffers.of_state _))
  · obtain ⟨⟨u, due⟩, hreach, hemits⟩ := (mem_nextTokens?_iff_cutReaches hn hscoped hinside).mp hend
    rcases hemits with hoffers | ⟨-, hatEnd⟩
    · exact absurd ⟨(u, due), CutReaches.reaches hreach, hoffers⟩ hclean
    · obtain ⟨hu, rfl⟩ : n.IsStop u ∧ due = [] := hatEnd
      have hin := CutReaches.spareReaches_of_isStop hstart hr hu hreach
      have hleft := (hin.below hn hscoped ht f).tail (.ret hu)
      obtain ⟨c, hreach, hemits⟩ := (mem_nextTokens?_iff_cutReaches hn hscoped hbehind).mp hk
      exact hgoes (hleft.trans hreach) hemits

end OnlyCall

/-! ## The expected kinds of a call -/

/-- Merging starts from what comes next: these kinds are expected so far, and the mark is in what was
reached if the end of the level can come next. -/
structure StartsFrom (comes : TokenKind → Prop) (expected reached : KindSet) : Prop where
  mem_iff : ∀ k, k ∈ expected ↔ comes k ∧ k ≠ .epsilon
  mark_iff : .epsilon ∈ reached ↔ comes .epsilon

theorem startsFrom_next (next : KindSet) : StartsFrom (· ∈ next) (next.erase .epsilon) next :=
  ⟨fun _ => SortedSet.mem_erase, Iff.rfl⟩

/-- The frame of a call is merged first, and then what comes next in the call is what merging starts
from. -/
theorem exists_startsFrom_call {t f : StateId} {inside behind : KindSet}
    (hinside : n.nextTokens? t = some inside) (hbehind : n.nextTokens? f = some behind)
    {frame : Frame} (hframe : frame.follow = some f) (stack : Stack) :
    ∃ expected reached,
      n.expectedTokens? t (frame :: stack) = n.mergeFollows? expected reached stack ∧
      StartsFrom (ComesNext inside behind) expected reached := by
  have hunfold : n.expectedTokens? t (frame :: stack) =
      n.mergeFollows? (inside.erase .epsilon) inside (frame :: stack) := by
    rw [expectedTokens?, hinside]
  by_cases hmark : .epsilon ∈ inside
  · refine ⟨_, behind, hunfold.trans (mergeFollows?_cons hmark hframe hbehind stack), fun k => ?_, ?_⟩
    · simp only [ComesNext, SortedSet.mem_erase, SortedSet.mem_union]
      tauto
    · simp [ComesNext, hmark]
  -- the end cannot be reached inside, so the frame does not count and neither does the stack
  · have hsame : n.mergeFollows? (inside.erase .epsilon) inside (frame :: stack) =
        n.mergeFollows? (inside.erase .epsilon) inside stack := by
      rw [mergeFollows?_of_not_mem hmark, mergeFollows?_of_not_mem hmark]
    refine ⟨_, inside, hunfold.trans hsame, fun k => ?_, ?_⟩
    · simp only [ComesNext, SortedSet.mem_erase]
      tauto
    · simp [ComesNext, hmark]

section Merge

variable (hn : n.Formed) {stack : Stack} (hstack : ∀ f ∈ follows stack, f < n.states.size)
  {expected reached expected' reached' : KindSet}
include hn hstack

theorem subset_of_mergeFollows? {all : KindSet} (hclean : .epsilon ∉ expected)
    (h : n.mergeFollows? expected reached stack = some all) : ∀ k ∈ expected, k ∈ all := by
  have hmerged : ∃ all, n.mergeFollows? expected reached stack = some all ∧ _ :=
    exists_mergeFollows? hn hstack hclean
  obtain ⟨all', hall, hspec⟩ := hmerged
  cases h.symm.trans hall
  exact fun k hk => (hspec k).1 hk

/-- Merging keeps what is expected so far, and the mark, in order. -/
theorem mergeFollows?_mono {all all' : KindSet} (hclean : .epsilon ∉ expected')
    (hsub : ∀ k ∈ expected, k ∈ expected') (hend : .epsilon ∈ reached → .epsilon ∈ reached')
    (h : n.mergeFollows? expected reached stack = some all)
    (h' : n.mergeFollows? expected' reached' stack = some all') : ∀ k ∈ all, k ∈ all' := by
  induction stack using stackInduction generalizing expected expected' reached reached' with
  | bottom stack hbottom =>
    by_cases hmark : .epsilon ∈ reached
    · cases (mergeFollows?_bottom hmark hbottom).symm.trans h
      cases (mergeFollows?_bottom (hend hmark) hbottom).symm.trans h'
      intro k hk
      rw [SortedSet.mem_insert] at hk ⊢
      exact hk.imp_right (hsub k)
    · cases (mergeFollows?_of_not_mem hmark stack).symm.trans h
      exact fun k hk => subset_of_mergeFollows? hn hstack hclean h' k (hsub k hk)
  | invoked frame outer follow hfollow ih =>
    by_cases hmark : .epsilon ∈ reached
    · rw [follows_cons hfollow] at hstack
      obtain ⟨hin, houter⟩ := List.forall_mem_cons.mp hstack
      obtain ⟨beyond, hbeyond⟩ := hn.exists_nextTokens? hin
      rw [mergeFollows?_cons hmark hfollow hbeyond] at h
      rw [mergeFollows?_cons (hend hmark) hfollow hbeyond] at h'
      -- both go on with the next kinds of one follow state
      refine ih houter (by simp) (fun k hk => ?_) id h h'
      rw [SortedSet.mem_erase, SortedSet.mem_union] at hk ⊢
      exact ⟨hk.1.imp_left (hsub k), hk.2⟩
    · cases (mergeFollows?_of_not_mem hmark _).symm.trans h
      exact fun k hk => subset_of_mergeFollows? hn hstack hclean h' k (hsub k hk)

namespace StartsFrom

variable {comes comes' : TokenKind → Prop} (h : StartsFrom comes expected reached)
include h

theorem exists_mergeFollows? :
    ∃ all, n.mergeFollows? expected reached stack = some all := by
  have hclean : .epsilon ∉ expected := by simp [h.mem_iff]
  have hmerged : ∃ all, n.mergeFollows? expected reached stack = some all ∧ _ :=
    Network.exists_mergeFollows? hn hstack hclean
  obtain ⟨all, hall, -⟩ := hmerged
  exact ⟨all, hall⟩

theorem mono (h' : StartsFrom comes' expected' reached') (hcomes : ∀ k, comes k → comes' k)
    {all all' : KindSet} (hall : n.mergeFollows? expected reached stack = some all)
    (hall' : n.mergeFollows? expected' reached' stack = some all') : ∀ k ∈ all, k ∈ all' := by
  have hclean : .epsilon ∉ expected' := by simp [h'.mem_iff]
  refine mergeFollows?_mono hn hstack hclean (fun k hk => ?_) (fun hmark => ?_) hall hall'
  · exact (h'.mem_iff k).mpr (((h.mem_iff k).mp hk).imp_left (hcomes k))
  · exact h'.mark_iff.mpr (hcomes _ (h.mark_iff.mp hmark))

end StartsFrom

end Merge

/-- The expected kinds at a state whose only edge calls a rule, and those at the start of the rule
once the call is on the stack. -/
theorem OnlyCall.expectedTokens? {s : StateId} {e : Edge} {f : StateId} (h : n.OnlyCall s e r f)
    (hn : n.Formed) (hscoped : n.Scoped) (hclean : ¬ n.CanConsume e.target .epsilon) {stack : Stack}
    (hstack : ∀ f ∈ follows stack, f < n.states.size) {frame : Frame} (hframe : frame.follow = some f) :
    ∃ expected all, n.expectedTokens? s stack = some expected ∧
      n.expectedTokens? e.target (frame :: stack) = some all ∧ (∀ k ∈ expected, k ∈ all) ∧
      (¬ (n.Nullable r ∧ n.LeftRecursive r) → all = expected) := by
  obtain ⟨st, hst, hmem⟩ := h.hasEdge
  obtain ⟨next, hnext⟩ := hn.exists_nextTokens? (exists_state?_iff.mp ⟨st, hst⟩)
  obtain ⟨inside, hinside⟩ := hn.exists_nextTokens? (hn.target_lt hst hmem)
  obtain ⟨behind, hbehind⟩ := hn.exists_nextTokens? (hn.follow_lt hst hmem h.label_eq)
  -- before and after, the same stack is merged
  have hbefore := startsFrom_next next
  obtain ⟨merged, reached, henter, hafter⟩ := exists_startsFrom_call hinside hbehind hframe stack
  obtain ⟨expected, hexpected⟩ := hbefore.exists_mergeFollows? hn hstack
  obtain ⟨all, hall⟩ := hafter.exists_mergeFollows? hn hstack
  have hcomes : ∀ k, k ∈ next → ComesNext inside behind k := fun k =>
    h.comesNext_of_mem hn hscoped hclean hnext hinside hbehind
  have hkept := hbefore.mono hn hstack hafter hcomes hexpected hall
  have hunfold : n.expectedTokens? s stack = some expected := by
    rw [Network.expectedTokens?, hnext]
    exact hexpected
  refine ⟨expected, all, hunfold, henter.trans hall, hkept, fun hr => ?_⟩
  have hadded := hafter.mono hn hstack hbefore
    (fun k => h.mem_of_comesNext hn hscoped hclean hnext hinside hbehind hr) hall hexpected
  exact SortedSet.ext fun k => ⟨hadded k, hkept k⟩

end Network

end ParseRecovery
