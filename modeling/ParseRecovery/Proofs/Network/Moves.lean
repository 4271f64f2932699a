import ParseRecovery.Proofs.Network.Formed
import Mathlib.Logic.Relation

/-!
What a network can do without consuming a token. A configuration is a state with the states to
return to, innermost first; `Move` is one silent step between configurations and `Reaches` any
number of them.

Moves are told apart by how deep they go. `Skips` passes from state to state at one level, over
complete calls; `Descends` adds calls that are still under way. Main statement: whatever is reached
is either reached by descending, with the returns below untouched, or after the end of the level was
reached and the innermost return was taken (`reaches_cons_iff`).
-/

namespace ParseRecovery

namespace Network

/-- A state and the states to return to, innermost first. -/
abbrev Configuration := StateId × List StateId

/-- Labels of edges that neither consume a token nor call a rule. -/
def Label.isSilent : Label → Bool
  | .epsilon | .predicate .. | .action => true
  | _ => false

/-- The state is there and has the edge. -/
def HasEdge (n : Network) (s : StateId) (e : Edge) : Prop :=
  ∃ st, n.state? s = some st ∧ e ∈ st.edges

/-- The state is there and is the stop of a rule. -/
def IsStop (n : Network) (s : StateId) : Prop :=
  ∃ st, n.state? s = some st ∧ st.role = .ruleStop

/-- One step that consumes nothing. A call makes its follow state due, and the stop of a rule
returns to the innermost state that is due. -/
inductive Move (n : Network) : Configuration → Configuration → Prop
  | silent {s : StateId} {e : Edge} {returns : List StateId} (he : n.HasEdge s e)
      (hsilent : e.label.isSilent = true) : Move n (s, returns) (e.target, returns)
  | call {s : StateId} {e : Edge} {returns : List StateId} {rule : RuleIndex} {follow : StateId}
      (he : n.HasEdge s e) (hcall : e.label = .call rule follow) :
      Move n (s, returns) (e.target, follow :: returns)
  | ret {s follow : StateId} {returns : List StateId} (hs : n.IsStop s) :
      Move n (s, follow :: returns) (follow, returns)

/-- Any number of steps that consume nothing. -/
abbrev Reaches (n : Network) : Configuration → Configuration → Prop :=
  Relation.ReflTransGen n.Move

/-- An edge of the configuration's state consumes tokens of kind `k`. -/
def Offers (n : Network) (c : Configuration) (k : TokenKind) : Prop :=
  ∃ e kinds, n.HasEdge c.1 e ∧ e.label.kinds? n.maxKind = some kinds ∧ k ∈ kinds

/-- The configuration is at the stop of a rule, and nothing is due. -/
def AtEnd (n : Network) (c : Configuration) : Prop :=
  n.IsStop c.1 ∧ c.2 = []

/-- The end of the rule is reached from its start without consuming a token. -/
def Nullable (n : Network) (r : RuleIndex) : Prop :=
  ∃ start c, n.ruleStart? r = some start ∧ n.Reaches (start, []) c ∧ n.AtEnd c

/-- A call of the rule itself is reached from its start without consuming a token. -/
def LeftRecursive (n : Network) (r : RuleIndex) : Prop :=
  ∃ start c e follow, n.ruleStart? r = some start ∧ n.Reaches (start, []) c ∧
    n.HasEdge c.1 e ∧ e.label = .call r follow

theorem Offers.of_state {n : Network} {s : StateId} {k : TokenKind} {returns : List StateId}
    (h : n.Offers (s, returns) k) (others : List StateId) : n.Offers (s, others) k :=
  h

theorem not_atEnd_append_cons {n : Network} {s f : StateId} {above below : List StateId} :
    ¬ n.AtEnd (s, above ++ f :: below) := by
  rintro ⟨-, hnil⟩
  simp at hnil

theorem Formed.not_hasEdge_of_isStop {n : Network} (hn : n.Formed) {s : StateId} (hs : n.IsStop s)
    (e : Edge) : ¬ n.HasEdge s e := by
  rintro ⟨st, hst, he⟩
  obtain ⟨st', hst', hrole⟩ := hs
  cases hst.symm.trans hst'
  rw [hn.stop_edges hst hrole] at he
  cases he

theorem Formed.ruleStart?_of_call {n : Network} (hn : n.Formed) {s : StateId} {e : Edge}
    {rule : RuleIndex} {follow : StateId} (he : n.HasEdge s e) (hcall : e.label = .call rule follow) :
    n.ruleStart? rule = some e.target := by
  obtain ⟨st, hst, hmem⟩ := he
  exact hn.call_target hst hmem hcall

/-! ## Levels -/

/-- From `s` to `t` at one level: along silent edges, and over calls that end silently. -/
inductive Skips (n : Network) : StateId → StateId → Prop
  | refl (s : StateId) : Skips n s s
  | silent {s t : StateId} {e : Edge} (hst : Skips n s t) (he : n.HasEdge t e)
      (hsilent : e.label.isSilent = true) : Skips n s e.target
  | across {s t u : StateId} {e : Edge} {rule : RuleIndex} {follow : StateId} (hst : Skips n s t)
      (he : n.HasEdge t e) (hcall : e.label = .call rule follow) (hin : Skips n e.target u)
      (hu : n.IsStop u) : Skips n s follow

/-- From `s` to `t` with calls under way, whose follow states are due, innermost first. -/
inductive Descends (n : Network) (s : StateId) : StateId → List StateId → Prop
  | level {t : StateId} (hst : Skips n s t) : Descends n s t []
  | call {t u : StateId} {e : Edge} {rule : RuleIndex} {follow : StateId} {due : List StateId}
      (hst : Descends n s t due) (he : n.HasEdge t e) (hcall : e.label = .call rule follow)
      (hin : Skips n e.target u) : Descends n s u (follow :: due)

variable {n : Network}

theorem Skips.trans {s t u : StateId} (hst : n.Skips s t) (htu : n.Skips t u) : n.Skips s u := by
  induction htu with
  | refl => exact hst
  | silent _ he hsilent ih => exact (ih hst).silent he hsilent
  | across _ he hcall hin hu ih _ => exact (ih hst).across he hcall hin hu

theorem Skips.reaches {s t : StateId} (h : n.Skips s t) (returns : List StateId) :
    n.Reaches (s, returns) (t, returns) := by
  induction h generalizing returns with
  | refl => exact .refl
  | silent _ he hsilent ih => exact (ih returns).tail (.silent he hsilent)
  | across _ he hcall _ hu ih ihin =>
    -- the follow state is due only while the call is under way
    have hentered := (ih returns).tail (.call he hcall)
    exact (hentered.trans (ihin _)).tail (.ret hu)

theorem Descends.reaches {s t : StateId} {due : List StateId} (h : n.Descends s t due)
    (returns : List StateId) : n.Reaches (s, returns) (t, due ++ returns) := by
  induction h with
  | level hst => exact hst.reaches returns
  | call _ he hcall hin ih => exact (ih.tail (.call he hcall)).trans (hin.reaches _)

theorem descends_nil_iff {s t : StateId} : n.Descends s t [] ↔ n.Skips s t := by
  constructor
  · intro h
    cases h with
    | level hst => exact hst
  · exact .level

theorem Descends.skips {s t u : StateId} {due : List StateId} (h : n.Descends s t due)
    (htu : n.Skips t u) : n.Descends s u due := by
  cases h with
  | level hst => exact .level (hst.trans htu)
  | call hst he hcall hin => exact .call hst he hcall (hin.trans htu)

theorem Descends.ret {s t follow : StateId} {due : List StateId}
    (h : n.Descends s t (follow :: due)) (ht : n.IsStop t) : n.Descends s follow due := by
  cases h with
  | call hst he hcall hin =>
    -- the innermost call is complete, and its level goes on behind it
    exact hst.skips (.across (.refl _) he hcall hin ht)

/-- A configuration reached from `(s, returns)` has all of the returns still due, or the end of the
level of `s` was reached and the innermost of them was taken. -/
theorem reaches_split {s : StateId} {returns : List StateId} {c : Configuration}
    (h : n.Reaches (s, returns) c) :
    (∃ t due, c = (t, due ++ returns) ∧ n.Descends s t due) ∨
      ∃ follow rest u, returns = follow :: rest ∧ n.Skips s u ∧ n.IsStop u ∧
        n.Reaches (follow, rest) c := by
  induction h with
  | refl => exact .inl ⟨s, [], rfl, .level (.refl s)⟩
  | tail _ hmove ih =>
    rcases ih with ⟨t, due, rfl, hdown⟩ | ⟨follow, rest, u, hreturns, hskip, hu, hreach⟩
    · generalize hc : (t, due ++ returns) = c at hmove
      cases hmove with
      | silent he hsilent =>
        cases hc
        exact .inl ⟨_, due, rfl, hdown.skips (.silent (.refl _) he hsilent)⟩
      | call he hcall =>
        cases hc
        exact .inl ⟨_, _, rfl, .call hdown he hcall (.refl _)⟩
      | ret hs =>
        obtain ⟨rfl, hdue⟩ := Prod.mk.inj hc
        -- the return taken was due at this level, or it is the first of those below
        cases due with
        | nil =>
          exact .inr ⟨_, _, t, hdue, descends_nil_iff.mp hdown, hs, .refl⟩
        | cons f due =>
          obtain ⟨rfl, rfl⟩ := List.cons.inj hdue
          exact .inl ⟨_, _, rfl, hdown.ret hs⟩
    · exact .inr ⟨follow, rest, u, hreturns, hskip, hu, hreach.tail hmove⟩

theorem reaches_nil_iff {s t : StateId} {due : List StateId} :
    n.Reaches (s, []) (t, due) ↔ n.Descends s t due := by
  constructor
  · intro h
    rcases reaches_split h with ⟨t', due', hc, hdown⟩ | ⟨_, _, _, hnil, _⟩
    · rw [List.append_nil] at hc
      cases hc
      exact hdown
    · cases hnil
  · intro h
    simpa using h.reaches []

theorem reaches_level_iff {s t : StateId} : n.Reaches (s, []) (t, []) ↔ n.Skips s t :=
  reaches_nil_iff.trans descends_nil_iff

theorem reaches_cons_iff {s follow : StateId} {rest : List StateId} {c : Configuration} :
    n.Reaches (s, follow :: rest) c ↔
      (∃ t due, c = (t, due ++ follow :: rest) ∧ n.Descends s t due) ∨
        ((∃ u, n.Skips s u ∧ n.IsStop u) ∧ n.Reaches (follow, rest) c) := by
  constructor
  · intro h
    rcases reaches_split h with hdown | ⟨f, below, u, heq, hskip, hu, hreach⟩
    · exact .inl hdown
    · cases heq
      exact .inr ⟨⟨u, hskip, hu⟩, hreach⟩
  · rintro (⟨t, due, rfl, hdown⟩ | ⟨⟨u, hskip, hu⟩, hreach⟩)
    · exact hdown.reaches _
    · exact ((hskip.reaches _).tail (.ret hu)).trans hreach

theorem reaches_atEnd_iff {s : StateId} :
    (∃ c, n.Reaches (s, []) c ∧ n.AtEnd c) ↔ ∃ u, n.Skips s u ∧ n.IsStop u := by
  constructor
  · rintro ⟨⟨u, due⟩, hreach, hu, rfl⟩
    exact ⟨u, reaches_level_iff.mp hreach, hu⟩
  · rintro ⟨u, hskip, hu⟩
    exact ⟨(u, []), hskip.reaches [], hu, rfl⟩

end Network

end ParseRecovery
