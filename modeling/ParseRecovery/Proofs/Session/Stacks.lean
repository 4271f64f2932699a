import ParseRecovery.Proofs.Network.Expected
import ParseRecovery.Proofs.Session.Runs

/-!
Stacks that are built by entering rules (`Session.Entered`), from whatever states. On a formed
network their frames are of declared rules and return to states that are there, so the rules can be
left again one after another (`Entered.exists_exitRule?`). The stack of every run from a fresh
session is one of them (`Run.entered`).
-/

namespace ParseRecovery

namespace Session

/-- The stack was built by entering rules of the network. -/
inductive Entered (n : Network) : Stack → Prop
  | nil : Entered n []
  | enter {s after : Session} {rule : RuleIndex} (hs : Entered n s.stack) (hn : s.network = n)
      (h : s.enterRule? rule = some after) : Entered n after.stack

variable {n : Network} {s : Session}

@[simp] theorem rule_frameOf (s : Session) (rule : RuleIndex) : (s.frameOf rule).rule = rule := by
  unfold frameOf
  split <;> rfl

theorem followOf?_lt (hn : s.network.Formed) {rule : RuleIndex} {follow : StateId}
    (h : s.followOf? rule = some follow) : follow < s.network.states.size := by
  obtain ⟨state, hstate, hfind⟩ := Option.bind_eq_some_iff.mp h
  obtain ⟨e, he, hlabel⟩ := List.exists_of_findSome?_eq_some hfind
  split at hlabel
  · rename_i r target hcall
    split at hlabel
    · cases hlabel
      exact hn.follow_lt hstate he hcall
    · cases hlabel
  · cases hlabel

theorem follow_frameOf_lt (hn : s.network.Formed) {rule : RuleIndex} {follow : StateId}
    (h : (s.frameOf rule).follow = some follow) : follow < s.network.states.size := by
  unfold frameOf at h
  split at h
  · cases h
  · exact followOf?_lt hn h

theorem Entered.of_cons (hn : n.Formed) {frame : Frame} {outer : Stack}
    (h : Entered n (frame :: outer)) :
    Entered n outer ∧ frame.rule < n.rules.size ∧
      ∀ {follow}, frame.follow = some follow → follow < n.states.size := by
  -- the innermost frame was pushed by entering its rule, from the stack below it
  generalize hstack : frame :: outer = stack at h
  cases h with
  | nil => cases hstack
  | @enter s after rule hs hnetwork h =>
    obtain ⟨start, hstart, rfl⟩ := eq_of_enterRule? h
    subst hnetwork
    cases hstack
    refine ⟨hs, ?_, follow_frameOf_lt hn⟩
    rw [rule_frameOf]
    exact Network.lt_rules_of_ruleStart? hstart

theorem Entered.follows_lt (hn : n.Formed) {stack : Stack} (h : Entered n stack) :
    ∀ f ∈ Network.follows stack, f < n.states.size := by
  induction stack with
  | nil =>
    intro f hf
    cases hf
  | cons frame outer ih =>
    obtain ⟨houter, -, hfollow⟩ := h.of_cons hn
    intro f hf
    obtain ⟨inner, hinner, hreturns⟩ := Network.mem_follows.mp hf
    rcases List.mem_cons.mp hinner with rfl | hinner
    · exact hfollow hreturns
    · exact ih houter f (Network.mem_follows.mpr ⟨inner, hinner, hreturns⟩)

/-- The innermost rule of an entered stack can be left, for its follow state or else for its stop. -/
theorem Entered.exists_exitRule? (hn : s.network.Formed) (hs : Entered s.network s.stack)
    {frame : Frame} {outer : Stack} (hstack : s.stack = frame :: outer) :
    ∃ home, s.exitRule? = some { s with stack := outer, state := home } ∧
      home < s.network.states.size ∧
      (frame.follow = some home ∨ frame.follow = none ∧ s.network.IsStop home) := by
  rw [hstack] at hs
  obtain ⟨-, hrule, hfollow⟩ := hs.of_cons hn
  rw [exitRule?, hstack]
  -- a rule without a follow state is declared, so its stop is there
  cases h : frame.follow with
  | some follow => exact ⟨follow, by simp [h], hfollow h, .inl rfl⟩
  | none =>
    have hstop : s.network.ruleStop? frame.rule = some s.network.rules[frame.rule].stop := by
      rw [Network.ruleStop?, Array.getElem?_eq_getElem hrule]
      rfl
    obtain ⟨st, hst, hrole, -⟩ := hn.stop hstop
    exact ⟨_, by simp [h, hstop], hn.stop_lt hstop, .inr ⟨rfl, st, hst, hrole⟩⟩

/-! ## Runs -/

variable {op : Operation}

theorem Places.entered {after : Session} (h : s.Places op after) (hn : s.network.Formed)
    (hs : Entered s.network s.stack) : Entered s.network after.stack := by
  cases h with
  | enter h => exact .enter hs rfl h
  | exit h =>
    rcases eq_of_exitRule? h with ⟨-, rfl⟩ | ⟨frame, outer, home, hstack, -, rfl⟩
    · exact hs
    · rw [hstack] at hs
      exact (hs.of_cons hn).1
  | set => exact hs

theorem Tells.stack_eq {told : Session} (h : s.Tells told) : told.stack = s.stack := by
  cases h with
  | silent => rfl
  | announced d => exact s.stack_announce d

theorem Tells.entered {told : Session} (h : s.Tells told) (hs : Entered s.network s.stack) :
    Entered told.network told.stack := by
  rwa [h.sameGivens.network_eq, h.stack_eq]

theorem Tells.formed {told : Session} (h : s.Tells told) (hn : s.network.Formed) :
    told.network.Formed := by
  rwa [h.sameGivens.network_eq]

/-- Only placing and starting over touch the stack. -/
theorem Change.entered {after : Session} (h : s.Change op after) (hn : s.network.Formed)
    (hs : Entered s.network s.stack) : Entered s.network after.stack := by
  cases h with
  | placed h => exact h.entered hn hs
  | restarted => exact .nil
  | matched => exact hs
  | dropped =>
    show Entered s.network (s.announceSurplus _).stack
    rw [announceSurplus, stack_announce]
    exact hs
  | told h =>
    rw [h.stack_eq]
    exact hs
  | @resumed op told h kinds =>
    show Entered s.network told.stack
    rw [h.stack_eq]
    exact hs
  | realigned => exact hs

end Session

namespace Run

variable {s last : Session} {events : List Event}

theorem entered (h : Run s events last) (hops : ∀ e ∈ events, e.op.isParsing = true)
    (hn : s.network.Formed) (hs : Session.Entered s.network s.stack) :
    Session.Entered s.network last.stack := by
  induction h with
  | start => exact hs
  | @step events e h he ih =>
    have hops' : ∀ e ∈ events, e.op.isParsing = true := fun e he =>
      hops e (List.mem_cons_of_mem _ he)
    have hnetwork := h.sameGivens.network_eq
    have hbefore := ih hops'
    rw [← hnetwork] at hn hbefore ⊢
    exact ((step h he).change hops List.mem_cons_self).entered hn hbefore

end Run

end ParseRecovery
