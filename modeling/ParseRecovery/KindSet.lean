import ParseRecovery.SortedSet
import ParseRecovery.Vocabulary

/-!
Sets of token kinds: what a state accepts, and where to resume after an error. The reserved kinds
can be members, as marks for the end of the input and the end of a rule.
-/

namespace ParseRecovery

abbrev KindSet := SortedSet TokenKind

namespace KindSet

/-- The kinds from `lo` to `hi`, both included; none if `hi` is below `lo`. -/
def range (lo hi : TokenKind) : KindSet where
  toList := (List.range (hi - lo + 1).toNat).map fun (i : Nat) => lo + i
  ascending := List.Pairwise.map _ (fun a b (h : a < b) => by grind) List.pairwise_lt_range

@[simp] theorem mem_range {lo hi k : TokenKind} : k ∈ range lo hi ↔ lo ≤ k ∧ k ≤ hi := by
  show k ∈ (range lo hi).toList ↔ _
  simp only [range, List.mem_map, List.mem_range]
  unfold TokenKind at *
  constructor
  · rintro ⟨i, hi', rfl⟩
    omega
  · rintro ⟨h₁, h₂⟩
    exact ⟨(k - lo).toNat, by omega, by omega⟩

/-- The kinds of a grammar's own, up to `max`, that are not in `s`. -/
def complement (s : KindSet) (max : TokenKind) : KindSet :=
  SortedSet.filter (fun k => !s.contains k) (range .minUser max)

@[simp] theorem mem_complement {s : KindSet} {max k : TokenKind} :
    k ∈ s.complement max ↔ 1 ≤ k ∧ k ≤ max ∧ ¬ k ∈ s := by
  simp only [complement, SortedSet.mem_filter, mem_range, Bool.not_eq_true',
    ← Bool.not_eq_true, SortedSet.contains_eq_true_iff, TokenKind.minUser]
  grind

/-- The least kind of the grammar's own. -/
def minUser? (s : KindSet) : Option TokenKind :=
  s.toList.find? TokenKind.isUser

/-- How many of the kinds are the grammar's own. -/
def userCount (s : KindSet) : Nat :=
  s.toList.countP TokenKind.isUser

/-- The kinds in print, in braces. -/
def text (s : KindSet) : String :=
  "\x7b" ++ ", ".intercalate (s.toList.map TokenKind.text) ++ "\x7d"

/-- The kinds by name, for messages: one name stands alone, any other number of them in braces. The
mark for the end of a rule is left out. -/
def named (s : KindSet) (names : Vocabulary) : String :=
  match (s.toList.filter (· ≠ .epsilon)).map names.displayName with
  | [name] => name
  | all => "\x7b" ++ ", ".intercalate all ++ "\x7d"

end KindSet

end ParseRecovery
