/-!
Finite sets kept as ascending lists. The list of a set is determined by its members
(`SortedSet.ext`), so equality of sets is equality of values, and the least member comes first.
-/

namespace ParseRecovery

/-- Place `x` in an ascending list, unless it is there already. -/
def insertAscending {α : Type} [LT α] [DecidableLT α] (x : α) : List α → List α
  | [] => [x]
  | y :: ys =>
      if x < y then x :: y :: ys
      else if y < x then y :: insertAscending x ys
      else y :: ys

section Ascending

variable {α : Type} [LE α] [LT α] [DecidableLT α] [Std.IsLinearOrder α] [Std.LawfulOrderLT α]

theorem mem_insertAscending {x z : α} {ys : List α} :
    z ∈ insertAscending x ys ↔ z = x ∨ z ∈ ys := by
  induction ys with
  | nil => simp [insertAscending]
  | cons y ys ih =>
    rw [insertAscending]
    split
    · simp
    · rename_i hxy
      split
      · simp only [List.mem_cons, ih]
        grind
      · rename_i hyx
        have hle : y ≤ x := Std.not_lt.mp hxy
        have hge : x ≤ y := Std.not_lt.mp hyx
        have heq : x = y := Std.le_antisymm hge hle
        simp [heq]

theorem pairwise_insertAscending {x : α} {ys : List α} (h : ys.Pairwise (· < ·)) :
    (insertAscending x ys).Pairwise (· < ·) := by
  induction ys with
  | nil => simp [insertAscending]
  | cons y ys ih =>
    obtain ⟨hy, hys⟩ := List.pairwise_cons.mp h
    rw [insertAscending]
    split
    · rename_i hxy
      refine List.pairwise_cons.mpr ⟨?_, h⟩
      intro z hz
      rcases List.mem_cons.mp hz with rfl | hz
      · exact hxy
      · exact Std.lt_trans hxy (hy z hz)
    · split
      · rename_i hyx
        refine List.pairwise_cons.mpr ⟨?_, ih hys⟩
        intro z hz
        rcases mem_insertAscending.mp hz with rfl | hz
        · exact hyx
        · exact hy z hz
      · exact h

end Ascending

/-- A finite set, held as the ascending list of its members. -/
structure SortedSet (α : Type) [LT α] where
  toList : List α
  ascending : toList.Pairwise (· < ·)
deriving DecidableEq

namespace SortedSet

section Basic

variable {α : Type} [LT α]

def empty : SortedSet α :=
  ⟨[], List.Pairwise.nil⟩

instance : EmptyCollection (SortedSet α) :=
  ⟨empty⟩

instance : Inhabited (SortedSet α) :=
  ⟨empty⟩

instance : Membership α (SortedSet α) :=
  ⟨fun s x => x ∈ s.toList⟩

instance [DecidableEq α] (x : α) (s : SortedSet α) : Decidable (x ∈ s) :=
  inferInstanceAs (Decidable (x ∈ s.toList))

def contains [DecidableEq α] (s : SortedSet α) (x : α) : Bool :=
  decide (x ∈ s)

def size (s : SortedSet α) : Nat :=
  s.toList.length

def isEmpty (s : SortedSet α) : Bool :=
  s.toList.isEmpty

/-- The least member. -/
def min? (s : SortedSet α) : Option α :=
  s.toList.head?

/-- The members that `keep` admits. -/
def filter (keep : α → Bool) (s : SortedSet α) : SortedSet α :=
  ⟨s.toList.filter keep, s.ascending.filter keep⟩

def erase [DecidableEq α] (s : SortedSet α) (x : α) : SortedSet α :=
  s.filter (· ≠ x)

@[simp] theorem mem_toList {x : α} {s : SortedSet α} : x ∈ s.toList ↔ x ∈ s :=
  Iff.rfl

@[simp] theorem not_mem_empty (x : α) : ¬ x ∈ (∅ : SortedSet α) := by
  intro h
  exact absurd (show x ∈ ([] : List α) from h) (List.not_mem_nil)

@[simp] theorem contains_eq_true_iff [DecidableEq α] {s : SortedSet α} {x : α} :
    s.contains x = true ↔ x ∈ s := by
  simp [contains]

@[simp] theorem contains_eq_false_iff [DecidableEq α] {s : SortedSet α} {x : α} :
    s.contains x = false ↔ ¬ x ∈ s := by
  simp [contains]

@[simp] theorem mem_filter {keep : α → Bool} {s : SortedSet α} {x : α} :
    x ∈ s.filter keep ↔ x ∈ s ∧ keep x = true :=
  List.mem_filter

@[simp] theorem mem_erase [DecidableEq α] {s : SortedSet α} {x y : α} :
    x ∈ s.erase y ↔ x ∈ s ∧ x ≠ y := by
  simp [erase]

end Basic

section Ordered

variable {α : Type} [LE α] [LT α] [DecidableLT α] [Std.IsLinearOrder α] [Std.LawfulOrderLT α]

def insert (s : SortedSet α) (x : α) : SortedSet α :=
  ⟨insertAscending x s.toList, pairwise_insertAscending s.ascending⟩

/-- The members of either set. -/
def union (s t : SortedSet α) : SortedSet α :=
  t.toList.foldl insert s

instance : Union (SortedSet α) :=
  ⟨union⟩

def ofList (xs : List α) : SortedSet α :=
  xs.foldl insert ∅

@[simp] theorem mem_insert {s : SortedSet α} {x y : α} : x ∈ s.insert y ↔ x = y ∨ x ∈ s :=
  mem_insertAscending

theorem mem_foldl_insert {xs : List α} {s : SortedSet α} {x : α} :
    x ∈ xs.foldl insert s ↔ x ∈ s ∨ x ∈ xs := by
  induction xs generalizing s with
  | nil => simp
  | cons y ys ih =>
    rw [List.foldl_cons, ih, mem_insert, List.mem_cons]
    grind

@[simp] theorem mem_union {s t : SortedSet α} {x : α} : x ∈ s ∪ t ↔ x ∈ s ∨ x ∈ t :=
  mem_foldl_insert

@[simp] theorem mem_ofList {xs : List α} {x : α} : x ∈ ofList xs ↔ x ∈ xs := by
  simp [ofList, mem_foldl_insert]

omit [DecidableLT α] in
/-- Two ascending lists with the same members are the same list. -/
theorem eq_of_ascending {xs ys : List α} (hx : xs.Pairwise (· < ·)) (hy : ys.Pairwise (· < ·))
    (h : ∀ z, z ∈ xs ↔ z ∈ ys) : xs = ys := by
  induction xs generalizing ys with
  | nil =>
    cases ys with
    | nil => rfl
    | cons y ys => simpa using h y
  | cons x xs ih =>
    cases ys with
    | nil => simpa using h x
    | cons y ys =>
      obtain ⟨hxs, hxt⟩ := List.pairwise_cons.mp hx
      obtain ⟨hys, hyt⟩ := List.pairwise_cons.mp hy
      have hxy : x = y := by
        have h₁ := (h x).mp (by simp)
        have h₂ := (h y).mpr (by simp)
        rcases List.mem_cons.mp h₁ with h₁ | h₁
        · exact h₁
        · rcases List.mem_cons.mp h₂ with h₂ | h₂
          · exact h₂.symm
          · exact absurd (Std.lt_trans (hys x h₁) (hxs y h₂)) (Std.lt_irrefl)
      subst hxy
      congr 1
      refine ih hxt hyt fun z => ?_
      have hz := h z
      simp only [List.mem_cons] at hz
      constructor
      · intro hm
        rcases hz.mp (Or.inr hm) with rfl | hm'
        · exact absurd (hxs _ hm) Std.lt_irrefl
        · exact hm'
      · intro hm
        rcases hz.mpr (Or.inr hm) with rfl | hm'
        · exact absurd (hys _ hm) Std.lt_irrefl
        · exact hm'

omit [DecidableLT α] in
theorem ext {s t : SortedSet α} (h : ∀ x, x ∈ s ↔ x ∈ t) : s = t := by
  obtain ⟨xs, hx⟩ := s
  obtain ⟨ys, hy⟩ := t
  congr
  exact eq_of_ascending hx hy h

end Ordered

end SortedSet

end ParseRecovery
