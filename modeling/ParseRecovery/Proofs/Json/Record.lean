import ParseRecovery.Json.Record

/-!
Reading a record back. An object that gives each field once, in order, is read as a record and as settings
(`fields?_object`, `settings?_object`), and each field then as what its member holds
(`required?_member?`, `optional?_member?`, `default?_member?`).
-/

namespace ParseRecovery.Json

variable {names : List String} {members : List (String × Value)}

theorem repeats_eq_false (hnames : members.map Prod.fst = names) (hnodup : names.Nodup) :
    repeats names members = false := by
  rw [repeats, List.any_eq_false]
  intro name _ hrepeated
  -- the members of a name are as many as the name has places among the names
  have hcount : names.count name ≤ 1 := List.nodup_iff_count.mp hnodup name
  rw [← hnames, List.count, List.countP_map] at hcount
  exact Nat.not_lt.mpr hcount (of_decide_eq_true hrepeated)

theorem fields?_object (hnames : members.map Prod.fst = names) (hnodup : names.Nodup) :
    (Value.object members).fields? names = some (member? members) := by
  rw [Value.fields?, repeats_eq_false hnames hnodup, if_neg Bool.false_ne_true]

theorem settings?_object (hnames : members.map Prod.fst = names) (hnodup : names.Nodup) :
    (Value.object members).settings? names = some (member? members) := by
  have hknown : (members.any fun m => !names.contains m.1) = false := by
    rw [List.any_eq_false]
    intro m hm
    have hmem : m.1 ∈ names := hnames ▸ List.mem_map_of_mem hm
    rw [List.contains_iff_mem.mpr hmem]
    exact Bool.false_ne_true
  rw [Value.settings?, repeats_eq_false hnames hnodup, hknown, Bool.or_self,
    if_neg Bool.false_ne_true]

variable {α : Type} {name : String} {read : Value → Option α} {v : Value} {a : α}

theorem required?_member? (hv : member? members name = some v) (h : read v = some a) :
    Fields.required? (member? members) name read = some a := by
  rw [Fields.required?, hv, Option.bind_some, h]

theorem default?_member? {b : α} (hv : member? members name = some v) (h : read v = some a) :
    Fields.default? (member? members) name read b = some a := by
  rw [Fields.default?, hv]
  exact h

theorem optional?_member? {a : Option α} (hv : member? members name = some v)
    (h : v.option? read = some a) : Fields.optional? (member? members) name read = some a := by
  rw [Fields.optional?, hv]
  exact h

theorem below?_natural {bound n : Nat} (h : n < bound) : (Value.natural n).below? bound = some n := by
  rw [Value.natural, Value.below?, if_pos ⟨Int.natCast_nonneg n, Int.ofNat_lt.mpr h⟩, Int.toNat_natCast]

theorem option?_ofOption {form : α → Value} {a : Option α} (hnull : ∀ x, form x ≠ .null)
    (h : ∀ x ∈ a, read (form x) = some x) : (Value.ofOption form a).option? read = some a := by
  cases a with
  | none => rfl
  | some x =>
    rw [Value.ofOption, Value.option?, h x rfl, Option.map_some]
    exact hnull x

end ParseRecovery.Json
