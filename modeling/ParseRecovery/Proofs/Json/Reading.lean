import Mathlib.Data.List.DropRight
import ParseRecovery.Proofs.Json.Layout
import ParseRecovery.Proofs.Json.Literal
import ParseRecovery.Proofs.Json.Numeral

/-!
Reading back a written value. Two steps for each character are enough to read a fragment, up to its end
(`Written.readFrom`). So each text of a value is read as that value, the two layouts of the printer among
them (`parse?_compact`, `parse?_pretty`).
-/

namespace ParseRecovery.Json

/-! ## Blanks -/

theorem skipBlanks_append {blanks : List Char} (h : Blanks blanks) (cs : List Char) :
    skipBlanks (blanks ++ cs) = skipBlanks cs :=
  List.dropWhile_append_of_pos h

theorem skipBlanks_skipBlanks (cs : List Char) : skipBlanks (skipBlanks cs) = skipBlanks cs :=
  List.dropWhile_idempotent _ _

theorem value?_skipBlanks (depth : Nat) (cs : List Char) :
    value? depth (skipBlanks cs) = value? depth cs := by
  cases depth with
  | zero => rfl
  | succ depth => simp only [value?, skipBlanks_skipBlanks]

theorem items?_skipBlanks (depth : Nat) (cs : List Char) :
    items? depth (skipBlanks cs) = items? depth cs := by
  cases depth with
  | zero => rfl
  | succ depth => simp only [items?, value?_skipBlanks]

theorem members?_skipBlanks (depth : Nat) (cs : List Char) :
    members? depth (skipBlanks cs) = members? depth cs := by
  cases depth with
  | zero => rfl
  | succ depth => simp only [members?, skipBlanks_skipBlanks]

theorem endsNumeral_of_isBlank {c : Char} (h : isBlank c = true) :
    c.isDigit = false ∧ c ≠ '.' ∧ c ≠ 'e' ∧ c ≠ 'E' := by
  simp only [isBlank, Bool.or_eq_true, beq_iff_eq] at h
  rcases h with ((rfl | rfl) | rfl) | rfl <;> decide

theorem EndsNumeral.of_blanks {blanks : List Char} (h : Blanks blanks) {rest : List Char}
    (hrest : EndsNumeral rest) : EndsNumeral (blanks ++ rest) := by
  cases blanks with
  | nil => exact hrest
  | cons c blanks => exact .of_head (endsNumeral_of_isBlank (h c List.mem_cons_self)) _

/-! ## Steps of the reader -/

section Steps

variable {depth : Nat} {cs rest inner after : List Char}

theorem items?_eq_none (h : skipBlanks cs = ']' :: after) : items? depth cs = none := by
  rw [← items?_skipBlanks, h]
  cases depth with
  | zero => rfl
  | succ depth => cases depth <;> rfl

theorem members?_eq_none (h : skipBlanks cs = '\x7d' :: after) : members? depth cs = none := by
  rw [← members?_skipBlanks, h]
  cases depth <;> rfl

theorem value?_numeral {c : Char} (hc : c = '-' ∨ c.isDigit = true) (depth : Nat) (cs : List Char) :
    value? (depth + 1) (c :: cs) = numeral? (c :: cs) := by
  have hblank : ¬ isBlank c = true := by
    intro h
    obtain ⟨hdigit, -, -, -⟩ := endsNumeral_of_isBlank h
    rcases hc with rfl | hc
    · exact absurd h (by decide)
    · rw [hdigit] at hc
      cases hc
  have hskip : skipBlanks (c :: cs) = c :: cs := List.dropWhile_cons_of_neg hblank
  simp only [value?, hskip]
  split
  case h_7 => rfl
  -- the other cases begin with a letter, a quote, a bracket or a brace
  all_goals
    rename_i heq
    cases heq
    exact absurd hc (by decide)

theorem value?_bracket (depth : Nat) (cs : List Char) :
    value? (depth + 1) ('[' :: cs) =
      match skipBlanks cs with
      | ']' :: after => some (.array [], after)
      | inner => (items? depth inner).map fun (vs, after) => (.array vs, after) :=
  rfl

theorem value?_brace (depth : Nat) (cs : List Char) :
    value? (depth + 1) ('\x7b' :: cs) =
      match skipBlanks cs with
      | '\x7d' :: after => some (.object [], after)
      | inner => (members? depth inner).map fun (ms, after) => (objectOf ms, after) :=
  rfl

theorem value?_array {vs : List Value} (h : items? depth cs = some (vs, after)) :
    value? (depth + 1) ('[' :: cs) = some (.array vs, after) := by
  rw [value?_bracket]
  split
  -- a bracket that closes at once would leave no item to read
  · rename_i hclosed
    rw [items?_eq_none hclosed] at h
    cases h
  · rw [items?_skipBlanks, h, Option.map_some]

theorem value?_object {ms : List (Option String × Value)}
    (h : members? depth cs = some (ms, after)) :
    value? (depth + 1) ('\x7b' :: cs) = some (objectOf ms, after) := by
  rw [value?_brace]
  split
  · rename_i hclosed
    rw [members?_eq_none hclosed] at h
    cases h
  · rw [members?_skipBlanks, h, Option.map_some]

theorem items?_last {v : Value} (h : value? depth cs = some (v, rest))
    (hrest : skipBlanks rest = ']' :: after) : items? (depth + 1) cs = some ([v], after) := by
  simp only [items?, h, hrest]

theorem items?_next {v : Value} {vs : List Value} (h : value? depth cs = some (v, rest))
    (hrest : skipBlanks rest = ',' :: inner) (hmore : items? depth inner = some (vs, after)) :
    items? (depth + 1) cs = some (v :: vs, after) := by
  simp only [items?, h, hrest, hmore, Option.map_some]

variable {gap : List Char} (hgap : Blanks gap) (name : String)
include hgap

theorem members?_last {v : Value} (h : value? depth cs = some (v, rest))
    (hrest : skipBlanks rest = '\x7d' :: after) :
    members? (depth + 1) (Literal.write name.toList ++ (gap ++ ':' :: cs)) =
      some ([(some name, v)], after) := by
  obtain ⟨body, hbody, hread⟩ := Literal.read?_write name (gap ++ ':' :: cs)
  have hquote : skipBlanks ('"' :: body) = '"' :: body := rfl
  have hcolon : skipBlanks (gap ++ ':' :: cs) = ':' :: cs := skipBlanks_append hgap _
  simp only [hbody, members?, hquote, hread, hcolon, h, hrest]

theorem members?_next {v : Value} {ms : List (Option String × Value)}
    (h : value? depth cs = some (v, rest)) (hrest : skipBlanks rest = ',' :: inner)
    (hmore : members? depth inner = some (ms, after)) :
    members? (depth + 1) (Literal.write name.toList ++ (gap ++ ':' :: cs)) =
      some ((some name, v) :: ms, after) := by
  obtain ⟨body, hbody, hread⟩ := Literal.read?_write name (gap ++ ':' :: cs)
  have hquote : skipBlanks ('"' :: body) = '"' :: body := rfl
  have hcolon : skipBlanks (gap ++ ':' :: cs) = ':' :: cs := skipBlanks_append hgap _
  simp only [hbody, members?, hquote, hread, hcolon, h, hrest, hmore, Option.map_some]

end Steps

/-- What each value is read back as, a list of them is. -/
theorem mapM_map_eq_some {α β : Type} {form : α → β} {read : β → Option α} {as : List α}
    (h : ∀ a ∈ as, read (form a) = some a) : (as.map form).mapM read = some as := by
  induction as with
  | nil => rfl
  | cons a as ih =>
    obtain ⟨ha, has⟩ := List.forall_mem_cons.mp h
    rw [List.map_cons, List.mapM_cons, ha, ih has]
    rfl

theorem objectOf_map_some (ms : List (String × Value)) :
    objectOf (ms.map fun m => (some m.1, m.2)) = .object ms := by
  rw [objectOf, mapM_map_eq_some]
  exact fun _ _ => rfl

/-! ## Written texts -/

/-- With two steps for each character, the fragment is read from the characters, up to their end. -/
def Fragment.ReadFrom : Fragment → List Char → Prop
  | .value v, cs => ∀ depth rest, 2 * cs.length ≤ depth + 1 → EndsNumeral rest →
      value? (depth + 1) (cs ++ rest) = some (v, rest)
  | .items vs, cs => ∀ depth rest, 2 * cs.length < depth →
      items? depth (cs ++ rest) = some (vs, rest)
  | .members ms, cs => ∀ depth rest, 2 * cs.length < depth →
      members? depth (cs ++ rest) = some (ms.map fun m => (some m.1, m.2), rest)

namespace Fragment.ReadFrom

variable {cs blanks gap more : List Char} {v : Value}

theorem padded {f : Fragment} (hblanks : Blanks blanks) (h : f.ReadFrom cs) :
    f.ReadFrom (blanks ++ cs) := by
  cases f with
  | value v =>
    intro depth rest hdepth hrest
    rw [List.length_append] at hdepth
    rw [List.append_assoc, ← value?_skipBlanks, skipBlanks_append hblanks, value?_skipBlanks]
    exact h depth rest (by omega) hrest
  | items vs =>
    intro depth rest hdepth
    rw [List.length_append] at hdepth
    rw [List.append_assoc, ← items?_skipBlanks, skipBlanks_append hblanks, items?_skipBlanks]
    exact h depth rest (by omega)
  | members ms =>
    intro depth rest hdepth
    rw [List.length_append] at hdepth
    rw [List.append_assoc, ← members?_skipBlanks, skipBlanks_append hblanks, members?_skipBlanks]
    exact h depth rest (by omega)

theorem integer (n : Int) : (value (.integer n)).ReadFrom (integerText n) := by
  intro depth rest _ hrest
  obtain ⟨c, cs, htext, hc⟩ := integerText_eq_cons n
  rw [← numeral?_integerText n hrest, htext, List.cons_append, value?_numeral hc]

theorem string (text : String) : (value (.string text)).ReadFrom (Literal.write text.toList) := by
  intro depth rest _ _
  obtain ⟨body, hbody, hread⟩ := Literal.read?_write text rest
  have hstart : value? (depth + 1) ('"' :: body) = (Literal.read? body).map fun p =>
      ((p.1.map Value.string).getD .unreadable, p.2) := rfl
  rw [hbody, hstart, hread]
  rfl

theorem noItems (hblanks : Blanks blanks) :
    (value (.array [])).ReadFrom ('[' :: (blanks ++ [']'])) := by
  intro depth rest _ _
  have hclosed : skipBlanks (blanks ++ [']'] ++ rest) = ']' :: rest := by
    rw [List.append_assoc, skipBlanks_append hblanks]
    rfl
  rw [List.cons_append, value?_bracket, hclosed]
  rfl

theorem noMembers (hblanks : Blanks blanks) :
    (value (.object [])).ReadFrom ('\x7b' :: (blanks ++ ['\x7d'])) := by
  intro depth rest _ _
  have hclosed : skipBlanks (blanks ++ ['\x7d'] ++ rest) = '\x7d' :: rest := by
    rw [List.append_assoc, skipBlanks_append hblanks]
    rfl
  rw [List.cons_append, value?_brace, hclosed]
  rfl

theorem array {vs : List Value} (h : (items vs).ReadFrom cs) :
    (value (.array vs)).ReadFrom ('[' :: cs) := by
  intro depth rest hdepth _
  rw [List.length_cons] at hdepth
  exact value?_array (h depth rest (by omega))

theorem object {ms : List (String × Value)} (h : (members ms).ReadFrom cs) :
    (value (.object ms)).ReadFrom ('\x7b' :: cs) := by
  intro depth rest hdepth _
  rw [List.length_cons] at hdepth
  rw [List.cons_append, value?_object (h depth rest (by omega)), objectOf_map_some]

theorem lastItem (h : (value v).ReadFrom cs) (hblanks : Blanks blanks) :
    (items [v]).ReadFrom (cs ++ (blanks ++ [']'])) := by
  intro depth rest hdepth
  simp only [List.length_append, List.length_singleton] at hdepth
  -- one step for the row and one for the value in it
  obtain ⟨depth, rfl⟩ : ∃ d, depth = d + 2 := ⟨depth - 2, by omega⟩
  rw [List.append_assoc, List.append_assoc]
  exact items?_last (h depth _ (by omega) (.of_blanks hblanks (.of_head (by decide) rest)))
    (skipBlanks_append hblanks _)

theorem item {vs : List Value} (h : (value v).ReadFrom cs) (hblanks : Blanks blanks)
    (hmore : (items vs).ReadFrom more) : (items (v :: vs)).ReadFrom (cs ++ (blanks ++ ',' :: more)) := by
  intro depth rest hdepth
  simp only [List.length_append, List.length_cons] at hdepth
  obtain ⟨depth, rfl⟩ : ∃ d, depth = d + 2 := ⟨depth - 2, by omega⟩
  rw [List.append_assoc, List.append_assoc]
  exact items?_next (h depth _ (by omega) (.of_blanks hblanks (.of_head (by decide) _)))
    (skipBlanks_append hblanks _) (hmore (depth + 1) rest (by omega))

theorem lastMember {name : String} (hgap : Blanks gap) (h : (value v).ReadFrom cs)
    (hblanks : Blanks blanks) : (members [(name, v)]).ReadFrom
      (Literal.write name.toList ++ (gap ++ ':' :: (cs ++ (blanks ++ ['\x7d'])))) := by
  intro depth rest hdepth
  simp only [List.length_append, List.length_cons] at hdepth
  obtain ⟨depth, rfl⟩ : ∃ d, depth = d + 2 := ⟨depth - 2, by omega⟩
  rw [List.append_assoc, List.append_assoc, List.cons_append, List.append_assoc, List.append_assoc]
  exact members?_last hgap name
    (h depth _ (by omega) (.of_blanks hblanks (.of_head (by decide) _)))
    (skipBlanks_append hblanks _)

theorem member {name : String} {ms : List (String × Value)} (hgap : Blanks gap)
    (h : (value v).ReadFrom cs) (hblanks : Blanks blanks) (hmore : (members ms).ReadFrom more) :
    (members ((name, v) :: ms)).ReadFrom
      (Literal.write name.toList ++ (gap ++ ':' :: (cs ++ (blanks ++ ',' :: more)))) := by
  intro depth rest hdepth
  simp only [List.length_append, List.length_cons] at hdepth
  obtain ⟨depth, rfl⟩ : ∃ d, depth = d + 2 := ⟨depth - 2, by omega⟩
  rw [List.append_assoc, List.append_assoc, List.cons_append, List.append_assoc, List.append_assoc]
  exact members?_next hgap name
    (h depth _ (by omega) (.of_blanks hblanks (.of_head (by decide) _)))
    (skipBlanks_append hblanks _) (hmore (depth + 1) rest (by omega))

end Fragment.ReadFrom

/-- Along the text: each part is read in front of what comes behind it. -/
theorem Written.readFrom {f : Fragment} {cs : List Char} (h : Written f cs) : f.ReadFrom cs := by
  induction h with
  | padded hblanks _ ih => exact ih.padded hblanks
  | null => exact fun _ _ _ _ => rfl
  | yes => exact fun _ _ _ _ => rfl
  | no => exact fun _ _ _ _ => rfl
  | integer n => exact .integer n
  | string text => exact .string text
  | noItems hblanks => exact .noItems hblanks
  | array _ ih => exact ih.array
  | noMembers hblanks => exact .noMembers hblanks
  | object _ ih => exact ih.object
  | lastItem _ hblanks ih => exact ih.lastItem hblanks
  | item _ hblanks _ ih ihmore => exact ih.item hblanks ihmore
  | lastMember hgap _ hblanks ih => exact ih.lastMember hgap hblanks
  | member hgap _ hblanks _ ih ihmore => exact ih.member hgap hblanks ihmore

theorem parse?_of_written {v : Value} {cs : List Char} (h : Written (.value v) cs) :
    parse? (String.ofList cs) = some v := by
  have hread : value? (2 * cs.length + 2) (cs ++ []) = some (v, []) :=
    h.readFrom (2 * cs.length + 1) [] (by omega) endsNumeral_nil
  rw [List.append_nil] at hread
  rw [parse?, String.toList_ofList, hread]
  rfl

theorem parse?_compact {v : Value} (h : v.Plain) : parse? v.compact = some v :=
  parse?_of_written (written_compactChars h)

theorem parse?_pretty {v : Value} (h : v.Plain) : parse? v.pretty = some v :=
  parse?_of_written (written_prettyChars h 0)

end ParseRecovery.Json
