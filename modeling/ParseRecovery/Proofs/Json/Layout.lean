import ParseRecovery.Json.Parser
import ParseRecovery.Json.Printer

/-!
Texts of a value. Before each sign of a text there can be blanks, and nothing hangs on them (`Written`).
Main statement: compact and indented text are both texts of the value that they are made from
(`written_compactChars`, `written_prettyChars`).
-/

namespace ParseRecovery.Json

/-- Nothing but blanks. -/
def Blanks (cs : List Char) : Prop :=
  ∀ c ∈ cs, isBlank c = true

/-- What is written: a value, or what follows the opening bracket or brace of one that is not empty, up to
the closing one. -/
inductive Fragment where
  | value (v : Value)
  | items (vs : List Value)
  | members (ms : List (String × Value))

/-- The characters write the fragment. -/
inductive Written : Fragment → List Char → Prop
  | padded {f : Fragment} {blanks cs : List Char} (hblanks : Blanks blanks) (h : Written f cs) :
      Written f (blanks ++ cs)
  | null : Written (.value .null) ['n', 'u', 'l', 'l']
  | yes : Written (.value (.bool true)) ['t', 'r', 'u', 'e']
  | no : Written (.value (.bool false)) ['f', 'a', 'l', 's', 'e']
  | integer (n : Int) : Written (.value (.integer n)) (integerText n)
  | string (text : String) : Written (.value (.string text)) (Literal.write text.toList)
  | noItems {blanks : List Char} (hblanks : Blanks blanks) :
      Written (.value (.array [])) ('[' :: (blanks ++ [']']))
  | array {vs : List Value} {cs : List Char} (h : Written (.items vs) cs) :
      Written (.value (.array vs)) ('[' :: cs)
  | noMembers {blanks : List Char} (hblanks : Blanks blanks) :
      Written (.value (.object [])) ('\x7b' :: (blanks ++ ['\x7d']))
  | object {ms : List (String × Value)} {cs : List Char} (h : Written (.members ms) cs) :
      Written (.value (.object ms)) ('\x7b' :: cs)
  | lastItem {v : Value} {cs blanks : List Char} (h : Written (.value v) cs)
      (hblanks : Blanks blanks) : Written (.items [v]) (cs ++ (blanks ++ [']']))
  | item {v : Value} {vs : List Value} {cs blanks more : List Char} (h : Written (.value v) cs)
      (hblanks : Blanks blanks) (hmore : Written (.items vs) more) :
      Written (.items (v :: vs)) (cs ++ (blanks ++ ',' :: more))
  | lastMember {name : String} {v : Value} {gap cs blanks : List Char} (hgap : Blanks gap)
      (h : Written (.value v) cs) (hblanks : Blanks blanks) :
      Written (.members [(name, v)])
        (Literal.write name.toList ++ (gap ++ ':' :: (cs ++ (blanks ++ ['\x7d']))))
  | member {name : String} {v : Value} {ms : List (String × Value)} {gap cs blanks more : List Char}
      (hgap : Blanks gap) (h : Written (.value v) cs) (hblanks : Blanks blanks)
      (hmore : Written (.members ms) more) :
      Written (.members ((name, v) :: ms))
        (Literal.write name.toList ++ (gap ++ ':' :: (cs ++ (blanks ++ ',' :: more))))

theorem blanks_nil : Blanks [] :=
  List.forall_mem_nil _

theorem blanks_newline (level : Nat) : Blanks (newline level) := by
  intro c hc
  rcases List.mem_cons.mp hc with rfl | hc
  · rfl
  · rw [(List.mem_replicate.mp hc).2]
    rfl

theorem blanks_blank : Blanks [' '] :=
  List.forall_mem_singleton.mpr rfl

/-! ## Items and members in a row -/

theorem separated_singleton (cs : List Char) : separated [cs] = cs := by
  simp [separated]

theorem separated_cons_cons (cs cs' : List Char) (rest : List (List Char)) :
    separated (cs :: cs' :: rest) = cs ++ ',' :: separated (cs' :: rest) := by
  simp [separated]

section Rows

variable {text : Value → List Char} {before after : List Char} (hbefore : Blanks before)
  (hafter : Blanks after)
include hbefore hafter

/-- Items with commas between them, each after blanks, and blanks before the closing bracket. -/
theorem written_items (v : Value) (vs : List Value)
    (h : ∀ w ∈ v :: vs, Written (.value w) (text w)) :
    Written (.items (v :: vs))
      (separated ((v :: vs).map fun w => before ++ text w) ++ (after ++ [']'])) := by
  induction vs generalizing v with
  | nil =>
    rw [List.map_singleton, separated_singleton]
    exact .lastItem (.padded hbefore (h v List.mem_cons_self)) hafter
  | cons w vs ih =>
    obtain ⟨hv, hvs⟩ := List.forall_mem_cons.mp h
    rw [List.map_cons, List.map_cons, separated_cons_cons, List.append_assoc]
    exact .item (.padded hbefore hv) blanks_nil (ih w hvs)

/-- Members with commas between them, each after blanks, and blanks before the closing brace. -/
theorem written_members {gap : List Char} (hgap : Blanks gap) (m : String × Value)
    (ms : List (String × Value)) (h : ∀ p ∈ m :: ms, Written (.value p.2) (text p.2)) :
    Written (.members (m :: ms))
      (separated ((m :: ms).map fun p =>
        before ++ (Literal.write p.1.toList ++ ':' :: (gap ++ text p.2))) ++ (after ++ ['\x7d'])) := by
  induction ms generalizing m with
  | nil =>
    rw [List.map_singleton, separated_singleton, List.append_assoc, List.append_assoc,
      List.cons_append]
    exact .padded hbefore
      (.lastMember blanks_nil (.padded hgap (h m List.mem_cons_self)) hafter)
  | cons p ms ih =>
    obtain ⟨hm, hms⟩ := List.forall_mem_cons.mp h
    rw [List.map_cons, List.map_cons, separated_cons_cons, List.append_assoc, List.append_assoc,
      List.append_assoc, List.cons_append]
    exact .padded hbefore (.member blanks_nil (.padded hgap hm) blanks_nil (ih p hms))

end Rows

/-! ## The two layouts -/

/-- The value has no numerals but integers, and no parts that are unreadable. -/
inductive Value.Plain : Value → Prop
  | null : Plain .null
  | bool (b : Bool) : Plain (.bool b)
  | integer (n : Int) : Plain (.integer n)
  | string (text : String) : Plain (.string text)
  | array {vs : List Value} (h : ∀ v ∈ vs, Plain v) : Plain (.array vs)
  | object {ms : List (String × Value)} (h : ∀ m ∈ ms, Plain m.2) : Plain (.object ms)

theorem compactItems_eq_map (vs : List Value) : compactItems vs = vs.map compactChars := by
  induction vs with
  | nil => rfl
  | cons v vs ih => exact congrArg (compactChars v :: ·) ih

theorem compactMembers_eq_map (ms : List (String × Value)) :
    compactMembers ms = ms.map fun m => Literal.write m.1.toList ++ ':' :: compactChars m.2 := by
  induction ms with
  | nil => rfl
  | cons m ms ih => exact congrArg (_ :: ·) ih

theorem prettyItems_eq_map (level : Nat) (vs : List Value) :
    prettyItems level vs = vs.map (prettyChars level) := by
  induction vs with
  | nil => rfl
  | cons v vs ih => exact congrArg (prettyChars level v :: ·) ih

theorem prettyMembers_eq_map (level : Nat) (ms : List (String × Value)) :
    prettyMembers level ms =
      ms.map fun m => Literal.write m.1.toList ++ ':' :: ' ' :: prettyChars level m.2 := by
  induction ms with
  | nil => rfl
  | cons m ms ih => exact congrArg (_ :: ·) ih

theorem compactChars_array (vs : List Value) :
    compactChars (.array vs) = '[' :: (separated (vs.map compactChars) ++ [']']) := by
  rw [← compactItems_eq_map]
  rfl

theorem compactChars_object (ms : List (String × Value)) :
    compactChars (.object ms) = '\x7b' :: (separated
      (ms.map fun m => Literal.write m.1.toList ++ ':' :: compactChars m.2) ++ ['\x7d']) := by
  rw [← compactMembers_eq_map]
  rfl

theorem prettyChars_array (level : Nat) (vs : List Value) :
    prettyChars level (.array vs) = block '[' ']' level (vs.map (prettyChars (level + 1))) := by
  rw [← prettyItems_eq_map]
  rfl

theorem prettyChars_object (level : Nat) (ms : List (String × Value)) :
    prettyChars level (.object ms) = block '\x7b' '\x7d' level
      (ms.map fun m => Literal.write m.1.toList ++ ':' :: ' ' :: prettyChars (level + 1) m.2) := by
  rw [← prettyMembers_eq_map]
  rfl

theorem block_map_cons {α : Type} (opening closing : Char) (level : Nat) (text : α → List Char) (a : α)
    (as : List α) :
    block opening closing level ((a :: as).map text) =
      opening :: (separated ((a :: as).map fun x => newline (level + 1) ++ text x) ++
        (newline level ++ [closing])) := by
  rw [List.map_cons, block, ← List.map_cons, List.map_map, List.append_assoc, List.cons_append]
  · rfl
  · exact List.cons_ne_nil _ _

theorem written_compactChars {v : Value} (h : v.Plain) : Written (.value v) (compactChars v) := by
  induction h with
  | null => exact .null
  | bool b =>
    cases b with
    | true => exact .yes
    | false => exact .no
  | integer n => exact .integer n
  | string text => exact .string text
  | @array vs _ ih =>
    rw [compactChars_array]
    cases vs with
    | nil => exact .noItems blanks_nil
    | cons v vs => exact .array (written_items blanks_nil blanks_nil v vs ih)
  | @object ms _ ih =>
    rw [compactChars_object]
    cases ms with
    | nil => exact .noMembers blanks_nil
    | cons m ms => exact .object (written_members blanks_nil blanks_nil blanks_nil m ms ih)

theorem written_prettyChars {v : Value} (h : v.Plain) (level : Nat) :
    Written (.value v) (prettyChars level v) := by
  induction h generalizing level with
  | null => exact .null
  | bool b =>
    cases b with
    | true => exact .yes
    | false => exact .no
  | integer n => exact .integer n
  | string text => exact .string text
  | @array vs _ ih =>
    rw [prettyChars_array]
    cases vs with
    | nil => exact .noItems blanks_nil
    | cons v vs =>
      have hrow := written_items (blanks_newline (level + 1)) (blanks_newline level) v vs
        fun w hw => ih w hw (level + 1)
      rw [block_map_cons]
      exact .array hrow
  | @object ms _ ih =>
    rw [prettyChars_object]
    cases ms with
    | nil => exact .noMembers blanks_nil
    | cons m ms =>
      have hrow := written_members (blanks_newline (level + 1)) (blanks_newline level) blanks_blank m
        ms fun p hp => ih p hp (level + 1)
      rw [block_map_cons]
      exact .object hrow

end ParseRecovery.Json
