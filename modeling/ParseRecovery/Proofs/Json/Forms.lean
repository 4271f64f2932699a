import ParseRecovery.Json.Forms
import ParseRecovery.Proofs.Json.Reading
import ParseRecovery.Proofs.Json.Record
import ParseRecovery.Proofs.Source.Positions

/-!
What is written in JSON is read back. The fields of spans, tokens and reports are words of certain
widths (`Span.Fits`, `Token.Fits`, `Report.Fits`); the form of such a record reads as the record
(`ofJson?_toJson`), and its text as its form. The positions of a diagnostic's report are words since no
source text is longer than a word can count (`Report.fits_ofDiagnostic`). Main statement:
`json_reads_back`.
-/

namespace ParseRecovery

open Json (Value)

/-! ## Words -/

/-- Places are 64-bit words, lines and columns 32-bit words. -/
structure Span.Fits (s : Span) : Prop where
  start_lt : s.start < Json.word64
  stop_lt : s.stop < Json.word64
  line_lt : s.line < Json.word32
  column_lt : s.column < Json.word32

/-- The kind is a signed 32-bit word, and the place in the stream a 64-bit word. -/
structure Token.Fits (t : Token) : Prop where
  kind_ge : -0x80000000 ≤ t.kind
  kind_lt : t.kind < 0x80000000
  span : t.span.Fits
  index_lt : ∀ i ∈ t.index, i < Json.word64

/-- Lines and columns of a report are 64-bit words. -/
structure ReportLabel.Fits (l : ReportLabel) : Prop where
  startLine_lt : l.startLine < Json.word64
  startColumn_lt : l.startColumn < Json.word64
  endLine_lt : l.endLine < Json.word64
  endColumn_lt : l.endColumn < Json.word64

def Report.Fits (r : Report) : Prop :=
  ∀ l ∈ r.labels, l.Fits

/-- The length of the text in bytes is a signed 64-bit word, as that of every text in memory is. -/
def SourceFile.Addressable (file : SourceFile) : Prop :=
  byteLength file.text.toList < 0x8000000000000000

theorem SourceFile.Addressable.locate_lt {file : SourceFile} (h : file.Addressable) (offset : Nat) :
    (file.locate offset).line < Json.word64 ∧ (file.locate offset).column < Json.word64 := by
  have hlength := length_le_byteLength file.text.toList
  have hline := file.locate_line_le offset
  have hcolumn := file.locate_column_le offset
  rw [Addressable] at h
  rw [Json.word64]
  omega

theorem Report.fits_of_labelOf? {files : SourceFiles} {label : SourceLabel} {l : ReportLabel}
    (hfiles : ∀ f ∈ files, f.Addressable) (h : labelOf? files label = some l) : l.Fits := by
  obtain ⟨file, hfile, rfl⟩ := Option.map_eq_some_iff.mp h
  have hlocate := (hfiles file (List.mem_of_getElem? hfile)).locate_lt
  exact ⟨(hlocate _).1, (hlocate _).2, (hlocate _).1, (hlocate _).2⟩

theorem Report.fits_ofDiagnostic {files : SourceFiles} (hfiles : ∀ f ∈ files, f.Addressable)
    (file : Nat) (d : Diagnostic) : (ofDiagnostic files file d).Fits :=
  fun _ hl => fits_of_labelOf? hfiles (Option.mem_toList.mp hl)

/-! ## Forms -/

section Forms

open Json

theorem Span.ofJson?_toJson {s : Span} (h : s.Fits) : ofJson? s.toJson = some s := by
  simp only [ofJson?, toJson, Option.bind_eq_bind, Option.bind_eq_some_iff]
  exact ⟨_, fields?_object rfl (by decide),
    _, required?_member? rfl (below?_natural h.start_lt),
    _, required?_member? rfl (below?_natural h.stop_lt),
    _, required?_member? rfl (below?_natural h.line_lt),
    _, required?_member? rfl (below?_natural h.column_lt), rfl⟩

theorem Token.ofJson?_toJson {t : Token} (h : t.Fits) : ofJson? t.toJson = some t := by
  have hkind : TokenKind.ofJson? (TokenKind.toJson t.kind) = some t.kind :=
    if_pos ⟨h.kind_ge, h.kind_lt⟩
  have hindex : (Value.ofOption Value.natural t.index).option? (Value.below? word64) = some t.index :=
    option?_ofOption (fun _ => nofun) fun i hi => below?_natural (h.index_lt i hi)
  simp only [ofJson?, toJson, Option.bind_eq_bind, Option.bind_eq_some_iff]
  exact ⟨_, fields?_object rfl (by decide),
    _, required?_member? rfl hkind,
    _, required?_member? rfl rfl,
    _, required?_member? rfl (Span.ofJson?_toJson h.span),
    _, optional?_member? rfl hindex, rfl⟩

theorem RecoveryConfig.ofJson?_toJson (c : RecoveryConfig) : ofJson? c.toJson = some c := by
  simp only [ofJson?, toJson, Option.bind_eq_bind, Option.bind_eq_some_iff]
  exact ⟨_, settings?_object rfl (by decide),
    _, default?_member? rfl rfl,
    _, default?_member? rfl rfl,
    _, default?_member? rfl rfl,
    _, default?_member? rfl rfl, rfl⟩

theorem ReportLabel.ofJson?_toJson {l : ReportLabel} (h : l.Fits) : ofJson? l.toJson = some l := by
  have hmessage : (Value.ofOption Value.string l.message).option? Value.string? = some l.message :=
    option?_ofOption (fun _ => nofun) fun _ _ => rfl
  simp only [ofJson?, toJson, Option.bind_eq_bind, Option.bind_eq_some_iff]
  exact ⟨_, fields?_object rfl (by decide),
    _, required?_member? rfl rfl,
    _, required?_member? rfl (below?_natural h.startLine_lt),
    _, required?_member? rfl (below?_natural h.startColumn_lt),
    _, required?_member? rfl (below?_natural h.endLine_lt),
    _, required?_member? rfl (below?_natural h.endColumn_lt),
    _, optional?_member? rfl hmessage,
    _, required?_member? rfl rfl, rfl⟩

theorem Report.list?_strings (texts : List String) : list? Value.string? (strings texts) = some texts :=
  mapM_map_eq_some fun _ _ => rfl

theorem Report.ofJson?_toJson {r : Report} (h : r.Fits) : ofJson? r.toJson = some r := by
  have hlabels : list? ReportLabel.ofJson? (.array (r.labels.map ReportLabel.toJson)) = some r.labels :=
    mapM_map_eq_some fun l hl => ReportLabel.ofJson?_toJson (h l hl)
  simp only [ofJson?, toJson, Option.bind_eq_bind, Option.bind_eq_some_iff]
  exact ⟨_, fields?_object rfl (by decide),
    _, required?_member? rfl rfl,
    _, required?_member? rfl rfl,
    _, required?_member? rfl rfl,
    _, required?_member? rfl hlabels,
    _, required?_member? rfl (list?_strings r.notes),
    _, required?_member? rfl (list?_strings r.ruleStack), rfl⟩

end Forms

/-! ## Plain forms -/

section Plain

open Json.Value.Plain

theorem Json.Value.plain_ofOption {α : Type} {form : α → Value} (h : ∀ a, (form a).Plain)
    (a : Option α) : (Value.ofOption form a).Plain := by
  cases a with
  | none => exact .null
  | some a => exact h a

theorem Span.plain_toJson (s : Span) : s.toJson.Plain := by
  refine object ?_
  simp only [List.forall_mem_cons]
  exact ⟨integer _, integer _, integer _, integer _, List.forall_mem_nil _⟩

theorem Token.plain_toJson (t : Token) : t.toJson.Plain := by
  refine object ?_
  simp only [List.forall_mem_cons]
  exact ⟨integer _, string _, t.span.plain_toJson, Value.plain_ofOption (fun _ => integer _) _,
    List.forall_mem_nil _⟩

theorem RecoveryConfig.plain_toJson (c : RecoveryConfig) : c.toJson.Plain := by
  refine object ?_
  simp only [List.forall_mem_cons]
  exact ⟨bool _, bool _, bool _, bool _, List.forall_mem_nil _⟩

theorem ReportLabel.plain_toJson (l : ReportLabel) : l.toJson.Plain := by
  refine object ?_
  simp only [List.forall_mem_cons]
  exact ⟨string _, integer _, integer _, integer _, integer _, Value.plain_ofOption string _, string _,
    List.forall_mem_nil _⟩

theorem Report.plain_strings (texts : List String) : (strings texts).Plain :=
  array (List.forall_mem_map.mpr fun _ _ => string _)

theorem Report.plain_toJson (r : Report) : r.toJson.Plain := by
  have hlabels : (Value.array (r.labels.map ReportLabel.toJson)).Plain :=
    array (List.forall_mem_map.mpr fun l _ => l.plain_toJson)
  refine object ?_
  simp only [List.forall_mem_cons]
  exact ⟨string _, string _, string _, hlabels, plain_strings _, plain_strings _,
    List.forall_mem_nil _⟩

end Plain

/-! ## Texts -/

theorem Report.read_pretty {r : Report} (h : r.Fits) :
    (Json.parse? r.toJson.pretty).bind ofJson? = some r := by
  rw [Json.parse?_pretty r.plain_toJson, Option.bind_some, ofJson?_toJson h]

/-- The text of a report whose positions are words reads as the report. So does that of the report of any
diagnostic, if the source texts have lengths that words can count. The compact text of a token or a span
reads as the token or the span, and that of settings as the settings. -/
theorem json_reads_back :
    (∀ r : Report, r.Fits → (Json.parse? r.toJson.pretty).bind Report.ofJson? = some r) ∧
      (∀ (d : Diagnostic) (files : SourceFiles) (file : Nat), (∀ f ∈ files, f.Addressable) →
        (Json.parse? (d.jsonText files file)).bind Report.ofJson? =
          some (Report.ofDiagnostic files file d)) ∧
      (∀ t : Token, t.Fits → (Json.parse? t.toJson.compact).bind Token.ofJson? = some t) ∧
      (∀ s : Span, s.Fits → (Json.parse? s.toJson.compact).bind Span.ofJson? = some s) ∧
      ∀ c : RecoveryConfig, (Json.parse? c.toJson.compact).bind RecoveryConfig.ofJson? = some c := by
  refine ⟨fun r h => r.read_pretty h, fun d files file hfiles => ?_, fun t h => ?_, fun s h => ?_,
    fun c => ?_⟩
  · exact Report.read_pretty (Report.fits_ofDiagnostic hfiles file d)
  · rw [Json.parse?_compact t.plain_toJson, Option.bind_some, Token.ofJson?_toJson h]
  · rw [Json.parse?_compact s.plain_toJson, Option.bind_some, Span.ofJson?_toJson h]
  · rw [Json.parse?_compact c.plain_toJson, Option.bind_some, RecoveryConfig.ofJson?_toJson]

/-! ### Texts that need escapes -/

/-- A token at the last place that a word can count, over a text with a quote, a backslash, control
characters and characters of two and four bytes. -/
def oddToken : Token where
  kind := -0x80000000
  text := "\"\\\n\x01\x7f é 𝄞"
  span := ⟨2, 4, 1, 3⟩
  index := some 0xffffffffffffffff

def oddFile : SourceFile where
  path := "a\\b\t.txt"
  text := "é\"\n𝄞"

def oddDiagnostic : Diagnostic where
  fault :=
    { cause := .failedPredicate "\"r\"" "p" none
      offending := oddToken
      expected := SortedSet.ofList [1]
      ruleStack := ["r\x0c", ""]
      state := 0 }
  message := "\x1f\\u0041\r"
  expected := "'\"'"

/-- A label that says nothing, at the last column that a word can count. -/
def oddReport : Report where
  code := ""
  kind := "\\\\"
  message := "\x00"
  labels := [⟨"", 0, 0xffffffffffffffff, 1, 0, none, "secondary"⟩]
  notes := ["\"", "["]
  ruleStack := []

theorem json_reads_back_odd :
    (oddReport.Fits ∧ (∀ f ∈ [oddFile], f.Addressable) ∧ oddToken.Fits ∧ oddToken.span.Fits) ∧
      (Json.parse? oddReport.toJson.pretty).bind Report.ofJson? = some oddReport ∧
      (Json.parse? (oddDiagnostic.jsonText [oddFile] 0)).bind Report.ofJson? =
        some (Report.ofDiagnostic [oddFile] 0 oddDiagnostic) ∧
      (Json.parse? oddToken.toJson.compact).bind Token.ofJson? = some oddToken ∧
      (Json.parse? oddToken.span.toJson.compact).bind Span.ofJson? = some oddToken.span := by
  have hreport : oddReport.Fits :=
    List.forall_mem_singleton.mpr ⟨by decide, by decide, by decide, by decide⟩
  have hfile : oddFile.Addressable := by
    rw [SourceFile.Addressable]
    decide
  have hfiles : ∀ f ∈ [oddFile], f.Addressable := List.forall_mem_singleton.mpr hfile
  have hspan : oddToken.span.Fits := ⟨by decide, by decide, by decide, by decide⟩
  have hindex : ∀ i ∈ oddToken.index, i < Json.word64 := by
    rintro _ ⟨⟩
    decide
  have htoken : oddToken.Fits := ⟨by decide, by decide, hspan, hindex⟩
  obtain ⟨hreports, hdiagnostics, htokens, hspans, -⟩ := json_reads_back
  exact ⟨⟨hreport, hfiles, htoken, hspan⟩, hreports _ hreport,
    hdiagnostics oddDiagnostic [oddFile] 0 hfiles, htokens _ htoken, hspans _ hspan⟩

end ParseRecovery
