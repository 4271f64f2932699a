import ParseRecovery.Proofs.Session.Windows
import ParseRecovery.Proofs.Source.Positions
import ParseRecovery.Proofs.Stream.Lookahead

/-!
Where the tokens stand that a parse adds, and the spans that are put together. The sentinel behind the
tokens and a placeholder at the end of the input are placed where the token before ends, without the text
at hand: their line is that of its start, and the column is counted on. A span around two others takes the
lesser line and the lesser column. Main statement: which of these are located where the given ones are
(`Span.derived_located_iff`). Where a line break comes in between they may not be
(`Span.not_located_over_break`).
-/

namespace ParseRecovery

namespace Span

/-- A place without width at the end of a span. It is located in the text exactly if the span covers no
line break. -/
structure MarksEnd (place s : Span) (text : List Char) : Prop where
  start_eq : place.start = s.stop
  stop_eq : place.stop = s.stop
  located_iff : place.LocatedIn text ↔ '\n' ∉ s.covered text

theorem LocatedIn.marksEnd_after {s : Span} {text : List Char} (h : s.LocatedIn text)
    (hfits : s.column + s.length < 0x100000000) : s.after.MarksEnd s text :=
  ⟨rfl, rfl, h.after_iff hfits⟩

end Span

namespace Session

variable {s : Session} {strategy : Strategy} {op : Operation} {o : Outcome Response} {t : Token}

/-- At the end of the input a token is made up right after the one before. -/
theorem span_conjured_atEof {before : Token} (h : s.perform? strategy op = some o)
    (hresult : o.result = .ok (.symbol (.conjured t))) (heof : s.input.atEof = true)
    (hbefore : s.input.peek? (-1) = some before) : t.span = before.span.after := by
  have heffect := effect_of_perform? (isParsing_of_conjured h hresult) h
  obtain ⟨-, _, kind, -, -, rfl⟩ := heffect.exists_of_conjured hresult
  show s.conjuredPlace.collapsed = before.span.after
  rw [conjuredPlace, hbefore]
  dsimp only
  rw [if_pos heof]
  rfl

end Session

namespace Span

/-- To be located in a text of characters of one byte each is to lie within it and be where its file finds
the start. The sentinel behind tokens that do not end the input, and any token that is made up at the end
of the input, stand where the token before ends: they are located in the text exactly if that token, which
is, covers no line break. The span around two located ones is located exactly if the one that starts
first has the lesser column, and so on one line. -/
theorem derived_located_iff (text : List Char) :
    (∀ (file : SourceFile) (s : Span), file.text.toList = text → (∀ c ∈ text, c.utf8Size = 1) →
      (s.LocatedIn text ↔ (s.start ≤ s.stop ∧ s.stop ≤ text.length) ∧
        file.locate s.start = ⟨s.line, s.column⟩)) ∧
    (∀ (tokens : List Token) (last : Token), tokens.getLast? = some last → last.isEof = false →
      last.span.LocatedIn text → last.span.column + last.span.length < 0x100000000 →
      ∃ sentinel, (TokenStream.ofTokens tokens).get? tokens.length = some sentinel ∧
        sentinel.isEof = true ∧ sentinel.span.MarksEnd last.span text) ∧
    (∀ (s : Session) (strategy : Strategy) (op : Operation) (o : Outcome Response) (t before : Token),
      s.perform? strategy op = some o → o.result = .ok (.symbol (.conjured t)) →
      s.input.atEof = true → s.input.peek? (-1) = some before →
      before.span.LocatedIn text → before.span.column + before.span.length < 0x100000000 →
      t.span.MarksEnd before.span text) ∧
    ∀ a b : Span, a.LocatedIn text → b.LocatedIn text → a.start ≤ b.start →
      b.merge a = a.merge b ∧ ((a.merge b).LocatedIn text ↔ a.column ≤ b.column) ∧
        (a.line = b.line → (a.merge b).LocatedIn text) := by
  refine ⟨?_, ?_, ?_, ?_⟩
  · intro file s htext hbytes
    subst htext
    exact locatedIn_iff_locate hbytes
  · intro tokens last hlast heof hlocated hfits
    refine ⟨(Token.eof last.span.after).withIndex tokens.length, ?_, rfl,
      hlocated.marksEnd_after hfits⟩
    rw [TokenStream.get?_ofTokens, TokenStream.terminated_of_getLast? hlast heof,
      List.getElem?_concat_length, Option.map_some]
  · intro s strategy op o t before h hresult heof hbefore hlocated hfits
    rw [Session.span_conjured_atEof h hresult heof hbefore]
    exact hlocated.marksEnd_after hfits
  · intro a b ha hb hle
    exact ⟨b.merge_comm a, ha.merge_iff_of_le hb hle,
      fun hline => (ha.merge_iff_of_le hb hle).mpr (ha.column_le hb hle hline)⟩

end Span

/-! ### The end of a pair -/

namespace Session

/-- The `A` of a pair is matched, and the input ends. -/
def pairBehind (first : Token) : Session :=
  { pairSession with
    input := (TokenStream.ofTokens [first]).consume
    stack := [.root 0]
    state := 2 }

/-- Where a token is made up, if one is. -/
def conjuredSpan? (o : Option (Outcome Response)) : Option Span :=
  o.bind fun o =>
    match o.result with
    | .ok (.symbol (.conjured t)) => some t.span
    | _ => none

theorem exists_of_conjuredSpan? {o : Option (Outcome Response)} {place : Span}
    (h : conjuredSpan? o = some place) :
    ∃ outcome t, o = some outcome ∧ outcome.result = .ok (.symbol (.conjured t)) ∧ t.span = place := by
  obtain ⟨outcome, ho, hplace⟩ := Option.bind_eq_some_iff.mp h
  split at hplace
  · rename_i t hresult
    exact ⟨outcome, t, ho, hresult, Option.some.inj hplace⟩
  · cases hplace

end Session

namespace Span

/-- An `A` on one line. -/
def letter : Token :=
  { kind := 1, text := "a", span := ⟨0, 1, 1, 1⟩ }

/-- An `A` with a line break at its end. -/
def brokenLetter : Token :=
  { kind := 1, text := "a\n", span := ⟨0, 2, 1, 1⟩ }

theorem derived_located_iff_letter :
    ([letter].getLast? = some letter ∧ letter.isEof = false) ∧
      (letter.span.LocatedIn ['a'] ∧ letter.span.column + letter.span.length < 0x100000000) ∧
      (∃ sentinel, (TokenStream.ofTokens [letter]).get? 1 = some sentinel ∧ sentinel.isEof = true ∧
        sentinel.span.LocatedIn ['a']) ∧
      ((Session.pairBehind letter).input.atEof = true ∧
        (Session.pairBehind letter).input.peek? (-1) = some (letter.withIndex 0)) ∧
      (∃ o t, (Session.pairBehind letter).perform? .repair (.matchKind 2) = some o ∧
        o.result = .ok (.symbol (.conjured t)) ∧ t.span.LocatedIn ['a'] ∧
        SourceFile.locate ⟨"pair", "a"⟩ t.span.start = ⟨t.span.line, t.span.column⟩) ∧
      (letter.span.merge ⟨1, 1, 1, 2⟩).LocatedIn ['a'] := by
  obtain ⟨hfile, hsentinel, hplaceholder, hmerge⟩ := derived_located_iff ['a']
  have hlocated : letter.span.LocatedIn ['a'] := by decide
  have hfits : letter.span.column + letter.span.length < 0x100000000 := by decide
  have hcovered : '\n' ∉ letter.span.covered ['a'] := by decide
  have heof : (Session.pairBehind letter).input.atEof = true := by decide +kernel
  have hbefore : (Session.pairBehind letter).input.peek? (-1) = some (letter.withIndex 0) := by
    decide +kernel
  have hconjured : Session.conjuredSpan?
      ((Session.pairBehind letter).perform? .repair (.matchKind 2)) = some ⟨1, 1, 1, 2⟩ := by
    decide +kernel
  obtain ⟨sentinel, hget, hends, hmarks⟩ := hsentinel [letter] letter rfl rfl hlocated hfits
  obtain ⟨o, t, ho, hresult, -⟩ := Session.exists_of_conjuredSpan? hconjured
  have hplace := hplaceholder _ _ _ o t (letter.withIndex 0) ho hresult heof hbefore hlocated hfits
  have hconjuredAt := hplace.located_iff.mpr hcovered
  have hbytes : ∀ c ∈ ['a'], c.utf8Size = 1 := by
    intro c hc
    rw [List.mem_singleton.mp hc]
    decide
  obtain ⟨-, hfound⟩ := (hfile ⟨"pair", "a"⟩ t.span (by decide) hbytes).mp hconjuredAt
  obtain ⟨-, -, hline⟩ := hmerge letter.span ⟨1, 1, 1, 2⟩ hlocated (by decide) (by decide)
  exact ⟨⟨rfl, rfl⟩, ⟨hlocated, hfits⟩, ⟨sentinel, hget, hends, hmarks.located_iff.mpr hcovered⟩,
    ⟨heof, hbefore⟩, ⟨o, t, ho, hresult, hconjuredAt, hfound⟩, hline rfl⟩

/-- Behind a located token with a line break at its end neither the sentinel nor a placeholder is located:
both are given the line on which the token starts, and the file finds the next one there. Nor is the span
around two located spans on different lines located if the second starts further to the left. -/
theorem not_located_over_break :
    (brokenLetter.isEof = false ∧ brokenLetter.span.LocatedIn ['a', '\n']) ∧
      ((TokenStream.ofTokens [brokenLetter]).get? 1).map Token.span = some ⟨2, 2, 1, 3⟩ ∧
      ((Session.pairBehind brokenLetter).input.atEof = true ∧
        (Session.pairBehind brokenLetter).input.peek? (-1) = some (brokenLetter.withIndex 0)) ∧
      Session.conjuredSpan?
        ((Session.pairBehind brokenLetter).perform? .repair (.matchKind 2)) = some ⟨2, 2, 1, 3⟩ ∧
      (¬ (⟨2, 2, 1, 3⟩ : Span).LocatedIn ['a', '\n'] ∧ (⟨2, 2, 2, 1⟩ : Span).LocatedIn ['a', '\n'] ∧
        SourceFile.locate ⟨"pair", "a\n"⟩ 2 = ⟨2, 1⟩) ∧
      ((⟨3, 4, 1, 4⟩ : Span).LocatedIn [' ', ' ', ' ', 'a', '\n', 'b'] ∧
        (⟨5, 6, 2, 1⟩ : Span).LocatedIn [' ', ' ', ' ', 'a', '\n', 'b'] ∧
        ¬ (merge ⟨3, 4, 1, 4⟩ ⟨5, 6, 2, 1⟩).LocatedIn [' ', ' ', ' ', 'a', '\n', 'b']) := by
  refine ⟨by decide, by decide +kernel, ⟨by decide +kernel, by decide +kernel⟩, by decide +kernel,
    ⟨by decide, by decide, by decide +kernel⟩, by decide, by decide, by decide⟩

end Span

end ParseRecovery
