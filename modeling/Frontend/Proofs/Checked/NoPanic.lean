import Frontend.Proofs.Checked.Reading
import Frontend.Proofs.Checked.Report
import Frontend.Proofs.Checked.Scanner
import Frontend.Proofs.Grammar.NodeSpans
import Frontend.Proofs.Grammar.Notices
import Mathlib.Data.List.Infix

/-!
# No check fails

A text is scanned, read and reported on with all checks in place, and none of them fails.  The spans
that come of it can be sliced out of the text and shown, whether they are those of tokens, of nodes
of the tree or of diagnostics: each goes from where a token starts to where a token stops, or over
the whole text.
-/

namespace Frontend

/-! ## Spans in a text -/

/-- What can be asked of a span with checks is answered as without: its length, the part of the text
at it, and the places where it starts and stops. -/
structure Span.Sits (text : List Char) (span : Span) : Prop where
  checked : Span.checked span.start span.stop = .ok span
  length : checkedSub span.stop span.start = .ok span.length
  slice : ∃ inside, span.checkedSlice text = .ok inside ∧ span.slice? text = some inside
  starts : ∃ place, checkedPosition text span.start = .ok place ∧
    positionAt? text span.start = some place
  stops : ∃ place, checkedPosition text span.stop = .ok place ∧
    positionAt? text span.stop = some place

namespace Span

variable {span : Span} {text inside : List Char} {source : String}

theorem Sits.of_isCut (hstart : IsCut text span.start) (hstop : IsCut text span.stop)
    (hle : span.start ≤ span.stop) : span.Sits text := by
  obtain ⟨inside, hslice⟩ := exists_slice?_of_isCut hstart hstop hle
  obtain ⟨first, hfirst, hfirst', -⟩ := hstart.position
  obtain ⟨last, hlast, hlast', -⟩ := hstop.position
  exact {
    checked := checked_of_le hle
    length := checkedSub_of_le hle
    slice := ⟨inside, checkedSlice_of_slice? hslice, hslice⟩
    starts := ⟨first, hfirst, hfirst'⟩
    stops := ⟨last, hlast, hlast'⟩ }

theorem Sits.of_slice? (hslice : span.slice? text = some inside) : span.Sits text := by
  obtain ⟨hstart, hstop, hle⟩ := isCut_of_slice? hslice
  exact .of_isCut hstart hstop hle

/-- A span from one token of a text to another one. -/
theorem Bounded.sits (hbounded : span.Bounded (lex source).dropLast) :
    span.Sits source.toList := by
  obtain ⟨hlength, ⟨first, hfirst, hstart⟩, ⟨last, hlast, hstop⟩⟩ := hbounded
  have hcutStart := (isCut_of_slice? (slice?_of_mem_lex (List.mem_of_mem_dropLast hfirst))).1
  have hcutStop := (isCut_of_slice? (slice?_of_mem_lex (List.mem_of_mem_dropLast hlast))).2.1
  rw [← hstart] at hcutStart
  rw [← hstop] at hcutStop
  exact .of_isCut hcutStart hcutStop (Nat.le_of_lt hlength)

theorem sits_whole (text : List Char) : Sits text ⟨0, byteLength text⟩ :=
  .of_isCut ⟨[], text, rfl, rfl⟩ ⟨text, [], (List.append_nil text).symm, rfl⟩ (Nat.zero_le _)

end Span

/-- All spans that come of reading a text: those of the program and of all nodes in it, and those of
the diagnostics. -/
def Reading.spans (reading : Reading) : List Span :=
  reading.program.span :: spansOfOutlines (outlinesOfStatements reading.program.statements) ++
    reading.diagnostics.filterMap Diagnostic.span

/-- A diagnostic is about a part of the text, so its place can be shown. -/
theorem exists_slice?_of_diagnostic {source : String} {diagnostic : Diagnostic} {span : Span}
    (hmember : diagnostic ∈ (readProgram source).diagnostics)
    (hspan : diagnostic.span = some span) : ∃ inside, span.slice? source.toList = some inside := by
  obtain ⟨token, htoken, hplace⟩ := readProgram_diagnostic_span hmember
  obtain rfl : token.span = span := Option.some.inj (hplace.symm.trans hspan)
  exact ⟨token.literal.toList, slice?_of_mem_lex htoken⟩

theorem readProgram_spans_sit (source : String) :
    ∀ span ∈ (readProgram source).spans, span.Sits source.toList := by
  refine List.forall_mem_append.mpr ⟨List.forall_mem_cons.mpr ⟨?_, ?_⟩, ?_⟩
  · rw [readProgram_span]
    exact Span.sits_whole source.toList
  · intro span hmember
    have hderives := Grammar.readProgram_derives source
    have hbounded := hderives.spanned (Lexer.tokens_inOrder _) span hmember
    rw [← lex_dropLast] at hbounded
    exact hbounded.sits
  · intro span hmember
    obtain ⟨diagnostic, hdiagnostic, hspan⟩ := List.mem_filterMap.mp hmember
    obtain ⟨inside, hslice⟩ := exists_slice?_of_diagnostic hdiagnostic hspan
    exact .of_slice? hslice

/-! ## Tokens one at a time -/

namespace Cursor

variable (lexer : Lexer)

/-- A cursor stands on the token that the lexer hands out next, and stands on the one after it
behind that token. -/
theorem ofLexer_next :
    lexer.next.1 = (ofLexer lexer).current ∧ ofLexer lexer.next.2 = (ofLexer lexer).advance := by
  rw [Lexer.next, ofLexer]
  cases hnext : lexer.next? with
  | none =>
      have hend : lexer.atEnd.next? = none := rfl
      rw [Lexer.tokens_of_next?_eq_none hnext]
      refine ⟨rfl, ?_⟩
      rw [Option.getD_none, ofLexer, Lexer.tokens_of_next?_eq_none hend]
      rfl
  | some found =>
      obtain ⟨token, after⟩ := found
      obtain ⟨-, -, -, hstop⟩ := Lexer.span_of_next? hnext
      rw [Lexer.tokens_of_next? hnext]
      refine ⟨rfl, ?_⟩
      rw [Option.getD_some, ofLexer, hstop]
      rfl

end Cursor

/-- Each token that the cursor comes to is handed out by the scanner.  So a cursor over all tokens
stands for a parser that asks for them one by one. -/
theorem Scanner.Stands.hands_out {scanner : Scanner} {lexer : Lexer}
    (hstands : scanner.Stands lexer) (count : Nat) :
    ∃ before after, scanner.skip count = .ok before ∧
      before.next = .ok ((Cursor.advance^[count] (.ofLexer lexer)).current, after) := by
  induction count generalizing scanner lexer with
  | zero =>
      obtain ⟨after, hnext, -⟩ := hstands.next
      rw [(Cursor.ofLexer_next lexer).1] at hnext
      exact ⟨scanner, after, rfl, hnext⟩
  | succ count ih =>
      obtain ⟨behind, hnext, hbehind⟩ := hstands.next
      obtain ⟨before, after, hskip, hlast⟩ := ih hbehind
      rw [(Cursor.ofLexer_next lexer).2, ← Function.iterate_succ_apply] at hlast
      refine ⟨before, after, ?_, hlast⟩
      rw [Scanner.skip, hnext]
      exact hskip

/-! ## Texts -/

/-- Reads a text with the checks of the scanner and those of the grammar, as `parse` does before it
decides on the result.  The end token comes with the cursor. -/
def checkedReading (text : String) : Checked Reading := do
  let tokens ← (Scanner.ofText text).tokenize
  Cursor.checkedProgram ⟨tokens.dropLast, byteLength text.toList⟩

theorem checkedReading_eq (text : String) : checkedReading text = .ok (readProgram text) := by
  have htokens : (Scanner.ofText text).tokenize = .ok (lex text) :=
    (Scanner.ofText_stands text).tokenize
  have hcursor : (⟨(lex text).dropLast, byteLength text.toList⟩ : Cursor) =
      .ofLexer (Lexer.ofText text) := by
    rw [lex_dropLast, ← Lexer.stop_ofText]
    rfl
  rw [checkedReading, htokens, Checked.ok_bind, hcursor]
  exact (Cursor.InText.ofLexer _).checkedProgram

/-- Whatever the text is, no check fails.  The scanner hands out one token after another, as many
as are asked for, and all of them are those of the text.  The text is read and reported on as
without checks.  The spans of all tokens, nodes and diagnostics sit in the text. -/
theorem no_panic (source : Source) :
    (Scanner.ofText source.text).tokenize = .ok (lex source.text) ∧
      (∀ count, ∃ before after, (Scanner.ofText source.text).skip count = .ok before ∧
        before.next =
          .ok ((Cursor.advance^[count] (.ofLexer (Lexer.ofText source.text))).current, after)) ∧
      checkedReading source.text = .ok (readProgram source.text) ∧
      Cli.checkedReport source (readProgram source.text).diagnostics =
        .ok (Cli.report source (readProgram source.text).diagnostics) ∧
      (∀ token ∈ lex source.text, token.span.Sits source.text.toList) ∧
      ∀ span ∈ (readProgram source.text).spans, span.Sits source.text.toList := by
  have hstands := Scanner.ofText_stands source.text
  refine ⟨hstands.tokenize, hstands.hands_out, checkedReading_eq source.text, ?_, ?_,
    readProgram_spans_sit source.text⟩
  · refine Cli.checkedReport_of_isCut fun diagnostic hmember span hspan => ?_
    obtain ⟨inside, hslice⟩ := exists_slice?_of_diagnostic hmember hspan
    obtain ⟨hstart, hstop, -⟩ := Span.isCut_of_slice? hslice
    exact ⟨hstart, hstop⟩
  · exact fun token hmember => .of_slice? (slice?_of_mem_lex hmember)

end Frontend
