import Frontend.Cli.Report
import Frontend.Proofs.Checked.Checks

/-!
# Reports with checks

A byte offset is turned into a line and a column by slicing the text before it, looking for line
feeds in that, and slicing the text from the last of them on.  Both slices are there if the text can
be cut at the offset.  A row of carets may take one from a column, and columns are counted from one.
-/

namespace Frontend

/-- The place after a text and one more character. -/
theorem Position.after_concat (before : List Char) (c : Char) :
    after (before ++ [c]) =
      if c = '\n' then ⟨(after before).line + 1, 1⟩
      else ⟨(after before).line, (after before).column + 1⟩ := by
  by_cases hfeed : c = '\n' <;> simp [after, hfeed]

/-! ## Places -/

/-- The line that a text ends on and the offset at which this line starts, found by the loop of
`line_column`.  The text is read on from an offset, with the line that was found there and its
start. -/
def seekLine (offset line start : Nat) : List Char → Nat × Nat
  | [] => (line, start)
  | c :: cs =>
      if c = '\n' then seekLine (offset + c.utf8Size) (line + 1) (offset + 1) cs
      else seekLine (offset + c.utf8Size) line start cs

/-- The line and its start are those that the text ends on.  This is what the loop of `line_column`
keeps true while it reads on. -/
def EndsOnLine (before : List Char) (line start : Nat) : Prop :=
  ∃ front part, before = front ++ part ∧ start = byteLength front ∧
    Position.after before = ⟨line, part.length + 1⟩

theorem EndsOnLine.concat {before : List Char} {line start : Nat}
    (hends : EndsOnLine before line start) (c : Char) :
    if c = '\n' then EndsOnLine (before ++ [c]) (line + 1) (byteLength before + 1)
    else EndsOnLine (before ++ [c]) line start := by
  obtain ⟨front, part, hbefore, hstart, hplace⟩ := hends
  split
  · next hfeed =>
      refine ⟨before ++ [c], [], (List.append_nil _).symm, ?_, ?_⟩
      · rw [hfeed, byteLength_append]
        rfl
      · rw [Position.after_concat, if_pos hfeed, hplace]
        rfl
  · next hfeed =>
      refine ⟨front, part ++ [c], ?_, hstart, ?_⟩
      · rw [hbefore, List.append_assoc]
      · rw [Position.after_concat, if_neg hfeed, hplace, List.length_append]
        rfl

/-- Reading on finds the line that all of the text ends on.  The loop keeps this true with every
character. -/
theorem EndsOnLine.seekLine {before : List Char} {line start : Nat}
    (hends : EndsOnLine before line start) (rest : List Char) :
    EndsOnLine (before ++ rest) (seekLine (byteLength before) line start rest).1
      (seekLine (byteLength before) line start rest).2 := by
  -- `before` takes in one character after the other.
  induction rest generalizing before line start with
  | nil =>
      rw [List.append_nil]
      exact hends
  | cons c cs ih =>
      have hconcat := hends.concat c
      have hlength : byteLength before + c.utf8Size = byteLength (before ++ [c]) := by simp
      rw [Frontend.seekLine, hlength, List.append_cons]
      split at hconcat
      · next hfeed =>
          rw [if_pos hfeed]
          exact ih hconcat
      · next hfeed =>
          rw [if_neg hfeed]
          exact ih hconcat

/-- The place at a byte offset, `line_column` of `SourceFile`: the text is sliced up to the offset,
and sliced again from the start of the line to count characters. -/
def checkedPosition (text : List Char) (offset : Nat) : Checked Position := do
  let offset := min offset (byteLength text)
  let before ← Span.checkedSlice ⟨0, offset⟩ text
  let found := seekLine 0 1 0 before
  let part ← Span.checkedSlice ⟨found.2, offset⟩ text
  return ⟨found.1, part.length + 1⟩

theorem checkedPosition_append (before after : List Char) :
    checkedPosition (before ++ after) (byteLength before) = .ok (Position.after before) := by
  have hwithin : min (byteLength before) (byteLength (before ++ after)) = byteLength before := by
    rw [byteLength_append]
    omega
  have hbefore := Span.checkedSlice_append [] before after
  rw [byteLength_nil, Nat.zero_add, List.nil_append] at hbefore
  have hempty : EndsOnLine [] 1 0 := ⟨[], [], rfl, rfl, rfl⟩
  obtain ⟨front, part, hsplit, hstart, hplace⟩ := hempty.seekLine before
  rw [List.nil_append] at hsplit hplace
  have hpart := Span.checkedSlice_append front part after
  rw [← byteLength_append, ← hsplit, ← hstart] at hpart
  rw [byteLength_nil] at hpart hplace
  rw [checkedPosition, hwithin]
  dsimp only
  rw [hbefore, Checked.ok_bind, hpart, hplace]
  rfl

theorem positionAt?_append (before after : List Char) :
    positionAt? (before ++ after) (byteLength before) = some (Position.after before) := by
  have hwithin : min (byteLength before) (byteLength (before ++ after)) = byteLength before := by
    rw [byteLength_append]
    omega
  rw [positionAt?, hwithin, splitAtByte?_append]
  rfl

/-- There is a place wherever the text can be cut, and it is the one that is found without
checks. -/
theorem IsCut.position {text : List Char} {offset : Nat} (hcut : IsCut text offset) :
    ∃ place, checkedPosition text offset = .ok place ∧ positionAt? text offset = some place ∧
      1 ≤ place.column := by
  obtain ⟨before, after, rfl, rfl⟩ := hcut
  exact ⟨Position.after before, checkedPosition_append before after,
    positionAt?_append before after, Nat.le_add_left 1 _⟩

/-! ## Diagnostics -/

namespace Cli

/-- The number of carets from a place on a line, the `highlight_len` of `print_diagnostic`.  If the
span goes on to a later line, one is taken from the column without looking, and there the check
is. -/
def checkedCaretCount (line : List Char) (start stop : Position) : Checked Nat := do
  if stop.line = start.line then return max 1 (stop.column - start.column)
  else return max 1 (line.length - (← checkedSub start.column 1))

/-- Where a span lies, and its line with carets below: `print_diagnostic` after its message.  The
end of the span is only looked for if the line can be shown. -/
def checkedExcerpt (source : Source) (span : Span) : Checked String := do
  let start ← checkedPosition source.text.toList span.start
  let place := "     --> " ++ source.path ++ ":" ++ Numeral.ofNat start.line ++ ":" ++
    Numeral.ofNat start.column ++ "\n"
  match source.line? start.line with
  | none => return place
  | some line =>
      let stop ← checkedPosition source.text.toList span.stop
      let carets ← checkedCaretCount line start stop
      return place ++ (sourceMargin ++ String.ofList (shownLine line) ++ "\n" ++
        sourceMargin ++ String.ofList (shownBlanks (line.take (start.column - 1)) ++
          List.replicate carets '^') ++ "\n")

/-- A diagnostic with its place, if it has one: `print_diagnostic`. -/
def checkedDiagnosticReport (source : Source) (diagnostic : Diagnostic) : Checked String := do
  let message := "  - error: " ++ diagnostic.message ++ "\n"
  match diagnostic.span with
  | none => return message
  | some span => return message ++ (← checkedExcerpt source span)

/-- The diagnostics under a heading, or nothing if there are none: `report_diagnostics`. -/
def checkedReport (source : Source) : List Diagnostic → Checked String
  | [] => return ""
  | diagnostics => do
      let reports ← diagnostics.mapM (checkedDiagnosticReport source)
      return "Diagnostics:\n" ++ joined "" reports

section

variable {source : Source} {span : Span} {diagnostic : Diagnostic}

theorem checkedCaretCount_of_le {line : List Char} {start stop : Position}
    (hcolumn : 1 ≤ start.column) :
    checkedCaretCount line start stop = .ok (caretCount line start stop) := by
  rw [checkedCaretCount, caretCount]
  split
  · rfl
  · rw [checkedSub_of_le hcolumn]
    rfl

/-- The place of a span between two cuts is shown. -/
theorem exists_checkedExcerpt (hstart : IsCut source.text.toList span.start)
    (hstop : IsCut source.text.toList span.stop) :
    ∃ start stop, source.position? span.start = some start ∧
      source.position? span.stop = some stop ∧
      checkedExcerpt source span = .ok (excerpt source start stop) := by
  obtain ⟨start, hchecked, hposition, hcolumn⟩ := hstart.position
  obtain ⟨stop, hchecked', hposition', -⟩ := hstop.position
  refine ⟨start, stop, hposition, hposition', ?_⟩
  rw [checkedExcerpt, hchecked, Checked.ok_bind, excerpt]
  dsimp only
  cases source.line? start.line with
  | none =>
      dsimp only
      rw [String.append_empty]
      rfl
  | some line =>
      dsimp only
      rw [hchecked', Checked.ok_bind, checkedCaretCount_of_le hcolumn, Checked.ok_bind, caretLine]
      rfl

theorem checkedDiagnosticReport_of_isCut
    (hcuts : ∀ span, diagnostic.span = some span →
      IsCut source.text.toList span.start ∧ IsCut source.text.toList span.stop) :
    checkedDiagnosticReport source diagnostic = .ok (diagnosticReport source diagnostic) := by
  rw [checkedDiagnosticReport, diagnosticReport]
  cases hspan : diagnostic.span with
  | none => exact congrArg Except.ok (String.append_empty).symm
  | some span =>
      obtain ⟨hstart, hstop⟩ := hcuts span hspan
      obtain ⟨start, stop, hposition, hposition', hexcerpt⟩ := exists_checkedExcerpt hstart hstop
      dsimp only
      rw [hexcerpt]
      simp [hposition, hposition']

/-- What can be cut at the spans of all its diagnostics is reported on. -/
theorem checkedReport_of_isCut {diagnostics : List Diagnostic}
    (hcuts : ∀ diagnostic ∈ diagnostics, ∀ span, diagnostic.span = some span →
      IsCut source.text.toList span.start ∧ IsCut source.text.toList span.stop) :
    checkedReport source diagnostics = .ok (report source diagnostics) := by
  cases diagnostics with
  | nil => rfl
  | cons first rest =>
      have hreports := Checked.mapM_eq_ok fun diagnostic hmember =>
        checkedDiagnosticReport_of_isCut (hcuts diagnostic hmember)
      exact congrArg (· >>= _) hreports

end

end Cli

end Frontend
