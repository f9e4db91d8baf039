import Frontend.Proofs.Checked.NoPanic
import Frontend.Proofs.Source.Lines

/-!
# Excerpts with carets

A diagnostic is shown with its message, its place, the line that it is on, and a row of carets below
the part of the line that it is about.  The line is shown with its tabs four blanks wide and without
the carriage returns at its end.  The blanks before the carets are as wide as what stands before the
part, but the carets are counted by the characters of the source, so they are one for each tab and
one for each carriage return as well.  The end of a text that ends in a line feed is on no line at
all, and what is wrong there is shown without one.
-/

namespace Frontend

namespace Cli

/-- The part of a line from one place to another one, or to the end of the line if the other one is
on another line.  This is what carets are meant to stand below. -/
def markedPart (line : List Char) (start stop : Position) : List Char :=
  if stop.line = start.line then (line.take (stop.column - 1)).drop (start.column - 1)
  else line.drop (start.column - 1)

/-- The carets stand below just the part that is marked, and there is at least one of them.  Tabs
are counted as wide as they are shown, both before the part and in it. -/
def CaretsAligned (line : List Char) (start stop : Position) : Prop :=
  caretLine line start stop =
    List.replicate (shownLine (line.take (start.column - 1))).length ' ' ++
      List.replicate (max 1 (shownLine (markedPart line start stop)).length) '^'

@[simp]
theorem shownLine_cons (c : Char) (line : List Char) :
    shownLine (c :: line) =
      (if c = '\t' then List.replicate 4 ' ' else [c]) ++ shownLine line :=
  List.flatMap_cons

@[simp]
theorem shownBlanks_cons (c : Char) (part : List Char) :
    shownBlanks (c :: part) =
      (if c = '\t' then List.replicate 4 ' ' else [' ']) ++ shownBlanks part :=
  List.flatMap_cons

instance (line : List Char) (start stop : Position) : Decidable (CaretsAligned line start stop) :=
  inferInstanceAs (Decidable (_ = _))

theorem length_shownLine (line : List Char) :
    (shownLine line).length = line.length + 3 * line.count '\t' := by
  induction line with
  | nil => rfl
  | cons c line ih =>
      rw [shownLine_cons, List.length_append, ih, List.length_cons]
      by_cases htab : c = '\t'
      · rw [if_pos htab, htab, List.length_replicate, List.count_cons_self]
        omega
      · rw [if_neg htab, List.count_cons_of_ne htab, List.length_singleton]
        omega

/-- Blanks are as wide as the part that they stand for. -/
theorem shownBlanks_eq (part : List Char) :
    shownBlanks part = List.replicate (shownLine part).length ' ' := by
  induction part with
  | nil => rfl
  | cons c part ih =>
      rw [shownBlanks_cons, ih, shownLine_cons, List.length_append, List.replicate_add]
      split <;> rfl

/-- There is a caret below every line. -/
theorem exists_caretLine_eq (line : List Char) (start stop : Position) :
    ∃ blanks carets, caretLine line start stop =
      List.replicate blanks ' ' ++ List.replicate (carets + 1) '^' := by
  have hpos : 1 ≤ caretCount line start stop := Nat.le_max_left _ _
  obtain ⟨carets, hcarets⟩ := Nat.exists_eq_add_of_le' hpos
  exact ⟨_, carets, by rw [caretLine, shownBlanks_eq, hcarets]⟩

theorem sourceMargin_eq : sourceMargin = "      " := by decide

end Cli

/-! ## A part of a text on its line -/

/-- The first line of a part of a text, up to the end of the part or of the line. -/
def firstLine (part : List Char) : List Char := part.takeWhile (· ≠ '\n')

theorem firstLine_append {line : List Char} (hfeed : '\n' ∉ line) (rest : List Char) :
    firstLine (line ++ rest) = line ++ firstLine rest :=
  List.takeWhile_append_of_pos fun _ hmember => decide_eq_true fun hc => hfeed (hc ▸ hmember)

theorem firstLine_of_not_mem {part : List Char} (hfeed : '\n' ∉ part) : firstLine part = part := by
  have happend := firstLine_append hfeed []
  rwa [List.append_nil, show firstLine [] = [] from rfl, List.append_nil] at happend

theorem firstLine_line {line : List Char} (hfeed : '\n' ∉ line) (rest : List Char) :
    firstLine (line ++ '\n' :: rest) = line :=
  (firstLine_append hfeed _).trans (List.append_nil line)

namespace LineCut

variable {cut : LineCut} {inside after : List Char}

/-- A part without a line feed is on the line of the cut. -/
theorem exists_right_eq (hafter : cut.after = inside ++ after) (hfeed : '\n' ∉ inside) :
    ∃ more, cut.right = inside ++ more := by
  rcases List.append_eq_append_iff.mp hafter with ⟨rest, hinside, hback⟩ | ⟨more, hright, -⟩
  · rcases cut.back_start with hempty | ⟨later, hstart⟩
    · obtain ⟨rfl, -⟩ := List.append_eq_nil_iff.mp (hback.symm.trans hempty)
      exact ⟨[], by rw [hinside, List.append_nil, List.append_nil]⟩
    · cases rest with
      | nil => exact ⟨[], by rw [hinside, List.append_nil, List.append_nil]⟩
      | cons c rest =>
          obtain ⟨rfl, -⟩ := List.cons.inj (hstart.symm.trans hback)
          exact absurd (hinside ▸ List.mem_append_right _ List.mem_cons_self) hfeed
  · exact ⟨more, hright⟩

/-- A part with a line feed goes on to the end of the line and past it. -/
theorem exists_inside_eq (hafter : cut.after = inside ++ after) (hfeed : '\n' ∈ inside) :
    ∃ later, inside = cut.right ++ '\n' :: later := by
  rcases List.append_eq_append_iff.mp hafter with ⟨rest, hinside, hback⟩ | ⟨more, hright, -⟩
  · rw [hinside, List.mem_append] at hfeed
    have hrest := hfeed.resolve_left cut.feed_not_mem_right
    obtain ⟨c, rest, rfl⟩ := List.exists_cons_of_ne_nil (List.ne_nil_of_mem hrest)
    rcases cut.back_start with hempty | ⟨later, hstart⟩
    · cases hback.symm.trans hempty
    · obtain ⟨rfl, -⟩ := List.cons.inj (hstart.symm.trans hback)
      exact ⟨rest, hinside⟩
  · exact absurd (hright ▸ List.mem_append_left more hfeed) cut.feed_not_mem_right

/-- The first line of a part with a line feed is the rest of the line of the cut. -/
theorem firstLine_eq_drop (hafter : cut.after = inside ++ after) (hfeed : '\n' ∈ inside) :
    firstLine inside = cut.line.drop cut.left.length := by
  obtain ⟨later, rfl⟩ := exists_inside_eq hafter hfeed
  rw [firstLine_line cut.feed_not_mem_right, line, List.drop_left]

/-- The first line of a part without a line feed is a part of the line of the cut. -/
theorem firstLine_eq_drop_take (hafter : cut.after = inside ++ after) (hfeed : '\n' ∉ inside) :
    firstLine inside = (cut.line.take (cut.left ++ inside).length).drop cut.left.length := by
  obtain ⟨more, hmore⟩ := exists_right_eq hafter hfeed
  rw [firstLine_of_not_mem hfeed, line, hmore, ← List.append_assoc, List.take_left, List.drop_left]

end LineCut

section

variable {before inside after line : List Char}

/-- The two ends of a part are on the same line just if there is no line feed in it. -/
theorem Position.line_eq_iff :
    (Position.after (before ++ inside)).line = (Position.after before).line ↔ '\n' ∉ inside := by
  constructor
  · intro hsame hfeed
    exact absurd hsame (Nat.ne_of_gt (Position.line_lt_of_mem hfeed))
  · intro hfeed
    rw [Position.after_append_of_not_mem hfeed]

/-- A part of a line goes on past the shown line with nothing but carriage returns. -/
theorem exists_drop_eq {shown : List Char} {returns : Nat}
    (hline : line = shown ++ List.replicate returns '\r') (skip : Nat) :
    ∃ more, line.drop skip = shown.drop skip ++ List.replicate more '\r' :=
  ⟨returns - (skip - shown.length), by rw [hline, List.drop_append, List.drop_replicate]⟩

theorem exists_drop_take_eq {shown : List Char} {returns : Nat}
    (hline : line = shown ++ List.replicate returns '\r') (count skip : Nat) :
    ∃ more, (line.take count).drop skip =
      (shown.take count).drop skip ++ List.replicate more '\r' := by
  have htake : line.take count =
      shown.take count ++ List.replicate (min (count - shown.length) returns) '\r' := by
    rw [hline, List.take_append, List.take_replicate]
  exact exists_drop_eq htake skip

/-- What a part of a text has on its first line is marked on the line, but for the carriage returns
at the end of the line.  Those are not shown. -/
theorem exists_firstLine_eq
    (hline : lineText? (before ++ (inside ++ after)) (Position.after before).line = some line) :
    ∃ returns, firstLine inside =
      Cli.markedPart line (Position.after before) (Position.after (before ++ inside)) ++
        List.replicate returns '\r' := by
  obtain ⟨cut, rfl, hafter⟩ := LineCut.exists_of_cut before (inside ++ after)
  have htext := cut.lineText?_text
  rw [LineCut.text, hafter] at htext
  have hcolumn : (Position.after cut.before).column - 1 = cut.left.length := by
    rw [cut.position]
    rfl
  rw [cut.position, htext] at hline
  split at hline
  · cases hline
  · obtain rfl := Option.some.inj hline
    obtain ⟨⟨returns, hreturns⟩, -⟩ := dropReturns_spec cut.line
    rw [Cli.markedPart, hcolumn]
    by_cases hfeed : '\n' ∈ inside
    · rw [if_neg (mt Position.line_eq_iff.mp (not_not_intro hfeed)),
        LineCut.firstLine_eq_drop hafter hfeed]
      exact exists_drop_eq hreturns _
    · have hstop : (Position.after (cut.before ++ inside)).column - 1 =
          (cut.left ++ inside).length := by
        rw [Position.after_append_of_not_mem hfeed, cut.position, List.length_append]
        dsimp only
        omega
      rw [if_pos (Position.line_eq_iff.mpr hfeed), hstop,
        LineCut.firstLine_eq_drop_take hafter hfeed]
      exact exists_drop_take_eq hreturns _ _

/-- The carets are counted by the characters of the source.  A tab counts once, however wide it is
shown. -/
theorem caretLine_eq {returns : Nat} {start stop : Position} (hstart : start = .after before)
    (hstop : stop = .after (before ++ inside))
    (hfirst : firstLine inside =
      Cli.markedPart line start stop ++ List.replicate returns '\r') :
    Cli.caretLine line start stop =
      List.replicate (Cli.shownLine (line.take (start.column - 1))).length ' ' ++
        List.replicate (max 1 ((Cli.markedPart line start stop).length +
          if stop.line = start.line then returns else 0)) '^' := by
  rw [Cli.caretLine, Cli.shownBlanks_eq, Cli.caretCount]
  by_cases hsame : stop.line = start.line
  · have hfeed : '\n' ∉ inside := Position.line_eq_iff.mp (hstart ▸ hstop ▸ hsame)
    have hwidth : stop.column - start.column =
        (Cli.markedPart line start stop).length + returns := by
      rw [firstLine_of_not_mem hfeed] at hfirst
      rw [← List.length_replicate (n := returns) (a := '\r'), ← List.length_append, ← hfirst,
        hstop, hstart, Position.after_append_of_not_mem hfeed]
      exact Nat.add_sub_cancel_left _ _
    rw [if_pos hsame, if_pos hsame, hwidth]
  · rw [if_neg hsame, if_neg hsame, Cli.markedPart, if_neg hsame, List.length_drop, Nat.add_zero]

/-- The carets are aligned just if there are as many returns to be counted too much as columns of
tabs to be counted too little. -/
theorem caretsAligned_iff {returns : Nat} {start stop : Position} (hstart : start = .after before)
    (hstop : stop = .after (before ++ inside))
    (hfirst : firstLine inside =
      Cli.markedPart line start stop ++ List.replicate returns '\r')
    (hhead : inside.head? ≠ some '\r') :
    Cli.CaretsAligned line start stop ↔
      3 * (Cli.markedPart line start stop).count '\t' =
        if stop.line = start.line then returns else 0 := by
  rw [Cli.CaretsAligned, caretLine_eq hstart hstop hfirst, List.append_cancel_left_eq,
    Cli.length_shownLine]
  have hcount : ∀ left right : Nat,
      List.replicate left '^' = List.replicate right '^' ↔ left = right := fun left right =>
    ⟨fun heq => by simpa using congrArg List.length heq, congrArg (List.replicate · '^')⟩
  rw [hcount]
  cases hmarked : Cli.markedPart line start stop with
  | cons c marked =>
      rw [List.length_cons]
      omega
  | nil =>
      -- If nothing is marked, no return is counted, since the part does not start with one.
      have hreturns : returns = 0 := by
        cases returns with
        | zero => rfl
        | succ returns =>
            rw [hmarked, List.nil_append, List.replicate_succ] at hfirst
            cases inside with
            | nil => cases hfirst
            | cons c inside =>
                rw [firstLine, List.takeWhile_cons] at hfirst
                split at hfirst
                · obtain ⟨rfl, -⟩ := List.cons.inj hfirst
                  exact absurd rfl hhead
                · cases hfirst
      rw [hreturns]
      simp

end

/-! ## Diagnostics -/

/-- A diagnostic is about a part of the text that does not start with a blank.  If there is anything
in it, it starts as a token does. -/
theorem exists_parts_of_diagnostic {source : String} {diagnostic : Diagnostic}
    (hmember : diagnostic ∈ (readProgram source).diagnostics) :
    ∃ before inside after, source.toList = before ++ (inside ++ after) ∧
      diagnostic.span = some ⟨byteLength before, byteLength (before ++ inside)⟩ ∧
      inside.head? ≠ some '\r' := by
  obtain ⟨⟨kind, literal, start, stop⟩, htoken, hspan⟩ := readProgram_diagnostic_span hmember
  obtain ⟨before, after, htext, hstart, hstop⟩ :=
    Span.slice?_eq_some (slice?_of_mem_lex htoken)
  dsimp only at htext hstart hstop hspan
  rw [hstart, hstop, ← byteLength_append] at hspan
  refine ⟨before, literal.toList, after, htext.trans (List.append_assoc _ _ _), hspan, ?_⟩
  rcases List.mem_append.mp htoken with htoken | hend
  · obtain ⟨c, cs, hfront, hblank, -⟩ := (Lexer.isLexeme_of_mem_tokens htoken).front
    rw [Token.word_literal] at hfront
    rw [hfront]
    rintro hreturn
    rw [Option.some.inj hreturn] at hblank
    cases hblank
  · obtain ⟨-, rfl, -⟩ := Token.mk.inj (List.mem_singleton.mp hend)
    nofun

namespace Cli

/-- The message of a diagnostic and the place where it shows, on a line each: what
`print_diagnostic` prints before it looks for the line. -/
def heading (source : Source) (diagnostic : Diagnostic) (place : Position) : String :=
  "  - error: " ++ diagnostic.message ++ "\n" ++
    ("     --> " ++ source.path ++ ":" ++ Numeral.ofNat place.line ++ ":" ++
      Numeral.ofNat place.column ++ "\n")

section

variable {source : Source} {diagnostic : Diagnostic} {span : Span} {start stop : Position}

theorem diagnosticReport_of_span (hspan : diagnostic.span = some span)
    (hstart : source.position? span.start = some start)
    (hstop : source.position? span.stop = some stop) :
    diagnosticReport source diagnostic =
      "  - error: " ++ diagnostic.message ++ "\n" ++ excerpt source start stop := by
  simp [diagnosticReport, hspan, hstart, hstop]

theorem diagnosticReport_of_line {line : List Char} (hspan : diagnostic.span = some span)
    (hstart : source.position? span.start = some start)
    (hstop : source.position? span.stop = some stop)
    (hline : source.line? start.line = some line) :
    diagnosticReport source diagnostic =
      heading source diagnostic start ++
        ("      " ++ String.ofList (shownLine line) ++ "\n" ++
          "      " ++ String.ofList (caretLine line start stop) ++ "\n") := by
  rw [diagnosticReport_of_span hspan hstart hstop, excerpt, hline, heading, ← sourceMargin_eq]
  exact String.append_assoc.symm

theorem diagnosticReport_of_no_line (hspan : diagnostic.span = some span)
    (hstart : source.position? span.start = some start)
    (hstop : source.position? span.stop = some stop) (hline : source.line? start.line = none) :
    diagnosticReport source diagnostic = heading source diagnostic start := by
  rw [diagnosticReport_of_span hspan hstart hstop, excerpt, hline, heading]
  dsimp only
  rw [String.append_empty]

end

end Cli

/-- A diagnostic that is on a line is shown with the line and with carets below it.  They start
where the part starts that the diagnostic is about and are as many as the characters of this part
that are on the line, carriage returns at the end of the line included if the part ends there.  So
they stand below just this part unless there are tabs or such returns in it. -/
theorem readProgram_carets {source : Source} {diagnostic : Diagnostic}
    (hmember : diagnostic ∈ (readProgram source.text).diagnostics) :
    ∃ span inside start stop, diagnostic.span = some span ∧
      span.slice? source.text.toList = some inside ∧
      source.position? span.start = some start ∧ source.position? span.stop = some stop ∧
      ∀ line, source.line? start.line = some line →
        Cli.diagnosticReport source diagnostic =
          Cli.heading source diagnostic start ++
            ("      " ++ String.ofList (Cli.shownLine line) ++ "\n" ++
              "      " ++ String.ofList (Cli.caretLine line start stop) ++ "\n") ∧
        ∃ returns,
          firstLine inside = Cli.markedPart line start stop ++ List.replicate returns '\r' ∧
          Cli.caretLine line start stop =
            List.replicate (Cli.shownLine (line.take (start.column - 1))).length ' ' ++
              List.replicate (max 1 ((Cli.markedPart line start stop).length +
                if stop.line = start.line then returns else 0)) '^' ∧
          (Cli.CaretsAligned line start stop ↔
            3 * (Cli.markedPart line start stop).count '\t' =
              if stop.line = start.line then returns else 0) := by
  obtain ⟨before, inside, after, htext, hspan, hhead⟩ := exists_parts_of_diagnostic hmember
  have hstart := source.position?_of_append htext
  have hstop := source.position?_of_append (htext.trans (List.append_assoc _ _ _).symm)
  have hslice := Span.slice?_append before inside after
  rw [List.append_assoc, ← byteLength_append, ← htext] at hslice
  refine ⟨_, inside, _, _, hspan, hslice, hstart, hstop, fun line hline => ⟨?_, ?_⟩⟩
  · exact Cli.diagnosticReport_of_line hspan hstart hstop hline
  · rw [Source.line?, htext] at hline
    obtain ⟨returns, hfirst⟩ := exists_firstLine_eq hline
    exact ⟨returns, hfirst, caretLine_eq rfl rfl hfirst, caretsAligned_iff rfl rfl hfirst hhead⟩

/-- What is wrong at the string is shown on the first of its two lines. -/
def stringOverLines : Source := ⟨"a.sprig", "let x \"é\r\n\";"⟩

theorem readProgram_carets_stringOverLines :
    ⟨.missing (.boundValue false "x") .string, some ⟨6, 12⟩⟩ ∈
        (readProgram stringOverLines.text).diagnostics ∧
      stringOverLines.position? 6 = some ⟨1, 7⟩ ∧ stringOverLines.position? 12 = some ⟨2, 2⟩ ∧
      stringOverLines.line? 1 = some "let x \"é".toList ∧
      Cli.CaretsAligned "let x \"é".toList ⟨1, 7⟩ ⟨2, 2⟩ := by
  have hmember : ⟨.missing (.boundValue false "x") .string, some ⟨6, 12⟩⟩ ∈
      (readProgram stringOverLines.text).diagnostics := by
    have hall : (readProgram stringOverLines.text).diagnostics =
        [⟨.missing (.boundValue false "x") .string, some ⟨6, 12⟩⟩] := by decide +kernel
    rw [hall]
    exact List.mem_cons_self
  have hstart : stringOverLines.position? 6 = some ⟨1, 7⟩ := by decide +kernel
  have hstop : stringOverLines.position? 12 = some ⟨2, 2⟩ := by decide +kernel
  have hline : stringOverLines.line? 1 = some "let x \"é".toList := by decide +kernel
  obtain ⟨span, inside, start, stop, hspan, -, hstart', hstop', hshown⟩ :=
    readProgram_carets hmember
  obtain rfl := Option.some.inj hspan
  obtain rfl := Option.some.inj (hstart.symm.trans hstart')
  obtain rfl := Option.some.inj (hstop.symm.trans hstop')
  obtain ⟨-, returns, -, -, haligned⟩ := hshown _ hline
  exact ⟨hmember, hstart, hstop, hline, haligned.mpr (by rw [if_neg (by decide)]; decide)⟩

/-- The tab in the string is shown four blanks wide. -/
def stringWithTab : Source := ⟨"a.sprig", "let x \"a\tb\";"⟩

/-- Below a string of eight columns there are five carets. -/
theorem exists_carets_not_aligned :
    ∃ diagnostic ∈ (readProgram stringWithTab.text).diagnostics, ∃ span start stop line,
      diagnostic.span = some span ∧ stringWithTab.position? span.start = some start ∧
        stringWithTab.position? span.stop = some stop ∧
        stringWithTab.line? start.line = some line ∧ ¬ Cli.CaretsAligned line start stop := by
  have hall : (readProgram stringWithTab.text).diagnostics =
      [⟨.missing (.boundValue false "x") .string, some ⟨6, 11⟩⟩] := by decide +kernel
  refine ⟨⟨.missing (.boundValue false "x") .string, some ⟨6, 11⟩⟩, ?_, ⟨6, 11⟩, ⟨1, 7⟩, ⟨1, 12⟩,
    "let x \"a\tb\";".toList, rfl, by decide +kernel, by decide +kernel, by decide +kernel,
    by decide⟩
  rw [hall]
  exact List.mem_cons_self

theorem readProgram_empty : (readProgram "").diagnostics = [] := by decide +kernel

/-- A diagnostic is shown with the line that it is on and with at least one caret below, unless it
shows at the end of a text that ends in a line feed.  No line is left there, and the place is all
that is shown. -/
theorem readProgram_shown {source : Source} {diagnostic : Diagnostic}
    (hmember : diagnostic ∈ (readProgram source.text).diagnostics) :
    ∃ span start, diagnostic.span = some span ∧ source.position? span.start = some start ∧
      (source.line? start.line = none ↔
        span = .empty (byteLength source.text.toList) ∧
          source.text.toList.getLast? = some '\n') ∧
      (source.line? start.line = none →
        Cli.diagnosticReport source diagnostic = Cli.heading source diagnostic start) ∧
      ∀ line, source.line? start.line = some line → ∃ blanks carets,
        Cli.diagnosticReport source diagnostic =
          Cli.heading source diagnostic start ++
            ("      " ++ String.ofList (Cli.shownLine line) ++ "\n" ++
              "      " ++ String.ofList (List.replicate blanks ' ' ++
                List.replicate (carets + 1) '^') ++ "\n") := by
  obtain ⟨before, inside, after, htext, hspan, -⟩ := exists_parts_of_diagnostic hmember
  have hstart := source.position?_of_append htext
  have hstop := source.position?_of_append (htext.trans (List.append_assoc _ _ _).symm)
  refine ⟨_, _, hspan, hstart, ?_, Cli.diagnosticReport_of_no_line hspan hstart hstop,
    fun line hline => ?_⟩
  · have hend : (⟨byteLength before, byteLength (before ++ inside)⟩ : Span) =
        .empty (byteLength source.text.toList) ↔ inside ++ after = [] := by
      rw [htext, byteLength_append before (inside ++ after)]
      constructor
      · intro heq
        exact byteLength_eq_zero.mp (Nat.left_eq_add.mp (congrArg Span.start heq))
      · intro hempty
        obtain ⟨rfl, rfl⟩ := List.append_eq_nil_iff.mp hempty
        rw [List.append_nil]
        rfl
    have hsome : source.text.toList ≠ [] := by
      intro hempty
      rw [String.toList_eq_nil_iff.mp hempty, readProgram_empty] at hmember
      cases hmember
    rw [source.line?_eq_none_iff htext, hend, or_iff_right hsome]
  · obtain ⟨blanks, carets, hcarets⟩ :=
      Cli.exists_caretLine_eq line (.after before) (.after (before ++ inside))
    refine ⟨blanks, carets, ?_⟩
    rw [Cli.diagnosticReport_of_line hspan hstart hstop hline, hcarets]

/-- What is wrong at the end is shown after the bracket, on the line that the carriage return is
on. -/
def returnAtEnd : Source := ⟨"a.sprig", "x(\r"⟩

theorem readProgram_shown_returnAtEnd :
    ⟨.noOperand .eof, some ⟨3, 3⟩⟩ ∈ (readProgram returnAtEnd.text).diagnostics ∧
      returnAtEnd.position? 3 = some ⟨1, 4⟩ ∧ returnAtEnd.line? 1 = some "x(".toList ∧
      ∃ blanks carets, Cli.diagnosticReport returnAtEnd ⟨.noOperand .eof, some ⟨3, 3⟩⟩ =
        Cli.heading returnAtEnd ⟨.noOperand .eof, some ⟨3, 3⟩⟩ ⟨1, 4⟩ ++
          ("      " ++ String.ofList (Cli.shownLine "x(".toList) ++ "\n" ++
            "      " ++ String.ofList (List.replicate blanks ' ' ++
              List.replicate (carets + 1) '^') ++ "\n") := by
  have hmember : ⟨.noOperand .eof, some ⟨3, 3⟩⟩ ∈ (readProgram returnAtEnd.text).diagnostics := by
    have hall : (readProgram returnAtEnd.text).diagnostics =
        [⟨.noOperand .eof, some ⟨3, 3⟩⟩] := by decide +kernel
    rw [hall]
    exact List.mem_cons_self
  have hstart : returnAtEnd.position? 3 = some ⟨1, 4⟩ := by decide +kernel
  have hline : returnAtEnd.line? 1 = some "x(".toList := by decide +kernel
  obtain ⟨span, start, hspan, hstart', -, -, hshown⟩ := readProgram_shown hmember
  obtain rfl := Option.some.inj hspan
  obtain rfl := Option.some.inj (hstart.symm.trans hstart')
  exact ⟨hmember, hstart, hline, hshown _ hline⟩

/-- The value is missing after the line feed, on a line with nothing on it. -/
def feedAtEnd : Source := ⟨"a.sprig", "let x\n"⟩

/-- What is wrong in the second line is shown without it. -/
theorem exists_diagnostic_without_line :
    ∃ diagnostic ∈ (readProgram feedAtEnd.text).diagnostics, ∃ span start,
      diagnostic.span = some span ∧ feedAtEnd.position? span.start = some start ∧
        feedAtEnd.line? start.line = none ∧
        Cli.diagnosticReport feedAtEnd diagnostic = Cli.heading feedAtEnd diagnostic start := by
  have hall : (readProgram feedAtEnd.text).diagnostics =
      [⟨.missing (.boundValue false "x") .eof, some ⟨6, 6⟩⟩] := by decide +kernel
  have hstart : feedAtEnd.position? 6 = some ⟨2, 1⟩ := by decide +kernel
  have hline : feedAtEnd.line? 2 = none := by decide +kernel
  refine ⟨⟨.missing (.boundValue false "x") .eof, some ⟨6, 6⟩⟩, ?_, ⟨6, 6⟩, ⟨2, 1⟩, rfl, hstart,
    hline, ?_⟩
  · rw [hall]
    exact List.mem_cons_self
  · exact Cli.diagnosticReport_of_no_line rfl hstart hstart hline

end Frontend
