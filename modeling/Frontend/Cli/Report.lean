import Frontend.Diagnostic
import Frontend.Source
import Frontend.Text.Quoted

/-!
# Reports for the terminal

Diagnostics are shown with the line they are about and a row of carets below the part that is
meant.  Tabs are shown four blanks wide.  Tokens are shown as a table with a row each.
-/

namespace Frontend.Cli

/-- A line as it is shown, the `display_line` of `print_diagnostic`. -/
def shownLine (line : List Char) : List Char :=
  line.flatMap fun c => if c = '\t' then List.replicate 4 ' ' else [c]

/-- Blanks as wide as a part of a line is when it is shown, with which the `caret_line` of
`print_diagnostic` starts. -/
def shownBlanks (part : List Char) : List Char :=
  part.flatMap fun c => if c = '\t' then List.replicate 4 ' ' else [' ']

/-- The number of carets from a place on a line, at least one: `highlight_len`, up to the place
where the span ends, or to the end of the line if the span goes on to another one.  Characters are
counted here, and not their widths. -/
def caretCount (line : List Char) (start stop : Position) : Nat :=
  max 1 (if stop.line = start.line then stop.column - start.column
    else line.length - (start.column - 1))

/-- The carets below a line, after as many blanks as the part before them is wide: the `caret_line`
of `print_diagnostic`. -/
def caretLine (line : List Char) (start stop : Position) : List Char :=
  shownBlanks (line.take (start.column - 1)) ++ List.replicate (caretCount line start stop) '^'

/-- The margin of a line of source, and of the carets below it. -/
def sourceMargin : String := repeated ' ' 6

/-- Where a span lies, and its line with carets below: the rest of `print_diagnostic`.  A place at
the end of a text that ends in a line feed has no line to show. -/
def excerpt (source : Source) (start stop : Position) : String :=
  "     --> " ++ source.path ++ ":" ++ Numeral.ofNat start.line ++ ":" ++
    Numeral.ofNat start.column ++ "\n" ++
  match source.line? start.line with
  | none => ""
  | some line =>
      sourceMargin ++ String.ofList (shownLine line) ++ "\n" ++
        sourceMargin ++ String.ofList (caretLine line start stop) ++ "\n"

/-- A diagnostic with its place, if it has one: `print_diagnostic`. -/
def diagnosticReport (source : Source) (diagnostic : Diagnostic) : String :=
  "  - error: " ++ diagnostic.message ++ "\n" ++
    ((do
      let span ← diagnostic.span
      let start ← source.position? span.start
      let stop ← source.position? span.stop
      some (excerpt source start stop)).getD "")

/-- The diagnostics under a heading, or nothing if there are none: `report_diagnostics`. -/
def report (source : Source) : List Diagnostic → String
  | [] => ""
  | diagnostics => "Diagnostics:\n" ++ joined "" (diagnostics.map (diagnosticReport source))

/-- A row of the token table, with the widths of `print_token_table`. -/
def tableRow (kind literal start stop : String) : String :=
  padRight 10 kind ++ " " ++ padRight 20 literal ++ " " ++ padLeft 6 start ++ " " ++
    padLeft 6 stop ++ "\n"

/-- The row of a token, with its literal in quotes. -/
def tokenRow (token : Token) : String :=
  tableRow token.kind.name (Quoted.text token.literal) (Numeral.ofNat token.span.start)
    (Numeral.ofNat token.span.stop)

/-- A heading and a row for each token: `print_token_table`. -/
def tokenTable (tokens : List Token) : String :=
  tableRow "KIND" "LITERAL" "START" "END" ++ joined "" (tokens.map tokenRow)

end Frontend.Cli
