import Frontend.Parser

/-!
# Traces

The trace of a text is the list of the events that come up when it is lexed or parsed.
-/

namespace Frontend.Trace

/-- The events of lexing a text, which come up during a call of `lex`. -/
def ofLexing (text : String) : List Event := Event.warnings (Lexer.ofText text).tokens

/-- The events of parsing a text, which come up during a call of `parse`.  The last one sums up the
result. -/
def ofParsing (text : String) : List Event :=
  let reading := readProgram text
  reading.events ++
    [.programParsed reading.program.statements.length reading.diagnostics.length]

end Frontend.Trace
