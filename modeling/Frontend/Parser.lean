import Frontend.Parser.Grammar

/-!
# The parser

A parser reads the statements of a text one after another and never gives up: a statement with a
fault is left out of the program and described by diagnostics instead.  A reader of one text may
ask for the program or, strictly, for a rejection if there is any diagnostic.
-/

namespace Frontend

/-- What comes of reading a whole text: the `Program`, the `Diagnostics` that the parser is left
with, and the events on the way. -/
structure Reading where
  program : Program
  diagnostics : List Diagnostic
  events : List Event

/-- The messages of the diagnostics, in order: `messages` of `Diagnostics` and `errors` of
`Parser`. -/
def messages (diagnostics : List Diagnostic) : List String := diagnostics.map Diagnostic.message

/-- Reads the statements from a cursor to the end of its text, `parse_program`.  The program spans
the whole text, wherever the cursor started. -/
def Cursor.readProgram (cursor : Cursor) : Reading :=
  let outcome := Grammar.programStatements cursor
  ⟨⟨outcome.value.getD [], ⟨0, outcome.stop.current.span.stop⟩⟩, outcome.diagnostics,
    cursor.inView ++ outcome.events⟩

/-- A parser between two calls, a `Parser`.  No expression is open then, so there is no
`expression_depth`. -/
structure Parser where
  cursor : Cursor
  diagnostics : List Diagnostic

namespace Parser

/-- The parser of the tokens that a lexer has left, `new` of `Parser`. -/
def ofLexer (lexer : Lexer) : Parser := ⟨.ofLexer lexer, []⟩

/-- Reads the rest of the text as a program, `parse_program`.  Diagnostics are kept from one reading
to the next, and after the first there is nothing left to read. -/
def program (parser : Parser) : Program × Parser :=
  let outcome := Grammar.programStatements parser.cursor
  let reading := parser.cursor.readProgram
  (reading.program, ⟨outcome.stop, parser.diagnostics ++ reading.diagnostics⟩)

end Parser

/-- Reads a text: `parse_program` and `into_diagnostics` on a new `Parser`, which is `parse_source`
of the command line. -/
def readProgram (text : String) : Reading := (Cursor.ofLexer (Lexer.ofText text)).readProgram

/-- The program of a text with the messages about it, the function `parse`.  A strict reading, with
`fail_on_error`, rejects a text with any fault. -/
def parse (text : String) (strict : Bool) : Except Rejection (Program × List String) :=
  let reading := readProgram text
  (verdict strict (messages reading.diagnostics)).map fun errors => (reading.program, errors)

end Frontend
