import Frontend.Json
import Frontend.Text.Quoted
import Frontend.Token

/-!
# Events

What the lexer and the parser do is told by events.  The lexer warns of each character that it does
not know, and the parser tells of each statement that it starts.  An event has a level, comes from
a part of the program, and carries a message with details.
-/

namespace Frontend

/-- How much an event matters, the most important first: the levels of `tracing`. -/
inductive Level where
  | error | warn | info | debug | trace
  deriving DecidableEq

namespace Level

/-- The number of levels up to this one, by which a filter compares them. -/
def verbosity : Level → Nat
  | error => 1
  | warn => 2
  | info => 3
  | debug => 4
  | trace => 5

/-- The name of a level in a log line. -/
def name : Level → String
  | error => "ERROR"
  | warn => "WARN"
  | info => "INFO"
  | debug => "DEBUG"
  | trace => "TRACE"

end Level

/-- Something that the program did, with a case for each call of `tracing`: in `next_token` of
`Lexer`, in `parse_statement`, in `parse` and in `run_tokens`. -/
inductive Event where
  | unknownCharacter (character : Char) (offset : Nat)
  | statementStarted (kind : Kind) (offset : Nat)
  | programParsed (statements errors : Nat)
  | sourceLexed (count : Nat)
  deriving DecidableEq

/-- A detail of an event, which is a field of such a call: a text or a number. -/
inductive Detail where
  | text (words : String)
  | number (n : Nat)

namespace Detail

/-- A detail in a log line, where a text stands as it is. -/
def shown : Detail → String
  | text words => words
  | number n => Numeral.ofNat n

/-- A detail as a JSON value. -/
def json : Detail → Json
  | text words => .string words
  | number n => .nat n

end Detail

namespace Event

/-- The level of an event, which is the name of the call: `warn`, `trace` or `debug`. -/
def level : Event → Level
  | unknownCharacter _ _ => .warn
  | statementStarted _ _ => .trace
  | programParsed _ _ => .debug
  | sourceLexed _ => .debug

/-- The part of the program that an event comes from, which is the module of the call. -/
def target : Event → String
  | unknownCharacter _ _ => "sprig_syntax::lexer"
  | statementStarted _ _ => "sprig_syntax::parser"
  | programParsed _ _ => "sprig_syntax::parser"
  | sourceLexed _ => "sprig"

/-- The message of an event, the text of the call. -/
def message : Event → String
  | unknownCharacter _ _ => "lexer does not recognize character"
  | statementStarted _ _ => "parse statement"
  | programParsed _ _ => "parsed program"
  | sourceLexed _ => "lexed source"

/-- The details of an event by their names, in the order of the call. -/
def details : Event → List (String × Detail)
  | unknownCharacter character offset =>
      [("character", .text (Quoted.character character)), ("offset", .number offset)]
  | statementStarted kind offset => [("kind", .text kind.name), ("offset", .number offset)]
  | programParsed statements errors =>
      [("statements", .number statements), ("errors", .number errors)]
  | sourceLexed count => [("count", .number count)]

/-- An event as a JSON value. -/
def json (event : Event) : Json :=
  .object [("level", .string event.level.name), ("message", .string event.message),
    ("fields", .object (event.details.map fun (name, detail) => (name, detail.json)))]

/-- The warning for a token, if it is an illegal one, from the last arm of `next_token`. -/
def warning? (token : Token) : Option Event :=
  if token.kind = .illegal then
    token.literal.toList.head?.map fun c => .unknownCharacter c token.span.start
  else none

/-- The warnings for tokens, in the order in which `next_token` gives them. -/
def warnings (tokens : List Token) : List Event := tokens.filterMap warning?

end Event

end Frontend
