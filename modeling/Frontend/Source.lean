import Frontend.Span

/-!
# Sources

A source is a text with the path it is shown under.  A byte offset is turned into a line and a
column, both counted from one, and a line number into the text of that line.  A line ends at a line
feed, and carriage returns at its end do not belong to its text.  A text that ends in a line feed
has no further, empty line.
-/

namespace Frontend

/-- A place in a text, the pair that `line_column` answers with.  Lines and columns are counted from
one, and the columns of a line in characters, not in bytes. -/
structure Position where
  line : Nat
  column : Nat
  deriving DecidableEq

/-- The place just after a text, as the loop of `line_column` finds it: one line more than there are
line feeds, and one column more than there are characters behind the last of them. -/
def Position.after (before : List Char) : Position where
  line := before.count '\n' + 1
  column := (before.reverse.takeWhile (· ≠ '\n')).length + 1

/-- The place at a byte offset, `line_column` of `SourceFile`.  Offsets past the end stand for the
end, and there is no place inside a character, where the program panics. -/
def positionAt? (text : List Char) (offset : Nat) : Option Position :=
  (splitAtByte? text (min offset (byteLength text))).map fun (before, _) => Position.after before

/-- The pieces of a text that line feeds end, and what is left after the last one unless it is
empty, as `lines` of a string yields them. -/
def textLines : List Char → List (List Char)
  | [] => []
  | c :: cs =>
      if c = '\n' then [] :: textLines cs
      else
        match textLines cs with
        | [] => [[c]]
        | line :: lines => (c :: line) :: lines

/-- A line without the carriage returns at its end.  The iterator `lines` drops one before its line
feed and `line_text` trims all that are left. -/
def dropReturns (line : List Char) : List Char :=
  (line.reverse.dropWhile (· = '\r')).reverse

/-- The text of a line, `line_text` of `SourceFile`.  Lines are counted from one, so line zero has
no text; nor has any line past the last. -/
def lineText? (text : List Char) : Nat → Option (List Char)
  | 0 => none
  | line + 1 => (textLines text)[line]?.map dropReturns

/-- A text and the path it is shown under, a `SourceFile`.  The path is shown with diagnostics and
is not followed again. -/
structure Source where
  path : String
  text : String

namespace Source

/-- The place at a byte offset of a source: `line_column` on its contents. -/
def position? (source : Source) (offset : Nat) : Option Position :=
  positionAt? source.text.toList offset

/-- The text of a line of a source: `line_text` on its contents. -/
def line? (source : Source) (line : Nat) : Option (List Char) :=
  lineText? source.text.toList line

end Source

end Frontend
