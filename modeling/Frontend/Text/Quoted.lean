import Frontend.Text.Numeral
import Frontend.Text.Unprintable

/-!
# Quoted text

A text is quoted on one line: between two delimiters, with the delimiter, the backslash and every
character that leaves no mark of its own spelled out by a backslash.  No bare delimiter is left
inside, so the end of the quoted text is always found.
-/

namespace Frontend.Quoted

/-- One character inside quotes that are closed by `delimiter`, as a `Debug` form escapes it. -/
def escaped (delimiter : Char) (c : Char) : List Char :=
  if c = delimiter ∨ c = '\\' then ['\\', c]
  else if c = '\n' then ['\\', 'n']
  else if c = '\r' then ['\\', 'r']
  else if c = '\t' then ['\\', 't']
  else if c = '\x00' then ['\\', '0']
  else if isUnprintable c then ['\\', 'u', '{'] ++ Numeral.hexadecimal c.toNat ++ ['}']
  else [c]

/-- A text in double quotes, the `Debug` form of a string. -/
def text (s : String) : String :=
  String.ofList ('"' :: s.toList.flatMap (escaped '"') ++ ['"'])

/-- A character in single quotes, the `Debug` form of a character. -/
def character (c : Char) : String :=
  String.ofList ('\x27' :: escaped '\x27' c ++ ['\x27'])

end Frontend.Quoted
