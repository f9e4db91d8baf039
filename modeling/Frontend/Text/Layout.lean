/-!
# Layout

Written forms put a separator between the items of a list, and tables pad their cells to a width.
-/

namespace Frontend

/-- The texts in order, with a separator between neighbours, as `write_separated` writes them. -/
def joined (separator : String) : List String → String
  | [] => ""
  | [text] => text
  | text :: next :: rest => text ++ separator ++ joined separator (next :: rest)

/-- A number of copies of one character, `repeat` of a string. -/
def repeated (c : Char) (count : Nat) : String := String.ofList (List.replicate count c)

/-- A text with blanks after it up to a width, as it is formatted to the left of a cell.  A longer
text is left as it is. -/
def padRight (width : Nat) (text : String) : String :=
  text ++ repeated ' ' (width - text.length)

/-- A text with blanks before it up to a width, as it is formatted to the right of a cell.  A longer
text is left as it is. -/
def padLeft (width : Nat) (text : String) : String :=
  repeated ' ' (width - text.length) ++ text

end Frontend
