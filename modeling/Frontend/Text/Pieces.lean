/-!
# Pieces of a text

A text is cut at every occurrence of one character.  There is one piece more than there are cuts,
so the empty text has one empty piece.
-/

namespace Frontend

/-- The texts between the occurrences of a separator, `split` of a string at a character. -/
def pieces (separator : Char) : List Char → List (List Char)
  | [] => [[]]
  | c :: cs =>
      if c = separator then [] :: pieces separator cs
      else
        match pieces separator cs with
        | [] => [[c]]
        | piece :: rest => (c :: piece) :: rest

end Frontend
