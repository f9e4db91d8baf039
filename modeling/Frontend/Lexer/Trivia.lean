/-!
# Trivia

Between tokens a text may hold blanks and comments.  A line comment runs up to the end of its line
and a block comment through the first closer after its opener; a block comment that is never closed
runs to the end of the text.  `Trivia.split` cuts all of it off the front of a text, and nothing is
lost by the cut.
-/

namespace Frontend.Trivia

/-- What the characters being skipped belong to: blanks, which `skip_trivia` goes over itself, or
one of the comments, which it leaves to a function of their own. -/
inductive Mode where
  | blank | lineComment | blockComment
  deriving DecidableEq

/-- The blanks that may stand between tokens, which are the four that `skip_trivia` matches.  Any
other blank, such as a form feed, is an illegal character. -/
def isBlank (c : Char) : Bool := c = ' ' || c = '\t' || c = '\n' || c = '\r'

/-- The characters that `skip_line_comment` stops at.  Both are blanks, so what is skipped is the
same whether or not they belong to the comment. -/
def endsLine (c : Char) : Bool := c = '\n' || c = '\r'

/-- Cuts the trivia off the front of a text, of which the first character belongs to `mode`:
`skip_trivia`, `skip_line_comment` and `skip_block_comment` in one pass. -/
def splitFrom : Mode → List Char → List Char × List Char
  | _, [] => ([], [])
  | .blank, '/' :: '/' :: cs =>
      let (trivia, rest) := splitFrom .lineComment cs
      ('/' :: '/' :: trivia, rest)
  | .blank, '/' :: '*' :: cs =>
      let (trivia, rest) := splitFrom .blockComment cs
      ('/' :: '*' :: trivia, rest)
  | .blank, c :: cs =>
      if isBlank c then
        let (trivia, rest) := splitFrom .blank cs
        (c :: trivia, rest)
      else ([], c :: cs)
  | .lineComment, c :: cs =>
      let (trivia, rest) := splitFrom (if endsLine c then .blank else .lineComment) cs
      (c :: trivia, rest)
  | .blockComment, '*' :: '/' :: cs =>
      let (trivia, rest) := splitFrom .blank cs
      ('*' :: '/' :: trivia, rest)
  | .blockComment, c :: cs =>
      let (trivia, rest) := splitFrom .blockComment cs
      (c :: trivia, rest)

/-- Cuts blanks and comments off the front of a text, as `skip_trivia` does before every token.
Comments do not nest, and a slash by itself is left. -/
def split (text : List Char) : List Char × List Char := splitFrom .blank text

theorem splitFrom_append (mode : Mode) (text : List Char) :
    (splitFrom mode text).1 ++ (splitFrom mode text).2 = text := by
  fun_induction splitFrom mode text <;> simp_all

theorem split_append (text : List Char) : (split text).1 ++ (split text).2 = text :=
  splitFrom_append .blank text

end Frontend.Trivia
