import Frontend.Lexer.Lexeme
import Frontend.Lexer.Trivia

/-!
# The lexer

A lexer stands at a byte offset of a text and holds what is left of it.  Each step skips trivia and
takes one lexeme, so the text left gets shorter and the tokens of a text are finite in number.
After the last one the lexer answers with the end token as often as it is asked.
-/

namespace Frontend

/-- A place in a text and the text from there on, a `Lexer`, which itself holds the whole input and
a byte position in it. -/
structure Lexer where
  offset : Nat
  rest : List Char

namespace Lexer

/-- The lexer at the start of a text, `new` of `Lexer`, with all of the text still to be read. -/
def ofText (text : String) : Lexer := ⟨0, text.toList⟩

/-- The offset at which the text ends, which is the length of the whole input and the same wherever
the lexer stands. -/
def stop (lexer : Lexer) : Nat := lexer.offset + byteLength lexer.rest

/-- The next token, if there is one, and the lexer after it: `next_token` short of the end of the
text.  Trivia is skipped first, so the span and the literal are those of the lexeme alone. -/
def next? (lexer : Lexer) : Option (Token × Lexer) :=
  match (Trivia.split lexer.rest).2 with
  | [] => none
  | c :: cs =>
      let start := lexer.offset + byteLength (Trivia.split lexer.rest).1
      let lexeme := Lexeme.ofFront c cs
      let stop := start + byteLength lexeme.text
      some (⟨lexeme.kind, String.ofList lexeme.text, ⟨start, stop⟩⟩, ⟨stop, lexeme.rest⟩)

theorem next?_length_lt {lexer after : Lexer} {token : Token}
    (hnext : lexer.next? = some (token, after)) : after.rest.length < lexer.rest.length := by
  unfold next? at hnext
  split at hnext
  · simp at hnext
  · next c cs htext =>
      have hparts := congrArg List.length (Trivia.split_append lexer.rest)
      have hshorter := Lexeme.length_rest_lt c cs
      rw [List.length_append, htext] at hparts
      obtain ⟨-, rfl⟩ := Prod.mk.inj (Option.some.inj hnext)
      dsimp only
      omega

/-- The tokens up to the end, without the end token, in the order in which `tokenize` pushes them.
Each takes at least one character, so the loop comes to an end. -/
def tokens (lexer : Lexer) : List Token :=
  match _hnext : lexer.next? with
  | none => []
  | some (token, after) => token :: after.tokens
termination_by lexer.rest.length
decreasing_by exact next?_length_lt _hnext

/-- The lexer at the end of its text, which every further call of `next_token` leaves as it is. -/
def atEnd (lexer : Lexer) : Lexer := ⟨lexer.stop, []⟩

/-- The next token, which is the end token from the end on, and the lexer after it: a call of
`next_token`. -/
def next (lexer : Lexer) : Token × Lexer :=
  lexer.next?.getD (Token.atEnd lexer.stop, lexer.atEnd)

/-- All the tokens left, the end token included, and the lexer after them: a call of `tokenize`. -/
def tokensToEnd (lexer : Lexer) : List Token × Lexer :=
  (lexer.tokens ++ [Token.atEnd lexer.stop], lexer.atEnd)

/-- The lexer after a number of calls of `next_token`, of which those at the end of the text change
nothing. -/
def skip (lexer : Lexer) : Nat → Lexer
  | 0 => lexer
  | count + 1 => lexer.next.2.skip count

end Lexer

/-- The tokens of a text, closed by one end token: the function `lex`, which calls `tokenize` on a
lexer at the start. -/
def lex (text : String) : List Token := (Lexer.ofText text).tokensToEnd.1

end Frontend
