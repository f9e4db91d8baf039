import Frontend.Token

/-!
# Lexemes

A text that starts with neither a blank nor a comment starts with a lexeme.  `Lexeme.ofFront` takes
the longest one: a word of letters, a number, a string through its closing quote or to the end of
the text, one of the two operators of two characters, or else a single character.  Only the ASCII
letters and digits form words and numbers; any other character is a lexeme of its own, and an
illegal one if it is no operator or delimiter.
-/

namespace Frontend

/-- The text of one token, before its place is known, and the text after it.  Each `lex_` function
of `Lexer` moves a position over the text instead and slices between two positions. -/
structure Lexeme where
  kind : Kind
  text : List Char
  rest : List Char

/-- The words that are no names, and their kinds, as `keyword_from_lexeme` lists them.  Only the
exact spelling counts, so `Let` and `returns` are names. -/
def Kind.keywords : List (String × Kind) :=
  [("let", kwLet), ("const", kwConst), ("function", kwFunction), ("return", kwReturn),
   ("if", kwIf), ("else", kwElse), ("true", kwTrue), ("false", kwFalse)]

/-- The kind of a word of letters, chosen by `lex_identifier_or_keyword`: a keyword if it is spelled
like one, or else a name. -/
def Kind.ofWord (word : String) : Kind := (keywords.lookup word).getD ident

/-- The kind of a single character that is no letter, digit or quote, from the arms of `next_token`
that call `simple_token`.  The last arm is for the characters that are illegal. -/
def Kind.ofSymbol : Char → Kind
  | '=' => assign
  | '+' => plus
  | '-' => minus
  | '*' => asterisk
  | '/' => slash
  | '!' => bang
  | '<' => lt
  | '>' => gt
  | ',' => comma
  | ':' => colon
  | ';' => semicolon
  | '(' => lParen
  | ')' => rParen
  | '{' => lBrace
  | '}' => rBrace
  | '[' => lBracket
  | ']' => rBracket
  | _ => illegal

namespace Lexeme

/-- Whether a character may stand in a word: the letters of `is_ascii_alphabetic`, neither digits
nor underscores. -/
def isLetter (c : Char) : Bool := c.isAlpha

/-- Whether a character may stand in a number: the digits from `0` to `9` that `lex_number` goes
over. -/
def isDigit (c : Char) : Bool := c.isDigit

/-- The lexeme that starts with a quote, `lex_string`: through the next quote, or to the end of the
text if there is none.  A backslash is a character like any other. -/
def quoted (cs : List Char) : Lexeme :=
  match cs.dropWhile (· ≠ '"') with
  | [] => ⟨.string, '"' :: cs.takeWhile (· ≠ '"'), []⟩
  | quote :: after => ⟨.string, '"' :: cs.takeWhile (· ≠ '"') ++ [quote], after⟩

/-- The longest lexeme at the front of a text: the match of `next_token` on the first character,
with `lex_string`, `lex_number`, `lex_identifier_or_keyword`, `lex_equals_variants` and
`lex_bang_variants` behind its arms. -/
def ofFront (c : Char) (cs : List Char) : Lexeme :=
  if c = '"' then quoted cs
  else if isLetter c then
    let word := c :: cs.takeWhile isLetter
    ⟨Kind.ofWord (String.ofList word), word, cs.dropWhile isLetter⟩
  else if isDigit c then ⟨.int, c :: cs.takeWhile isDigit, cs.dropWhile isDigit⟩
  else
    match c, cs with
    | '=', '=' :: rest => ⟨.eq, ['=', '='], rest⟩
    | '!', '=' :: rest => ⟨.notEq, ['!', '='], rest⟩
    | _, _ => ⟨Kind.ofSymbol c, [c], cs⟩

theorem quoted_append (cs : List Char) : (quoted cs).text ++ (quoted cs).rest = '"' :: cs := by
  have hparts := List.takeWhile_append_dropWhile (p := (· ≠ '"')) (l := cs)
  unfold quoted
  split
  · next hend => rw [hend, List.append_nil] at hparts; simp only [hparts, List.append_nil]
  · next quote after hquote =>
      rw [hquote] at hparts
      simp only [List.cons_append, List.append_assoc, List.nil_append, hparts]

theorem text_append_rest (c : Char) (cs : List Char) :
    (ofFront c cs).text ++ (ofFront c cs).rest = c :: cs := by
  unfold ofFront
  split
  · next hquote => rw [hquote, quoted_append]
  · split
    · simp [List.takeWhile_append_dropWhile]
    · split
      · simp [List.takeWhile_append_dropWhile]
      · split <;> simp

theorem text_ne_nil (c : Char) (cs : List Char) : (ofFront c cs).text ≠ [] := by
  unfold ofFront quoted
  repeat' split
  all_goals simp

theorem length_rest_lt (c : Char) (cs : List Char) :
    (ofFront c cs).rest.length < (c :: cs).length := by
  have hparts := congrArg List.length (text_append_rest c cs)
  have hsome := List.length_pos_iff.mpr (text_ne_nil c cs)
  rw [List.length_append] at hparts
  omega

end Lexeme

end Frontend
