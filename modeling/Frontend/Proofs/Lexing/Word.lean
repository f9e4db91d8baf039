import Frontend.Lexer
import Mathlib.Data.List.TakeWhile

/-!
# Words

A word is a token without its place.  Not every pair of a kind and a text is the word of a token:
keywords, operators and delimiters have one spelling each, names and numerals are runs of ASCII
letters and digits, and a string may go without its closing quote.  The last case is rare, for such
a string takes all the text that is left, so only the last token of a text can be one.
-/

namespace Frontend

/-- A token without its place, which is all that the grammar looks at. -/
structure Word where
  kind : Kind
  literal : String
  deriving DecidableEq

def Token.word (token : Token) : Word := ⟨token.kind, token.literal⟩

@[simp]
theorem Token.word_kind (token : Token) : token.word.kind = token.kind := rfl

@[simp]
theorem Token.word_literal (token : Token) : token.word.literal = token.literal := rfl

/-- The only text that a keyword, an operator or a delimiter is read from.  Names, integers, strings
and stray characters have many. -/
def Kind.spelling? : Kind → Option String
  | .eof | .illegal | .ident | .int | .string => none
  | .kwLet => some "let"
  | .kwConst => some "const"
  | .kwFunction => some "function"
  | .kwReturn => some "return"
  | .kwIf => some "if"
  | .kwElse => some "else"
  | .kwTrue => some "true"
  | .kwFalse => some "false"
  | .assign => some "="
  | .plus => some "+"
  | .minus => some "-"
  | .asterisk => some "*"
  | .slash => some "/"
  | .bang => some "!"
  | .lt => some "<"
  | .gt => some ">"
  | .eq => some "=="
  | .notEq => some "!="
  | .comma => some ","
  | .colon => some ":"
  | .semicolon => some ";"
  | .lParen => some "("
  | .rParen => some ")"
  | .lBrace => some "\x7b"
  | .rBrace => some "\x7d"
  | .lBracket => some "["
  | .rBracket => some "]"

/-- The word of a keyword, an operator or a delimiter. -/
def Kind.word (kind : Kind) : Word := ⟨kind, kind.spelling?.getD ""⟩

@[simp]
theorem Kind.word_kind (kind : Kind) : kind.word.kind = kind := rfl

/-- A run of letters that is spelled like no keyword, as `lex_identifier_or_keyword` tells them
apart. -/
def IsName (name : String) : Prop :=
  name.toList ≠ [] ∧ (∀ c ∈ name.toList, Lexeme.isLetter c) ∧
    name ∉ Kind.keywords.map Prod.fst

/-- A run of digits. -/
def IsNumeral (text : String) : Prop :=
  text.toList ≠ [] ∧ ∀ c ∈ text.toList, Lexeme.isDigit c

/-- A string from its opening through its closing quote. -/
def IsClosedString (text : String) : Prop :=
  ∃ inner, text.toList = '"' :: inner ++ ['"'] ∧ '"' ∉ inner

/-- A string that is never closed. -/
def IsOpenString (text : String) : Prop :=
  ∃ inner, text.toList = '"' :: inner ∧ '"' ∉ inner

/-- A character that is neither blank nor part of any longer lexeme, operator or delimiter.  The
lexer makes it a token of the kind `Illegal`. -/
def IsStray (c : Char) : Prop :=
  c ≠ '"' ∧ Lexeme.isLetter c = false ∧ Lexeme.isDigit c = false ∧ Trivia.isBlank c = false ∧
    Kind.ofSymbol c = .illegal

/-- The words that tokens may have: for each kind the texts that it is read from, and none for the
end. -/
def Word.IsLexeme (word : Word) : Prop :=
  match word.kind with
  | .eof => False
  | .illegal => ∃ c, word.literal.toList = [c] ∧ IsStray c
  | .ident => IsName word.literal
  | .int => IsNumeral word.literal
  | .string => IsClosedString word.literal ∨ IsOpenString word.literal
  | kind => kind.spelling? = some word.literal

/-- The word may be followed by anything that stands apart from it.  A string without its quote may
not, as it would go on. -/
def Word.IsComplete (word : Word) : Prop :=
  word.IsLexeme ∧ (word.kind = .string → IsClosedString word.literal)

theorem Kind.word_isComplete {kind : Kind} (hspelled : kind.spelling?.isSome) :
    kind.word.IsComplete := by
  cases kind <;> simp_all [Word.IsComplete, Word.IsLexeme, Kind.word, Kind.spelling?]

/-- A token of a kind with one spelling is known by its kind. -/
theorem Token.word_eq_of_kind {token : Token} {kind : Kind} (hlexeme : token.word.IsLexeme)
    (hkind : token.kind = kind) (hspelled : kind.spelling?.isSome) : token.word = kind.word := by
  obtain ⟨found, literal, span⟩ := token
  subst hkind
  cases found <;> simp_all [Word.IsLexeme, Token.word, Kind.word, Kind.spelling?]

namespace Token

variable {token : Token}

theorem isName_of_kind (hlexeme : token.word.IsLexeme) (hkind : token.kind = .ident) :
    IsName token.literal := by
  simpa [Word.IsLexeme, hkind] using hlexeme

theorem isNumeral_of_kind (hlexeme : token.word.IsLexeme) (hkind : token.kind = .int) :
    IsNumeral token.literal := by
  simpa [Word.IsLexeme, hkind] using hlexeme

theorem isString_of_kind (hlexeme : token.word.IsLexeme) (hkind : token.kind = .string) :
    IsClosedString token.literal ∨ IsOpenString token.literal := by
  simpa [Word.IsLexeme, hkind] using hlexeme

end Token

/-! ## Lexemes -/

namespace Kind

theorem ofWord_eq_ident {word : String} (hword : word ∉ keywords.map Prod.fst) :
    ofWord word = .ident := by
  have hlookup : keywords.lookup word = none := by
    rw [List.lookup_eq_none_iff]
    intro pair hpair
    refine bne_iff_ne.mpr ?_
    rintro rfl
    exact hword (List.mem_map_of_mem hpair)
  rw [ofWord, hlookup]
  rfl

/-- A word of letters is a name or a keyword under its own spelling. -/
theorem ofWord_cases (word : String) :
    (ofWord word = .ident ∧ word ∉ keywords.map Prod.fst) ∨
      ((ofWord word).spelling? = some word) := by
  by_cases hword : word ∈ keywords.map Prod.fst
  · right
    simp only [keywords, List.map_cons, List.map_nil, List.mem_cons, List.not_mem_nil,
      or_false] at hword
    rcases hword with rfl | rfl | rfl | rfl | rfl | rfl | rfl | rfl <;> rfl
  · exact .inl ⟨ofWord_eq_ident hword, hword⟩

theorem ofWord_ne_string (word : String) : ofWord word ≠ .string := by
  intro hstring
  have hcases := ofWord_cases word
  rw [hstring] at hcases
  rcases hcases with ⟨hident, -⟩ | hspelled
  · cases hident
  · cases hspelled

end Kind

namespace Lexeme

/-- The word of a lexeme. -/
def word (lexeme : Lexeme) : Word := ⟨lexeme.kind, String.ofList lexeme.text⟩

/-- A string is closed, or it takes all the text that is left. -/
theorem quoted_cases (cs : List Char) :
    IsClosedString (quoted cs).word.literal ∨
      IsOpenString (quoted cs).word.literal ∧ (quoted cs).rest = [] := by
  have hinner : '"' ∉ cs.takeWhile (· ≠ '"') := by
    intro hquote
    simpa using List.mem_takeWhile_imp hquote
  unfold quoted
  split
  · exact .inr ⟨⟨_, String.toList_ofList, hinner⟩, rfl⟩
  · next quote after hafter =>
      have hquote := List.head?_dropWhile_not (· ≠ '"') cs
      rw [hafter] at hquote
      obtain rfl : quote = '"' := by simpa using hquote
      exact .inl ⟨_, String.toList_ofList, hinner⟩

theorem quoted_isLexeme (cs : List Char) : (quoted cs).word.IsLexeme := by
  have hkind : (quoted cs).kind = .string := by
    unfold quoted
    split <;> rfl
  simp only [Word.IsLexeme, word, hkind]
  exact (quoted_cases cs).imp_right And.left

theorem isLexeme_of_letters {word : List Char} (hne : word ≠ [])
    (hletters : ∀ c ∈ word, isLetter c) :
    Word.IsLexeme ⟨Kind.ofWord (String.ofList word), String.ofList word⟩ := by
  rcases Kind.ofWord_cases (String.ofList word) with ⟨hident, hkeyword⟩ | hspelled
  · rw [hident]
    exact ⟨by simpa using hne, by simpa using hletters, hkeyword⟩
  · revert hspelled
    generalize Kind.ofWord (String.ofList word) = kind
    cases kind <;> simp [Word.IsLexeme, Kind.spelling?]

theorem isLexeme_of_digits {digits : List Char} (hne : digits ≠ [])
    (hdigits : ∀ c ∈ digits, isDigit c) : Word.IsLexeme ⟨.int, String.ofList digits⟩ :=
  ⟨by simpa using hne, by simpa using hdigits⟩

theorem isLexeme_of_symbol {c : Char} (hquote : c ≠ '"') (hletter : isLetter c = false)
    (hdigit : isDigit c = false) (hblank : Trivia.isBlank c = false) :
    Word.IsLexeme ⟨Kind.ofSymbol c, String.ofList [c]⟩ := by
  by_cases hstray : Kind.ofSymbol c = .illegal
  · rw [hstray]
    exact ⟨c, String.toList_ofList, hquote, hletter, hdigit, hblank, hstray⟩
  · unfold Kind.ofSymbol at hstray ⊢
    split at hstray <;> first | rfl | exact absurd rfl hstray

/-- What is read at the front of a text that starts with no blank is the word of a token. -/
theorem ofFront_isLexeme {c : Char} (cs : List Char) (hblank : Trivia.isBlank c = false) :
    (ofFront c cs).word.IsLexeme := by
  unfold ofFront
  split
  · exact quoted_isLexeme cs
  · next hquote =>
      split
      · next hletter =>
          refine isLexeme_of_letters (List.cons_ne_nil _ _) fun other hother => ?_
          rcases List.mem_cons.mp hother with rfl | hother
          · exact hletter
          · exact List.mem_takeWhile_imp hother
      · next hletter =>
          split
          · next hdigit =>
              refine isLexeme_of_digits (List.cons_ne_nil _ _) fun other hother => ?_
              rcases List.mem_cons.mp hother with rfl | hother
              · exact hdigit
              · exact List.mem_takeWhile_imp hother
          · next hdigit =>
              split
              · rfl
              · rfl
              · exact isLexeme_of_symbol hquote (by simpa using hletter) (by simpa using hdigit)
                  hblank

/-- Only a quote starts a string. -/
theorem eq_quote_of_kind {c : Char} {cs : List Char} (hkind : (ofFront c cs).kind = .string) :
    c = '"' := by
  by_contra hquote
  unfold ofFront at hkind
  rw [if_neg hquote] at hkind
  split at hkind
  · exact Kind.ofWord_ne_string _ hkind
  · split at hkind
    · simp at hkind
    · split at hkind
      · simp at hkind
      · simp at hkind
      · unfold Kind.ofSymbol at hkind
        split at hkind <;> simp at hkind

theorem rest_eq_nil_of_open {c : Char} {cs : List Char} (hkind : (ofFront c cs).kind = .string)
    (hopen : ¬ IsClosedString (ofFront c cs).word.literal) : (ofFront c cs).rest = [] := by
  obtain rfl := eq_quote_of_kind hkind
  have hquoted : ofFront '"' cs = quoted cs := if_pos rfl
  rw [hquoted] at hopen ⊢
  exact ((quoted_cases cs).resolve_left hopen).2

end Lexeme

end Frontend
