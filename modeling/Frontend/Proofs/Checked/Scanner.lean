import Frontend.Proofs.Checked.Checks
import Frontend.Proofs.Lexing.Layout

/-!
# Scanning with checks

A scanner keeps the whole text and a byte offset in it.  Whenever it looks at a character it slices
the text from the offset on, and the text of a token is sliced out when its end has been found.  If
the scanner stands between two characters, where the lexer stands, none of this can fail: it comes
to stand between characters again, and its tokens are those of the lexer.
-/

namespace Frontend

/-- A text and the byte offset at which it is looked at: the `input` and the `position` of `Lexer`.
Nothing says that a character starts at the offset. -/
structure Scanner where
  input : List Char
  position : Nat

namespace Scanner

/-- The characters from the offset on, for which every look ahead slices the text. -/
def remaining (scanner : Scanner) : Checked (List Char) :=
  Span.checkedSlice ⟨scanner.position, byteLength scanner.input⟩ scanner.input

/-- The character at the offset, unless the text ends there: `peek_char`. -/
def peek (scanner : Scanner) : Checked (Option Char) :=
  return (← scanner.remaining).head?

/-- The character after that, `peek_next_char`. -/
def peekNext (scanner : Scanner) : Checked (Option Char) :=
  return (← scanner.remaining).tail.head?

/-- The scanner behind a character, which moves by the bytes that this character takes. -/
def past (scanner : Scanner) (c : Char) : Scanner :=
  ⟨scanner.input, scanner.position + c.utf8Size⟩

/-- The scanner behind the character at the offset, `advance_char`, which looks at it again. -/
def advance (scanner : Scanner) : Checked Scanner := do
  match ← scanner.peek with
  | none => return scanner
  | some c => return scanner.past c

/-- The scanner between two parts of a text.  Wherever a lexer gets to, its scanner is of this form,
and then nothing that it slices is cut through a character. -/
def between (before rest : List Char) : Scanner := ⟨before ++ rest, byteLength before⟩

section

variable {before rest : List Char} {c : Char} {scanner : Scanner}

@[simp]
theorem remaining_between : (between before rest).remaining = .ok rest := by
  have hslice := Span.checkedSlice_append before rest []
  rwa [List.append_nil, ← byteLength_append] at hslice

@[simp]
theorem peek_between : (between before rest).peek = .ok rest.head? := by
  rw [peek, remaining_between]
  rfl

@[simp]
theorem peekNext_between : (between before rest).peekNext = .ok rest.tail.head? := by
  rw [peekNext, remaining_between]
  rfl

@[simp]
theorem past_between : (between before (c :: rest)).past c = between (before ++ [c]) rest := by
  simp [past, between]

@[simp]
theorem advance_between :
    (between before (c :: rest)).advance = .ok (between (before ++ [c]) rest) := by
  rw [advance, peek_between, ← past_between]
  rfl

@[simp]
theorem advance_end (before : List Char) :
    (between before []).advance = .ok (between before []) := by
  rw [advance, peek_between]
  rfl

/-- A scanner only moves on, in the same text. -/
theorem position_le_of_advance {after : Scanner} (hadvance : scanner.advance = .ok after) :
    after.input = scanner.input ∧ scanner.position ≤ after.position := by
  rw [advance] at hadvance
  cases hpeek : scanner.peek with
  | error panic =>
      rw [hpeek] at hadvance
      cases hadvance
  | ok found =>
      rw [hpeek, Checked.ok_bind] at hadvance
      cases found with
      | none =>
          obtain rfl := Except.ok.inj hadvance
          exact ⟨rfl, Nat.le_refl _⟩
      | some c =>
          obtain rfl := Except.ok.inj hadvance
          exact ⟨rfl, Nat.le_add_right _ _⟩

/-- Only between two parts of the text can it be seen what remains.  So a scanner that got to see
something stands where it should. -/
theorem eq_between_of_remaining (hremaining : scanner.remaining = .ok rest) :
    ∃ before, scanner = between before rest := by
  obtain ⟨input, position⟩ := scanner
  simp only [remaining, Span.checkedSlice] at hremaining
  split at hremaining
  · next inside hslice =>
      obtain rfl := Except.ok.inj hremaining
      obtain ⟨before, after, rfl, hstart, hstop⟩ := Span.slice?_eq_some hslice
      have hend : after = [] := byteLength_eq_zero.mp (by simp at hstop; omega)
      refine ⟨before, ?_⟩
      rw [between, ← hstart, hend, List.append_nil]
  · cases hremaining

/-- There is something left where a character can be seen. -/
theorem position_lt_of_peek (hpeek : scanner.peek = .ok (some c)) :
    scanner.position < byteLength scanner.input := by
  cases hremaining : scanner.remaining with
  | error panic =>
      rw [peek, hremaining] at hpeek
      cases hpeek
  | ok rest =>
      obtain ⟨before, rfl⟩ := eq_between_of_remaining hremaining
      rw [peek_between] at hpeek
      obtain ⟨cs, rfl⟩ := List.head?_eq_some_iff.mp (Except.ok.inj hpeek)
      have hpositive := c.utf8Size_pos
      simp only [between, byteLength_append, byteLength_cons]
      omega

end

/-- Skips trivia, of which the first character belongs to `mode`: `skip_trivia` with the loops of
`skip_line_comment` and `skip_block_comment` as modes of their own. -/
def skipTrivia (mode : Trivia.Mode) (scanner : Scanner) : Checked Scanner :=
  match _hpeek : scanner.peek with
  | .error panic => .error panic
  | .ok none => .ok scanner
  | .ok (some c) => do
      let following ← scanner.peekNext
      match mode with
      | .blank =>
          -- The second slash belongs to what is skipped as a line comment.
          if c = '/' ∧ following = some '/' then skipTrivia .lineComment (scanner.past c)
          else if c = '/' ∧ following = some '*' then
            match _hopened : (scanner.past c).advance with
            | .error panic => .error panic
            | .ok opened => skipTrivia .blockComment opened
          else if Trivia.isBlank c then skipTrivia .blank (scanner.past c)
          else return scanner
      | .lineComment =>
          skipTrivia (if Trivia.endsLine c then .blank else .lineComment) (scanner.past c)
      | .blockComment =>
          if c = '*' ∧ following = some '/' then
            match _hclosed : (scanner.past c).advance with
            | .error panic => .error panic
            | .ok closed => skipTrivia .blank closed
          else skipTrivia .blockComment (scanner.past c)
termination_by byteLength scanner.input - scanner.position
decreasing_by
  all_goals have hleft := position_lt_of_peek _hpeek
  all_goals have hpositive := c.utf8Size_pos
  · simp only [past]
    omega
  · obtain ⟨hinput, hposition⟩ := position_le_of_advance _hopened
    simp only [past] at hinput hposition
    rw [hinput]
    omega
  · simp only [past]
    omega
  · simp only [past]
    omega
  · obtain ⟨hinput, hposition⟩ := position_le_of_advance _hclosed
    simp only [past] at hinput hposition
    rw [hinput]
    omega
  · simp only [past]
    omega

/-- Skips the characters with a property, the loop of `lex_number` and of
`lex_identifier_or_keyword`. -/
def skipWhile (p : Char → Bool) (scanner : Scanner) : Checked Scanner :=
  match _hpeek : scanner.peek with
  | .error panic => .error panic
  | .ok none => .ok scanner
  | .ok (some c) => if p c then skipWhile p (scanner.past c) else .ok scanner
termination_by byteLength scanner.input - scanner.position
decreasing_by
  have hleft := position_lt_of_peek _hpeek
  have hpositive := c.utf8Size_pos
  simp only [past]
  omega

/-- Skips a string from behind its opening quote through its closing one, the loop of `lex_string`.
At the end of the text there is no quote to skip. -/
def skipString (scanner : Scanner) : Checked Scanner := do
  let closer ← scanner.skipWhile (· ≠ '"')
  closer.advance

/-- The text from an offset up to the scanner's, `slice` of `Lexer`. -/
def slice (scanner : Scanner) (start : Nat) : Checked (List Char) :=
  Span.checkedSlice ⟨start, scanner.position⟩ scanner.input

/-- The token from an offset up to the scanner's, `token_from`: its span is checked, and its literal
is sliced out. -/
def token (scanner : Scanner) (kind : Kind) (start : Nat) : Checked (Token × Scanner) := do
  let text ← scanner.slice start
  let span ← Span.checked start scanner.position
  return (⟨kind, String.ofList text, span⟩, scanner)

/-- The token that starts with a character at the offset, the match in `next_token` once trivia is
behind it. -/
def lexeme (scanner : Scanner) (c : Char) : Checked (Token × Scanner) := do
  if c = '"' then
    let closed ← (← scanner.advance).skipString
    closed.token .string scanner.position
  else if Lexeme.isLetter c then
    let word ← scanner.skipWhile Lexeme.isLetter
    let text ← word.slice scanner.position
    word.token (Kind.ofWord (String.ofList text)) scanner.position
  else if Lexeme.isDigit c then
    let numeral ← scanner.skipWhile Lexeme.isDigit
    numeral.token .int scanner.position
  else
    let symbol ← scanner.advance
    match c, ← symbol.peek with
    | '=', some '=' => (← symbol.advance).token .eq scanner.position
    | '!', some '=' => (← symbol.advance).token .notEq scanner.position
    | _, _ => symbol.token (Kind.ofSymbol c) scanner.position

/-- The next token and the scanner behind it, `next_token`.  At the end of the text the token is
empty, and the scanner stays there. -/
def next (scanner : Scanner) : Checked (Token × Scanner) := do
  let start ← scanner.skipTrivia .blank
  match ← start.peek with
  | none => return (⟨.eof, "", ← Span.checked start.position start.position⟩, start)
  | some c => start.lexeme c

/-! ## No check fails -/

section

variable {before rest : List Char}

theorem skipWhile_between (p : Char → Bool) (before rest : List Char) :
    (between before rest).skipWhile p =
      .ok (between (before ++ rest.takeWhile p) (rest.dropWhile p)) := by
  induction rest generalizing before with
  | nil =>
      rw [skipWhile]
      split <;> simp_all
  | cons c cs ih =>
      rw [skipWhile]
      split
      · simp_all
      · simp_all
      · next found hpeek =>
          obtain rfl : c = found := by simpa using hpeek
          cases hp : p c <;> simp [hp, ih]

theorem skipTrivia_cons (mode : Trivia.Mode) (before : List Char) (c : Char) (cs : List Char) :
    (between before (c :: cs)).skipTrivia mode =
      match mode with
      | .blank =>
          if c = '/' ∧ cs.head? = some '/' then
            (between (before ++ [c]) cs).skipTrivia .lineComment
          else if c = '/' ∧ cs.head? = some '*' then do
            (← (between (before ++ [c]) cs).advance).skipTrivia .blockComment
          else if Trivia.isBlank c then (between (before ++ [c]) cs).skipTrivia .blank
          else .ok (between before (c :: cs))
      | .lineComment =>
          (between (before ++ [c]) cs).skipTrivia
            (if Trivia.endsLine c then .blank else .lineComment)
      | .blockComment =>
          if c = '*' ∧ cs.head? = some '/' then do
            (← (between (before ++ [c]) cs).advance).skipTrivia .blank
          else (between (before ++ [c]) cs).skipTrivia .blockComment := by
  rw [skipTrivia]
  split
  · simp_all
  · simp_all
  · next found hpeek =>
      obtain rfl : c = found := by simpa using hpeek
      rw [peekNext_between, past_between]
      cases mode with
      | lineComment => rfl
      | blank | blockComment =>
          cases hadvance : (between (before ++ [c]) cs).advance <;> rfl

theorem not_pair {c first second : Char} {cs : List Char}
    (hother : ∀ ds, c = first → cs = second :: ds → False) :
    ¬ (c = first ∧ cs.head? = some second) := by
  rintro ⟨hfirst, hsecond⟩
  obtain ⟨ds, hds⟩ := List.head?_eq_some_iff.mp hsecond
  exact hother ds hfirst hds

theorem skipTrivia_between (mode : Trivia.Mode) (before rest : List Char) :
    (between before rest).skipTrivia mode =
      .ok (between (before ++ (Trivia.splitFrom mode rest).1) (Trivia.splitFrom mode rest).2) := by
  fun_induction Trivia.splitFrom mode rest generalizing before with
  | case1 mode =>
      rw [skipTrivia]
      split <;> simp_all
  | case2 cs trivia rest hsplit ih =>
      have hslash : Trivia.endsLine '/' = false := rfl
      simp [skipTrivia_cons, hslash, ih, hsplit]
  | case3 cs trivia rest hsplit ih => simp [skipTrivia_cons, ih, hsplit]
  | case4 c cs hline hblock hblank trivia rest hsplit ih =>
      simp [skipTrivia_cons, not_pair hline, not_pair hblock, hblank, ih, hsplit]
  | case5 c cs hline hblock hblank =>
      simp [skipTrivia_cons, not_pair hline, not_pair hblock, hblank]
  | case6 c cs trivia rest hsplit ih => simp [skipTrivia_cons, ih, hsplit]
  | case7 cs trivia rest hsplit ih => simp [skipTrivia_cons, ih, hsplit]
  | case8 c cs hclose trivia rest hsplit ih =>
      simp [skipTrivia_cons, not_pair hclose, ih, hsplit]

theorem skipString_between (before cs : List Char) :
    (between (before ++ ['"']) cs).skipString =
      .ok (between (before ++ (Lexeme.quoted cs).text) (Lexeme.quoted cs).rest) := by
  rw [skipString, skipWhile_between, Checked.ok_bind]
  unfold Lexeme.quoted
  split
  · next hend =>
      rw [hend, advance_end, List.append_assoc]
      rfl
  · next quote after hquote =>
      rw [hquote, advance_between, List.append_assoc, List.append_assoc]
      rfl

theorem slice_between (before text rest : List Char) :
    (between (before ++ text) rest).slice (byteLength before) = .ok text := by
  rw [slice, between, byteLength_append]
  exact Span.checkedSlice_append before text rest

/-- The token of a part of the text. -/
theorem token_between (kind : Kind) (before text rest : List Char) :
    (between (before ++ text) rest).token kind (byteLength before) =
      .ok (⟨kind, String.ofList text, ⟨byteLength before, byteLength before + byteLength text⟩⟩,
        between (before ++ text) rest) := by
  have hspan : Span.checked (byteLength before) (between (before ++ text) rest).position =
      .ok ⟨byteLength before, byteLength before + byteLength text⟩ := by
    rw [between, byteLength_append]
    exact Span.checked_of_le (Nat.le_add_right _ _)
  rw [token, slice_between, Checked.ok_bind, hspan, Checked.ok_bind, Checked.pure_eq]

theorem quoted_kind (cs : List Char) : (Lexeme.quoted cs).kind = .string := by
  unfold Lexeme.quoted
  split <;> rfl

theorem lexeme_between (before : List Char) (c : Char) (cs : List Char) :
    (between before (c :: cs)).lexeme c =
      .ok (⟨(Lexeme.ofFront c cs).kind, String.ofList (Lexeme.ofFront c cs).text,
          ⟨byteLength before, byteLength before + byteLength (Lexeme.ofFront c cs).text⟩⟩,
        between (before ++ (Lexeme.ofFront c cs).text) (Lexeme.ofFront c cs).rest) := by
  have hstart : (between before (c :: cs)).position = byteLength before := rfl
  unfold lexeme Lexeme.ofFront
  rw [hstart]
  split
  · next hquote =>
      rw [hquote, advance_between, Checked.ok_bind, skipString_between, Checked.ok_bind,
        token_between, quoted_kind]
  · next hquote =>
      split
      · next hletter =>
          rw [skipWhile_between, List.takeWhile_cons_of_pos hletter,
            List.dropWhile_cons_of_pos hletter, Checked.ok_bind, slice_between, Checked.ok_bind,
            token_between]
      · next hletter =>
          split
          · next hdigit =>
              rw [skipWhile_between, List.takeWhile_cons_of_pos hdigit,
                List.dropWhile_cons_of_pos hdigit, Checked.ok_bind, token_between]
          · next hdigit =>
              rw [advance_between, Checked.ok_bind, peek_between, Checked.ok_bind]
              split
              · next hequals =>
                  obtain ⟨rest, rfl⟩ := List.head?_eq_some_iff.mp hequals
                  rw [advance_between, Checked.ok_bind, List.append_assoc, token_between]
                  rfl
              · next hequals =>
                  obtain ⟨rest, rfl⟩ := List.head?_eq_some_iff.mp hequals
                  rw [advance_between, Checked.ok_bind, List.append_assoc, token_between]
                  rfl
              · next hequals hbang =>
                  rw [token_between]
                  split <;> simp_all

end

/-- The scanner stands in its text where the lexer stands: what the lexer has left is what can be
seen from the scanner's offset. -/
def Stands (scanner : Scanner) (lexer : Lexer) : Prop :=
  ∃ before, lexer.offset = byteLength before ∧ scanner = between before lexer.rest

/-- The scanner at the start of a text, `new` of `Lexer`. -/
def ofText (text : String) : Scanner := ⟨text.toList, 0⟩

theorem ofText_stands (text : String) : (ofText text).Stands (Lexer.ofText text) :=
  ⟨[], rfl, rfl⟩

section

variable {scanner : Scanner} {lexer : Lexer}

/-- The next token is the lexer's, and the scanner stays with the lexer.  No slice on the way
fails. -/
theorem Stands.next (hstands : scanner.Stands lexer) :
    ∃ after, scanner.next = .ok (lexer.next.1, after) ∧ after.Stands lexer.next.2 := by
  obtain ⟨before, hoffset, rfl⟩ := hstands
  have htrivia := skipTrivia_between .blank before lexer.rest
  rw [← Trivia.split] at htrivia
  rw [Scanner.next, htrivia, Checked.ok_bind, peek_between, Checked.ok_bind, Lexer.next,
    Lexer.next?]
  cases htext : (Trivia.split lexer.rest).2 with
  | nil =>
      have hparts := Trivia.split_append lexer.rest
      have hstop : lexer.stop = byteLength (before ++ (Trivia.split lexer.rest).1) := by
        rw [htext, List.append_nil] at hparts
        rw [Lexer.stop, hoffset, byteLength_append, hparts]
      refine ⟨between (before ++ (Trivia.split lexer.rest).1) [], ?_, _, hstop, rfl⟩
      rw [hstop]
      exact congrArg (· >>= _) (Span.checked_of_le (Nat.le_refl _))
  | cons c cs =>
      have hstart : byteLength before + byteLength (Trivia.split lexer.rest).1 =
          byteLength (before ++ (Trivia.split lexer.rest).1) := (byteLength_append _ _).symm
      rw [hoffset, hstart]
      exact ⟨_, lexeme_between _ c cs, _, (byteLength_append _ _).symm, rfl⟩

/-- Only where a lexer could stand is there a next token; anywhere else the first look ahead
fails. -/
theorem exists_stands_of_next {found : Token × Scanner} (hnext : scanner.next = .ok found) :
    ∃ lexer, scanner.Stands lexer := by
  cases hremaining : scanner.remaining with
  | error panic =>
      have hpeek : scanner.peek = .error panic := by
        rw [peek, hremaining]
        rfl
      rw [Scanner.next, skipTrivia] at hnext
      split at hnext
      · cases hnext
      · simp_all
      · simp_all
  | ok rest =>
      obtain ⟨before, rfl⟩ := eq_between_of_remaining hremaining
      exact ⟨⟨byteLength before, rest⟩, before, rfl, rfl⟩

/-- What is left of the text is shorter behind a token, which is why asking for all of them comes to
an end. -/
theorem next_size_lt {token : Token} {after : Scanner} (hnext : scanner.next = .ok (token, after))
    (hkind : token.kind ≠ .eof) :
    byteLength after.input - after.position < byteLength scanner.input - scanner.position := by
  obtain ⟨lexer, hstands⟩ := exists_stands_of_next hnext
  obtain ⟨after', hafter, hstands'⟩ := hstands.next
  obtain ⟨rfl, rfl⟩ := Prod.mk.inj (Except.ok.inj (hnext.symm.trans hafter))
  obtain ⟨before, hoffset, rfl⟩ := hstands
  obtain ⟨before', hoffset', rfl⟩ := hstands'
  cases hlexer : lexer.next? with
  | none => exact absurd (by rw [Lexer.next, hlexer]; rfl) hkind
  | some found =>
      obtain ⟨token, behind⟩ := found
      obtain ⟨hstart, hlength, hbehind, hstop⟩ := Lexer.span_of_next? hlexer
      rw [Lexer.next, hlexer] at hoffset' ⊢
      simp only [Lexer.stop] at hstop
      simp only [between, byteLength_append, Option.getD_some] at hoffset' ⊢
      omega

end

/-- All the tokens left, through the end token: `tokenize` of `Lexer`. -/
def tokenize (scanner : Scanner) : Checked (List Token) :=
  match _hnext : scanner.next with
  | .error panic => .error panic
  | .ok (token, after) =>
      if _hkind : token.kind = .eof then .ok [token]
      else do return token :: (← after.tokenize)
termination_by byteLength scanner.input - scanner.position
decreasing_by exact next_size_lt _hnext _hkind

/-- The scanner behind a number of tokens, wherever `next_token` has been called so many times. -/
def skip (scanner : Scanner) : Nat → Checked Scanner
  | 0 => .ok scanner
  | count + 1 => do (← scanner.next).2.skip count

section

variable {scanner : Scanner} {lexer : Lexer}

theorem Stands.skip (hstands : scanner.Stands lexer) (count : Nat) :
    ∃ after, scanner.skip count = .ok after ∧ after.Stands (lexer.skip count) := by
  induction count generalizing scanner lexer with
  | zero => exact ⟨scanner, rfl, hstands⟩
  | succ count ih =>
      obtain ⟨after, hnext, hafter⟩ := hstands.next
      obtain ⟨last, hskip, hlast⟩ := ih hafter
      refine ⟨last, ?_, hlast⟩
      rw [Scanner.skip, hnext]
      exact hskip

theorem tokenize_of_next {token : Token} {after : Scanner}
    (hnext : scanner.next = .ok (token, after)) :
    scanner.tokenize =
      if token.kind = .eof then .ok [token] else do return token :: (← after.tokenize) := by
  rw [tokenize]
  split
  · simp_all
  · next found behind hfound =>
      obtain ⟨rfl, rfl⟩ := Prod.mk.inj (Except.ok.inj (hnext.symm.trans hfound))
      rfl

/-- The tokens are those of the lexer. -/
theorem Stands.tokenize (hstands : scanner.Stands lexer) :
    scanner.tokenize = .ok lexer.tokensToEnd.1 := by
  rw [Lexer.tokensToEnd]
  fun_induction Lexer.tokens lexer generalizing scanner with
  | case1 lexer hend =>
      obtain ⟨behind, hnext, -⟩ := hstands.next
      rw [Lexer.next, hend] at hnext
      rw [tokenize_of_next hnext]
      rfl
  | case2 lexer token after htoken ih =>
      obtain ⟨behind, hnext, hbehind⟩ := hstands.next
      rw [Lexer.next, htoken] at hnext hbehind
      have hmember : token ∈ lexer.tokens := by
        rw [Lexer.tokens_of_next? htoken]
        exact List.mem_cons_self
      obtain ⟨-, -, -, hstop⟩ := Lexer.span_of_next? htoken
      rw [tokenize_of_next hnext]
      dsimp only [Option.getD_some] at hbehind ⊢
      rw [if_neg (Lexer.kind_ne_eof_of_mem_tokens hmember), ih hbehind, hstop]
      rfl

end

end Scanner

end Frontend
