import Frontend.Proofs.Lexing.Tokens

/-!
# Layouts

A layout of some words is a text in which they stand in order, with blanks and comments between
them wherever two words would be read as one.  The lexer undoes every layout: it finds the words at
the places where they were put.
-/

namespace Frontend

/-- Blanks and closed comments, after which any text may go on.  A line comment is closed by the end
of its line. -/
inductive IsTrivia : List Char → Prop where
  | nil : IsTrivia []
  | blank {c rest} (hblank : Trivia.isBlank c = true) (hrest : IsTrivia rest) :
      IsTrivia (c :: rest)
  | lineComment {text c rest} (htext : ∀ other ∈ text, Trivia.endsLine other = false)
      (hend : Trivia.endsLine c = true) (hrest : IsTrivia rest) :
      IsTrivia ('/' :: '/' :: text ++ c :: rest)
  | blockComment {text rest} (htext : ¬ ['*', '/'] <:+: text) (hrest : IsTrivia rest) :
      IsTrivia ('/' :: '*' :: text ++ '*' :: '/' :: rest)

/-- Closed trivia belong to the gap that they stand in front of.  Comments that are closed do not
reach into it. -/
theorem IsTrivia.append_gap {trivia gap after : List Char} (htrivia : IsTrivia trivia)
    (hgap : Gap gap after) : Gap (trivia ++ gap) after := by
  induction htrivia with
  | nil => exact hgap
  | blank hblank _ ih => exact .blank hblank ih
  | @lineComment text c rest htext hend _ ih =>
      rw [List.append_assoc]
      refine .lineComment htext ?_ (.blank (Trivia.isBlank_of_endsLine hend) ih)
      intro first hfirst
      obtain rfl := Option.some.inj hfirst
      exact hend
  | blockComment htext _ ih =>
      rw [List.append_assoc]
      exact .blockComment htext ih

/-! ## Words at the front of a text -/

/-- The characters that are read with a word of this kind if they stand right after it.  Before any
other character the word is over. -/
def Kind.joins : Kind → Char → Bool
  | .ident | .kwLet | .kwConst | .kwFunction | .kwReturn | .kwIf | .kwElse | .kwTrue | .kwFalse =>
      Lexeme.isLetter
  | .int => Lexeme.isDigit
  | .assign | .bang => fun c => c = '='
  | .slash => fun c => c = '/' || c = '*'
  | _ => fun _ => false

/-- No word goes on with a blank. -/
theorem Kind.joins_of_isBlank {c : Char} (kind : Kind) (hblank : Trivia.isBlank c = true) :
    kind.joins c = false := by
  simp only [Trivia.isBlank, Bool.or_eq_true, decide_eq_true_eq] at hblank
  rcases hblank with ((rfl | rfl) | rfl) | rfl <;> cases kind <;> rfl

theorem Kind.isBlank_of_joins {c : Char} {kind : Kind} (hjoins : kind.joins c = true) :
    Trivia.isBlank c = false := by
  by_contra hblank
  rw [kind.joins_of_isBlank ((Bool.not_eq_false _).mp hblank)] at hjoins
  cases hjoins

/-- The word is over where this text goes on. -/
def Word.EndsBefore (word : Word) (after : List Char) : Prop :=
  ∀ c ∈ after.head?, word.kind.joins c = false

theorem Word.endsBefore_of_isBlank {c : Char} {after : List Char} (word : Word)
    (hblank : Trivia.isBlank c = true) : word.EndsBefore (c :: after) := by
  intro next hnext
  obtain rfl := Option.some.inj hnext
  exact word.kind.joins_of_isBlank hblank

namespace Lexeme

variable {c : Char} {cs after : List Char}

theorem isLetter_of_isDigit (hdigit : isDigit c = true) : isLetter c = false := by
  have hhigh : c.toNat ≤ 57 := (Char.isDigit_iff_toNat.mp hdigit).2
  by_contra hletter
  rcases Bool.or_eq_true_iff.mp ((Bool.not_eq_false _).mp hletter) with hupper | hlower
  · have hlow : 65 ≤ c.toNat := UInt32.le_iff_toNat_le.mp (of_decide_eq_true hupper).1
    omega
  · have hlow : 97 ≤ c.toNat :=
      UInt32.le_iff_toNat_le.mp (of_decide_eq_true (Bool.and_eq_true_iff.mp hlower).1)
    omega

/-- A run of characters of one class, before a text that starts with none of them. -/
theorem run_append {holds : Char → Bool} {run : List Char} (hrun : ∀ c ∈ run, holds c = true)
    (hafter : ∀ c ∈ after.head?, holds c = false) :
    (run ++ after).takeWhile holds = run ∧ (run ++ after).dropWhile holds = after := by
  rw [List.takeWhile_append_of_pos hrun, List.dropWhile_append_of_pos hrun]
  cases after with
  | nil => exact ⟨List.append_nil run, rfl⟩
  | cons next after =>
      have hnext : holds next = false := hafter next rfl
      rw [List.takeWhile_cons, List.dropWhile_cons, hnext]
      exact ⟨List.append_nil run, rfl⟩

theorem ofFront_letters (hletters : ∀ other ∈ c :: cs, isLetter other = true)
    (hafter : ∀ next ∈ after.head?, isLetter next = false) :
    ofFront c (cs ++ after) = ⟨Kind.ofWord (String.ofList (c :: cs)), c :: cs, after⟩ := by
  obtain ⟨hfirst, hletters⟩ := List.forall_mem_cons.mp hletters
  obtain ⟨htake, hdrop⟩ := run_append hletters hafter
  have hquote : c ≠ '"' := by
    rintro rfl
    cases hfirst
  unfold ofFront
  rw [if_neg hquote, if_pos hfirst, htake, hdrop]

theorem ofFront_digits (hdigits : ∀ other ∈ c :: cs, isDigit other = true)
    (hafter : ∀ next ∈ after.head?, isDigit next = false) :
    ofFront c (cs ++ after) = ⟨.int, c :: cs, after⟩ := by
  obtain ⟨hfirst, hdigits⟩ := List.forall_mem_cons.mp hdigits
  obtain ⟨htake, hdrop⟩ := run_append hdigits hafter
  have hquote : c ≠ '"' := by
    rintro rfl
    cases hfirst
  have hletter : ¬ isLetter c = true := Bool.eq_false_iff.mp (isLetter_of_isDigit hfirst)
  unfold ofFront
  rw [if_neg hquote, if_neg hletter, if_pos hfirst, htake, hdrop]

theorem ne_quote_of_mem {inner : List Char} (hinner : '"' ∉ inner) :
    ∀ other ∈ inner, decide (other ≠ '"') = true :=
  fun _ hmember => decide_eq_true (ne_of_mem_of_not_mem hmember hinner)

theorem ofFront_quoted {inner : List Char} (hinner : '"' ∉ inner) :
    ofFront '"' (inner ++ '"' :: after) = ⟨.string, '"' :: inner ++ ['"'], after⟩ := by
  have hafter : ∀ next ∈ ('"' :: after).head?, decide (next ≠ '"') = false := by simp
  obtain ⟨htake, hdrop⟩ := run_append (ne_quote_of_mem hinner) hafter
  unfold ofFront
  rw [if_pos rfl, quoted, htake, hdrop]

/-- A character that starts nothing longer is read alone. -/
theorem ofFront_symbol (hquote : c ≠ '"') (hletter : isLetter c = false)
    (hdigit : isDigit c = false) (hpair : ∀ next ∈ after.head?, next = '=' → c ≠ '=' ∧ c ≠ '!') :
    ofFront c after = ⟨Kind.ofSymbol c, [c], after⟩ := by
  rw [ofFront, if_neg hquote, hletter, hdigit, if_neg Bool.false_ne_true,
    if_neg Bool.false_ne_true]
  · rintro rest rfl rfl
    exact absurd rfl (hpair _ rfl rfl).1
  · rintro rest rfl rfl
    exact absurd rfl (hpair _ rfl rfl).2

end Lexeme

namespace Word

variable {word : Word} {c : Char} {cs after : List Char}

/-- A lexeme starts with no blank, and with a slash only if it is one. -/
theorem IsLexeme.front (hlexeme : word.IsLexeme) :
    ∃ c cs, word.literal.toList = c :: cs ∧ Trivia.isBlank c = false ∧
      (c = '/' → word.kind = .slash ∧ cs = []) := by
  obtain ⟨kind, literal⟩ := word
  cases kind with
  | eof => cases hlexeme
  | illegal =>
      obtain ⟨c, htext, -, -, -, hblank, hsymbol⟩ := hlexeme
      refine ⟨c, [], htext, hblank, ?_⟩
      rintro rfl
      cases hsymbol
  | ident =>
      obtain ⟨hsome, hletters, -⟩ := hlexeme
      obtain ⟨c, cs, htext⟩ := List.exists_cons_of_ne_nil hsome
      have hletter : Kind.ident.joins c = true := hletters c (htext ▸ List.mem_cons_self)
      refine ⟨c, cs, htext, Kind.isBlank_of_joins hletter, ?_⟩
      rintro rfl
      cases hletter
  | int =>
      obtain ⟨hsome, hdigits⟩ := hlexeme
      obtain ⟨c, cs, htext⟩ := List.exists_cons_of_ne_nil hsome
      have hdigit : Kind.int.joins c = true := hdigits c (htext ▸ List.mem_cons_self)
      refine ⟨c, cs, htext, Kind.isBlank_of_joins hdigit, ?_⟩
      rintro rfl
      cases hdigit
  | string =>
      obtain ⟨inner, htext, -⟩ | ⟨inner, htext, -⟩ := hlexeme
      · exact ⟨'"', inner ++ ['"'], htext, rfl, nofun⟩
      · exact ⟨'"', inner, htext, rfl, nofun⟩
  | _ =>
      obtain rfl := Option.some.inj hlexeme
      exact ⟨_, _, rfl, rfl, by decide⟩

/-- A lexeme is no trivia, unless it is a slash that opens a comment. -/
theorem IsLexeme.not_starts (hlexeme : word.IsLexeme)
    (hslash : word.kind = .slash → ∀ next ∈ after.head?, next ≠ '/' ∧ next ≠ '*') :
    ¬ Trivia.Starts (word.literal.toList ++ after) := by
  obtain ⟨c, cs, htext, hblank, hfront⟩ := hlexeme.front
  rw [htext]
  refine Trivia.not_starts_cons hblank fun hc => ?_
  obtain ⟨hkind, rfl⟩ := hfront hc
  exact hslash hkind

theorem IsComplete.not_starts (hcomplete : word.IsComplete) (hends : word.EndsBefore after) :
    ¬ Trivia.Starts (word.literal.toList ++ after) := by
  refine hcomplete.1.not_starts fun hkind next hnext => ?_
  have hjoins := hends next hnext
  rw [hkind] at hjoins
  simpa [Kind.joins] using hjoins

/-- A word in front of a text that does not go on with it is what the lexer takes off, with all the
rest left. -/
theorem IsComplete.ofFront (hcomplete : word.IsComplete) (hends : word.EndsBefore after)
    (htext : word.literal.toList = c :: cs) :
    Lexeme.ofFront c (cs ++ after) = ⟨word.kind, c :: cs, after⟩ := by
  obtain ⟨hlexeme, hclosed⟩ := hcomplete
  obtain ⟨kind, literal⟩ := word
  cases kind with
  | eof => cases hlexeme
  | illegal =>
      obtain ⟨_, hsingle, hquote, hletter, hdigit, -, hsymbol⟩ := hlexeme
      obtain ⟨rfl, rfl⟩ := List.cons.inj (htext.symm.trans hsingle)
      rw [List.nil_append, Lexeme.ofFront_symbol hquote hletter hdigit, hsymbol]
      rintro next - -
      constructor <;> rintro rfl <;> cases hsymbol
  | ident =>
      obtain ⟨-, hletters, hkeyword⟩ := hlexeme
      rw [htext] at hletters
      rw [Lexeme.ofFront_letters hletters hends, ← htext, String.ofList_toList,
        Kind.ofWord_eq_ident hkeyword]
  | int =>
      obtain ⟨-, hdigits⟩ := hlexeme
      rw [htext] at hdigits
      exact Lexeme.ofFront_digits hdigits hends
  | string =>
      obtain ⟨inner, hquoted, hinner⟩ := hclosed rfl
      have hparts : c :: cs = '"' :: (inner ++ ['"']) := htext.symm.trans hquoted
      obtain ⟨rfl, rfl⟩ := List.cons.inj hparts
      rw [List.append_assoc, List.singleton_append, Lexeme.ofFront_quoted hinner]
      rfl
  | kwLet | kwConst | kwFunction | kwReturn | kwIf | kwElse | kwTrue | kwFalse =>
      obtain rfl := Option.some.inj hlexeme
      have hletters : ∀ other ∈ c :: cs, Lexeme.isLetter other = true := by
        rw [← htext]
        exact List.all_eq_true.mp rfl
      rw [Lexeme.ofFront_letters hletters hends, ← htext, String.ofList_toList]
      rfl
  | eq | notEq =>
      obtain rfl := Option.some.inj hlexeme
      simp only [String.reduceToList, List.cons.injEq] at htext
      obtain ⟨rfl, rfl⟩ := htext
      rfl
  | assign | bang =>
      obtain rfl := Option.some.inj hlexeme
      simp only [String.reduceToList, List.cons.injEq] at htext
      obtain ⟨rfl, rfl⟩ := htext
      rw [List.nil_append, Lexeme.ofFront_symbol (by decide) rfl rfl]
      · rfl
      · rintro next hnext rfl
        cases hends _ hnext
  | _ =>
      obtain rfl := Option.some.inj hlexeme
      simp only [String.reduceToList, List.cons.injEq] at htext
      obtain ⟨rfl, rfl⟩ := htext
      rw [List.nil_append, Lexeme.ofFront_symbol (by decide) rfl rfl (by simp)]
      rfl

end Word

/-! ## Texts made of words -/

/-- The token of a word that is put at an offset. -/
def Word.placedAt (word : Word) (start : Nat) : Token :=
  ⟨word.kind, word.literal, ⟨start, start + byteLength word.literal.toList⟩⟩

/-- A word with the blanks and comments that are put after it.  There need not be any of them. -/
structure Piece where
  word : Word
  gap : List Char
  trivia : IsTrivia gap

/-- The text of some pieces. -/
def glue : List Piece → List Char
  | [] => []
  | piece :: pieces => piece.word.literal.toList ++ (piece.gap ++ glue pieces)

/-- No word is read with the text after it.  That is all that the blanks and comments between words
have to see to. -/
def Spaced : List Piece → Prop
  | [] => True
  | piece :: pieces => piece.word.EndsBefore (piece.gap ++ glue pieces) ∧ Spaced pieces

/-- The tokens of some pieces, of which the first is put at an offset.  Each starts behind the gap
of the piece before it. -/
def place (offset : Nat) : List Piece → List Token
  | [] => []
  | piece :: pieces =>
      let first := piece.word.placedAt offset
      first :: place (first.span.stop + byteLength piece.gap) pieces

theorem place_words (offset : Nat) (pieces : List Piece) :
    (place offset pieces).map Token.word = pieces.map Piece.word := by
  induction pieces generalizing offset with
  | nil => rfl
  | cons piece pieces ih => rw [place, List.map_cons, List.map_cons, ih, Word.placedAt, Token.word]

namespace Lexer

/-- The lexer skips the gap and takes the lexeme after it. -/
theorem next?_of_gap {gap cs : List Char} {c : Char} (hgap : Gap gap (c :: cs)) (offset : Nat) :
    (⟨offset, gap ++ c :: cs⟩ : Lexer).next? =
      some ((Lexeme.ofFront c cs).word.placedAt (offset + byteLength gap),
        ⟨((Lexeme.ofFront c cs).word.placedAt (offset + byteLength gap)).span.stop,
          (Lexeme.ofFront c cs).rest⟩) := by
  rw [next?]
  simp only [hgap.split_eq, Word.placedAt, Lexeme.word, String.toList_ofList]

/-- Nothing is left after the last gap. -/
theorem next?_of_last_gap {gap : List Char} (hgap : Gap gap []) (offset : Nat) :
    (⟨offset, gap⟩ : Lexer).next? = none := by
  have hsplit := hgap.split_eq
  rw [List.append_nil] at hsplit
  rw [next?]
  simp only [hsplit]

theorem tokens_of_next?_eq_none {lexer : Lexer} (hnext : lexer.next? = none) :
    lexer.tokens = [] := by
  rw [tokens]
  split
  · rfl
  · next hsome =>
      rw [hnext] at hsome
      cases hsome

theorem tokens_of_next? {lexer after : Lexer} {token : Token}
    (hnext : lexer.next? = some (token, after)) : lexer.tokens = token :: after.tokens := by
  rw [tokens]
  split
  · next hnone =>
      rw [hnext] at hnone
      cases hnone
  · next hsome =>
      rw [hnext] at hsome
      obtain ⟨rfl, rfl⟩ := Prod.mk.inj (Option.some.inj hsome)
      rfl

/-- The lexer skips trivia and takes the word after them. -/
theorem next?_word {trivia after : List Char} {word : Word} (htrivia : IsTrivia trivia)
    (hcomplete : word.IsComplete) (hends : word.EndsBefore after) (offset : Nat) :
    (⟨offset, trivia ++ (word.literal.toList ++ after)⟩ : Lexer).next? =
      some (word.placedAt (offset + byteLength trivia),
        ⟨(word.placedAt (offset + byteLength trivia)).span.stop, after⟩) := by
  obtain ⟨c, cs, htext, -⟩ := hcomplete.1.front
  have hgap := htrivia.append_gap (.none (hcomplete.not_starts hends))
  rw [htext, List.cons_append, List.append_nil] at hgap
  rw [htext, List.cons_append, next?_of_gap hgap, hcomplete.ofFront hends htext]
  simp only [Lexeme.word, ← htext, String.ofList_toList, Word.placedAt]

/-- The lexer finds the words where they were put, whatever blanks and comments are between them. -/
theorem tokens_glue {lead : List Char} {pieces : List Piece} (hlead : IsTrivia lead)
    (hcomplete : ∀ piece ∈ pieces, piece.word.IsComplete) (hspaced : Spaced pieces) (offset : Nat) :
    (⟨offset, lead ++ glue pieces⟩ : Lexer).tokens =
      place (offset + byteLength lead) pieces := by
  induction pieces generalizing lead offset with
  | nil =>
      have hgap := hlead.append_gap (.none Trivia.not_starts_nil)
      rw [glue, place, tokens_of_next?_eq_none (next?_of_last_gap hgap offset)]
  | cons piece pieces ih =>
      obtain ⟨hends, hspaced⟩ := hspaced
      obtain ⟨hfirst, hcomplete⟩ := List.forall_mem_cons.mp hcomplete
      have hnext := next?_word hlead hfirst hends offset
      rw [glue, tokens_of_next? hnext, ih piece.trivia hcomplete hspaced, place]

end Lexer

/-- A layout of some words has the tokens of these words. -/
theorem lex_glue_words {lead : List Char} {pieces : List Piece} (hlead : IsTrivia lead)
    (hcomplete : ∀ piece ∈ pieces, piece.word.IsComplete) (hspaced : Spaced pieces) :
    (lex (String.ofList (lead ++ glue pieces))).dropLast.map Token.word =
      pieces.map Piece.word := by
  have htokens := Lexer.tokens_glue hlead hcomplete hspaced 0
  rw [lex_dropLast, Lexer.ofText, String.toList_ofList, htokens, place_words]

/-- No word is read with a separator that starts with a blank. -/
theorem spaced_of_separated {pieces : List Piece}
    (hseparated : ∀ piece ∈ pieces, ∃ c ∈ piece.gap.head?, Trivia.isBlank c = true) :
    Spaced pieces := by
  induction pieces with
  | nil => trivial
  | cons piece pieces ih =>
      obtain ⟨⟨c, hc, hblank⟩, hseparated⟩ := List.forall_mem_cons.mp hseparated
      obtain ⟨rest, hgap⟩ := List.head?_eq_some_iff.mp hc
      refine ⟨?_, ih hseparated⟩
      rw [hgap, List.cons_append]
      exact piece.word.endsBefore_of_isBlank hblank

theorem IsTrivia.space : IsTrivia [' '] := .blank rfl .nil

/-- Words with one blank after each. -/
def apart (words : List Word) : List Piece := words.map fun word => ⟨word, [' '], .space⟩

theorem apart_words (words : List Word) : (apart words).map Piece.word = words := by
  rw [apart, List.map_map]
  exact List.map_id words

theorem apart_spaced (words : List Word) : Spaced (apart words) := by
  apply spaced_of_separated
  intro piece hmember
  obtain ⟨word, -, rfl⟩ := List.mem_map.mp hmember
  exact ⟨' ', rfl, rfl⟩

/-- Complete words are those of a text. -/
theorem lex_apart {words : List Word} (hcomplete : ∀ word ∈ words, word.IsComplete) :
    (lex (String.ofList (glue (apart words)))).dropLast.map Token.word = words := by
  have hpieces : ∀ piece ∈ apart words, piece.word.IsComplete := by
    intro piece hmember
    apply hcomplete
    rw [← apart_words words]
    exact List.mem_map_of_mem hmember
  exact (lex_glue_words .nil hpieces (apart_spaced words)).trans (apart_words words)

/-- Words with a separator after each, of a blank and any blanks and comments, are the tokens of
their text, and each one lies where it was put. -/
theorem lex_glue {lead : List Char} {pieces : List Piece} (hlead : IsTrivia lead)
    (hcomplete : ∀ piece ∈ pieces, piece.word.IsComplete)
    (hseparated : ∀ piece ∈ pieces, ∃ c ∈ piece.gap.head?, Trivia.isBlank c = true) :
    lex (String.ofList (lead ++ glue pieces)) =
      place (byteLength lead) pieces ++ [.atEnd (byteLength (lead ++ glue pieces))] := by
  have htokens := Lexer.tokens_glue hlead hcomplete (spaced_of_separated hseparated) 0
  rw [Nat.zero_add] at htokens
  rw [lex, Lexer.tokensToEnd, Lexer.ofText, String.toList_ofList, htokens, Lexer.stop,
    Nat.zero_add]

/-- A slash before a comment, a string that looks like one, and a stray character. -/
def slashAndStray : List Piece :=
  [⟨Kind.slash.word, ['\t', '/', '/', '*', '\r'],
      .blank rfl
        (@IsTrivia.lineComment ['*'] '\r' [] (List.forall_mem_singleton.mpr rfl) rfl .nil)⟩,
    ⟨⟨.string, "\"/*\""⟩, ['\n'], .blank rfl .nil⟩,
    ⟨⟨.illegal, "é"⟩, ['\n', '/', '*', '/', '*', '/'],
      .blank rfl (@IsTrivia.blockComment ['/'] [] (by decide) .nil)⟩]

/-- The offsets count bytes, so the stray character is two long. -/
theorem lex_glue_slashAndStray :
    IsTrivia [' '] ∧ (∀ piece ∈ slashAndStray, piece.word.IsComplete) ∧
      (∀ piece ∈ slashAndStray, ∃ c ∈ piece.gap.head?, Trivia.isBlank c = true) ∧
      lex " /\t//*\r\"/*\"\né\n/*/*/" =
        [⟨.slash, "/", ⟨1, 2⟩⟩, ⟨.string, "\"/*\"", ⟨7, 11⟩⟩, ⟨.illegal, "é", ⟨12, 14⟩⟩,
          .atEnd 20] := by
  have hlead : IsTrivia [' '] := .blank rfl .nil
  have hcomplete : ∀ piece ∈ slashAndStray, piece.word.IsComplete := by
    have hstring : Word.IsComplete ⟨.string, "\"/*\""⟩ :=
      have hclosed : IsClosedString "\"/*\"" := ⟨['/', '*'], rfl, by decide⟩
      ⟨.inl hclosed, fun _ => hclosed⟩
    have hstray : Word.IsComplete ⟨.illegal, "é"⟩ :=
      ⟨⟨'é', rfl, by decide, rfl, rfl, rfl, rfl⟩, nofun⟩
    simp only [slashAndStray, List.forall_mem_cons]
    exact ⟨Kind.word_isComplete rfl, hstring, hstray, nofun⟩
  have hseparated : ∀ piece ∈ slashAndStray, ∃ c ∈ piece.gap.head?, Trivia.isBlank c = true := by
    simp only [slashAndStray, List.forall_mem_cons]
    exact ⟨⟨_, rfl, rfl⟩, ⟨_, rfl, rfl⟩, ⟨_, rfl, rfl⟩, nofun⟩
  refine ⟨hlead, hcomplete, hseparated, ?_⟩
  have htext : " /\t//*\r\"/*\"\né\n/*/*/" = String.ofList ([' '] ++ glue slashAndStray) := rfl
  rw [htext, lex_glue hlead hcomplete hseparated]
  rfl

end Frontend
