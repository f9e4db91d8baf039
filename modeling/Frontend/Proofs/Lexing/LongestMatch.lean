import Frontend.Proofs.Lexing.Layout

/-!
# Longest match

The tokens of a text are described without a lexer.  At each place the gap is skipped, and then
the longest of all words is taken that the text goes on with.  Which words there may be is said by
their shapes; an open string is one of them only at the end of the text, and a slash only where it
opens no comment.  These rules leave no choice, and the lexer follows them.

A word is read alone as it is read in front of any text, so its kind depends on nothing but its
letters.
-/

namespace Frontend

/-- The word may stand in front of a text: a string runs through the next quote or to the end, and
a slash opens no comment. -/
structure Word.Admitted (word : Word) (after : List Char) : Prop where
  lexeme : word.IsLexeme
  closed : word.kind = .string → IsClosedString word.literal ∨ after = []
  divides : word.kind = .slash → ∀ next ∈ after.head?, next ≠ '/' ∧ next ≠ '*'

/-- The word is in front of the text `after` in `text`, and no longer word is in its place.  Nothing
is said of how it is found. -/
structure Word.Longest (word : Word) (text after : List Char) : Prop where
  admitted : word.Admitted after
  text_eq : text = word.literal.toList ++ after
  longest : ∀ (other : Word) (rest : List Char), other.Admitted rest →
    text = other.literal.toList ++ rest →
      other.literal.toList.length ≤ word.literal.toList.length

/-- The tokens of a text that starts at an offset: the longest word after each gap, and the end
token after the last one.  This is what the language says about tokens, without a lexer. -/
inductive LexesTo : Nat → List Char → List Token → Prop where
  | done {offset gap} (hgap : Gap gap []) :
      LexesTo offset gap [.atEnd (offset + byteLength gap)]
  | token {offset gap text word after tokens} (hgap : Gap gap text)
      (hlongest : Word.Longest word text after)
      (hrest : LexesTo (word.placedAt (offset + byteLength gap)).span.stop after tokens) :
      LexesTo offset (gap ++ text) (word.placedAt (offset + byteLength gap) :: tokens)

/-! ## A word alone -/

namespace Lexeme

variable {inner : List Char}

theorem ofFront_open (hinner : '"' ∉ inner) :
    ofFront '"' inner = ⟨.string, '"' :: inner, []⟩ := by
  have hend : ∀ next ∈ ([] : List Char).head?, decide (next ≠ '"') = false := nofun
  obtain ⟨htake, hdrop⟩ := run_append (ne_quote_of_mem hinner) hend
  rw [List.append_nil] at htake hdrop
  unfold ofFront
  rw [if_pos rfl, quoted, htake, hdrop]

theorem takeWhile_prefix_append {holds : Char → Bool} (cs more : List Char) :
    cs.takeWhile holds <+: (cs ++ more).takeWhile holds := by
  rw [List.takeWhile_append]
  split
  · exact (List.takeWhile_prefix _).trans (List.prefix_append _ _)
  · exact List.prefix_rfl

theorem quoted_prefix (cs more : List Char) :
    (ofFront '"' cs).text <+: (ofFront '"' (cs ++ more)).text := by
  by_cases hclosed : '"' ∈ cs
  · obtain ⟨inner, after, rfl, hinner⟩ := List.eq_append_cons_of_mem hclosed
    refine ⟨[], ?_⟩
    rw [List.append_assoc, List.cons_append, ofFront_quoted hinner, ofFront_quoted hinner,
      List.append_nil]
  · rw [ofFront_open hclosed]
    by_cases hlater : '"' ∈ more
    · obtain ⟨inner, after, rfl, hinner⟩ := List.eq_append_cons_of_mem hlater
      have hwhole : '"' ∉ cs ++ inner := List.not_mem_append hclosed hinner
      rw [← List.append_assoc, ofFront_quoted hwhole]
      exact ⟨inner ++ ['"'], by simp⟩
    · rw [ofFront_open (List.not_mem_append hclosed hlater)]
      exact ⟨more, rfl⟩

/-- A longer text does not make the lexeme at its front shorter. -/
theorem text_prefix (c : Char) (cs more : List Char) :
    (ofFront c cs).text <+: (ofFront c (cs ++ more)).text := by
  by_cases hquote : c = '"'
  · subst hquote
    exact quoted_prefix cs more
  · unfold ofFront
    rw [if_neg hquote, if_neg hquote]
    split
    · exact List.prefix_cons_inj c |>.mpr (takeWhile_prefix_append cs more)
    · split
      · exact List.prefix_cons_inj c |>.mpr (takeWhile_prefix_append cs more)
      · cases cs with
        | nil =>
            -- A second character can only be added.
            split <;> split <;> simp_all
        | cons d cs =>
            rw [List.cons_append]
            split <;> split <;> simp_all

end Lexeme

namespace Word

variable {word other : Word} {c : Char} {cs after rest text : List Char}

/-- A lexeme is read whole if nothing follows it. -/
theorem IsLexeme.ofFront_alone (hlexeme : word.IsLexeme) (htext : word.literal.toList = c :: cs) :
    Lexeme.ofFront c cs = ⟨word.kind, c :: cs, []⟩ := by
  by_cases hclosed : word.kind = .string → IsClosedString word.literal
  · have hends : word.EndsBefore [] := nofun
    have hfront := IsComplete.ofFront ⟨hlexeme, hclosed⟩ hends htext
    rwa [List.append_nil] at hfront
  · obtain ⟨hkind, hopen⟩ := Classical.not_imp.mp hclosed
    have hstring : IsClosedString word.literal ∨ IsOpenString word.literal := by
      simpa [IsLexeme, hkind] using hlexeme
    obtain ⟨inner, hinner, hquote⟩ := hstring.resolve_left hopen
    obtain ⟨rfl, rfl⟩ := List.cons.inj (htext.symm.trans hinner)
    rw [Lexeme.ofFront_open hquote, hkind]

/-- A lexeme is known from its text: there is one kind that this text can be of. -/
theorem IsLexeme.eq_of_literal (hlexeme : word.IsLexeme) (hother : other.IsLexeme)
    (htext : word.literal = other.literal) : word = other := by
  obtain ⟨c, cs, hfront, -⟩ := hlexeme.front
  have hword := hlexeme.ofFront_alone hfront
  rw [hother.ofFront_alone (htext ▸ hfront)] at hword
  have hkind : other.kind = word.kind := congrArg Lexeme.kind hword
  obtain ⟨kind, literal⟩ := word
  obtain ⟨otherKind, otherLiteral⟩ := other
  obtain rfl : literal = otherLiteral := htext
  obtain rfl : otherKind = kind := hkind
  rfl

/-! ## The longest word -/

theorem Longest.text_ne_nil (hword : word.Longest text after) : text ≠ [] := by
  obtain ⟨c, cs, hfront, -⟩ := hword.admitted.lexeme.front
  rw [hword.text_eq, hfront]
  exact List.cons_ne_nil c (cs ++ after)

theorem Longest.unique (hword : word.Longest text after) (hother : other.Longest text rest) :
    word = other ∧ after = rest := by
  have hlength : word.literal.toList.length = other.literal.toList.length :=
    Nat.le_antisymm (hother.longest word after hword.admitted hword.text_eq)
      (hword.longest other rest hother.admitted hother.text_eq)
  obtain ⟨hliteral, hafter⟩ := List.append_inj (hword.text_eq.symm.trans hother.text_eq) hlength
  refine ⟨?_, hafter⟩
  apply hword.admitted.lexeme.eq_of_literal hother.admitted.lexeme
  exact String.toList_inj.mp hliteral

theorem ofFront_admitted (hfront : ¬ Trivia.Starts (c :: cs)) :
    (Lexeme.ofFront c cs).word.Admitted (Lexeme.ofFront c cs).rest := by
  have hblank : Trivia.isBlank c = false := Bool.eq_false_iff.mpr fun h => hfront (.inl h)
  have hlexeme := Lexeme.ofFront_isLexeme cs hblank
  refine ⟨hlexeme, fun hkind => ?_, fun hkind next hnext => ?_⟩
  · rw [Classical.or_iff_not_imp_left]
    exact Lexeme.rest_eq_nil_of_open hkind
  · have hspelled : Kind.slash.spelling? = some (Lexeme.ofFront c cs).word.literal := by
      simpa only [IsLexeme, hkind] using hlexeme
    have hslash : (Lexeme.ofFront c cs).text = ['/'] :=
      String.ofList_injective (Option.some.inj hspelled).symm
    have hparts := Lexeme.text_append_rest c cs
    rw [hslash, List.singleton_append] at hparts
    obtain ⟨rfl, hrest⟩ := List.cons.inj hparts
    rw [hrest] at hnext
    constructor
    · rintro rfl
      exact hfront (.inr ⟨rfl, '/', hnext, .inl rfl⟩)
    · rintro rfl
      exact hfront (.inr ⟨rfl, '*', hnext, .inr rfl⟩)

/-- The lexer takes the longest word where neither a blank nor a comment starts.  Nothing longer is
a lexeme there. -/
theorem ofFront_longest (hfront : ¬ Trivia.Starts (c :: cs)) :
    (Lexeme.ofFront c cs).word.Longest (c :: cs) (Lexeme.ofFront c cs).rest := by
  refine ⟨ofFront_admitted hfront, ?_, fun other rest hadmitted htext => ?_⟩
  · rw [Lexeme.word, String.toList_ofList, Lexeme.text_append_rest]
  · obtain ⟨d, ds, hother, -⟩ := hadmitted.lexeme.front
    have halone := hadmitted.lexeme.ofFront_alone hother
    rw [hother] at htext ⊢
    obtain ⟨rfl, rfl⟩ := List.cons.inj htext
    have hprefix := Lexeme.text_prefix c ds rest
    rw [halone] at hprefix
    rw [Lexeme.word, String.toList_ofList]
    exact hprefix.length_le

end Word

/-! ## The tokens of a text -/

namespace LexesTo

variable {offset : Nat} {gap text : List Char} {tokens others : List Token}

/-- What comes after a gap. -/
theorem after_gap (hlexes : LexesTo offset (gap ++ text) tokens) (hgap : Gap gap text) :
    text = [] ∧ tokens = [.atEnd (offset + byteLength gap)] ∨
      ∃ word after rest, Word.Longest word text after ∧
        LexesTo (word.placedAt (offset + byteLength gap)).span.stop after rest ∧
        tokens = word.placedAt (offset + byteLength gap) :: rest := by
  generalize hwhole : gap ++ text = whole at hlexes
  cases hlexes with
  | done hlast =>
      obtain ⟨rfl, rfl⟩ := hgap.unique hlast (hwhole.trans (List.append_nil _).symm)
      exact .inl ⟨rfl, rfl⟩
  | token hfirst hlongest hrest =>
      obtain ⟨rfl, rfl⟩ := hgap.unique hfirst hwhole
      exact .inr ⟨_, _, _, hlongest, hrest, rfl⟩

theorem unique (hlexes : LexesTo offset text tokens) (hother : LexesTo offset text others) :
    tokens = others := by
  -- The gap at the front is given by the text, and so is the longest word after it.
  induction hlexes generalizing others with
  | @done offset gap hgap =>
      rw [← List.append_nil gap] at hother
      rcases hother.after_gap hgap with ⟨-, rfl⟩ | ⟨word, after, rest, hlongest, -⟩
      · rfl
      · exact absurd rfl hlongest.text_ne_nil
  | token hgap hlongest hrest ih =>
      rcases hother.after_gap hgap with ⟨hend, -⟩ | ⟨word, after, rest, hfirst, hlater, rfl⟩
      · exact absurd hend hlongest.text_ne_nil
      · obtain ⟨rfl, rfl⟩ := hlongest.unique hfirst
        rw [ih hlater]

end LexesTo

/-- Every text is a gap and what comes after it. -/
theorem exists_gap (text : List Char) : ∃ gap after, text = gap ++ after ∧ Gap gap after :=
  ⟨_, _, (Trivia.split_append text).symm, Trivia.gap_split text⟩

/-- The lexer follows the rules.  By induction on the text that is left. -/
theorem Lexer.lexesTo (lexer : Lexer) :
    LexesTo lexer.offset lexer.rest (lexer.tokens ++ [.atEnd lexer.stop]) := by
  fun_induction tokens lexer with
  | case1 lexer hend =>
      obtain ⟨offset, rest⟩ := lexer
      obtain ⟨gap, _ | ⟨c, cs⟩, rfl, hgap⟩ := exists_gap rest
      · rw [List.append_nil]
        exact .done hgap
      · rw [next?_of_gap hgap] at hend
        cases hend
  | case2 lexer first after hnext ih =>
      have hstop := (span_of_next? hnext).2.2.2
      obtain ⟨offset, rest⟩ := lexer
      obtain ⟨gap, _ | ⟨c, cs⟩, rfl, hgap⟩ := exists_gap rest
      · rw [List.append_nil, next?_of_last_gap hgap] at hnext
        cases hnext
      · rw [next?_of_gap hgap] at hnext
        obtain ⟨rfl, rfl⟩ := Prod.mk.inj (Option.some.inj hnext)
        rw [hstop] at ih
        exact .token hgap (Word.ofFront_longest hgap.not_starts) ih

theorem lexesTo_lex (source : String) : LexesTo 0 source.toList (lex source) :=
  Lexer.lexesTo (Lexer.ofText source)

/-- The tokens of a text are those that the rules give, and the rules give no others. -/
theorem lexesTo_iff {source : String} {tokens : List Token} :
    LexesTo 0 source.toList tokens ↔ tokens = lex source := by
  constructor
  · exact fun hlexes => hlexes.unique (lexesTo_lex source)
  · rintro rfl
    exact lexesTo_lex source

/-- A lexeme that is all of a text is its only token. -/
theorem lex_literal {word : Word} (hlexeme : word.IsLexeme) :
    lex word.literal = [word.placedAt 0, .atEnd (word.placedAt 0).span.stop] := by
  have hadmitted : word.Admitted [] := ⟨hlexeme, fun _ => .inr rfl, nofun⟩
  have hstarts : ¬ Trivia.Starts (word.literal.toList ++ []) := hlexeme.not_starts nofun
  rw [List.append_nil] at hstarts
  have hlongest : word.Longest word.literal.toList [] := by
    refine ⟨hadmitted, (List.append_nil _).symm, fun other rest _ htext => ?_⟩
    rw [htext, List.length_append]
    exact Nat.le_add_right _ _
  symm
  rw [← lexesTo_iff]
  exact .token (.none hstarts) hlongest (.done (.none Trivia.not_starts_nil))

/-- The kind of the first token that a text is read as.  A literal tells its kind by this. -/
def Kind.ofLiteral (literal : String) : Kind := (lex literal).head?.elim .eof Token.kind

theorem Kind.ofLiteral_of_mem_lex {source : String} {token : Token} (hmember : token ∈ lex source) :
    token.kind = ofLiteral token.literal := by
  rcases List.mem_append.mp hmember with htoken | hlast
  · have halone := lex_literal (Lexer.isLexeme_of_mem_tokens htoken)
    rw [Token.word_literal] at halone
    rw [ofLiteral, halone]
    rfl
  · obtain rfl := List.mem_singleton.mp hlast
    have hempty : [Token.atEnd 0] = lex "" :=
      lexesTo_iff.mp (.done (.none Trivia.not_starts_nil))
    rw [Token.atEnd, ofLiteral, ← hempty]
    rfl

/-- The tokens of a text are the only ones that the rules of longest match give.  The kind of a
token is told by its literal, and the literal by itself is that token alone. -/
theorem lex_longestMatch :
    (∀ (source : String) (tokens : List Token),
        LexesTo 0 source.toList tokens ↔ tokens = lex source) ∧
      (∃ kindOf : String → Kind, ∀ source, ∀ token ∈ lex source,
        token.kind = kindOf token.literal) ∧
      ∀ source, ∀ token ∈ lex source, token.kind ≠ .eof →
        lex token.literal =
          [⟨token.kind, token.literal, ⟨0, byteLength token.literal.toList⟩⟩,
            .atEnd (byteLength token.literal.toList)] := by
  refine ⟨fun _ _ => lexesTo_iff, ⟨Kind.ofLiteral, fun _ _ => Kind.ofLiteral_of_mem_lex⟩, ?_⟩
  intro source token hmember hkind
  rcases List.mem_append.mp hmember with htoken | hlast
  · have halone := lex_literal (Lexer.isLexeme_of_mem_tokens htoken)
    simpa only [Word.placedAt, Token.word_literal, Token.word_kind, Nat.zero_add] using halone
  · obtain rfl := List.mem_singleton.mp hlast
    exact absurd rfl hkind

end Frontend
