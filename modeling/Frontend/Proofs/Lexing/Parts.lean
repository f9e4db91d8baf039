import Frontend.Proofs.Lexing.LongestMatch
import Frontend.Proofs.Tree.Moved

/-!
# The parts of a text

A text is read token by token, and no token depends on what was read before it or on where it
stands.  So the tokens from some place on are those of the text from there, and the tokens up to
some place are those of the text up to there; a text that ends in a token which nothing can join
is read in front of any other as it is read alone.
-/

namespace Frontend

/-- The first character after a gap is all that the gap depends on, unless it opens a comment.  So a
gap can be cut out with what follows it. -/
theorem Gap.of_cons {gap cs other : List Char} {c : Char} (hgap : Gap gap (c :: cs))
    (hstarts : ¬ Trivia.Starts (c :: other)) : Gap gap (c :: other) := by
  generalize hafter : c :: cs = after at hgap
  induction hgap with
  | none _ => exact .none hstarts
  | blank hblank _ ih => exact .blank hblank (ih hafter)
  | @lineComment text gap after htext hend _ ih =>
      refine .lineComment htext ?_ (ih hafter)
      subst hafter
      cases gap with
      | nil => exact hend
      | cons _ _ => exact hend
  | blockComment htext _ ih => exact .blockComment htext (ih hafter)
  | openComment => cases hafter

/-! ## A word in front of a text -/

/-- Words of letters are joined by letters, keywords as well as names. -/
theorem Kind.joins_ofWord (word : String) : (ofWord word).joins = Lexeme.isLetter := by
  by_cases hword : word ∈ keywords.map Prod.fst
  · simp only [keywords, List.map_cons, List.map_nil, List.mem_cons, List.not_mem_nil,
      or_false] at hword
    rcases hword with rfl | rfl | rfl | rfl | rfl | rfl | rfl | rfl <;> rfl
  · rw [ofWord_eq_ident hword]
    rfl

/-- Few characters are joined by another one. -/
theorem Kind.joins_ofSymbol {c next : Char} (hjoins : (ofSymbol c).joins next = true) :
    (c = '=' ∨ c = '!') ∧ next = '=' ∨ c = '/' ∧ (next = '/' ∨ next = '*') := by
  unfold ofSymbol at hjoins
  split at hjoins <;> simp_all [joins]

/-- The word is read off a text that goes on like this: nothing after it joins it, and a string is
closed or the last thing there is. -/
structure Word.ReadBefore (word : Word) (after : List Char) : Prop where
  ends : word.EndsBefore after
  closed : word.kind = .string → IsClosedString word.literal ∨ after = []

namespace Word

variable {word : Word} {c : Char} {cs after other : List Char}

namespace ReadBefore

theorem nil : word.ReadBefore [] := ⟨nofun, fun _ => .inr rfl⟩

/-- Only the first character of what follows matters. -/
theorem of_cons (hread : word.ReadBefore (c :: cs)) : word.ReadBefore (c :: other) :=
  ⟨hread.ends, fun hkind => .inl ((hread.closed hkind).resolve_right (List.cons_ne_nil c cs))⟩

/-- Nothing joins a semicolon or a closing brace. -/
theorem of_closer (hcloser : word.kind = .semicolon ∨ word.kind = .rBrace) :
    word.ReadBefore after := by
  constructor
  · intro _ _
    rcases hcloser with hkind | hkind <;> rw [hkind] <;> rfl
  · intro hstring
    rcases hcloser with hkind | hkind <;> rw [hkind] at hstring <;> cases hstring

end ReadBefore

/-- What is taken off a text is over where the rest goes on. -/
theorem ofFront_endsBefore (hfront : ¬ Trivia.Starts (c :: cs)) :
    (Lexeme.ofFront c cs).word.EndsBefore (Lexeme.ofFront c cs).rest := by
  unfold Lexeme.ofFront
  split
  · unfold Lexeme.quoted
    split <;> exact fun _ _ => rfl
  · split
    · intro next hnext
      have hrest := List.head?_dropWhile_not Lexeme.isLetter cs
      rw [hnext] at hrest
      simpa only [Lexeme.word, Kind.joins_ofWord] using hrest
    · split
      · intro next hnext
        have hrest := List.head?_dropWhile_not Lexeme.isDigit cs
        rw [hnext] at hrest
        simpa only [Lexeme.word, Kind.joins] using hrest
      · split
        · exact fun _ _ => rfl
        · exact fun _ _ => rfl
        · next hequal hunequal =>
            intro next hnext
            obtain ⟨rest, rfl⟩ := List.head?_eq_some_iff.mp hnext
            refine Bool.eq_false_iff.mpr fun hjoins => ?_
            rcases Kind.joins_ofSymbol hjoins with ⟨rfl | rfl, rfl⟩ | ⟨rfl, hcomment⟩
            · exact hequal rest rfl rfl
            · exact hunequal rest rfl rfl
            · exact hfront (.inr ⟨rfl, next, rfl, hcomment⟩)

theorem ofFront_readBefore (hfront : ¬ Trivia.Starts (c :: cs)) :
    (Lexeme.ofFront c cs).word.ReadBefore (Lexeme.ofFront c cs).rest :=
  ⟨ofFront_endsBefore hfront, (ofFront_admitted hfront).closed⟩

/-- A lexeme is read off the front of any text that it is read before. -/
theorem IsLexeme.ofFront (hlexeme : word.IsLexeme) (hread : word.ReadBefore after)
    (htext : word.literal.toList = c :: cs) :
    Lexeme.ofFront c (cs ++ after) = ⟨word.kind, c :: cs, after⟩ := by
  by_cases hclosed : word.kind = .string → IsClosedString word.literal
  · exact IsComplete.ofFront ⟨hlexeme, hclosed⟩ hread.ends htext
  · obtain ⟨hkind, hopen⟩ := Classical.not_imp.mp hclosed
    obtain rfl := (hread.closed hkind).resolve_left hopen
    rw [List.append_nil]
    exact hlexeme.ofFront_alone htext

theorem IsLexeme.not_starts_before (hlexeme : word.IsLexeme) (hread : word.ReadBefore after) :
    ¬ Trivia.Starts (word.literal.toList ++ after) := by
  refine hlexeme.not_starts fun hkind next hnext => ?_
  have hjoins := hread.ends next hnext
  rw [hkind] at hjoins
  simpa [Kind.joins] using hjoins

end Word

namespace Lexer

variable {lexer after : Lexer} {token : Token}

/-! ## One step -/

/-- A step takes a part off the front of the text, and takes the same part off any other text that
goes on in such a way that the word is over there. -/
theorem next?_front (hnext : lexer.next? = some (token, after)) :
    ∃ front, lexer.rest = front ++ after.rest ∧
      lexer.offset + byteLength front = token.span.stop ∧
      token.word.ReadBefore after.rest ∧
      ∀ rest, token.word.ReadBefore rest →
        (⟨lexer.offset, front ++ rest⟩ : Lexer).next? = some (token, ⟨token.span.stop, rest⟩) := by
  obtain ⟨offset, text⟩ := lexer
  obtain ⟨gap, _ | ⟨c, cs⟩, rfl, hgap⟩ := exists_gap text
  · rw [List.append_nil, next?_of_last_gap hgap] at hnext
    cases hnext
  · rw [next?_of_gap hgap] at hnext
    obtain ⟨rfl, rfl⟩ := Prod.mk.inj (Option.some.inj hnext)
    have hlexeme : (Lexeme.ofFront c cs).word.IsLexeme :=
      Lexeme.ofFront_isLexeme cs (Bool.eq_false_iff.mpr fun h => hgap.not_starts (.inl h))
    refine ⟨gap ++ (Lexeme.ofFront c cs).text, ?_, ?_, Word.ofFront_readBefore hgap.not_starts, ?_⟩
    · rw [List.append_assoc, Lexeme.text_append_rest]
    · rw [byteLength_append, ← Nat.add_assoc, Word.placedAt, Lexeme.word, String.toList_ofList]
    · intro rest hread
      obtain ⟨d, ds, htext⟩ := List.exists_cons_of_ne_nil (Lexeme.text_ne_nil c cs)
      have hliteral : (Lexeme.ofFront c cs).word.literal.toList = d :: ds := by
        rw [Lexeme.word, String.toList_ofList, htext]
      have hparts := Lexeme.text_append_rest c cs
      rw [htext] at hparts
      obtain rfl : d = c := (List.cons.inj hparts).1
      have hstarts := hlexeme.not_starts_before hread
      rw [hliteral] at hstarts
      have hgap' : Gap gap (d :: (ds ++ rest)) := hgap.of_cons hstarts
      have hread' := hlexeme.ofFront hread hliteral
      rw [htext, List.append_assoc, List.cons_append, next?_of_gap hgap', hread', ← hliteral]
      simp only [Lexeme.word, String.ofList_toList]

theorem next?_moved (lexer : Lexer) (shift : Nat) :
    (⟨lexer.offset + shift, lexer.rest⟩ : Lexer).next? =
      lexer.next?.map fun (token, after) =>
        (token.moved (· + shift), ⟨after.offset + shift, after.rest⟩) := by
  obtain ⟨offset, text⟩ := lexer
  obtain ⟨gap, _ | ⟨c, cs⟩, rfl, hgap⟩ := exists_gap text
  · rw [List.append_nil, next?_of_last_gap hgap, next?_of_last_gap hgap, Option.map_none]
  · rw [next?_of_gap hgap, next?_of_gap hgap, Option.map_some]
    simp only [Word.placedAt, Token.moved, Span.moved, Nat.add_right_comm _ shift]

/-- A step needs nothing of what stands before its token. -/
theorem next?_from_start (hnext : lexer.next? = some (token, after)) :
    ∃ gap text, lexer.rest = gap ++ text ∧ lexer.offset + byteLength gap = token.span.start ∧
      (⟨token.span.start, text⟩ : Lexer).next? = some (token, after) := by
  obtain ⟨offset, text⟩ := lexer
  obtain ⟨gap, _ | ⟨c, cs⟩, rfl, hgap⟩ := exists_gap text
  · rw [List.append_nil, next?_of_last_gap hgap] at hnext
    cases hnext
  · rw [next?_of_gap hgap] at hnext
    obtain ⟨rfl, rfl⟩ := Prod.mk.inj (Option.some.inj hnext)
    exact ⟨gap, c :: cs, rfl, rfl, next?_of_gap (.none hgap.not_starts) _⟩

/-! ## All tokens -/

theorem tokens_of_rest_eq_nil (hrest : lexer.rest = []) : lexer.tokens = [] := by
  obtain ⟨offset, rest⟩ := lexer
  subst hrest
  exact tokens_of_next?_eq_none (next?_of_last_gap (.none Trivia.not_starts_nil) offset)

theorem next?_of_tokens {later : List Token} (htokens : lexer.tokens = token :: later) :
    ∃ after, lexer.next? = some (token, after) ∧ after.tokens = later := by
  cases hnext : lexer.next? with
  | none =>
      rw [tokens_of_next?_eq_none hnext] at htokens
      cases htokens
  | some step =>
      obtain ⟨first, after⟩ := step
      rw [tokens_of_next? hnext] at htokens
      obtain ⟨rfl, rfl⟩ := List.cons.inj htokens
      exact ⟨after, rfl, rfl⟩

/-- The tokens of a text that stands further on: the same words, with each span moved. -/
theorem tokens_moved (lexer : Lexer) (shift : Nat) :
    (⟨lexer.offset + shift, lexer.rest⟩ : Lexer).tokens =
      lexer.tokens.map (Token.moved (· + shift)) := by
  fun_induction tokens lexer with
  | case1 lexer hend =>
      have hmoved := next?_moved lexer shift
      rw [hend] at hmoved
      exact tokens_of_next?_eq_none hmoved
  | case2 lexer first after hnext ih =>
      have hmoved := next?_moved lexer shift
      rw [hnext] at hmoved
      rw [tokens_of_next? hmoved, ih, List.map_cons]

/-- The tokens from one of them on are those of the text from there on. -/
theorem tokens_from {before later : List Token}
    (htokens : lexer.tokens = before ++ token :: later) :
    ∃ front text, lexer.rest = front ++ text ∧
      lexer.offset + byteLength front = token.span.start ∧
      (⟨token.span.start, text⟩ : Lexer).tokens = token :: later := by
  induction before generalizing lexer with
  | nil =>
      obtain ⟨after, hnext, rfl⟩ := next?_of_tokens htokens
      obtain ⟨gap, text, hrest, hstart, hagain⟩ := next?_from_start hnext
      exact ⟨gap, text, hrest, hstart, tokens_of_next? hagain⟩
  | cons first before ih =>
      obtain ⟨after, hnext, hlater⟩ := next?_of_tokens htokens
      obtain ⟨passed, hrest, hstop, -⟩ := next?_front hnext
      obtain ⟨front, text, htext, hstart, hagain⟩ := ih hlater
      refine ⟨passed ++ front, text, ?_, ?_, hagain⟩
      · rw [hrest, htext, List.append_assoc]
      · rw [byteLength_append, ← Nat.add_assoc, hstop, ← (span_of_next? hnext).2.2.1, hstart]

/-- The tokens up to one of them are those of the text up to the end of that one. -/
theorem tokens_upTo {front later : List Token} (htokens : lexer.tokens = front ++ later)
    {last : Token} (hlast : front.getLast? = some last) :
    ∃ text more, lexer.rest = text ++ more ∧ lexer.offset + byteLength text = last.span.stop ∧
      (⟨lexer.offset, text⟩ : Lexer).tokens = front := by
  induction front generalizing lexer with
  | nil => cases hlast
  | cons first front ih =>
      obtain ⟨after, hnext, hlater⟩ := next?_of_tokens htokens
      obtain ⟨passed, hrest, hstop, hread, hagain⟩ := next?_front hnext
      cases front with
      | nil =>
          obtain rfl := Option.some.inj hlast
          refine ⟨passed, after.rest, hrest, hstop, ?_⟩
          have halone := hagain [] .nil
          rw [List.append_nil] at halone
          rw [tokens_of_next? halone, tokens_of_rest_eq_nil rfl]
      | cons second front =>
          rw [List.getLast?_cons_cons] at hlast
          obtain ⟨text, more, htext, hend, hfront⟩ := ih hlater hlast
          have hoffset := (span_of_next? hnext).2.2.1
          obtain _ | ⟨c, cs⟩ := text
          · rw [tokens_of_rest_eq_nil rfl] at hfront
            cases hfront
          · rw [htext] at hread
            refine ⟨passed ++ c :: cs, more, ?_, ?_, ?_⟩
            · rw [hrest, htext, List.append_assoc]
            · rw [byteLength_append, ← Nat.add_assoc, hstop, ← hoffset, hend]
            · rw [hoffset] at hfront
              rw [tokens_of_next? (hagain _ hread.of_cons), hfront]

/-- Behind a last token that nothing can join, another text is read as it is read alone.  An open
comment or string would take it in. -/
theorem tokens_append (lexer : Lexer) (more : List Char)
    (hclosed : ∀ last ∈ lexer.tokens.getLast?, last.kind = .semicolon ∨ last.kind = .rBrace)
    (hstop : lexer.tokens.getLast?.elim lexer.offset (·.span.stop) = lexer.stop) :
    (⟨lexer.offset, lexer.rest ++ more⟩ : Lexer).tokens =
      lexer.tokens ++ (⟨lexer.stop, more⟩ : Lexer).tokens := by
  fun_induction tokens lexer with
  | case1 lexer hend =>
      have hempty : lexer.rest = [] := by
        rw [stop] at hstop
        exact byteLength_eq_zero.mp (Nat.left_eq_add.mp hstop)
      rw [hempty, List.nil_append, ← hstop]
      rfl
  | case2 lexer first after hnext ih =>
      obtain ⟨passed, hrest, -, hread, hagain⟩ := next?_front hnext
      obtain ⟨-, -, hoffset, hend⟩ := span_of_next? hnext
      have hread : first.word.ReadBefore (after.rest ++ more) := by
        cases hafter : after.rest with
        | nil =>
            rw [tokens_of_rest_eq_nil hafter] at hclosed
            exact .of_closer (hclosed first rfl)
        | cons c cs =>
            rw [hafter] at hread
            exact hread.of_cons
      have hlater := ih ?_ ?_
      · rw [hrest, List.append_assoc, tokens_of_next? (hagain _ hread), ← hoffset, hlater, hend,
          List.cons_append]
      · intro last hlast
        refine hclosed last ?_
        rw [List.getLast?_cons, hlast]
        rfl
      · rw [hend, ← hstop, hoffset, List.getLast?_cons]
        cases after.tokens.getLast? <;> rfl

/-! ## Skipping -/

theorem stop_skip (lexer : Lexer) (count : Nat) : (lexer.skip count).stop = lexer.stop := by
  induction count generalizing lexer with
  | zero => rfl
  | succ count ih =>
      rw [skip, ih, next]
      cases hnext : lexer.next? with
      | none => rfl
      | some step => exact (span_of_next? hnext).2.2.2

/-- A lexer after a number of tokens has the others left. -/
theorem tokens_skip (lexer : Lexer) (count : Nat) :
    (lexer.skip count).tokens = lexer.tokens.drop count := by
  induction count generalizing lexer with
  | zero => rfl
  | succ count ih =>
      rw [skip, ih, next]
      cases hnext : lexer.next? with
      | none =>
          rw [tokens_of_next?_eq_none hnext, List.drop_nil, Option.getD_none,
            tokens_of_rest_eq_nil rfl, List.drop_nil]
      | some step => rw [tokens_of_next? hnext, List.drop_succ_cons, Option.getD_some]

end Lexer

end Frontend
