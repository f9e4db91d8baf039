import Frontend.Proofs.Lexing.Gap
import Frontend.Proofs.Lexing.Word

/-!
# The tokens of a text

Three facts about all tokens that a lexer has left: each is a lexeme of its kind, their spans are
not empty and lie one after another, and a string without its closing quote is the last of them.
Each is a property of one step of the lexer that carries over to the rest.
-/

namespace Frontend

/-- What is left of a text after its trivia does not start with a blank. -/
theorem Trivia.isBlank_of_split {text : List Char} {c : Char} {cs : List Char}
    (hrest : (split text).2 = c :: cs) : isBlank c = false := by
  have hfront := (gap_split text).not_starts
  rw [hrest] at hfront
  exact Bool.eq_false_iff.mpr fun hblank => hfront (.inl hblank)

namespace Lexer

variable {lexer after : Lexer} {token : Token}

/-- What one step of a lexer is made of. -/
theorem next?_cases (hnext : lexer.next? = some (token, after)) :
    ∃ c cs, Trivia.isBlank c = false ∧
      lexer.rest = (Trivia.split lexer.rest).1 ++ (c :: cs) ∧
      token.word = (Lexeme.ofFront c cs).word ∧
      token.span.start = lexer.offset + byteLength (Trivia.split lexer.rest).1 ∧
      token.span.stop = token.span.start + byteLength (Lexeme.ofFront c cs).text ∧
      after = ⟨token.span.stop, (Lexeme.ofFront c cs).rest⟩ := by
  unfold next? at hnext
  split at hnext
  · simp at hnext
  · next c cs htext =>
      have hparts := Trivia.split_append lexer.rest
      rw [htext] at hparts
      obtain ⟨rfl, rfl⟩ := Prod.mk.inj (Option.some.inj hnext)
      exact ⟨c, cs, Trivia.isBlank_of_split htext, hparts.symm, rfl, rfl, rfl, rfl⟩

theorem isLexeme_of_next? (hnext : lexer.next? = some (token, after)) : token.word.IsLexeme := by
  obtain ⟨c, cs, hblank, -, hword, -⟩ := next?_cases hnext
  rw [hword]
  exact Lexeme.ofFront_isLexeme cs hblank

/-- One step reads on inside the text: the token starts behind the gap and stops where the lexer
goes on. -/
theorem span_of_next? (hnext : lexer.next? = some (token, after)) :
    lexer.offset ≤ token.span.start ∧ token.span.start < token.span.stop ∧
      after.offset = token.span.stop ∧ after.stop = lexer.stop := by
  obtain ⟨c, cs, -, hrest, -, hstart, hstop, rfl⟩ := next?_cases hnext
  have hsome : byteLength (Lexeme.ofFront c cs).text ≠ 0 := fun hzero =>
    Lexeme.text_ne_nil c cs (byteLength_eq_zero.mp hzero)
  have hlexeme := congrArg byteLength (Lexeme.text_append_rest c cs)
  have htotal := congrArg byteLength hrest
  rw [byteLength_append] at hlexeme htotal
  refine ⟨by omega, by omega, rfl, ?_⟩
  simp only [stop]
  omega

/-- A string that is not closed leaves nothing for another token. -/
theorem tokens_after_open (hnext : lexer.next? = some (token, after))
    (hkind : token.kind = .string) (hopen : ¬ IsClosedString token.literal) :
    after.tokens = [] := by
  obtain ⟨c, cs, -, -, hword, -, -, rfl⟩ := next?_cases hnext
  have hrest : (Lexeme.ofFront c cs).rest = [] := by
    refine Lexeme.rest_eq_nil_of_open ?_ ?_
    · rw [← hkind]
      exact (congrArg Word.kind hword).symm
    · rwa [← hword]
  rw [hrest, tokens]
  rfl

theorem isLexeme_of_mem_tokens (hmember : token ∈ lexer.tokens) : token.word.IsLexeme := by
  fun_induction tokens lexer with
  | case1 lexer hend => simp at hmember
  | case2 lexer first after hnext ih =>
      rcases List.mem_cons.mp hmember with rfl | hmember
      · exact isLexeme_of_next? hnext
      · exact ih hmember

/-- A token of the lexer is not the end token. -/
theorem kind_ne_eof_of_mem_tokens (hmember : token ∈ lexer.tokens) : token.kind ≠ .eof := by
  intro heof
  have hlexeme := isLexeme_of_mem_tokens hmember
  simp [Word.IsLexeme, heof] at hlexeme

theorem isClosedString_or_last (hmember : token ∈ lexer.tokens) (hkind : token.kind = .string) :
    IsClosedString token.literal ∨ lexer.tokens.getLast? = some token := by
  fun_induction tokens lexer with
  | case1 lexer hend => simp at hmember
  | case2 lexer first after hnext ih =>
      rcases List.mem_cons.mp hmember with rfl | hmember
      · by_cases hclosed : IsClosedString token.literal
        · exact .inl hclosed
        · rw [tokens_after_open hnext hkind hclosed]
          exact .inr rfl
      · refine (ih hmember).imp_right fun hlast => ?_
        rw [List.getLast?_cons, hlast]
        rfl

end Lexer

/-- Tokens in the order of a text: none is empty, and each one ends before the next one starts. -/
structure InOrder (tokens : List Token) : Prop where
  nonempty : ∀ token ∈ tokens, token.span.start < token.span.stop
  apart : tokens.Pairwise fun left right => left.span.stop ≤ right.span.start

namespace InOrder

theorem left {front back : List Token} (horder : InOrder (front ++ back)) : InOrder front :=
  ⟨fun token hmember => horder.nonempty token (List.mem_append_left back hmember),
    (List.pairwise_append.mp horder.apart).1⟩

theorem right {front back : List Token} (horder : InOrder (front ++ back)) : InOrder back :=
  ⟨fun token hmember => horder.nonempty token (List.mem_append_right front hmember),
    (List.pairwise_append.mp horder.apart).2.1⟩

theorem stop_le_start {front back : List Token} (horder : InOrder (front ++ back))
    {first second : Token} (hfirst : first ∈ front) (hsecond : second ∈ back) :
    first.span.stop ≤ second.span.start :=
  (List.pairwise_append.mp horder.apart).2.2 first hfirst second hsecond

theorem cons_iff {token : Token} {tokens : List Token} :
    InOrder (token :: tokens) ↔
      token.span.start < token.span.stop ∧
        (∀ later ∈ tokens, token.span.stop ≤ later.span.start) ∧ InOrder tokens := by
  constructor
  · rintro ⟨hnonempty, hapart⟩
    obtain ⟨hlater, hrest⟩ := List.pairwise_cons.mp hapart
    obtain ⟨htoken, hrestNonempty⟩ := List.forall_mem_cons.mp hnonempty
    exact ⟨htoken, hlater, hrestNonempty, hrest⟩
  · rintro ⟨htoken, hlater, hrest⟩
    exact ⟨List.forall_mem_cons.mpr ⟨htoken, hrest.nonempty⟩,
      List.pairwise_cons.mpr ⟨hlater, hrest.apart⟩⟩

end InOrder

namespace Lexer

theorem stop_ofText (text : String) : (ofText text).stop = byteLength text.toList :=
  Nat.zero_add _

theorem tokens_within (lexer : Lexer) :
    ∀ token ∈ lexer.tokens, lexer.offset ≤ token.span.start ∧ token.span.stop ≤ lexer.stop := by
  fun_induction tokens lexer with
  | case1 lexer hend => simp
  | case2 lexer first after hnext ih =>
      obtain ⟨hstart, hlength, hoffset, hstop⟩ := span_of_next? hnext
      have hwithin : after.offset ≤ after.stop := Nat.le_add_right _ _
      intro token hmember
      rcases List.mem_cons.mp hmember with rfl | hmember
      · omega
      · have hlater := ih token hmember
        omega

/-- The spans of the tokens of a text follow one another.  Whatever is read from them in order is in
the order of the text. -/
theorem tokens_inOrder (lexer : Lexer) : InOrder lexer.tokens := by
  fun_induction tokens lexer with
  | case1 lexer hend => exact ⟨by simp, .nil⟩
  | case2 lexer first after hnext ih =>
      obtain ⟨-, hlength, hoffset, -⟩ := span_of_next? hnext
      refine InOrder.cons_iff.mpr ⟨hlength, fun later hlater => ?_, ih⟩
      have hwithin := (tokens_within after later hlater).1
      omega

end Lexer

/-- Tokens as a lexer gives them: lexemes in the order of their text, of which only `last` may be a
string that is not closed.  Parts of such a list are of the same form. -/
structure Lexed (last : Option Token) (tokens : List Token) : Prop where
  lexemes : ∀ token ∈ tokens, token.word.IsLexeme
  order : InOrder tokens
  closed : ∀ token ∈ tokens, token.kind = .string →
    IsClosedString token.literal ∨ last = some token

theorem Lexer.tokens_lexed (lexer : Lexer) : Lexed lexer.tokens.getLast? lexer.tokens :=
  ⟨fun _ hmember => isLexeme_of_mem_tokens hmember, tokens_inOrder lexer,
    fun _ hmember hkind => isClosedString_or_last hmember hkind⟩

namespace Lexed

variable {last : Option Token} {token : Token} {tokens front back : List Token}

theorem head (hlexed : Lexed last (token :: tokens)) : token.word.IsLexeme :=
  hlexed.lexemes token List.mem_cons_self

theorem tail (hlexed : Lexed last (token :: tokens)) : Lexed last tokens :=
  ⟨(List.forall_mem_cons.mp hlexed.lexemes).2, (InOrder.cons_iff.mp hlexed.order).2.2,
    (List.forall_mem_cons.mp hlexed.closed).2⟩

theorem left (hlexed : Lexed last (front ++ back)) : Lexed last front :=
  ⟨(List.forall_mem_append.mp hlexed.lexemes).1, hlexed.order.left,
    (List.forall_mem_append.mp hlexed.closed).1⟩

theorem right (hlexed : Lexed last (front ++ back)) : Lexed last back :=
  ⟨(List.forall_mem_append.mp hlexed.lexemes).2, hlexed.order.right,
    (List.forall_mem_append.mp hlexed.closed).2⟩

end Lexed

/-- The tokens of a text without the one that closes them. -/
theorem lex_dropLast (text : String) : (lex text).dropLast = (Lexer.ofText text).tokens :=
  List.dropLast_concat

end Frontend
