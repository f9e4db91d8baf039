import Frontend.Proofs.Lexing.LongestMatch

/-!
# Nothing is lost

A text is its gaps and the literals of its tokens in turn.  The spans of the tokens tell where each
literal lies, so what they leave uncovered is the gaps: blanks and comments and nothing else.
-/

namespace Frontend

/-- Gaps and literals in turn, the text that they make up again if there is a gap for each. -/
def weave : List (List Char) → List Token → List Char
  | gap :: gaps, token :: tokens => gap ++ (token.literal.toList ++ weave gaps tokens)
  | _, _ => []

/-- Each token has one gap before it, counted from an offset or from the token before, and the span
of the token is that of its literal right after the gap. -/
def Fills : Nat → List (List Char) → List Token → Prop
  | _, [], [] => True
  | offset, gap :: gaps, token :: tokens =>
      Gap gap (token.literal.toList ++ weave gaps tokens) ∧
        token.span =
          ⟨offset + byteLength gap, offset + byteLength gap + byteLength token.literal.toList⟩ ∧
        Fills token.span.stop gaps tokens
  | _, _, _ => False

theorem LexesTo.fills {offset : Nat} {text : List Char} {tokens : List Token}
    (hlexes : LexesTo offset text tokens) :
    ∃ gaps, text = weave gaps tokens ∧ Fills offset gaps tokens := by
  induction hlexes with
  | @done offset gap hgap =>
      exact ⟨[gap], (List.append_nil gap).symm, hgap, rfl, trivial⟩
  | @token offset gap text word after tokens hgap hlongest _ ih =>
      obtain ⟨gaps, hafter, hfills⟩ := ih
      have htext := hlongest.text_eq
      rw [hafter] at htext
      rw [htext] at hgap ⊢
      exact ⟨gap :: gaps, rfl, hgap, rfl, hfills⟩

/-- The span of each token slices its literal out of the text. -/
theorem Fills.slice? {gaps : List (List Char)} {tokens : List Token} (front : List Char)
    (hfills : Fills (byteLength front) gaps tokens) :
    ∀ token ∈ tokens,
      token.span.slice? (front ++ weave gaps tokens) = some token.literal.toList := by
  -- `front` is the text up to the offset and takes in a gap and a literal at each token.
  induction tokens generalizing gaps front with
  | nil => nofun
  | cons first tokens ih =>
      cases gaps with
      | nil => exact absurd hfills id
      | cons gap gaps =>
          obtain ⟨-, hspan, hrest⟩ := hfills
          have hfirst := Span.slice?_append (front ++ gap) first.literal.toList
            (weave gaps tokens)
          have hstop : first.span.stop = byteLength (front ++ gap ++ first.literal.toList) := by
            simp only [hspan, byteLength_append]
          rw [hstop] at hrest
          have hlater := ih (front ++ gap ++ first.literal.toList) hrest
          simp only [List.append_assoc, byteLength_append] at hfirst hlater
          rw [weave]
          intro token hmember
          rcases List.mem_cons.mp hmember with rfl | hmember
          · rw [hspan]
            exact hfirst
          · exact hlater token hmember

theorem slice?_of_mem_lex {source : String} {token : Token} (hmember : token ∈ lex source) :
    token.span.slice? source.toList = some token.literal.toList := by
  obtain ⟨gaps, htext, hfills⟩ := (lexesTo_lex source).fills
  have hslice := Fills.slice? [] hfills token hmember
  rwa [List.nil_append, ← htext] at hslice

/-- Each token starts and ends before the next one, the end token included. -/
theorem lex_pairwise (source : String) :
    (lex source).Pairwise fun left right =>
      left.span.start < right.span.start ∧ left.span.stop ≤ right.span.start := by
  have horder := Lexer.tokens_inOrder (Lexer.ofText source)
  refine List.pairwise_append.mpr ⟨?_, List.pairwise_singleton _ _, ?_⟩
  · refine horder.apart.imp_of_mem fun hleft _ hapart => ⟨?_, hapart⟩
    exact Nat.lt_of_lt_of_le (horder.nonempty _ hleft) hapart
  · intro token hmember last hlast
    obtain rfl := List.mem_singleton.mp hlast
    have hlength := horder.nonempty token hmember
    have hwithin := (Lexer.tokens_within _ token hmember).2
    exact ⟨Nat.lt_of_lt_of_le hlength hwithin, hwithin⟩

/-- The tokens of a text are closed by one end token behind the text.  Each of the others is a
stretch of the text that its span slices out, and with the gaps between them they are the text. -/
theorem lex_lossless (source : String) :
    ∃ tokens, lex source = tokens ++ [.atEnd (byteLength source.toList)] ∧
      (∀ token ∈ tokens, token.kind ≠ .eof ∧ token.span.start < token.span.stop ∧
        token.span.slice? source.toList = some token.literal.toList) ∧
      ((lex source).Pairwise fun left right =>
        left.span.start < right.span.start ∧ left.span.stop ≤ right.span.start) ∧
      ∃ gaps, Fills 0 gaps (lex source) ∧ source.toList = weave gaps (lex source) := by
  have hlex : lex source = (Lexer.ofText source).tokens ++ [.atEnd (byteLength source.toList)] := by
    rw [← Lexer.stop_ofText]
    rfl
  obtain ⟨gaps, htext, hfills⟩ := (lexesTo_lex source).fills
  refine ⟨(Lexer.ofText source).tokens, hlex, fun token hmember => ⟨?_, ?_, ?_⟩,
    lex_pairwise source, gaps, hfills, htext⟩
  · exact Lexer.kind_ne_eof_of_mem_tokens hmember
  · exact (Lexer.tokens_inOrder _).nonempty token hmember
  · refine slice?_of_mem_lex ?_
    rw [hlex]
    exact List.mem_append_left _ hmember

end Frontend
