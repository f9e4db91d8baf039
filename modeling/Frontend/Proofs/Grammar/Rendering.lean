import Frontend.Proofs.Grammar.Image
import Frontend.Proofs.Tree.OpenEnd

/-!
# Trees are told by their canonical texts

Whatever two texts are read, and with whatever diagnostics, the programs read from them have the
same canonical text only if they are equal up to spans.  A string that is not closed is the last
token of its text.  What is read from tokens up to such a string is an operand at the end of
operators, or an expression statement that is not closed either; everything else is read up to
another token.
-/

namespace Frontend.Grammar

/-- The tokens end with the last one, before which every string is closed.  Only the last token of a
text can be a string without its quote. -/
structure EndAt (last : Token) (tokens : List Token) : Prop where
  last : tokens.getLast? = some last
  closed : Lexed none tokens.dropLast

namespace EndAt

variable {last closer : Token} {front back tokens : List Token}

theorem closer_eq (hends : EndAt last (front ++ [closer])) : closer = last := by
  have hlast := hends.last
  rw [List.getLast?_concat] at hlast
  exact Option.some.inj hlast

theorem right (hends : EndAt last (front ++ back)) (hback : back ≠ []) : EndAt last back := by
  refine ⟨?_, ?_⟩
  · rw [← hends.last, List.getLast?_append_of_ne_nil _ hback]
  · have hclosed := hends.closed
    rw [List.dropLast_append_of_ne_nil hback] at hclosed
    exact hclosed.right

theorem left (hends : EndAt last (front ++ back)) (hback : back ≠ []) : Lexed none front := by
  have hclosed := hends.closed
  rw [List.dropLast_append_of_ne_nil hback] at hclosed
  exact hclosed.left

end EndAt

/-- What is read from tokens that end with a string.  If the string is open, nothing can be closed
after it, so it is at the end of every part around it. -/
def Part.EndsWith (text : String) : Part → Prop
  | .operand _ _ value | .expression _ _ value => value.EndsWith text
  | .block _ _ => False
  | .statement _ read => ∃ value span, read = .expression value span ∧ value.EndsWith text
  | .statements _ row => IsOpenString text → ClosedBeforeEnd row
  | _ => True

end Frontend.Grammar

namespace Frontend

/-- A well-formed statement may be put in front of others. -/
theorem ClosedBeforeEnd.cons {first : Statement} {statements : List Statement}
    (hfirst : first.WellFormed none) (hrest : ClosedBeforeEnd statements) :
    ClosedBeforeEnd (first :: statements) := by
  cases hrest with
  | closed hformed => exact .closed ⟨hfirst, hformed⟩
  | opened hfront hends hopen => exact @opened (first :: _) _ _ _ ⟨hfirst, hfront⟩ hends hopen

namespace Grammar

namespace Derives

theorem block_ne_nil {levels body tokens next diagnostics}
    (hderives : Derives (.block levels body) tokens next diagnostics) : tokens ≠ [] := by
  cases hderives
  exact List.append_ne_nil_of_right_ne_nil _ (List.cons_ne_nil _ _)

/-- Nothing is read from no tokens. -/
theorem statements_of_nil {levels statements next diagnostics}
    (hderives : Derives (.statements levels statements) [] next diagnostics) : statements = [] := by
  generalize htokens : ([] : List Token) = tokens at hderives
  cases hderives with
  | noStatements => rfl
  | read hfirst _ =>
      exact absurd (List.append_eq_nil_iff.mp htokens.symm).1 hfirst.statement_span.1
  | skipped hlost _ =>
      obtain ⟨_, _, rfl, -⟩ := hlost
      simp at htokens

/-- What is read from tokens that end with a string is what may end with one.  By induction on the
derivation, as the last token is in the last part. -/
theorem endsWith {part : Part} {tokens : List Token} {next last : Token}
    {diagnostics : List Diagnostic} (hderives : Derives part tokens next diagnostics)
    (hstring : last.kind = .string) (hends : EndAt last tokens) : part.EndsWith last.literal := by
  have hcloser {front : List Token} {closer : Token} (hends : EndAt last (front ++ [closer])) :
      closer.kind = .string := hends.closer_eq ▸ hstring
  induction hderives with
  | @name _ _ token _ hkind => cases hkind.symm.trans (@hcloser [] token hends)
  | @integer _ _ token _ hkind _ => cases hkind.symm.trans (@hcloser [] token hends)
  | @string _ _ token _ hkind =>
      obtain rfl := @EndAt.closer_eq _ token [] hends
      exact .string
  | @boolean _ _ value token _ hkind =>
      rw [@hcloser [] token hends] at hkind
      cases value <;> cases hkind
  | @unary _ _ operator _ sign tokens _ _ hsign hinner ih =>
      exact .unary (ih (@EndAt.right _ [sign] tokens hends hinner.expression_span.1))
  | array _ _ hkind _ => cases hkind.symm.trans (hcloser hends)
  | object _ _ hkind _ => cases hkind.symm.trans (hcloser hends)
  | @conditional _ _ _ _ keyword opener tokens closer body _ _ _ _ _ _ _ hbody _ ihbody =>
      have hback := hends.right (List.cons_ne_nil closer body)
      exact (ihbody (@EndAt.right _ [closer] _ hback hbody.block_ne_nil)).elim
  | @alternative _ _ _ _ _ _ _ _ _ _ separator other _ _ _ _ _ _ _ _ _ _ hother _ _ ihother =>
      have hback := hends.right (List.cons_ne_nil separator other)
      exact (ihother (@EndAt.right _ [separator] _ hback hother.block_ne_nil)).elim
  | @function _ _ _ _ _ _ _ closer body _ _ _ _ _ _ hbody _ ihbody =>
      have hback := hends.right (List.cons_ne_nil closer body)
      exact (ihbody (@EndAt.right _ [closer] _ hback hbody.block_ne_nil)).elim
  | call _ _ _ _ hkind _ _ => cases hkind.symm.trans (hcloser hends)
  | @binary _ _ _ _ _ _ sign tokens _ _ _ hleft _ _ hright _ ihright =>
      have hback := hends.right (List.cons_ne_nil sign tokens)
      have hformed := (hleft.inImage (hends.left (List.cons_ne_nil sign tokens))).wellFormed
      exact .binary hformed (ihright (@EndAt.right _ [sign] _ hback hright.expression_span.1))
  | expression _ _ ih => exact ih hends
  | block _ _ hkind _ => cases hkind.symm.trans (hcloser hends)
  | @letWithoutValue _ keyword name _ _ _ _ hkind =>
      cases hkind.symm.trans (@hcloser [keyword, name] _ hends)
  | binding _ _ _ _ hkind _ => cases hkind.symm.trans (hcloser hends)
  | @namedFunction _ _ _ _ _ _ _ closer body _ _ _ _ _ _ _ hbody _ ihbody =>
      have hback := hends.right (List.cons_ne_nil closer body)
      exact (ihbody (@EndAt.right _ [closer] _ hback hbody.block_ne_nil)).elim
  | returned _ _ hkind _ => cases hkind.symm.trans (hcloser hends)
  | closed _ _ hkind _ => cases hkind.symm.trans (hcloser hends)
  | unclosed _ _ _ ih => exact ⟨_, _, rfl, ih hends⟩
  | noStatements => exact fun _ => .closed trivial
  | @read _ first statements front tokens _ _ _ hfirst hstatements ihfirst ihstatements =>
      intro hopen
      by_cases htokens : tokens = []
      · subst htokens
        rw [List.append_nil] at hends
        obtain ⟨value, span, rfl, hvalue⟩ := ihfirst hends
        rw [hstatements.statements_of_nil]
        exact @ClosedBeforeEnd.opened [] value span _ trivial hvalue hopen
      · exact .cons (hfirst.inImage (hends.left htokens)).1
          (ihstatements (hends.right htokens) hopen)
  | @skipped _ _ _ tokens _ _ _ _ hstatements ih =>
      intro hopen
      by_cases htokens : tokens = []
      · subst htokens
        rw [hstatements.statements_of_nil]
        exact .closed trivial
      · exact ih (hends.right htokens) hopen
  | _ => exact trivial

end Derives

end Grammar

namespace Lexed

variable {last : Token} {front tokens : List Token}

/-- The last token does not stand before itself. -/
theorem closed_before_last (hlexed : Lexed (some last) (front ++ [last])) : Lexed none front where
  lexemes := hlexed.left.lexemes
  order := hlexed.order.left
  closed token hmember hkind := by
    rcases hlexed.left.closed token hmember hkind with hclosed | hlast
    · exact .inl hclosed
    · obtain rfl := Option.some.inj hlast
      have hstop := hlexed.order.stop_le_start hmember List.mem_cons_self
      have hstart := hlexed.left.order.nonempty last hmember
      omega

theorem of_closed {last : Option Token} (hlexed : Lexed last tokens)
    (hclosed : ∀ token, last = some token → token.kind = .string → IsClosedString token.literal) :
    Lexed none tokens where
  lexemes := hlexed.lexemes
  order := hlexed.order
  closed token hmember hkind :=
    .inl ((hlexed.closed token hmember hkind).elim id fun hlast => hclosed token hlast hkind)

end Lexed

/-- Only the last token of a text can be an open string, which is then the end of what is read.
Canonical texts are compared with this in mind. -/
theorem readProgram_closedBeforeEnd (source : String) :
    ClosedBeforeEnd (readProgram source).program.statements := by
  have hderives := Grammar.readProgram_derives source
  have hlexed := Lexer.tokens_lexed (Lexer.ofText source)
  by_cases hopen : ∃ last, (Lexer.ofText source).tokens.getLast? = some last ∧
      last.kind = .string ∧ IsOpenString last.literal
  · obtain ⟨last, hlast, hstring, hopen⟩ := hopen
    obtain ⟨front, htokens⟩ := List.getLast?_eq_some_iff.mp hlast
    rw [hlast, htokens] at hlexed
    refine hderives.endsWith hstring ⟨hlast, ?_⟩ hopen
    rw [htokens, List.dropLast_concat]
    exact hlexed.closed_before_last
  · refine .closed (hderives.inImage (hlexed.of_closed fun token hlast hkind => ?_)).1
    have hlexeme := hlexed.lexemes token (List.mem_of_getLast? hlast)
    exact (Token.isString_of_kind hlexeme hkind).resolve_right
      fun hstring => hopen ⟨token, hlast, hkind, hstring⟩

/-- Canonical texts tell programs: two texts give the same canonical text exactly if what is read
from them differs in its spans only. -/
theorem parse_canonical_injective {source source' : String} {program program' : Program}
    {errors errors' : List String} (hparse : parse source false = .ok (program, errors))
    (hparse' : parse source' false = .ok (program', errors')) :
    program.canonical = program'.canonical ↔
      SameUpToSpans program.statements program'.statements := by
  obtain ⟨rfl, -⟩ := parse_eq_ok hparse
  obtain ⟨rfl, -⟩ := parse_eq_ok hparse'
  refine ⟨fun hcanonical => ?_, Program.canonical_of_same⟩
  have hformed (text : String) :=
    ((Grammar.readProgram_derives text).inImage (Lexer.tokens_lexed _)).1
  exact sameUpToSpans_of_canonicalWords (hformed source) (hformed source')
    (canonicalWords_of_lines (readProgram_closedBeforeEnd source)
      (readProgram_closedBeforeEnd source') hcanonical)

/-- A negated string that is not closed, after a statement with and without its semicolon. -/
theorem parse_canonical_injective_openString :
    ∃ program errors program' errors', parse "a; !\"x" false = .ok (program, errors) ∧
      parse "a !\"x" false = .ok (program', errors') ∧
      program.canonical = "a;\n(!\"x);\n" ∧ program'.canonical = "a;\n(!\"x);\n" ∧
      SameUpToSpans program.statements program'.statements := by
  have hcanonical : (readProgram "a; !\"x").program.canonical = "a;\n(!\"x);\n" := by decide +kernel
  have hcanonical' : (readProgram "a !\"x").program.canonical = "a;\n(!\"x);\n" := by decide +kernel
  refine ⟨_, _, _, _, parse_lenient _, parse_lenient _, hcanonical, hcanonical', ?_⟩
  exact (parse_canonical_injective (parse_lenient _) (parse_lenient _)).mp
    (hcanonical.trans hcanonical'.symm)

end Frontend
