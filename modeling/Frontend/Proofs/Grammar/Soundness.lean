import Frontend.Proofs.Grammar.Adequacy

/-!
# Soundness

If a program is read without a diagnostic, then the words of its text are a spelling of it: every
word is accounted for, in its order.  A derivation without a diagnostic has skipped nothing, and
each of its steps is a way of spelling.  The one thing to be seen from afar is whether a property
was written with its value: the value then stands after its key and not at the same place.
-/

namespace Frontend

namespace Grammar

/-- The words of a name. -/
theorem word_nameOf {token : Token} (hkind : token.kind = .ident) :
    (nameOf token).word = token.word := by
  rw [Identifier.word, Token.word, hkind, nameOf]

section

variable {last : Option Token} {keyword opener closer separator : Token} {tokens body : List Token}
variable {left middle right : Kind}

/-- The words of tokens between an opener and a closer. -/
theorem words_enclosed (hlexed : Lexed last (opener :: tokens ++ [closer]))
    (hopener : opener.kind = left) (hleft : left.spelling?.isSome)
    (hcloser : closer.kind = right) (hright : right.spelling?.isSome) :
    (opener :: tokens ++ [closer]).map Token.word =
      left.word :: tokens.map Token.word ++ [right.word] := by
  rw [List.map_append, List.map_cons, List.map_singleton,
    Token.word_eq_of_kind hlexed.left.head hopener hleft,
    Token.word_eq_of_kind hlexed.right.head hcloser hright]

/-- The words of a keyword with tokens between parentheses and of the body after them. -/
theorem words_headed (hlexed : Lexed last (keyword :: opener :: tokens ++ closer :: body))
    (hkeyword : keyword.kind = left) (hleft : left.spelling?.isSome)
    (hopener : opener.kind = .lParen) (hcloser : closer.kind = .rParen) :
    (keyword :: opener :: tokens ++ closer :: body).map Token.word =
      left.word :: Kind.lParen.word :: tokens.map Token.word ++
        Kind.rParen.word :: body.map Token.word := by
  rw [List.map_append, List.map_cons, List.map_cons, List.map_cons,
    Token.word_eq_of_kind hlexed.left.head hkeyword hleft,
    Token.word_eq_of_kind hlexed.left.tail.head hopener rfl,
    Token.word_eq_of_kind hlexed.right.head hcloser rfl]

/-- The words on both sides of a token of a kind with one spelling. -/
theorem words_separated (hlexed : Lexed last (tokens ++ separator :: body))
    (hseparator : separator.kind = middle) (hmiddle : middle.spelling?.isSome) :
    (tokens ++ separator :: body).map Token.word =
      tokens.map Token.word ++ middle.word :: body.map Token.word := by
  rw [List.map_append, List.map_cons,
    Token.word_eq_of_kind hlexed.right.head hseparator hmiddle]

end

section

variable {last : Option Token} {keyword name opener sign closer separator : Token}
variable {front tokens body other : List Token} {span : Span}

/-- The words of a conditional with both of its blocks. -/
theorem spells_alternative {condition : Expression} {consequence alternative : Block}
    (hlexed : Lexed last (keyword :: opener :: tokens ++ closer :: body ++ separator :: other))
    (hkeyword : keyword.kind = .kwIf) (hopener : opener.kind = .lParen)
    (hcloser : closer.kind = .rParen) (hseparator : separator.kind = .kwElse)
    (hcondition : Spells (.expression condition) (tokens.map Token.word))
    (hconsequence : Spells (.block consequence) (body.map Token.word))
    (halternative : Spells (.block alternative) (other.map Token.word)) :
    Spells (.expression (.conditional span condition consequence (some alternative)))
      ((keyword :: opener :: tokens ++ closer :: body ++ separator :: other).map Token.word) := by
  rw [words_separated hlexed hseparator rfl,
    words_headed hlexed.left hkeyword rfl hopener hcloser]
  exact .alternative hcondition hconsequence halternative

/-- The words of a call: those of what is called, and those of the arguments in parentheses. -/
theorem spells_call {callee : Expression} {arguments : List Expression}
    (hlexed : Lexed last (front ++ opener :: tokens ++ [closer]))
    (hopener : opener.kind = .lParen) (hcloser : closer.kind = .rParen)
    (hcallee : Spells (.expression callee) (front.map Token.word))
    (harguments : Spells (.items arguments) (tokens.map Token.word)) :
    Spells (.expression (.call span callee arguments))
      ((front ++ opener :: tokens ++ [closer]).map Token.word) := by
  rw [words_separated hlexed hcloser rfl, words_separated hlexed.left hopener rfl, List.map_nil]
  exact .call hcallee harguments

/-- The words of a binding whose name has a value. -/
theorem spells_binding {constant : Bool} {value : Expression}
    (hlexed : Lexed last (keyword :: name :: sign :: tokens ++ [closer]))
    (hkeyword : keyword.kind = bindingKind constant) (hname : name.kind = .ident)
    (hsign : sign.kind = .assign) (hcloser : closer.kind = .semicolon)
    (hvalue : Spells (.expression value) (tokens.map Token.word)) :
    Spells (.statement (.binding constant (nameOf name) (some value) span))
      ((keyword :: name :: sign :: tokens ++ [closer]).map Token.word) := by
  rw [words_enclosed hlexed hkeyword (bindingKind_spelled _) hcloser rfl, List.map_cons,
    List.map_cons, ← word_nameOf hname,
    Token.word_eq_of_kind hlexed.left.tail.tail.head hsign rfl]
  exact .binding hvalue

/-- The words of a function with a name. -/
theorem spells_namedFunction {names : List Identifier} {block : Block}
    (hlexed : Lexed last (keyword :: name :: opener :: tokens ++ closer :: body))
    (hkeyword : keyword.kind = .kwFunction) (hname : name.kind = .ident)
    (hopener : opener.kind = .lParen) (hcloser : closer.kind = .rParen)
    (hnames : Spells (.parameters names) (tokens.map Token.word))
    (hbody : Spells (.block block) (body.map Token.word)) :
    Spells (.statement (.function (nameOf name) names block span))
      ((keyword :: name :: opener :: tokens ++ closer :: body).map Token.word) := by
  rw [words_separated hlexed hcloser rfl, List.map_cons, List.map_cons, List.map_cons,
    Token.word_eq_of_kind hlexed.left.head hkeyword rfl, ← word_nameOf hname,
    Token.word_eq_of_kind hlexed.left.tail.tail.head hopener rfl]
  exact .namedFunction hnames hbody

end

/-- The words spell the part, before a token of a kind.  An expression may be a statement without a
semicolon if that kind does not continue it. -/
def Part.SpelledBy (words : List Word) (next : Kind) : Part → Prop
  | .operand _ _ value | .expression _ _ value => Spells (.expression value) words
  | .items _ values => Spells (.items values) words
  | .property _ entry => Spells (.property entry) words
  | .properties _ entries => Spells (.properties entries) words
  | .parameters names => Spells (.parameters names) words
  | .block _ body => Spells (.block body) words
  | .statement _ read =>
      Spells (.statement read) words ∨
        next.precedence = .lowest ∧
          ∃ value span, read = .expression value span ∧ Spells (.expression value) words
  | .statements _ read => Spells (.statements read) words

/-- Words end an expression before them if the token that they start with does. -/
theorem endExpression_words {tokens : List Token} {next : Token}
    (hlowest : (tokens.headD next).kind.precedence = .lowest) :
    EndExpression (tokens.map Token.word) := by
  intro word hword
  cases tokens with
  | nil => cases hword
  | cons token tokens =>
      obtain rfl := Option.some.inj hword
      exact hlowest

/-- A statement and the statements after it are spelled by their words, unless they go on with its
expression.  That is why a statement without a semicolon looks ahead. -/
theorem Part.SpelledBy.cons {depth : Nat} {first : Statement} {statements : List Statement}
    {words others : List Word} {next : Kind}
    (hfirst : (Part.statement depth first).SpelledBy words next)
    (hrest : Spells (.statements statements) others)
    (hend : next.precedence = .lowest → EndExpression others) :
    Spells (.statements (first :: statements)) (words ++ others) := by
  rcases hfirst with hspelled | ⟨hlowest, value, span, rfl, hspelled⟩
  · exact .statement hspelled hrest
  · exact .unclosed hspelled hrest (hend hlowest)

namespace Derives

variable {part : Part} {tokens : List Token} {next : Token} {diagnostics : List Diagnostic}

/-- A finished expression is not continued by the token after it, which holds it as loosely as can
be. -/
theorem precedence_next {levels : Nat} {value : Expression}
    (hderives : Derives (.expression .lowest levels value) tokens next diagnostics) :
    next.kind.precedence = .lowest := by
  cases hderives with
  | expression _ hend => exact Precedence.eq_lowest_of_not_lt hend

/-- A value that stands after a key is not the key itself. -/
theorem isShorthand_eq_false {key colon : Token} {levels : Nat} {value : Expression}
    (horder : InOrder (key :: colon :: tokens))
    (hvalue : Derives (.expression .lowest levels value) tokens next diagnostics) (span : Span) :
    Property.isShorthand ⟨nameOf key, value, span⟩ = false := by
  obtain ⟨hsome, hspan⟩ := hvalue.expression_span
  obtain ⟨hkey, hlater, -⟩ := InOrder.cons_iff.mp horder
  unfold Property.isShorthand
  split
  · next valueSpan identifier _ heq =>
      obtain ⟨rfl, rfl, rfl⟩ := Property.mk.inj heq
      refine decide_eq_false fun hshort => ?_
      obtain ⟨first, rest, rfl⟩ := List.exists_cons_of_ne_nil hsome
      have hafter := hlater first (by simp)
      have hplace : spanOver (first :: rest) = key.span := hspan.symm.trans hshort.1
      have hstart : first.span.start = key.span.start := by rw [← hplace, spanOver]
      omega
  · rfl

/-- Without a diagnostic, the words of the tokens spell what is derived from them.  By induction on
the derivation, with one rule of spelling for each of its rules. -/
theorem spells (hderives : Derives part tokens next diagnostics) (hquiet : diagnostics = [])
    {last : Option Token} (hlexed : Lexed last tokens) :
    part.SpelledBy (tokens.map Token.word) next.kind := by
  induction hderives with
  | name hkind =>
      rw [List.map_singleton, ← word_nameOf hkind]
      exact Spells.identifier
  | @integer _ _ token _ hkind _ =>
      have hword : token.word = ⟨.int, token.literal⟩ := by rw [Token.word, hkind]
      rw [List.map_singleton, hword]
      exact .integer (Token.isNumeral_of_kind hlexed.head hkind) rfl
  | @string _ _ token _ hkind =>
      have hword : token.word = ⟨.string, token.literal⟩ := by rw [Token.word, hkind]
      rw [List.map_singleton, hword]
      exact Spells.string
  | boolean hkind =>
      rw [List.map_singleton, Token.word_eq_of_kind hlexed.head hkind (booleanKind_spelled _)]
      exact Spells.boolean
  | unary hsign hinner ih =>
      rw [List.map_cons, Token.word_eq_of_kind hlexed.head hsign (UnaryOperator.kind_spelled _)]
      exact .unary (ih hquiet hlexed.tail)
  | array hopener helements hcloser ih =>
      rw [words_enclosed hlexed hopener rfl hcloser rfl]
      exact .array (ih hquiet hlexed.left.tail)
  | object hopener hentries hcloser ih =>
      rw [words_enclosed hlexed hopener rfl hcloser rfl]
      exact .object (ih hquiet hlexed.left.tail)
  | conditional hkeyword hopener hcondition hcloser hbody ihcondition ihbody =>
      obtain ⟨hquietCondition, hquietBody⟩ := List.append_eq_nil_iff.mp hquiet
      have hspelled := ihcondition hquietCondition hlexed.left.tail.tail
      rw [words_headed hlexed hkeyword rfl hopener hcloser]
      exact .conditional hspelled (ihbody hquietBody hlexed.right.tail)
  | alternative hkeyword hopener hcondition hcloser hbody hseparator hother ihcondition ihbody
      ihother =>
      obtain ⟨hquietFront, hquietOther⟩ := List.append_eq_nil_iff.mp hquiet
      obtain ⟨hquietCondition, hquietBody⟩ := List.append_eq_nil_iff.mp hquietFront
      exact spells_alternative hlexed hkeyword hopener hcloser hseparator
        (ihcondition hquietCondition hlexed.left.left.tail.tail)
        (ihbody hquietBody hlexed.left.right.tail) (ihother hquietOther hlexed.right.tail)
  | function hkeyword hopener hnames hcloser hbody ihnames ihbody =>
      have hspelled := ihnames rfl hlexed.left.tail.tail
      rw [words_headed hlexed hkeyword rfl hopener hcloser]
      exact .function hspelled (ihbody hquiet hlexed.right.tail)
  | call hcallee hopener hleast harguments hcloser ihcallee iharguments =>
      obtain ⟨hquietCallee, hquietArguments⟩ := List.append_eq_nil_iff.mp hquiet
      exact spells_call hlexed hopener hcloser (ihcallee hquietCallee hlexed.left.left)
        (iharguments hquietArguments hlexed.left.right.tail)
  | binary hleft hsign hleast hright ihleft ihright =>
      obtain ⟨hquietLeft, hquietRight⟩ := List.append_eq_nil_iff.mp hquiet
      have hspelled := ihleft hquietLeft hlexed.left
      rw [words_separated hlexed hsign (BinaryOperator.kind_spelled _)]
      exact .binary hspelled (ihright hquietRight hlexed.right.tail)
  | expression hoperand hend ih => exact ih hquiet hlexed
  | noItems => exact Spells.noItems
  | lastItem hitem ih => exact .lastItem (ih hquiet hlexed)
  | moreItems hfirst hseparator hitems ihfirst ihitems =>
      obtain ⟨hquietFirst, hquietItems⟩ := List.append_eq_nil_iff.mp hquiet
      have hspelled := ihfirst hquietFirst hlexed.left
      rw [words_separated hlexed hseparator rfl]
      exact .moreItems hspelled (ihitems hquietItems hlexed.right.tail)
  | shorthand hkey =>
      rw [List.map_singleton, ← word_nameOf hkey]
      exact .shorthand (isShorthand_nameOf _)
  | written hkey hcolon hvalue ih =>
      have hwritten := isShorthand_eq_false hlexed.order hvalue
      rw [List.map_cons, List.map_cons, ← word_nameOf hkey,
        Token.word_eq_of_kind hlexed.tail.head hcolon rfl]
      exact .written (hwritten _) (ih hquiet hlexed.tail.tail)
  | noProperties => exact Spells.noProperties
  | lastProperty hentry ih => exact .lastProperty (ih hquiet hlexed)
  | moreProperties hentry hseparator hentries ihentry ihentries =>
      obtain ⟨hquietEntry, hquietEntries⟩ := List.append_eq_nil_iff.mp hquiet
      have hspelled := ihentry hquietEntry hlexed.left
      rw [words_separated hlexed hseparator rfl]
      exact .moreProperties hspelled (ihentries hquietEntries hlexed.right.tail)
  | noParameters => exact Spells.noParameters
  | lastParameter hkind =>
      rw [List.map_singleton, ← word_nameOf hkind]
      exact Spells.lastParameter
  | moreParameters hkind hseparator hnames ih =>
      rw [List.map_cons, List.map_cons, ← word_nameOf hkind,
        Token.word_eq_of_kind hlexed.tail.head hseparator rfl]
      exact .moreParameters (ih rfl hlexed.tail.tail)
  | block hopener hstatements hcloser ih =>
      rw [words_enclosed hlexed hopener rfl hcloser rfl]
      exact .block (ih hquiet hlexed.left.tail)
  | letWithoutValue hkeyword hname hcloser =>
      rw [List.map_cons, List.map_cons, List.map_singleton,
        Token.word_eq_of_kind hlexed.head hkeyword rfl, ← word_nameOf hname,
        Token.word_eq_of_kind hlexed.tail.tail.head hcloser rfl]
      exact .inl Spells.letWithoutValue
  | binding hkeyword hname hsign hvalue hcloser ih =>
      exact .inl (spells_binding hlexed hkeyword hname hsign hcloser
        (ih hquiet hlexed.left.tail.tail.tail))
  | namedFunction hkeyword hname hopener hnames hcloser hbody ihnames ihbody =>
      exact .inl (spells_namedFunction hlexed hkeyword hname hopener hcloser
        (ihnames rfl hlexed.left.tail.tail.tail) (ihbody hquiet hlexed.right.tail))
  | returned hkeyword hvalue hcloser ih =>
      rw [words_enclosed hlexed hkeyword rfl hcloser rfl]
      exact .inl (.returned (ih hquiet hlexed.left.tail))
  | closed hstart hvalue hcloser ih =>
      rw [List.map_append, List.map_singleton,
        Token.word_eq_of_kind hlexed.right.head hcloser rfl]
      exact .inl (.expression (ih hquiet hlexed.left))
  | unclosed hstart hvalue hnext ih =>
      exact .inr ⟨hvalue.precedence_next, _, _, rfl, ih hquiet hlexed⟩
  | noStatements => exact Spells.noStatements
  | read hfirst hstatements ihfirst ihstatements =>
      obtain ⟨hquietFirst, hquietStatements⟩ := List.append_eq_nil_iff.mp hquiet
      have hrest := ihstatements hquietStatements hlexed.right
      rw [List.map_append]
      exact (ihfirst hquietFirst hlexed.left).cons hrest endExpression_words
  | skipped hlost hstatements ih =>
      obtain ⟨hquietFront, -⟩ := List.append_eq_nil_iff.mp hquiet
      exact absurd hquietFront hlost.ne_nil

end Derives

end Grammar

/-- A text that is read without a message is a spelling of the program, word for word. -/
theorem parse_spells {source : String} {program : Program}
    (hparse : parse source false = .ok (program, [])) :
    Spells (.statements program.statements) ((lex source).dropLast.map Token.word) := by
  obtain ⟨rfl, herrors⟩ := parse_eq_ok hparse
  rw [lex_dropLast]
  exact (Grammar.readProgram_derives source).spells (List.map_eq_nil_iff.mp herrors.symm)
    (Lexer.tokens_lexed _)

/-- The sign before a name belongs to the name, and the last semicolon is left out. -/
theorem parse_spells_negated_sum :
    parse "-a + b" false = .ok ((readProgram "-a + b").program, []) ∧
      Spells (.statements (readProgram "-a + b").program.statements)
        ((lex "-a + b").dropLast.map Token.word) :=
  have hquiet : (readProgram "-a + b").diagnostics = [] := by decide +kernel
  have hparse := parse_of_diagnostics hquiet
  ⟨hparse, parse_spells hparse⟩

end Frontend
