import Frontend.Parser.Grammar
import Frontend.Proofs.Tree.Spelling

/-!
# Derivations

What the grammar makes of tokens, said without cursors and outcomes.  A part of a program is
derived from the tokens it stands for, seeing one more token after them, and with the diagnostics
that arose on the way.  These come from statements that were given up, whose tokens are skipped;
the derivation says of them only that the last diagnostic is near: it shows at the last token
skipped or at the one after it.

An operand grows to the right as it does while it is read, so the derivation of a binary expression
or a call starts with that of its left part.
-/

namespace Frontend.Grammar

/-- The span from the start of the first token to the end of the last one, which `span_from` gives a
part that was read from these tokens. -/
def spanOver : List Token → Span
  | [] => .empty 0
  | first :: rest => ⟨first.span.start, ((first :: rest).getLast (List.cons_ne_nil _ _)).span.stop⟩

theorem spanOver_eq {tokens : List Token} {first last : Token}
    (hfirst : tokens.head? = some first) (hlast : tokens.getLast? = some last) :
    spanOver tokens = ⟨first.span.start, last.span.stop⟩ := by
  cases tokens with
  | nil => simp at hfirst
  | cons token tokens =>
      rw [List.head?_cons, Option.some.injEq] at hfirst
      rw [List.getLast?_eq_some_getLast (List.cons_ne_nil _ _), Option.some.injEq] at hlast
      subst hfirst
      rw [spanOver, hlast]

theorem spanOver_stop {tokens : List Token} {last : Token} (hlast : tokens.getLast? = some last) :
    (spanOver tokens).stop = last.span.stop := by
  cases tokens with
  | nil => cases hlast
  | cons token tokens =>
      rw [List.getLast?_eq_some_getLast (List.cons_ne_nil _ _), Option.some.injEq] at hlast
      rw [spanOver, hlast]

/-- The name that a token is, its literal at its own place. -/
def nameOf (token : Token) : Identifier := ⟨token.literal, token.span⟩

/-- A key that is its own value is a shorthand. -/
theorem isShorthand_nameOf (key : Token) :
    Property.isShorthand ⟨nameOf key, .identifier key.span (nameOf key), key.span⟩ = true := by
  simp [Property.isShorthand, nameOf]

/-- A diagnostic shows at a token: it carries the token's span. -/
def ShowsAt (diagnostics : List Diagnostic) (token : Token) : Prop :=
  ∃ diagnostic ∈ diagnostics, diagnostic.span = some token.span

/-- Showing at a token does not end with more diagnostics, so what was found in a part is found in
the whole. -/
theorem ShowsAt.mono {few many : List Diagnostic} {token : Token} (hsubset : few ⊆ many)
    (hshows : ShowsAt few token) : ShowsAt many token := by
  obtain ⟨diagnostic, hmember, hspan⟩ := hshows
  exact ⟨diagnostic, hsubset hmember, hspan⟩

theorem ShowsAt.ne_nil {diagnostics : List Diagnostic} {token : Token}
    (hshows : ShowsAt diagnostics token) : diagnostics ≠ [] := by
  obtain ⟨_, hmember, -⟩ := hshows
  exact List.ne_nil_of_mem hmember

/-- Tokens that were skipped, with a diagnostic at the last of them or at the token after it.  Such
are those of a statement that is given up. -/
def Abandoned (tokens : List Token) (next : Token) (diagnostics : List Diagnostic) : Prop :=
  ∃ front last, tokens = front ++ [last] ∧
    (ShowsAt diagnostics last ∨ ShowsAt diagnostics next)

/-- What was skipped left a diagnostic. -/
theorem Abandoned.ne_nil {tokens : List Token} {next : Token} {diagnostics : List Diagnostic}
    (hlost : Abandoned tokens next diagnostics) : diagnostics ≠ [] := by
  obtain ⟨_, _, -, hshows⟩ := hlost
  exact hshows.elim ShowsAt.ne_nil ShowsAt.ne_nil

/-- What is read of a program.  An operand may be extended on its right as long as what follows
holds more tightly than `least`; an expression cannot be extended any more.  At most `levels`
further expressions are open inside one another. -/
inductive Part where
  | operand (least : Precedence) (levels : Nat) (expression : Expression)
  | expression (least : Precedence) (levels : Nat) (expression : Expression)
  | items (levels : Nat) (expressions : List Expression)
  | property (levels : Nat) (property : Property)
  | properties (levels : Nat) (properties : List Property)
  | parameters (names : List Identifier)
  | block (levels : Nat) (block : Block)
  | statement (levels : Nat) (statement : Statement)
  | statements (levels : Nat) (statements : List Statement)

/-- The part is derived from the tokens, before another token and with the diagnostics.  There is a
rule for each production of the grammar, with the spans that a parser gives; rules for rows let
statements be given up. -/
inductive Derives : Part → List Token → Token → List Diagnostic → Prop where
  | name {least levels token next} (hkind : token.kind = .ident) :
      Derives (.operand least levels (.identifier token.span (nameOf token))) [token] next []
  | integer {least levels token next} (hkind : token.kind = .int)
      (hvalue : Numeral.ofDecimal token.literal.toList ≤ maxInteger) :
      Derives (.operand least levels
        (.integer token.span (Numeral.ofDecimal token.literal.toList))) [token] next []
  | string {least levels token next} (hkind : token.kind = .string) :
      Derives (.operand least levels (.string token.span token.literal)) [token] next []
  | boolean {least levels value token next} (hkind : token.kind = booleanKind value) :
      Derives (.operand least levels (.boolean token.span value)) [token] next []
  | unary {least levels operator inner sign tokens next diagnostics}
      (hsign : sign.kind = operator.kind)
      (hinner : Derives (.expression .unary levels inner) tokens next diagnostics) :
      Derives (.operand least levels (.unary (spanOver (sign :: tokens)) operator inner))
        (sign :: tokens) next diagnostics
  | array {least levels elements opener tokens closer next diagnostics}
      (hopener : opener.kind = .lBracket)
      (helements : Derives (.items levels elements) tokens closer diagnostics)
      (hcloser : closer.kind = .rBracket) :
      Derives (.operand least levels (.array (spanOver (opener :: tokens ++ [closer])) elements))
        (opener :: tokens ++ [closer]) next diagnostics
  | object {least levels entries opener tokens closer next diagnostics}
      (hopener : opener.kind = .lBrace)
      (hentries : Derives (.properties levels entries) tokens closer diagnostics)
      (hcloser : closer.kind = .rBrace) :
      Derives (.operand least levels (.object (spanOver (opener :: tokens ++ [closer])) entries))
        (opener :: tokens ++ [closer]) next diagnostics
  | conditional {least levels condition consequence keyword opener tokens closer body next
      diagnostics bodyDiagnostics}
      (hkeyword : keyword.kind = .kwIf) (hopener : opener.kind = .lParen)
      (hcondition : Derives (.expression .lowest levels condition) tokens closer diagnostics)
      (hcloser : closer.kind = .rParen)
      (hbody : Derives (.block levels consequence) body next bodyDiagnostics) :
      Derives (.operand least levels
          (.conditional (spanOver (keyword :: opener :: tokens ++ closer :: body)) condition
            consequence none))
        (keyword :: opener :: tokens ++ closer :: body) next (diagnostics ++ bodyDiagnostics)
  | alternative {least levels condition consequence alternative keyword opener tokens closer body
      separator other next diagnostics bodyDiagnostics otherDiagnostics}
      (hkeyword : keyword.kind = .kwIf) (hopener : opener.kind = .lParen)
      (hcondition : Derives (.expression .lowest levels condition) tokens closer diagnostics)
      (hcloser : closer.kind = .rParen)
      (hbody : Derives (.block levels consequence) body separator bodyDiagnostics)
      (hseparator : separator.kind = .kwElse)
      (hother : Derives (.block levels alternative) other next otherDiagnostics) :
      Derives (.operand least levels
          (.conditional
            (spanOver (keyword :: opener :: tokens ++ closer :: body ++ separator :: other))
            condition consequence (some alternative)))
        (keyword :: opener :: tokens ++ closer :: body ++ separator :: other) next
        (diagnostics ++ bodyDiagnostics ++ otherDiagnostics)
  | function {least levels names block keyword opener tokens closer body next diagnostics}
      (hkeyword : keyword.kind = .kwFunction) (hopener : opener.kind = .lParen)
      (hnames : Derives (.parameters names) tokens closer [])
      (hcloser : closer.kind = .rParen)
      (hbody : Derives (.block levels block) body next diagnostics) :
      Derives (.operand least levels
          (.function (spanOver (keyword :: opener :: tokens ++ closer :: body)) names block))
        (keyword :: opener :: tokens ++ closer :: body) next diagnostics
  | call {least levels callee arguments front opener tokens closer next frontDiagnostics
      diagnostics}
      (hcallee : Derives (.operand least levels callee) front opener frontDiagnostics)
      (hopener : opener.kind = .lParen) (hleast : least < .call)
      (harguments : Derives (.items levels arguments) tokens closer diagnostics)
      (hcloser : closer.kind = .rParen) :
      Derives (.operand least levels
          (.call (spanOver (front ++ opener :: tokens ++ [closer])) callee arguments))
        (front ++ opener :: tokens ++ [closer]) next (frontDiagnostics ++ diagnostics)
  | binary {least levels left operator right front sign tokens next frontDiagnostics diagnostics}
      (hleft : Derives (.operand least levels left) front sign frontDiagnostics)
      (hsign : sign.kind = operator.kind) (hleast : least < operator.precedence)
      (hright : Derives (.expression operator.precedence levels right) tokens next diagnostics) :
      Derives (.operand least levels
          (.binary (spanOver (front ++ sign :: tokens)) left operator right))
        (front ++ sign :: tokens) next (frontDiagnostics ++ diagnostics)
  | expression {least levels value tokens next diagnostics}
      (hoperand : Derives (.operand least levels value) tokens next diagnostics)
      (hend : ¬ least < next.kind.precedence) :
      Derives (.expression least (levels + 1) value) tokens next diagnostics
  | noItems {levels next} : Derives (.items levels []) [] next []
  | lastItem {levels item tokens next diagnostics}
      (hitem : Derives (.expression .lowest levels item) tokens next diagnostics) :
      Derives (.items levels [item]) tokens next diagnostics
  | moreItems {levels first second items front separator tokens next frontDiagnostics diagnostics}
      (hfirst : Derives (.expression .lowest levels first) front separator frontDiagnostics)
      (hseparator : separator.kind = .comma)
      (hitems : Derives (.items levels (second :: items)) tokens next diagnostics) :
      Derives (.items levels (first :: second :: items)) (front ++ separator :: tokens) next
        (frontDiagnostics ++ diagnostics)
  | shorthand {levels key next} (hkey : key.kind = .ident) :
      Derives (.property levels ⟨nameOf key, .identifier key.span (nameOf key), key.span⟩)
        [key] next []
  | written {levels value key colon tokens next diagnostics} (hkey : key.kind = .ident)
      (hcolon : colon.kind = .colon)
      (hvalue : Derives (.expression .lowest levels value) tokens next diagnostics) :
      Derives (.property levels ⟨nameOf key, value, key.span.cover value.span⟩)
        (key :: colon :: tokens) next diagnostics
  | noProperties {levels next} : Derives (.properties levels []) [] next []
  | lastProperty {levels entry tokens next diagnostics}
      (hentry : Derives (.property levels entry) tokens next diagnostics) :
      Derives (.properties levels [entry]) tokens next diagnostics
  | moreProperties {levels entry entries front separator tokens next frontDiagnostics diagnostics}
      (hentry : Derives (.property levels entry) front separator frontDiagnostics)
      (hseparator : separator.kind = .comma)
      (hentries : Derives (.properties levels entries) tokens next diagnostics) :
      Derives (.properties levels (entry :: entries)) (front ++ separator :: tokens) next
        (frontDiagnostics ++ diagnostics)
  | noParameters {next} : Derives (.parameters []) [] next []
  | lastParameter {token next} (hkind : token.kind = .ident) :
      Derives (.parameters [nameOf token]) [token] next []
  | moreParameters {names token separator tokens next} (hkind : token.kind = .ident)
      (hseparator : separator.kind = .comma)
      (hnames : Derives (.parameters names) tokens next []) :
      Derives (.parameters (nameOf token :: names)) (token :: separator :: tokens) next []
  | block {levels statements opener tokens closer next diagnostics}
      (hopener : opener.kind = .lBrace)
      (hstatements : Derives (.statements levels statements) tokens closer diagnostics)
      (hcloser : closer.kind = .rBrace) :
      Derives (.block levels ⟨statements, spanOver (opener :: tokens ++ [closer])⟩)
        (opener :: tokens ++ [closer]) next diagnostics
  | letWithoutValue {levels keyword name closer next} (hkeyword : keyword.kind = .kwLet)
      (hname : name.kind = .ident) (hcloser : closer.kind = .semicolon) :
      Derives (.statement levels
          (.binding false (nameOf name) none (spanOver [keyword, name, closer])))
        [keyword, name, closer] next []
  | binding {levels constant value keyword name sign tokens closer next diagnostics}
      (hkeyword : keyword.kind = bindingKind constant) (hname : name.kind = .ident)
      (hsign : sign.kind = .assign)
      (hvalue : Derives (.expression .lowest levels value) tokens closer diagnostics)
      (hcloser : closer.kind = .semicolon) :
      Derives (.statement levels
          (.binding constant (nameOf name) (some value)
            (spanOver (keyword :: name :: sign :: tokens ++ [closer]))))
        (keyword :: name :: sign :: tokens ++ [closer]) next diagnostics
  | namedFunction {levels names block keyword name opener tokens closer body next diagnostics}
      (hkeyword : keyword.kind = .kwFunction) (hname : name.kind = .ident)
      (hopener : opener.kind = .lParen) (hnames : Derives (.parameters names) tokens closer [])
      (hcloser : closer.kind = .rParen)
      (hbody : Derives (.block levels block) body next diagnostics) :
      Derives (.statement levels
          (.function (nameOf name) names block
            (spanOver (keyword :: name :: opener :: tokens ++ closer :: body))))
        (keyword :: name :: opener :: tokens ++ closer :: body) next diagnostics
  | returned {levels value keyword tokens closer next diagnostics}
      (hkeyword : keyword.kind = .kwReturn)
      (hvalue : Derives (.expression .lowest levels value) tokens closer diagnostics)
      (hcloser : closer.kind = .semicolon) :
      Derives (.statement levels (.returned value (spanOver (keyword :: tokens ++ [closer]))))
        (keyword :: tokens ++ [closer]) next diagnostics
  | closed {levels value tokens closer next diagnostics}
      (hstart : (tokens.headD closer).kind ≠ .kwFunction)
      (hvalue : Derives (.expression .lowest levels value) tokens closer diagnostics)
      (hcloser : closer.kind = .semicolon) :
      Derives (.statement levels (.expression value (spanOver (tokens ++ [closer]))))
        (tokens ++ [closer]) next diagnostics
  | unclosed {levels value tokens next diagnostics}
      (hstart : (tokens.headD next).kind ≠ .kwFunction)
      (hvalue : Derives (.expression .lowest levels value) tokens next diagnostics)
      (hnext : next.kind ≠ .semicolon) :
      Derives (.statement levels (.expression value (spanOver tokens))) tokens next diagnostics
  | noStatements {levels next} : Derives (.statements levels []) [] next []
  | read {levels first statements front tokens next frontDiagnostics diagnostics}
      (hfirst : Derives (.statement levels first) front (tokens.headD next) frontDiagnostics)
      (hstatements : Derives (.statements levels statements) tokens next diagnostics) :
      Derives (.statements levels (first :: statements)) (front ++ tokens) next
        (frontDiagnostics ++ diagnostics)
  | skipped {levels statements front tokens next frontDiagnostics diagnostics}
      (hlost : Abandoned front (tokens.headD next) frontDiagnostics)
      (hstatements : Derives (.statements levels statements) tokens next diagnostics) :
      Derives (.statements levels statements) (front ++ tokens) next
        (frontDiagnostics ++ diagnostics)

namespace Derives

/-- No part but a list is derived from no tokens.  So a span over its tokens has two ends. -/
theorem operand_ne_nil {least levels value tokens next diagnostics}
    (hderives : Derives (.operand least levels value) tokens next diagnostics) : tokens ≠ [] := by
  cases hderives <;> simp

/-- An operand spans its tokens. -/
theorem operand_span {least levels value tokens next diagnostics}
    (hderives : Derives (.operand least levels value) tokens next diagnostics) :
    value.span = spanOver tokens := by
  cases hderives <;> rfl

/-- An expression spans its tokens. -/
theorem expression_span {least levels value tokens next diagnostics}
    (hderives : Derives (.expression least levels value) tokens next diagnostics) :
    tokens ≠ [] ∧ value.span = spanOver tokens := by
  cases hderives with
  | expression hoperand _ => exact ⟨hoperand.operand_ne_nil, hoperand.operand_span⟩

/-- A statement spans its tokens. -/
theorem statement_span {levels read tokens next diagnostics}
    (hderives : Derives (.statement levels read) tokens next diagnostics) :
    tokens ≠ [] ∧ read.span = spanOver tokens := by
  cases hderives with
  | unclosed _ hvalue _ => exact ⟨hvalue.expression_span.1, rfl⟩
  | _ => exact ⟨by simp, rfl⟩

/-- Parameters are read without any diagnostic, since a fault in them ends the reading of the whole
function. -/
theorem parameters_diagnostics {names tokens next diagnostics}
    (hderives : Derives (.parameters names) tokens next diagnostics) : diagnostics = [] := by
  cases hderives <;> rfl

end Derives

/-- Statements that are read or skipped one after another, from tokens of which all belong to one or
the other. -/
inductive Row (levels : Nat) (next : Token) :
    List Statement → List Token → List Diagnostic → Prop where
  | none : Row levels next [] [] []
  | read {first statements front tokens frontDiagnostics diagnostics}
      (hfirst : Derives (.statement levels first) front (tokens.headD next) frontDiagnostics)
      (hrest : Row levels next statements tokens diagnostics) :
      Row levels next (first :: statements) (front ++ tokens) (frontDiagnostics ++ diagnostics)
  | skipped {statements front tokens frontDiagnostics diagnostics}
      (hlost : Abandoned front (tokens.headD next) frontDiagnostics)
      (hrest : Row levels next statements tokens diagnostics) :
      Row levels next statements (front ++ tokens) (frontDiagnostics ++ diagnostics)

theorem Derives.row {levels statements tokens next diagnostics}
    (hderives : Derives (.statements levels statements) tokens next diagnostics) :
    Row levels next statements tokens diagnostics := by
  generalize hpart : Part.statements levels statements = part at hderives
  induction hderives generalizing statements with
  | noStatements =>
      cases hpart
      exact .none
  | read hfirst _ _ ih =>
      cases hpart
      exact .read hfirst (ih rfl)
  | skipped hlost _ ih =>
      cases hpart
      exact .skipped hlost (ih rfl)
  | _ => cases hpart

end Frontend.Grammar
