import Frontend.Proofs.Lexing.Word
import Frontend.Proofs.Tree.Operator
import Frontend.Proofs.Tree.WellFormed

/-!
# Spellings

A tree is spelled by words in their order, without parentheses around operands.  Some words may be
left out or added: the semicolon after an expression, if what follows does not continue it, and a
comma after the last of some properties or parameters.  The relation says nothing of how tightly
operators hold or how deep expressions nest, so a list of words may spell many trees.
-/

namespace Frontend

/-- The parts of a tree that have a spelling, to speak of all of them at once. -/
inductive Phrase where
  | expression (expression : Expression)
  | items (expressions : List Expression)
  | property (property : Property)
  | properties (properties : List Property)
  | parameters (parameters : List Identifier)
  | block (block : Block)
  | statement (statement : Statement)
  | statements (statements : List Statement)

/-- The keyword of a binding. -/
def bindingKind (constant : Bool) : Kind := if constant then .kwConst else .kwLet

/-- The keyword of a boolean. -/
def booleanKind (value : Bool) : Kind := if value then .kwTrue else .kwFalse

theorem bindingKind_spelled (constant : Bool) : (bindingKind constant).spelling?.isSome := by
  cases constant <;> rfl

theorem booleanKind_spelled (value : Bool) : (booleanKind value).spelling?.isSome := by
  cases value <;> rfl

theorem UnaryOperator.kind_spelled (operator : UnaryOperator) :
    operator.kind.spelling?.isSome := by
  cases operator <;> rfl

theorem BinaryOperator.kind_spelled (operator : BinaryOperator) :
    operator.kind.spelling?.isSome := by
  cases operator <;> rfl

/-- The word of a name. -/
def Identifier.word (identifier : Identifier) : Word := ⟨.ident, identifier.name⟩

/-- The words do not go on with an expression that stands before them: no operator and no
parenthesis is the first of them. -/
def EndExpression (words : List Word) : Prop :=
  ∀ word ∈ words.head?, word.kind.precedence = .lowest

/-- The words spell the part of a tree, by a rule for each production of the grammar.  A statement
always has its semicolon, and only a list of statements may do without it. -/
inductive Spells : Phrase → List Word → Prop where
  | identifier {span identifier} :
      Spells (.expression (.identifier span identifier)) [identifier.word]
  | integer {span value digits} (hdigits : IsNumeral digits)
      (hvalue : (Numeral.ofDecimal digits.toList : Int) = value) :
      Spells (.expression (.integer span value)) [⟨.int, digits⟩]
  | string {span text} : Spells (.expression (.string span text)) [⟨.string, text⟩]
  | boolean {span value} : Spells (.expression (.boolean span value)) [(booleanKind value).word]
  | array {span elements words} (helements : Spells (.items elements) words) :
      Spells (.expression (.array span elements))
        (Kind.lBracket.word :: words ++ [Kind.rBracket.word])
  | object {span properties words} (hproperties : Spells (.properties properties) words) :
      Spells (.expression (.object span properties))
        (Kind.lBrace.word :: words ++ [Kind.rBrace.word])
  | unary {span operator operand words} (hoperand : Spells (.expression operand) words) :
      Spells (.expression (.unary span operator operand)) (operator.kind.word :: words)
  | binary {span left operator right leftWords rightWords}
      (hleft : Spells (.expression left) leftWords)
      (hright : Spells (.expression right) rightWords) :
      Spells (.expression (.binary span left operator right))
        (leftWords ++ operator.kind.word :: rightWords)
  | conditional {span condition consequence conditionWords blockWords}
      (hcondition : Spells (.expression condition) conditionWords)
      (hconsequence : Spells (.block consequence) blockWords) :
      Spells (.expression (.conditional span condition consequence none))
        (Kind.kwIf.word :: Kind.lParen.word :: conditionWords ++ Kind.rParen.word :: blockWords)
  | alternative {span condition consequence alternative conditionWords blockWords elseWords}
      (hcondition : Spells (.expression condition) conditionWords)
      (hconsequence : Spells (.block consequence) blockWords)
      (halternative : Spells (.block alternative) elseWords) :
      Spells (.expression (.conditional span condition consequence (some alternative)))
        (Kind.kwIf.word :: Kind.lParen.word :: conditionWords ++
          Kind.rParen.word :: blockWords ++ Kind.kwElse.word :: elseWords)
  | function {span parameters body nameWords blockWords}
      (hparameters : Spells (.parameters parameters) nameWords)
      (hbody : Spells (.block body) blockWords) :
      Spells (.expression (.function span parameters body))
        (Kind.kwFunction.word :: Kind.lParen.word :: nameWords ++ Kind.rParen.word :: blockWords)
  | call {span callee arguments calleeWords words}
      (hcallee : Spells (.expression callee) calleeWords)
      (harguments : Spells (.items arguments) words) :
      Spells (.expression (.call span callee arguments))
        (calleeWords ++ Kind.lParen.word :: words ++ [Kind.rParen.word])
  | noItems : Spells (.items []) []
  | lastItem {item words} (hitem : Spells (.expression item) words) : Spells (.items [item]) words
  | moreItems {first second items firstWords words}
      (hfirst : Spells (.expression first) firstWords)
      (hitems : Spells (.items (second :: items)) words) :
      Spells (.items (first :: second :: items)) (firstWords ++ Kind.comma.word :: words)
  | shorthand {property} (hshort : property.isShorthand = true) :
      Spells (.property property) [property.key.word]
  | written {property words} (hwritten : property.isShorthand = false)
      (hvalue : Spells (.expression property.value) words) :
      Spells (.property property) (property.key.word :: Kind.colon.word :: words)
  | noProperties : Spells (.properties []) []
  | lastProperty {property words} (hproperty : Spells (.property property) words) :
      Spells (.properties [property]) words
  | moreProperties {property properties propertyWords words}
      (hproperty : Spells (.property property) propertyWords)
      (hproperties : Spells (.properties properties) words) :
      Spells (.properties (property :: properties)) (propertyWords ++ Kind.comma.word :: words)
  | noParameters : Spells (.parameters []) []
  | lastParameter {parameter} : Spells (.parameters [parameter]) [parameter.word]
  | moreParameters {parameter parameters words}
      (hparameters : Spells (.parameters parameters) words) :
      Spells (.parameters (parameter :: parameters))
        (parameter.word :: Kind.comma.word :: words)
  | block {statements span words} (hstatements : Spells (.statements statements) words) :
      Spells (.block ⟨statements, span⟩) (Kind.lBrace.word :: words ++ [Kind.rBrace.word])
  | letWithoutValue {identifier span} :
      Spells (.statement (.binding false identifier none span))
        [Kind.kwLet.word, identifier.word, Kind.semicolon.word]
  | binding {constant identifier value span words} (hvalue : Spells (.expression value) words) :
      Spells (.statement (.binding constant identifier (some value) span))
        ((bindingKind constant).word :: identifier.word :: Kind.assign.word :: words ++
          [Kind.semicolon.word])
  | namedFunction {identifier parameters body span nameWords blockWords}
      (hparameters : Spells (.parameters parameters) nameWords)
      (hbody : Spells (.block body) blockWords) :
      Spells (.statement (.function identifier parameters body span))
        (Kind.kwFunction.word :: identifier.word :: Kind.lParen.word :: nameWords ++
          Kind.rParen.word :: blockWords)
  | returned {value span words} (hvalue : Spells (.expression value) words) :
      Spells (.statement (.returned value span))
        (Kind.kwReturn.word :: words ++ [Kind.semicolon.word])
  | expression {value span words} (hvalue : Spells (.expression value) words) :
      Spells (.statement (.expression value span)) (words ++ [Kind.semicolon.word])
  | noStatements : Spells (.statements []) []
  | statement {first statements firstWords words} (hfirst : Spells (.statement first) firstWords)
      (hstatements : Spells (.statements statements) words) :
      Spells (.statements (first :: statements)) (firstWords ++ words)
  | unclosed {value span statements valueWords words}
      (hvalue : Spells (.expression value) valueWords)
      (hstatements : Spells (.statements statements) words) (hend : EndExpression words) :
      Spells (.statements (.expression value span :: statements)) (valueWords ++ words)

/-! ## The first word -/

/-- The kinds of words that an expression may start with: those with an entry in
`PREFIX_PARSE_FNS`. -/
def Kind.startsExpression : Kind → Bool
  | .ident | .int | .string | .kwTrue | .kwFalse | .bang | .minus | .lBracket | .lBrace | .kwIf
  | .kwFunction => true
  | _ => false

/-- The kinds of words that a statement may start with, by a keyword of its own or as an
expression. -/
def Kind.startsStatement : Kind → Bool
  | .kwLet | .kwConst | .kwReturn => true
  | kind => kind.startsExpression

theorem Kind.startsStatement_of_startsExpression {kind : Kind}
    (hstarts : kind.startsExpression = true) : kind.startsStatement = true := by
  cases kind <;> first | rfl | exact hstarts

theorem Kind.ne_of_startsExpression {kind other : Kind} (hstarts : kind.startsExpression = true)
    (hother : other.startsExpression = false) : kind ≠ other := by
  rintro rfl
  rw [hother] at hstarts
  cases hstarts

theorem Kind.ne_of_startsStatement {kind other : Kind} (hstarts : kind.startsStatement = true)
    (hother : other.startsStatement = false) : kind ≠ other := by
  rintro rfl
  rw [hother] at hstarts
  cases hstarts

/-- What the first of the words that spell a phrase is. -/
def Phrase.StartsWith (words : List Word) : Phrase → Prop
  | .expression value => ∃ word rest, words = word :: rest ∧ word.kind.startsExpression = true ∧
      (word.kind = .kwFunction → value.startsWithFunction = true)
  | .items values =>
      values = [] ∨ ∃ word rest, words = word :: rest ∧ word.kind.startsExpression = true
  | .property entry => ∃ rest, words = entry.key.word :: rest
  | .block _ => ∃ rest, words = Kind.lBrace.word :: rest
  | .statement _ => ∃ word rest, words = word :: rest ∧ word.kind.startsStatement = true
  | .statements _ => ∀ word ∈ words.head?, word.kind.startsStatement = true
  | _ => True

theorem Spells.startsWith {phrase : Phrase} {words : List Word} (hspells : Spells phrase words) :
    phrase.StartsWith words := by
  induction hspells with
  | identifier | integer | string | array | object | conditional | alternative =>
      exact ⟨_, _, rfl, rfl, nofun⟩
  | @boolean _ value => exact ⟨_, _, rfl, by cases value <;> rfl, by cases value <;> nofun⟩
  | @unary _ operator => exact ⟨_, _, rfl, by cases operator <;> rfl, by cases operator <;> nofun⟩
  | function => exact ⟨_, _, rfl, rfl, fun _ => rfl⟩
  | binary _ _ ih _ | call _ _ ih _ =>
      obtain ⟨word, rest, rfl, hstarts, hfunction⟩ := ih
      exact ⟨word, _, rfl, hstarts, hfunction⟩
  | noItems => exact .inl rfl
  | lastItem _ ih =>
      obtain ⟨word, rest, rfl, hstarts, -⟩ := ih
      exact .inr ⟨word, rest, rfl, hstarts⟩
  | moreItems _ _ ih _ =>
      obtain ⟨word, rest, rfl, hstarts, -⟩ := ih
      exact .inr ⟨word, _, rfl, hstarts⟩
  | shorthand | written | block => exact ⟨_, rfl⟩
  | letWithoutValue | namedFunction | returned => exact ⟨_, _, rfl, rfl⟩
  | @binding constant => exact ⟨_, _, rfl, by cases constant <;> rfl⟩
  | expression _ ih =>
      obtain ⟨word, rest, rfl, hstarts, -⟩ := ih
      exact ⟨word, _, rfl, Kind.startsStatement_of_startsExpression hstarts⟩
  | noStatements => simp [Phrase.StartsWith]
  | statement _ _ ih _ =>
      obtain ⟨first, rest, rfl, hstarts⟩ := ih
      intro word hword
      obtain rfl := Option.some.inj hword
      exact hstarts
  | unclosed _ _ _ ih _ =>
      obtain ⟨first, rest, rfl, hstarts, -⟩ := ih
      intro word hword
      obtain rfl := Option.some.inj hword
      exact Kind.startsStatement_of_startsExpression hstarts
  | _ => trivial

theorem Spells.expression_starts {value : Expression} {words : List Word}
    (hspells : Spells (.expression value) words) :
    ∃ word rest, words = word :: rest ∧ word.kind.startsExpression = true := by
  obtain ⟨word, rest, hwords, hstarts, -⟩ := hspells.startsWith
  exact ⟨word, rest, hwords, hstarts⟩

theorem Spells.expression_ne_nil {value : Expression} {words : List Word}
    (hspells : Spells (.expression value) words) : words ≠ [] := by
  obtain ⟨word, rest, rfl, -⟩ := hspells.startsWith
  exact List.cons_ne_nil word rest

theorem Spells.block_ne_nil {body : Block} {words : List Word}
    (hspells : Spells (.block body) words) : words ≠ [] := by
  obtain ⟨rest, rfl⟩ := hspells.startsWith
  exact List.cons_ne_nil _ rest

/-! ## The words of a well-formed tree -/

/-- A well-formed part of a tree in which every string is closed. -/
def Phrase.WellFormed : Phrase → Prop
  | .expression value => value.WellFormed none
  | .items values => expressionsWellFormed none values
  | .property entry => entry.WellFormed none
  | .properties entries => propertiesWellFormed none entries
  | .parameters names => ∀ name ∈ names, IsName name.name
  | .block body => body.WellFormed none
  | .statement read => read.WellFormed none
  | .statements read => statementsWellFormed none read

theorem Identifier.word_isComplete {identifier : Identifier} (hname : IsName identifier.name) :
    identifier.word.IsComplete :=
  ⟨hname, nofun⟩

theorem Spells.words_isComplete {phrase : Phrase} {words : List Word}
    (hspells : Spells phrase words) (hformed : phrase.WellFormed) :
    ∀ word ∈ words, word.IsComplete := by
  induction hspells with
  | identifier =>
      rw [List.forall_mem_singleton]
      exact Identifier.word_isComplete hformed
  | integer hdigits =>
      rw [List.forall_mem_singleton]
      exact ⟨hdigits, nofun⟩
  | string =>
      rw [List.forall_mem_singleton]
      have hclosed := hformed.resolve_right fun hopen => nomatch hopen.2
      exact ⟨.inl hclosed, fun _ => hclosed⟩
  | boolean =>
      rw [List.forall_mem_singleton]
      exact Kind.word_isComplete (booleanKind_spelled _)
  | array _ ih | object _ ih | block _ ih =>
      simp only [List.forall_mem_append, List.forall_mem_cons]
      exact ⟨⟨Kind.word_isComplete rfl, ih hformed⟩, Kind.word_isComplete rfl, nofun⟩
  | unary _ ih =>
      rw [List.forall_mem_cons]
      exact ⟨Kind.word_isComplete (UnaryOperator.kind_spelled _), ih hformed.2⟩
  | binary _ _ ihleft ihright =>
      obtain ⟨-, -, hleft, hright⟩ := hformed
      simp only [List.forall_mem_append, List.forall_mem_cons]
      exact ⟨ihleft hleft, Kind.word_isComplete (BinaryOperator.kind_spelled _), ihright hright⟩
  | conditional _ _ ihcondition ihblock =>
      obtain ⟨hcondition, hblock, -⟩ := hformed
      simp only [List.forall_mem_append, List.forall_mem_cons]
      exact ⟨⟨Kind.word_isComplete rfl, Kind.word_isComplete rfl, ihcondition hcondition⟩,
        Kind.word_isComplete rfl, ihblock hblock⟩
  | alternative _ _ _ ihcondition ihblock ihelse =>
      obtain ⟨hcondition, hblock, helse⟩ := hformed
      simp only [List.forall_mem_append, List.forall_mem_cons]
      exact ⟨⟨⟨Kind.word_isComplete rfl, Kind.word_isComplete rfl, ihcondition hcondition⟩,
        Kind.word_isComplete rfl, ihblock hblock⟩, Kind.word_isComplete rfl, ihelse helse⟩
  | function _ _ ihnames ihblock =>
      obtain ⟨hnames, hblock⟩ := hformed
      simp only [List.forall_mem_append, List.forall_mem_cons]
      exact ⟨⟨Kind.word_isComplete rfl, Kind.word_isComplete rfl, ihnames hnames⟩,
        Kind.word_isComplete rfl, ihblock hblock⟩
  | call _ _ ihcallee iharguments =>
      obtain ⟨-, hcallee, harguments⟩ := hformed
      simp only [List.forall_mem_append, List.forall_mem_cons]
      exact ⟨⟨ihcallee hcallee, Kind.word_isComplete rfl, iharguments harguments⟩,
        Kind.word_isComplete rfl, nofun⟩
  | noItems | noProperties | noParameters | noStatements => nofun
  | lastItem _ ih | lastProperty _ ih => exact ih hformed.1
  | moreItems _ _ ihfirst ihrest | moreProperties _ _ ihfirst ihrest =>
      obtain ⟨hfirst, hrest⟩ := hformed
      simp only [List.forall_mem_append, List.forall_mem_cons]
      exact ⟨ihfirst hfirst, Kind.word_isComplete rfl, ihrest hrest⟩
  | shorthand =>
      rw [List.forall_mem_singleton]
      exact Identifier.word_isComplete (Property.wellFormed_iff.mp hformed).1
  | written _ _ ih =>
      obtain ⟨hkey, hvalue⟩ := Property.wellFormed_iff.mp hformed
      simp only [List.forall_mem_cons]
      exact ⟨Identifier.word_isComplete hkey, Kind.word_isComplete rfl, ih hvalue⟩
  | lastParameter =>
      rw [List.forall_mem_singleton]
      exact Identifier.word_isComplete (hformed _ List.mem_cons_self)
  | moreParameters _ ih =>
      obtain ⟨hname, hnames⟩ := List.forall_mem_cons.mp hformed
      simp only [List.forall_mem_cons]
      exact ⟨Identifier.word_isComplete hname, Kind.word_isComplete rfl, ih hnames⟩
  | letWithoutValue =>
      simp only [List.forall_mem_cons]
      exact ⟨Kind.word_isComplete rfl, Identifier.word_isComplete hformed.1,
        Kind.word_isComplete rfl, nofun⟩
  | binding _ ih =>
      simp only [List.forall_mem_append, List.forall_mem_cons]
      exact ⟨⟨Kind.word_isComplete (bindingKind_spelled _),
        Identifier.word_isComplete hformed.1, Kind.word_isComplete rfl, ih hformed.2⟩,
        Kind.word_isComplete rfl, nofun⟩
  | namedFunction _ _ ihnames ihblock =>
      obtain ⟨hname, hnames, hblock⟩ := hformed
      simp only [List.forall_mem_append, List.forall_mem_cons]
      exact ⟨⟨Kind.word_isComplete rfl, Identifier.word_isComplete hname, Kind.word_isComplete rfl,
        ihnames hnames⟩, Kind.word_isComplete rfl, ihblock hblock⟩
  | returned _ ih =>
      simp only [List.forall_mem_append, List.forall_mem_cons]
      exact ⟨⟨Kind.word_isComplete rfl, ih hformed⟩, Kind.word_isComplete rfl, nofun⟩
  | expression _ ih =>
      simp only [List.forall_mem_append, List.forall_mem_cons]
      exact ⟨ih hformed.2, Kind.word_isComplete rfl, nofun⟩
  | statement _ _ ihfirst ihrest =>
      rw [List.forall_mem_append]
      exact ⟨ihfirst hformed.1, ihrest hformed.2⟩
  | unclosed _ _ _ ihfirst ihrest =>
      rw [List.forall_mem_append]
      exact ⟨ihfirst hformed.1.2, ihrest hformed.2⟩

end Frontend
