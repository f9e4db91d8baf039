import Frontend.Proofs.Tree.Phrases
import Frontend.Tree.Canonical

/-!
# The words of canonical texts

The canonical text of a tree is made of words of its own: unlike a spelling it has parentheses
around operands, and what may be left out or added is settled.
-/

namespace Frontend

/-- Words in order with a comma between neighbours, as members stand in canonical text. -/
def separated : List (List Word) → List Word
  | [] => []
  | [words] => words
  | words :: next :: rest => words ++ Kind.comma.word :: separated (next :: rest)

/-- The words of names between parentheses. -/
def canonicalWordsOfParameters (names : List Identifier) : List Word :=
  Kind.lParen.word :: (separated (names.map fun name => [name.word]) ++ [Kind.rParen.word])

mutual

/-- The words of the canonical text, with parentheses around each operator and its operands.  They
are given along the tree, so that induction on it reaches them. -/
def Expression.canonicalWords : Expression → List Word
  | .identifier _ identifier => [identifier.word]
  | .integer _ value => [⟨.int, Numeral.ofInt value⟩]
  | .string _ text => [⟨.string, text⟩]
  | .boolean _ value => [(booleanKind value).word]
  | .array _ elements =>
      Kind.lBracket.word ::
        (separated (canonicalWordsOfExpressions elements) ++ [Kind.rBracket.word])
  | .object _ properties =>
      Kind.lBrace.word :: (separated (canonicalWordsOfProperties properties) ++ [Kind.rBrace.word])
  | .unary _ operator operand =>
      Kind.lParen.word :: operator.kind.word :: (operand.canonicalWords ++ [Kind.rParen.word])
  | .binary _ left operator right =>
      Kind.lParen.word :: (left.canonicalWords ++
        operator.kind.word :: (right.canonicalWords ++ [Kind.rParen.word]))
  | .conditional _ condition consequence alternative =>
      Kind.kwIf.word :: Kind.lParen.word :: (condition.canonicalWords ++
        Kind.rParen.word :: (consequence.canonicalWords ++ canonicalWordsOfAlternative alternative))
  | .function _ parameters body =>
      Kind.kwFunction.word :: (canonicalWordsOfParameters parameters ++ body.canonicalWords)
  | .call _ callee arguments =>
      callee.canonicalWords ++ Kind.lParen.word ::
        (separated (canonicalWordsOfExpressions arguments) ++ [Kind.rParen.word])
  termination_by structural expression => expression

def canonicalWordsOfExpressions : List Expression → List (List Word)
  | [] => []
  | expression :: expressions =>
      expression.canonicalWords :: canonicalWordsOfExpressions expressions
  termination_by structural expressions => expressions

def canonicalWordsOfAlternative : Option Block → List Word
  | none => []
  | some block => Kind.kwElse.word :: block.canonicalWords
  termination_by structural alternative => alternative

def canonicalWordsOfValue : Option Expression → List Word
  | none => []
  | some value => Kind.assign.word :: value.canonicalWords
  termination_by structural value => value

def Property.canonicalWords : Property → List Word
  | ⟨key, value, _⟩ => key.word :: Kind.colon.word :: value.canonicalWords
  termination_by structural property => property

def canonicalWordsOfProperties : List Property → List (List Word)
  | [] => []
  | property :: properties => property.canonicalWords :: canonicalWordsOfProperties properties
  termination_by structural properties => properties

def Block.canonicalWords : Block → List Word
  | ⟨statements, _⟩ =>
      Kind.lBrace.word :: ((canonicalWordsOfStatements statements).flatten ++ [Kind.rBrace.word])
  termination_by structural block => block

def Statement.canonicalWords : Statement → List Word
  | .binding constant identifier value _ =>
      (bindingKind constant).word :: identifier.word ::
        (canonicalWordsOfValue value ++ [Kind.semicolon.word])
  | .function identifier parameters body _ =>
      Kind.kwFunction.word :: identifier.word ::
        (canonicalWordsOfParameters parameters ++ body.canonicalWords)
  | .returned value _ => Kind.kwReturn.word :: (value.canonicalWords ++ [Kind.semicolon.word])
  | .expression expression _ => expression.canonicalWords ++ [Kind.semicolon.word]
  | .block body => body.canonicalWords
  termination_by structural statement => statement

def canonicalWordsOfStatements : List Statement → List (List Word)
  | [] => []
  | statement :: statements => statement.canonicalWords :: canonicalWordsOfStatements statements
  termination_by structural statements => statements

end

/-! ## Lists -/

section

variable (f : Span → Span)

theorem mapSpansOfExpressions_eq_map (expressions : List Expression) :
    mapSpansOfExpressions f expressions = expressions.map (Expression.mapSpans f) := by
  induction expressions with
  | nil => rfl
  | cons expression expressions ih => rw [mapSpansOfExpressions, ih, List.map_cons]

theorem mapSpansOfProperties_eq_map (properties : List Property) :
    mapSpansOfProperties f properties = properties.map (Property.mapSpans f) := by
  induction properties with
  | nil => rfl
  | cons property properties ih => rw [mapSpansOfProperties, ih, List.map_cons]

theorem canonicalExpressions_eq_map (expressions : List Expression) :
    canonicalExpressions expressions = expressions.map Expression.canonical := by
  induction expressions with
  | nil => rfl
  | cons expression expressions ih => rw [canonicalExpressions, ih, List.map_cons]

theorem canonicalProperties_eq_map (properties : List Property) :
    canonicalProperties properties = properties.map Property.canonical := by
  induction properties with
  | nil => rfl
  | cons property properties ih => rw [canonicalProperties, ih, List.map_cons]

theorem canonicalStatements_eq_map (statements : List Statement) :
    canonicalStatements statements = statements.map Statement.canonical := by
  induction statements with
  | nil => rfl
  | cons statement statements ih => rw [canonicalStatements, ih, List.map_cons]

theorem canonicalWordsOfExpressions_eq_map (expressions : List Expression) :
    canonicalWordsOfExpressions expressions = expressions.map Expression.canonicalWords := by
  induction expressions with
  | nil => rfl
  | cons expression expressions ih => rw [canonicalWordsOfExpressions, ih, List.map_cons]

theorem canonicalWordsOfProperties_eq_map (properties : List Property) :
    canonicalWordsOfProperties properties = properties.map Property.canonicalWords := by
  induction properties with
  | nil => rfl
  | cons property properties ih => rw [canonicalWordsOfProperties, ih, List.map_cons]

theorem canonicalWordsOfStatements_eq_map (statements : List Statement) :
    canonicalWordsOfStatements statements = statements.map Statement.canonicalWords := by
  induction statements with
  | nil => rfl
  | cons statement statements ih => rw [canonicalWordsOfStatements, ih, List.map_cons]

end

/-! ## Spans -/

namespace Phrase

/-- The phrase with every span changed. -/
@[simp]
def mapSpans (f : Span → Span) : Phrase → Phrase
  | .expression value => .expression (value.mapSpans f)
  | .items values => .items (mapSpansOfExpressions f values)
  | .property entry => .property (entry.mapSpans f)
  | .properties entries => .properties (mapSpansOfProperties f entries)
  | .parameters names => .parameters (names.map (Identifier.mapSpan f))
  | .block body => .block (body.mapSpans f)
  | .statement read => .statement (read.mapSpans f)
  | .statements row => .statements (mapSpansOfStatements f row)

/-- The canonical texts of the members of a phrase. -/
@[simp]
def texts : Phrase → List String
  | .expression value => [value.canonical]
  | .items values => canonicalExpressions values
  | .property entry => [entry.canonical]
  | .properties entries => canonicalProperties entries
  | .parameters names => names.map Identifier.name
  | .block body => [body.canonical]
  | .statement read => [read.canonical]
  | .statements row => canonicalStatements row

/-- The canonical words of a phrase, with commas between the members of items and entries. -/
@[simp]
def canonicalWords : Phrase → List Word
  | .expression value => value.canonicalWords
  | .items values => separated (canonicalWordsOfExpressions values)
  | .property entry => entry.canonicalWords
  | .properties entries => separated (canonicalWordsOfProperties entries)
  | .parameters names => canonicalWordsOfParameters names
  | .block body => body.canonicalWords
  | .statement read => read.canonicalWords
  | .statements row => (canonicalWordsOfStatements row).flatten

end Phrase

theorem names_mapSpan (f : Span → Span) (names : List Identifier) :
    (names.map (Identifier.mapSpan f)).map Identifier.name = names.map Identifier.name := by
  rw [List.map_map]
  rfl

theorem canonicalParameters_mapSpan (f : Span → Span) (names : List Identifier) :
    canonicalParameters (names.map (Identifier.mapSpan f)) = canonicalParameters names := by
  rw [canonicalParameters, names_mapSpan, canonicalParameters]

/-- Spans leave no trace in the canonical text. -/
theorem Phrase.texts_mapSpans_steps (f : Span → Span) :
    Steps fun phrase => (phrase.mapSpans f).texts = phrase.texts where
  identifier span name := rfl
  integer span value := rfl
  string span text := rfl
  boolean span value := rfl
  array span elements ih := by simp_all [Expression.canonical]
  object span entries ih := by simp_all [Expression.canonical]
  unary span operator operand ih := by simp_all [Expression.canonical]
  binary span left operator right ihleft ihright := by simp_all [Expression.canonical]
  conditional span condition consequence ihcondition ihconsequence := by
    simp_all [Expression.canonical, canonicalAlternative]
  alternative span condition consequence alternative ihcondition ihconsequence ihalternative := by
    simp_all [Expression.canonical, canonicalAlternative]
  function span names body ihnames ihbody := by
    simp_all [Expression.canonical, canonicalParameters_mapSpan]
  call span callee arguments ihcallee iharguments := by simp_all [Expression.canonical]
  items values ih := by simp_all [canonicalExpressions_eq_map, mapSpansOfExpressions_eq_map]
  property key value span ih := by simp_all [Property.canonical, Identifier.mapSpan]
  properties entries ih := by simp_all [canonicalProperties_eq_map, mapSpansOfProperties_eq_map]
  parameters names := names_mapSpan f names
  block row span ih := by simp_all [Block.canonical]
  bindingWithoutValue constant name span := rfl
  binding constant name value span ih := by
    simp_all [Statement.canonical, canonicalValue, Identifier.mapSpan]
  namedFunction name names body span ihnames ihbody := by
    simp_all [Statement.canonical, canonicalParameters_mapSpan, Identifier.mapSpan]
  returned value span ih := by simp_all [Statement.canonical]
  expression value span ih := by simp_all [Statement.canonical]
  bareBlock body ih := by simp_all [Statement.canonical]
  statements row ih := by simp_all [canonicalStatements_eq_map, mapSpansOfStatements_eq_map]

theorem Statement.canonical_mapSpans (f : Span → Span) (read : Statement) :
    (read.mapSpans f).canonical = read.canonical :=
  (List.cons.inj ((Phrase.texts_mapSpans_steps f).all (.statement read))).1

/-- Trees that are equal up to spans have the same canonical text.  That is the easy half of telling
programs by their texts. -/
theorem Program.canonical_of_same {program program' : Program}
    (hsame : SameUpToSpans program.statements program'.statements) :
    program.canonical = program'.canonical := by
  have herased (row : List Statement) :
      row.map Statement.canonical =
        (row.map (Statement.mapSpans nowhere)).map Statement.canonical := by
    simp only [List.map_map, Function.comp_def, Statement.canonical_mapSpans]
  have htexts := congrArg (List.map Statement.canonical) hsame
  rw [← herased, ← herased] at htexts
  have hlines := congrArg (List.map (· ++ "\n")) htexts
  rw [List.map_map, List.map_map] at hlines
  exact congrArg (joined "") hlines

end Frontend
