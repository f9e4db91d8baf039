import Frontend.Tree.Basic

/-!
# Trees up to their spans

A tree says what was read and, by its spans, where.  `mapSpans` changes every span of a tree and
nothing else; with all spans made the same, only what was read is left, so two trees are equal up
to spans if they are equal without them.
-/

namespace Frontend

def Identifier.mapSpan (f : Span → Span) (identifier : Identifier) : Identifier :=
  ⟨identifier.name, f identifier.span⟩

mutual

/-- The tree with every span changed, and with the same names, numbers and strings. -/
def Expression.mapSpans (f : Span → Span) : Expression → Expression
  | .identifier span identifier => .identifier (f span) (identifier.mapSpan f)
  | .integer span value => .integer (f span) value
  | .string span text => .string (f span) text
  | .boolean span value => .boolean (f span) value
  | .array span elements => .array (f span) (mapSpansOfExpressions f elements)
  | .object span properties => .object (f span) (mapSpansOfProperties f properties)
  | .unary span operator operand => .unary (f span) operator (operand.mapSpans f)
  | .binary span left operator right =>
      .binary (f span) (left.mapSpans f) operator (right.mapSpans f)
  | .conditional span condition consequence alternative =>
      .conditional (f span) (condition.mapSpans f) (consequence.mapSpans f)
        (mapSpansOfAlternative f alternative)
  | .function span parameters body =>
      .function (f span) (parameters.map (Identifier.mapSpan f)) (body.mapSpans f)
  | .call span callee arguments =>
      .call (f span) (callee.mapSpans f) (mapSpansOfExpressions f arguments)
  termination_by structural expression => expression

def mapSpansOfExpressions (f : Span → Span) : List Expression → List Expression
  | [] => []
  | expression :: expressions => expression.mapSpans f :: mapSpansOfExpressions f expressions
  termination_by structural expressions => expressions

def mapSpansOfAlternative (f : Span → Span) : Option Block → Option Block
  | none => none
  | some block => some (block.mapSpans f)
  termination_by structural alternative => alternative

def mapSpansOfValue (f : Span → Span) : Option Expression → Option Expression
  | none => none
  | some value => some (value.mapSpans f)
  termination_by structural value => value

def Property.mapSpans (f : Span → Span) : Property → Property
  | ⟨key, value, span⟩ => ⟨key.mapSpan f, value.mapSpans f, f span⟩
  termination_by structural property => property

def mapSpansOfProperties (f : Span → Span) : List Property → List Property
  | [] => []
  | property :: properties => property.mapSpans f :: mapSpansOfProperties f properties
  termination_by structural properties => properties

def Block.mapSpans (f : Span → Span) : Block → Block
  | ⟨statements, span⟩ => ⟨mapSpansOfStatements f statements, f span⟩
  termination_by structural block => block

def Statement.mapSpans (f : Span → Span) : Statement → Statement
  | .binding constant identifier value span =>
      .binding constant (identifier.mapSpan f) (mapSpansOfValue f value) (f span)
  | .function identifier parameters body span =>
      .function (identifier.mapSpan f) (parameters.map (Identifier.mapSpan f)) (body.mapSpans f)
        (f span)
  | .returned value span => .returned (value.mapSpans f) (f span)
  | .expression expression span => .expression (expression.mapSpans f) (f span)
  | .block body => .block (body.mapSpans f)
  termination_by structural statement => statement

def mapSpansOfStatements (f : Span → Span) : List Statement → List Statement
  | [] => []
  | statement :: statements => statement.mapSpans f :: mapSpansOfStatements f statements
  termination_by structural statements => statements

end

attribute [simp] Expression.mapSpans mapSpansOfExpressions mapSpansOfAlternative mapSpansOfValue
  Property.mapSpans mapSpansOfProperties Block.mapSpans Statement.mapSpans mapSpansOfStatements

theorem Expression.span_mapSpans (f : Span → Span) (expression : Expression) :
    (expression.mapSpans f).span = f expression.span := by
  cases expression <;> rfl

theorem mapSpansOfStatements_eq_map (f : Span → Span) (statements : List Statement) :
    mapSpansOfStatements f statements = statements.map (Statement.mapSpans f) := by
  induction statements with
  | nil => rfl
  | cons statement statements ih => rw [mapSpansOfStatements, ih, List.map_cons]

/-- Forgets where a part of a tree was read.  Trees are the same up to spans if they are equal after
that. -/
def nowhere (_ : Span) : Span := .empty 0

/-- The same statements, read wherever: what is left of a program if only its spans are
forgotten. -/
def SameUpToSpans (left right : List Statement) : Prop :=
  left.map (Statement.mapSpans nowhere) = right.map (Statement.mapSpans nowhere)

end Frontend
