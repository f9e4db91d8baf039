import Frontend.Tree.Operator

/-!
# Syntax trees

A program is a list of statements, and every part of it knows the span it was read from.  The types
admit more trees than any text has: statements that are bare blocks, constants without a value,
integers of any size and texts of any shape.  Trees can therefore be put together by hand and
written out like those that were read.
-/

namespace Frontend

/-- A name where it stands, an `Identifier`: in an expression, as a key or a parameter, or where a
statement introduces it. -/
structure Identifier where
  name : String
  span : Span
  deriving DecidableEq

mutual

/-- A part of a program that has a value, an `Expression` with its `ExpressionKind`; each kind of
`Literal` has a constructor of its own.  A string keeps the quotes it was written with. -/
inductive Expression where
  | identifier (span : Span) (identifier : Identifier)
  | integer (span : Span) (value : Int)
  | string (span : Span) (text : String)
  | boolean (span : Span) (value : Bool)
  | array (span : Span) (elements : List Expression)
  | object (span : Span) (properties : List Property)
  | unary (span : Span) (operator : UnaryOperator) (operand : Expression)
  | binary (span : Span) (left : Expression) (operator : BinaryOperator) (right : Expression)
  | conditional (span : Span) (condition : Expression) (consequence : Block)
      (alternative : Option Block)
  | function (span : Span) (parameters : List Identifier) (body : Block)
  | call (span : Span) (callee : Expression) (arguments : List Expression)

/-- One entry of an object, a `Property`.  A key that stands alone has its own name as its value. -/
structure Property where
  key : Identifier
  value : Expression
  span : Span

/-- Statements between braces, a `Block`, with a span that takes in both of the braces. -/
structure Block where
  statements : List Statement
  span : Span

/-- A step of a program, a `Statement` with the record of its kind.  A binding is a
`VariableDeclaration`, a `let` or, if it is constant, a `const`. -/
inductive Statement where
  | binding (constant : Bool) (identifier : Identifier) (value : Option Expression) (span : Span)
  | function (identifier : Identifier) (parameters : List Identifier) (body : Block) (span : Span)
  | returned (value : Expression) (span : Span)
  | expression (expression : Expression) (span : Span)
  | block (body : Block)

end

/-- The statements of a whole text, a `Program`, with a span over the whole text. -/
structure Program where
  statements : List Statement
  span : Span

namespace Expression

/-- Where an expression was read, the field `span` of `Expression`. -/
def span : Expression → Span
  | identifier span _ => span
  | integer span _ => span
  | string span _ => span
  | boolean span _ => span
  | array span _ => span
  | object span _ => span
  | unary span _ _ => span
  | binary span _ _ _ => span
  | conditional span _ _ _ => span
  | function span _ _ => span
  | call span _ _ => span

end Expression

namespace Statement

/-- Where a statement was read, `span` of `Statement`; a bare block has the span of the block. -/
def span : Statement → Span
  | binding _ _ _ span => span
  | function _ _ _ span => span
  | returned _ span => span
  | expression _ span => span
  | block body => body.span

end Statement

end Frontend
