import Frontend.Json
import Frontend.Tree.Basic

/-!
# Trees and tokens as JSON

Every part of a tree becomes an object with its fields in a fixed order, and every kind of
statement or expression is named by the one member of an object around it.  Spans are written out,
so nothing of a tree is lost.
-/

namespace Frontend

/-- The `Serialize` form of `Span`, with the names of its fields. -/
def Span.json (span : Span) : Json :=
  .object [("start", .nat span.start), ("end", .nat span.stop)]

/-- The `Serialize` form of `Token`, in which the kind is the name in capitals. -/
def Token.json (token : Token) : Json :=
  .object [("kind", .string token.kind.name), ("literal", .string token.literal),
    ("span", token.span.json)]

/-- The `Serialize` form of `Identifier`. -/
def Identifier.json (identifier : Identifier) : Json :=
  .object [("name", .string identifier.name), ("span", identifier.span.json)]

/-- Names in order, the parameters of a function. -/
def jsonIdentifiers (identifiers : List Identifier) : Json :=
  .array (identifiers.map Identifier.json)

/-- A value under the name of its kind, which is how a variant with a record is serialized: as the
one member of an object. -/
def Json.tagged (tag : String) (value : Json) : Json := .object [(tag, value)]

/-- A place and what stands there, the `Serialize` form of `Expression` around that of its
`ExpressionKind`. -/
def jsonExpression (span : Span) (tag : String) (value : Json) : Json :=
  .object [("span", span.json), ("kind", .tagged tag value)]

mutual

/-- The `Serialize` form of `Expression`.  The variants are named in snake case, and those of
`Literal` once more inside. -/
def Expression.json : Expression → Json
  | .identifier span identifier => jsonExpression span "identifier" identifier.json
  | .integer span value => jsonExpression span "literal" (.tagged "integer" (.number value))
  | .string span text => jsonExpression span "literal" (.tagged "string" (.string text))
  | .boolean span value => jsonExpression span "literal" (.tagged "boolean" (.bool value))
  | .array span elements =>
      jsonExpression span "array" (.object [("elements", .array (jsonExpressions elements))])
  | .object span properties =>
      jsonExpression span "object" (.object [("properties", .array (jsonProperties properties))])
  | .unary span operator operand =>
      jsonExpression span "prefix"
        (.object [("operator", .string operator.symbol), ("right", operand.json)])
  | .binary span left operator right =>
      jsonExpression span "infix"
        (.object [("left", left.json), ("operator", .string operator.symbol),
          ("right", right.json)])
  | .conditional span condition consequence alternative =>
      jsonExpression span "if"
        (.object [("condition", condition.json), ("consequence", consequence.json),
          ("alternative", jsonAlternative alternative)])
  | .function span parameters body =>
      jsonExpression span "function"
        (.object [("parameters", jsonIdentifiers parameters), ("body", body.json)])
  | .call span callee arguments =>
      jsonExpression span "call"
        (.object [("callee", callee.json), ("arguments", .array (jsonExpressions arguments))])
  termination_by structural expression => expression

def jsonExpressions : List Expression → List Json
  | [] => []
  | expression :: expressions => expression.json :: jsonExpressions expressions
  termination_by structural expressions => expressions

/-- The branch after `else`, or null if a conditional has none. -/
def jsonAlternative : Option Block → Json
  | none => .null
  | some block => block.json
  termination_by structural alternative => alternative

/-- The value that a name is bound to, or null if it has none. -/
def jsonValue : Option Expression → Json
  | none => .null
  | some value => value.json
  termination_by structural value => value

/-- The `Serialize` form of `Property`; the value of a key that stands alone is written out. -/
def Property.json : Property → Json
  | ⟨key, value, span⟩ => .object [("key", key.json), ("value", value.json), ("span", span.json)]
  termination_by structural property => property

def jsonProperties : List Property → List Json
  | [] => []
  | property :: properties => property.json :: jsonProperties properties
  termination_by structural properties => properties

/-- The `Serialize` form of `Block`. -/
def Block.json : Block → Json
  | ⟨statements, span⟩ =>
      .object [("statements", .array (jsonStatements statements)), ("span", span.json)]
  termination_by structural block => block

/-- The `Serialize` form of `Statement`: the record of its kind under the name of the variant. -/
def Statement.json : Statement → Json
  | .binding constant identifier value span =>
      .tagged "variable"
        (.object [("constant", .bool constant), ("identifier", identifier.json),
          ("value", jsonValue value), ("span", span.json)])
  | .function identifier parameters body span =>
      .tagged "function"
        (.object [("identifier", identifier.json), ("parameters", jsonIdentifiers parameters),
          ("body", body.json), ("span", span.json)])
  | .returned value span =>
      .tagged "return" (.object [("value", value.json), ("span", span.json)])
  | .expression expression span =>
      .tagged "expression" (.object [("expression", expression.json), ("span", span.json)])
  | .block body => .tagged "block" body.json
  termination_by structural statement => statement

def jsonStatements : List Statement → List Json
  | [] => []
  | statement :: statements => statement.json :: jsonStatements statements
  termination_by structural statements => statements

end

/-- The `Serialize` form of `Program`, which `ast` prints in the format `json`. -/
def Program.json (program : Program) : Json :=
  .object [("statements", .array (jsonStatements program.statements)),
    ("span", program.span.json)]

end Frontend
