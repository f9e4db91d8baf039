import Frontend.Dump
import Frontend.Text.Quoted
import Frontend.Tree.Basic

/-!
# Trees as dumps

Every part of a tree is dumped as the record of its fields, under the name of its kind.
-/

namespace Frontend

/-- A text as an atom, in quotes: the `Debug` form of a string. -/
def Dump.text (text : String) : Dump := .atom (Quoted.text text)

/-- A truth value as an atom. -/
def Dump.bool (value : Bool) : Dump := .atom (if value then "true" else "false")

/-- The `Debug` form of `Span`, with the names of its fields. -/
def Span.dump (span : Span) : Dump :=
  .record "Span"
    [("start", .atom (Numeral.ofNat span.start)), ("end", .atom (Numeral.ofNat span.stop))]

/-- The `Debug` form of `Identifier`. -/
def Identifier.dump (identifier : Identifier) : Dump :=
  .record "Identifier" [("name", .text identifier.name), ("span", identifier.span.dump)]

/-- Names in order, the parameters of a function. -/
def dumpIdentifiers (identifiers : List Identifier) : Dump :=
  .list (identifiers.map Identifier.dump)

/-- A place and what stands there, the `Debug` form of `Expression` around that of its
`ExpressionKind`. -/
def dumpExpression (span : Span) (tag : String) (value : Dump) : Dump :=
  .record "Expression" [("span", span.dump), ("kind", .tuple tag [value])]

mutual

/-- The `Debug` form of `Expression`.  A variant is a named tuple around the record that it holds,
and `Literal` stands in between for integers, strings and truth values. -/
def Expression.dump : Expression → Dump
  | .identifier span identifier => dumpExpression span "Identifier" identifier.dump
  | .integer span value =>
      dumpExpression span "Literal" (.tuple "Integer" [.atom (Numeral.ofInt value)])
  | .string span text => dumpExpression span "Literal" (.tuple "String" [.text text])
  | .boolean span value => dumpExpression span "Literal" (.tuple "Boolean" [.bool value])
  | .array span elements =>
      dumpExpression span "Array"
        (.record "ArrayLiteral" [("elements", .list (dumpExpressions elements))])
  | .object span properties =>
      dumpExpression span "Object"
        (.record "ObjectLiteral" [("properties", .list (dumpProperties properties))])
  | .unary span operator operand =>
      dumpExpression span "Prefix"
        (.record "PrefixExpression"
          [("operator", .atom operator.dumpName), ("right", operand.dump)])
  | .binary span left operator right =>
      dumpExpression span "Infix"
        (.record "InfixExpression"
          [("left", left.dump), ("operator", .atom operator.dumpName), ("right", right.dump)])
  | .conditional span condition consequence alternative =>
      dumpExpression span "If"
        (.record "IfExpression"
          [("condition", condition.dump), ("consequence", consequence.dump),
            ("alternative", dumpAlternative alternative)])
  | .function span parameters body =>
      dumpExpression span "Function"
        (.record "FunctionExpression"
          [("parameters", dumpIdentifiers parameters), ("body", body.dump)])
  | .call span callee arguments =>
      dumpExpression span "Call"
        (.record "CallExpression"
          [("callee", callee.dump), ("arguments", .list (dumpExpressions arguments))])
  termination_by structural expression => expression

def dumpExpressions : List Expression → List Dump
  | [] => []
  | expression :: expressions => expression.dump :: dumpExpressions expressions
  termination_by structural expressions => expressions

/-- The branch after `else`, as a value that may be missing. -/
def dumpAlternative : Option Block → Dump
  | none => .optional none
  | some block => .optional (some block.dump)
  termination_by structural alternative => alternative

/-- The value that a name is bound to, as a value that may be missing. -/
def dumpValue : Option Expression → Dump
  | none => .optional none
  | some value => .optional (some value.dump)
  termination_by structural value => value

/-- The `Debug` form of `Property`. -/
def Property.dump : Property → Dump
  | ⟨key, value, span⟩ =>
      .record "Property" [("key", key.dump), ("value", value.dump), ("span", span.dump)]
  termination_by structural property => property

def dumpProperties : List Property → List Dump
  | [] => []
  | property :: properties => property.dump :: dumpProperties properties
  termination_by structural properties => properties

/-- The `Debug` form of `Block`. -/
def Block.dump : Block → Dump
  | ⟨statements, span⟩ =>
      .record "Block" [("statements", .list (dumpStatements statements)), ("span", span.dump)]
  termination_by structural block => block

/-- The `Debug` form of `Statement`, a named tuple around the record of its kind. -/
def Statement.dump : Statement → Dump
  | .binding constant identifier value span =>
      .tuple "Variable"
        [.record "VariableDeclaration"
          [("constant", .bool constant), ("identifier", identifier.dump),
            ("value", dumpValue value), ("span", span.dump)]]
  | .function identifier parameters body span =>
      .tuple "Function"
        [.record "FunctionDeclaration"
          [("identifier", identifier.dump), ("parameters", dumpIdentifiers parameters),
            ("body", body.dump), ("span", span.dump)]]
  | .returned value span =>
      .tuple "Return" [.record "ReturnStatement" [("value", value.dump), ("span", span.dump)]]
  | .expression expression span =>
      .tuple "Expression"
        [.record "ExpressionStatement" [("expression", expression.dump), ("span", span.dump)]]
  | .block body => .tuple "Block" [body.dump]
  termination_by structural statement => statement

def dumpStatements : List Statement → List Dump
  | [] => []
  | statement :: statements => statement.dump :: dumpStatements statements
  termination_by structural statements => statements

end

/-- The `Debug` form of `Program`, which `ast` prints with an item per line unless another format is
asked for. -/
def Program.dump (program : Program) : Dump :=
  .record "Program"
    [("statements", .list (dumpStatements program.statements)), ("span", program.span.dump)]

end Frontend
