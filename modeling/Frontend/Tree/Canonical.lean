import Frontend.Text.Layout
import Frontend.Text.Numeral
import Frontend.Tree.Basic

/-!
# The canonical text of a tree

A tree is written back as source in one fixed layout.  Every unary and every binary expression is
put in parentheses, so the text shows how the operands were grouped whatever their precedence.
-/

namespace Frontend

/-- Names between parentheses, which `Display` writes by `write_separated` after the name of a
function or after its keyword. -/
def canonicalParameters (parameters : List Identifier) : String :=
  "(" ++ joined ", " (parameters.map Identifier.name) ++ ")"

/-- Statements between braces, the `Display` form of `Block`; an empty block is one blank wide. -/
def canonicalBraces : List String → String
  | [] => "\x7b \x7d"
  | statements => "\x7b " ++ joined " " statements ++ " \x7d"

mutual

/-- The `Display` form of `Expression`.  Only the operators are put in parentheses: a call, a
conditional or a function is told from its surroundings by its own words. -/
def Expression.canonical : Expression → String
  | .identifier _ identifier => identifier.name
  | .integer _ value => Numeral.ofInt value
  | .string _ text => text
  | .boolean _ value => if value then "true" else "false"
  | .array _ elements => "[" ++ joined ", " (canonicalExpressions elements) ++ "]"
  | .object _ properties => "\x7b" ++ joined ", " (canonicalProperties properties) ++ "\x7d"
  | .unary _ operator operand => "(" ++ operator.symbol ++ operand.canonical ++ ")"
  | .binary _ left operator right =>
      "(" ++ left.canonical ++ " " ++ operator.symbol ++ " " ++ right.canonical ++ ")"
  | .conditional _ condition consequence alternative =>
      "if (" ++ condition.canonical ++ ") " ++ consequence.canonical ++
        canonicalAlternative alternative
  | .function _ parameters body =>
      "function" ++ canonicalParameters parameters ++ " " ++ body.canonical
  | .call _ callee arguments =>
      callee.canonical ++ "(" ++ joined ", " (canonicalExpressions arguments) ++ ")"
  termination_by structural expression => expression

def canonicalExpressions : List Expression → List String
  | [] => []
  | expression :: expressions => expression.canonical :: canonicalExpressions expressions
  termination_by structural expressions => expressions

/-- The branch after `else`, if a conditional has one. -/
def canonicalAlternative : Option Block → String
  | none => ""
  | some block => " else " ++ block.canonical
  termination_by structural alternative => alternative

/-- The value that a name is bound to, if it has one. -/
def canonicalValue : Option Expression → String
  | none => ""
  | some value => " = " ++ value.canonical
  termination_by structural value => value

/-- The `Display` form of `Property`.  The key is always written with its value, also where it stood
alone. -/
def Property.canonical : Property → String
  | ⟨key, value, _⟩ => key.name ++ ": " ++ value.canonical
  termination_by structural property => property

def canonicalProperties : List Property → List String
  | [] => []
  | property :: properties => property.canonical :: canonicalProperties properties
  termination_by structural properties => properties

/-- The `Display` form of `Block`, on one line. -/
def Block.canonical : Block → String
  | ⟨statements, _⟩ => canonicalBraces (canonicalStatements statements)
  termination_by structural block => block

/-- The `Display` form of `Statement`.  An expression always has its semicolon, also where it was
read without one. -/
def Statement.canonical : Statement → String
  | .binding constant identifier value _ =>
      (if constant then "const " else "let ") ++ identifier.name ++ canonicalValue value ++ ";"
  | .function identifier parameters body _ =>
      "function " ++ identifier.name ++ canonicalParameters parameters ++ " " ++ body.canonical
  | .returned value _ => "return " ++ value.canonical ++ ";"
  | .expression expression _ => expression.canonical ++ ";"
  | .block body => body.canonical
  termination_by structural statement => statement

def canonicalStatements : List Statement → List String
  | [] => []
  | statement :: statements => statement.canonical :: canonicalStatements statements
  termination_by structural statements => statements

end

/-- The `Display` form of `Program`, with each statement on a line of its own. -/
def Program.canonical (program : Program) : String :=
  joined "" (program.statements.map fun statement => statement.canonical ++ "\n")

end Frontend
